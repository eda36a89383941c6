import SelectorMangling.Proofs.FileTree.Bare

/-!
# What is written is read

A text that was written to a path is the text that is read from the path afterwards, whether the
file was there before or not.
-/

namespace SelectorMangling.FileTree

variable {tree : FileTree}

/-- What is put in the place of anything but a directory is found there. -/
theorem entryAt_set_of_ne_directory {location : Location}
    (hplace : tree.entryAt location ≠ some .directory) (entry : Entry) :
    (tree.set location entry).entryAt location = some entry := by
  apply tree.entryAt_set_self entry
  intro hroot
  rw [hroot] at hplace
  exact hplace rfl

theorem entryAt_set_of_some {location other : Location} (hvacant : tree.entryAt location = none)
    {stands : Entry} (hstands : tree.entryAt other = some stands) (entry : Entry) :
    (tree.set location entry).entryAt other = some stands := by
  rw [tree.entryAt_set_of_ne entry, hstands]
  intro heq
  rw [heq, hvacant] at hstands
  contradiction

/-- What is put at the vacant end of a way is found there, unless it is a link. -/
theorem Leads.set_vacant {followLast : Bool} {links : Nat} {directory location : Location}
    {steps : List String} {entry : Entry} (hentry : ∀ target, entry ≠ .link target)
    (hleads : tree.Leads followLast links directory steps (.vacant location)) :
    (tree.set location entry).Leads followLast links directory steps (.found location entry) := by
  have hvacant : tree.entryAt location = none := hleads.isAt
  have hlast : (tree.set location entry).entryAt location = some entry :=
    entryAt_set_of_ne_directory (by simp [hvacant]) _
  have hearlier : ∀ {other : Location} {stands : Entry}, tree.entryAt other = some stands →
      (tree.set location entry).entryAt other = some stands :=
    fun hstands => entryAt_set_of_some hvacant hstands entry
  -- Something stands wherever the way goes on, so up to the last step it is the same.
  generalize htarget : Target.vacant location = target at hleads
  induction hleads with
  | stay hstep _ ih => exact .stay hstep (ih htarget)
  | up _ ih => exact .up (ih htarget)
  | enter hstep hstands _ ih => exact .enter hstep (hearlier hstands) (ih htarget)
  | through hstep hgoes hstands _ ih => exact .through hstep hgoes (hearlier hstands) (ih htarget)
  | missing hstep _ =>
    obtain rfl := Target.vacant.inj htarget
    cases entry with
    | directory => exact .enter hstep hlast .arrived
    | file content => exact .file hstep hlast
    | link target => exact absurd rfl (hentry target)
  | arrived | file | link => contradiction

theorem resolve_true_of_vacant {path : Path} {location : Location}
    (hresolve : tree.resolve false path = .ok (.vacant location)) :
    tree.resolve true path = .ok (.vacant location) := by
  obtain ⟨hsome, hleads⟩ := resolve_eq_ok_iff_leads.mp hresolve
  exact resolve_eq_ok_iff_leads.mpr ⟨hsome, hleads.followed (by simp)⟩

theorem resolve_set_vacant {followLast : Bool} {path : Path} {location : Location} {entry : Entry}
    (hentry : ∀ target, entry ≠ .link target)
    (hresolve : tree.resolve followLast path = .ok (.vacant location)) :
    (tree.set location entry).resolve followLast path = .ok (.found location entry) := by
  obtain ⟨hsome, hleads⟩ := resolve_eq_ok_iff_leads.mp hresolve
  exact resolve_eq_ok_iff_leads.mpr ⟨hsome, hleads.set_vacant hentry⟩

/-- A path still leads to a file whose content is replaced. -/
theorem find_set_file {path : Path} {location : Location} {old : ByteArray}
    (hfind : tree.find path = .ok (location, .file old)) (content : ByteArray) :
    (tree.set location (.file content)).find path = .ok (location, .file content) := by
  have hold := entryAt_of_find hfind
  exact find_file_of_bare_eq (bare_set_file hold content).symm hfind
    (entryAt_set_of_ne_directory (by simp [hold]) _)

/-- Writing puts the content where the path leads to, which must be a file or a place for one.  A
path that is written like that of a directory is refused. -/
theorem writeBytes_eq_ok_iff {written : FileTree} {path : Path} {content : ByteArray} :
    tree.writeBytes path content = .ok written ↔
      path.text.toList.getLast? ≠ some '/' ∧
        ∃ location, (tree.resolve true path = .ok (.vacant location) ∨
          ∃ old, tree.find path = .ok (location, .file old)) ∧
          tree.set location (.file content) = written := by
  simp only [writeBytes, find_eq_ok_iff, beq_iff_eq]
  split
  · next hend =>
    cases hresolve : tree.resolve false (Path.ofComponents path.components) with
    | error fault => simp [hend, bind, Except.bind]
    | ok target => simp [hend, bind, Except.bind]
  · next hend =>
    cases hresolve : tree.resolve true path with
    | error fault => simp [bind, Except.bind]
    | ok target =>
      cases target with
      | vacant location => simp [hend, bind, Except.bind, pure, Except.pure]
      | found location entry =>
        cases entry <;> simp [hend, bind, Except.bind, pure, Except.pure]

/-- What was written to a path stands where the path leads to. -/
theorem find_writeBytes {written : FileTree} {path : Path} {content : ByteArray}
    (hwrite : tree.writeBytes path content = .ok written) :
    ∃ location, written.find path = .ok (location, .file content) := by
  obtain ⟨-, location, htarget, rfl⟩ := writeBytes_eq_ok_iff.mp hwrite
  cases htarget with
  | inl hvacant =>
    exact ⟨location, find_eq_ok_iff.mpr (resolve_set_vacant (by simp) hvacant)⟩
  | inr hfile =>
    obtain ⟨old, hfind⟩ := hfile
    exact ⟨location, find_set_file hfind content⟩

/-- Where a file stands already, writing replaces its content. -/
theorem writeBytes_of_find {written : FileTree} {path : Path} {location : Location}
    {old content : ByteArray} (hfind : tree.find path = .ok (location, .file old))
    (hwrite : tree.writeBytes path content = .ok written) :
    written = tree.set location (.file content) := by
  obtain ⟨hend, -⟩ := writeBytes_eq_ok_iff.mp hwrite
  have hsame : tree.writeBytes path content = .ok (tree.set location (.file content)) :=
    writeBytes_eq_ok_iff.mpr ⟨hend, location, .inr ⟨old, hfind⟩, rfl⟩
  exact Except.ok.inj (hwrite.symm.trans hsame)

theorem fromUTF8?_toUTF8 (text : String) : String.fromUTF8? text.toUTF8 = some text :=
  dif_pos text.isValidUTF8

/-- What is read is the text of a file. -/
theorem find_of_readText {path : Path} {text : String} (hread : tree.readText path = .ok text) :
    ∃ location content, tree.find path = .ok (location, .file content) ∧
      String.fromUTF8? content = some text := by
  unfold readText at hread
  cases hfind : tree.find path with
  | error fault => simp [hfind, bind, Except.bind] at hread
  | ok found =>
    obtain ⟨location, entry⟩ := found
    cases entry with
    | file content =>
      simp only [hfind, bind, Except.bind, pure, Except.pure] at hread
      split at hread
      · next decoded hdecoded =>
        cases hread
        exact ⟨location, content, rfl, hdecoded⟩
      · simp at hread
    | directory => simp [hfind, bind, Except.bind] at hread
    | link target => simp [hfind, bind, Except.bind] at hread

theorem readText_of_find {path : Path} {location : Location} {content : ByteArray} {text : String}
    (hfind : tree.find path = .ok (location, .file content))
    (htext : String.fromUTF8? content = some text) : tree.readText path = .ok text := by
  simp only [readText, hfind, bind, Except.bind, htext]
  rfl

theorem readText_writeText {written : FileTree} {path : Path} {text : String}
    (hwrite : tree.writeText path text = .ok written) :
    written.exists? path = true ∧ written.readText path = .ok text := by
  obtain ⟨location, hfind⟩ := find_writeBytes hwrite
  constructor
  · rw [exists?, hfind]
    rfl
  · exact readText_of_find hfind (fromUTF8?_toUTF8 text)

/-- Writing a text to a file leaves every path readable that was. -/
theorem exists_readText_set {location : Location} {old : ByteArray}
    (hfile : tree.entryAt location = some (.file old)) (text : String) {path : Path} {known : String}
    (hread : tree.readText path = .ok known) :
    ∃ found, (tree.set location (.file text.toUTF8)).readText path = .ok found := by
  obtain ⟨place, content, hfind, htext⟩ := find_of_readText hread
  obtain ⟨entry, hnew, hbare⟩ :=
    exists_find_of_bare_eq (bare_set_file hfile text.toUTF8).symm hfind
  obtain ⟨new, rfl⟩ := Entry.exists_file_of_bare hbare
  have hstands := entryAt_of_find hnew
  have hdecoded : ∃ found, String.fromUTF8? new = some found := by
    by_cases hplace : place = location
    · rw [hplace, entryAt_set_of_ne_directory (by simp [hfile])] at hstands
      obtain rfl := Entry.file.inj (Option.some.inj hstands)
      exact ⟨text, fromUTF8?_toUTF8 text⟩
    · rw [tree.entryAt_set_of_ne _ hplace, entryAt_of_find hfind] at hstands
      obtain rfl := Entry.file.inj (Option.some.inj hstands)
      exact ⟨known, htext⟩
  obtain ⟨found, hfound⟩ := hdecoded
  exact ⟨found, readText_of_find hnew hfound⟩

end SelectorMangling.FileTree
