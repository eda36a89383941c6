import SelectorMangling.Proofs.FileTree.Directories

/-!
# Paths without dots

A normal path is written with names only.  So dots and double dots occur neither among its components
nor among the steps that it is written with, and the path of the directory above is normal again.
-/

namespace SelectorMangling.Path

/-- An absolute path without dots and double dots, whether they would count or not. -/
structure IsDotless (path : Path) : Prop where
  isAbsolute : path.isAbsolute = true
  component_ne : ∀ component ∈ path.components, component ≠ .current ∧ component ≠ .parent
  step_ne : ∀ step ∈ path.steps, step ≠ "." ∧ step ≠ ".."

/-- A path that is written as the names on the way from the root. -/
def IsNormal (path : Path) : Prop :=
  ∃ names : List String, path = ofComponents (.root :: names.map .name) ∧
    ∀ name ∈ names, IsEntryName name

theorem isNormal_normalize {path : Path} (habsolute : path.isAbsolute = true) :
    path.normalize.IsNormal := by
  obtain ⟨names, hnormal, -, hnames⟩ := exists_denotes_normalize habsolute
  exact ⟨names, hnormal, hnames⟩

theorem mem_segments_child {base : Path} {name : String} (hname : IsEntryName name)
    {segment : List Char} (hsegment : segment ∈ segments (base.child name).text.toList) :
    segment ∈ segments base.text.toList ∨ segment = name.toList := by
  have hplain := segments_of_notMem hname.separator_notMem
  rw [child, join, if_neg (by simp [not_isAbsolute_of_isEntryName hname])] at hsegment
  split at hsegment
  · next hseparated =>
    rw [Bool.or_eq_true, String.isEmpty_iff, beq_iff_eq] at hseparated
    rcases hseparated with hempty | hend
    · right
      simpa [hempty, hplain] using hsegment
    · obtain ⟨front, hfront⟩ := List.getLast?_eq_some_iff.mp hend
      rw [String.toList_append, hfront, List.append_assoc, List.singleton_append, segments_append,
        hplain, List.mem_append, List.mem_singleton] at hsegment
      rw [hfront, segments_append]
      exact hsegment.imp_left (List.mem_append_left _)
  · rw [String.toList_append, String.toList_append, List.append_assoc] at hsegment
    change segment ∈ segments (base.text.toList ++ '/' :: name.toList) at hsegment
    rwa [segments_append, hplain, List.mem_append, List.mem_singleton] at hsegment

theorem mem_segments_foldl_child {base : Path} {names : List String}
    (hnames : ∀ name ∈ names, IsEntryName name) {segment : List Char}
    (hsegment : segment ∈ segments (names.foldl child base).text.toList) :
    segment ∈ segments base.text.toList ∨ ∃ name ∈ names, segment = name.toList := by
  induction names generalizing base with
  | nil => exact .inl hsegment
  | cons name rest ih =>
    obtain ⟨hname, hrest⟩ := List.forall_mem_cons.mp hnames
    rcases ih hrest hsegment with hfirst | ⟨other, hother, heq⟩
    · rcases mem_segments_child hname hfirst with hbase | heq
      · exact .inl hbase
      · exact .inr ⟨name, List.mem_cons_self, heq⟩
    · exact .inr ⟨other, List.mem_cons_of_mem _ hother, heq⟩

/-- A normal path is written with the names that it leads along, and with empty steps only where
separators stand at an end. -/
theorem step_of_mem_steps {names : List String} (hnames : ∀ name ∈ names, IsEntryName name)
    {step : String} (hstep : step ∈ (ofComponents (.root :: names.map .name)).steps) :
    step = "" ∨ step ∈ names := by
  rw [ofComponents_names, steps, List.mem_map] at hstep
  obtain ⟨segment, hsegment, rfl⟩ := hstep
  rcases mem_segments_foldl_child hnames hsegment with hroot | ⟨name, hname, rfl⟩
  · left
    have hblank : segment = [] := by simpa [segments] using hroot
    rw [hblank]
  · right
    rwa [String.ofList_toList]

namespace IsNormal

variable {path : Path}

theorem denotes (hnormal : path.IsNormal) : path.Denotes path.location := by
  obtain ⟨names, rfl, hnames⟩ := hnormal
  have hdenotes := denotes_ofComponents hnames
  rwa [hdenotes.location_eq]

theorem eq_ofComponents (hnormal : path.IsNormal) :
    path = ofComponents (.root :: path.location.map .name) := by
  obtain ⟨names, rfl, hnames⟩ := hnormal
  rw [(denotes_ofComponents hnames).location_eq]

theorem isDotless (hnormal : path.IsNormal) : path.IsDotless where
  isAbsolute := hnormal.denotes.isAbsolute
  component_ne := by
    intro component hcomponent
    rw [hnormal.denotes, List.mem_cons, List.mem_map] at hcomponent
    rcases hcomponent with rfl | ⟨name, -, rfl⟩
    · simp
    · simp
  step_ne := by
    obtain ⟨names, rfl, hnames⟩ := hnormal
    intro step hstep
    rcases step_of_mem_steps hnames hstep with rfl | hname
    · decide
    · exact ⟨(hnames step hname).ne_dot, (hnames step hname).ne_parent⟩

/-- The path of the directory above is the path that a name was put behind. -/
theorem parent?_eq (hnormal : path.IsNormal) {child : Path} {name : String}
    (hchild : child.Denotes (path.location ++ [name])) : child.parent? = some path := by
  rw [parent?_of_denotes hchild, ← hnormal.eq_ofComponents]

end IsNormal

end SelectorMangling.Path
