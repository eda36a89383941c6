import Mathlib.Tactic.ByContra
import SelectorMangling.Proofs.FileTree.Links
import SelectorMangling.Proofs.FileTree.Plain

/-!
# Entries below a directory that a path leads to

A path may lead to a directory through links and double dots.  Where a name is put behind such a path
it leads to the entry of the directory with this name.
-/

namespace SelectorMangling

namespace Path

/-- The steps of the path of an entry are those of the path of its directory and the name. -/
theorem exists_steps_child (directory : Path) {name : String} (hname : IsEntryName name) :
    ∃ front, (directory.child name).steps = front ++ [name] ∧
      (directory.steps = front ∨ directory.steps = front ++ [""]) := by
  have hplain := segments_of_notMem hname.separator_notMem
  rw [child, join, if_neg (by simp [not_isAbsolute_of_isEntryName hname])]
  split
  · next hseparated =>
    rw [Bool.or_eq_true, String.isEmpty_iff, beq_iff_eq] at hseparated
    rcases hseparated with hempty | hend
    · exact ⟨[], by simp [steps, hempty, hplain], .inr (by simp [steps, hempty, segments])⟩
    · obtain ⟨front, hfront⟩ := List.getLast?_eq_some_iff.mp hend
      refine ⟨(segments front).map String.ofList, ?_, .inr ?_⟩
      · rw [steps, String.toList_append, hfront, List.append_assoc, List.singleton_append,
          segments_append, hplain]
        simp
      · rw [steps, hfront, segments_append]
        simp [segments]
  · refine ⟨directory.steps, ?_, .inl rfl⟩
    rw [steps, String.toList_append, String.toList_append, List.append_assoc]
    change (segments (directory.text.toList ++ '/' :: name.toList)).map String.ofList = _
    rw [segments_append, hplain]
    simp [steps]

theorem isAbsolute_child (directory : Path) {name : String} (hname : IsEntryName name) :
    (directory.child name).isAbsolute = directory.isAbsolute :=
  isAbsolute_join_eq directory (not_isAbsolute_of_isEntryName hname)

theorem isEmpty_text_child (directory : Path) {name : String} (hname : IsEntryName name) :
    (directory.child name).text.isEmpty = false := by
  rw [Bool.eq_false_iff, ne_eq, String.isEmpty_iff]
  exact directory.text_child_ne_empty hname

end Path

namespace FileTree

variable {tree : FileTree} {location : Location}

/-- Steps are those in front, or they have an empty step behind these. -/
def Trims (front steps : List String) : Prop := steps = front ∨ steps = front ++ [""]

/-- A step that is not empty is the first one in front, too. -/
theorem Trims.exists_cons {step : String} {rest front : List String}
    (htrims : Trims front (step :: rest)) (hstep : step ≠ "") :
    ∃ behind, front = step :: behind ∧ Trims behind rest := by
  rcases htrims with rfl | heq
  · exact ⟨rest, rfl, .inl rfl⟩
  · cases front with
    | nil => exact absurd (List.cons.inj heq).1 hstep
    | cons first behind =>
      obtain ⟨rfl, hrest⟩ := List.cons.inj heq
      exact ⟨behind, rfl, .inr hrest⟩

theorem Trims.append {front steps : List String} (htrims : Trims front steps)
    (before : List String) : Trims (before ++ front) (before ++ steps) := by
  rcases htrims with rfl | rfl
  · exact .inl rfl
  · exact .inr (List.append_assoc _ _ _).symm

/-- Where steps lead to a directory, further steps go on from there, with some number of links left.
An empty step at the end does not matter. -/
theorem Leads.exists_append {links : Nat} {start : Location} {steps : List String}
    (hleads : tree.Leads true links start steps (.found location .directory)) :
    ∃ remaining, ∀ front, Trims front steps → ∀ followLast more, more ≠ [] →
      tree.follow followLast links start (front ++ more) =
        tree.follow followLast remaining location more := by
  generalize htarget : Target.found location .directory = target at hleads
  induction hleads with
  | @arrived links start =>
    obtain rfl : location = start := (Target.found.inj htarget).1
    refine ⟨links, fun front hfront _ _ _ => ?_⟩
    obtain rfl : front = [] := by simpa [Trims] using hfront
    rfl
  | @stay links start step rest _ hstep _ ih =>
    obtain ⟨remaining, hsame⟩ := ih htarget
    refine ⟨remaining, fun front hfront followLast more hmore => ?_⟩
    cases front with
    | nil =>
      obtain ⟨-, rfl⟩ : step = "" ∧ rest = [] := by simpa [Trims] using hfront
      exact hsame [] (.inl rfl) followLast more hmore
    | cons first behind =>
      obtain ⟨rfl, hbehind⟩ : step = first ∧ Trims behind rest := by
        simpa [Trims, and_or_left] using hfront
      rw [List.cons_append, follow, if_pos hstep, hsame behind hbehind followLast more hmore]
  | up _ ih =>
    obtain ⟨remaining, hsame⟩ := ih htarget
    refine ⟨remaining, fun front hfront followLast more hmore => ?_⟩
    obtain ⟨behind, rfl, hbehind⟩ := hfront.exists_cons (by decide)
    rw [List.cons_append, follow, if_neg (by decide), if_pos rfl,
      hsame behind hbehind followLast more hmore]
  | enter hstep hentry _ ih =>
    obtain ⟨remaining, hsame⟩ := ih htarget
    refine ⟨remaining, fun front hfront followLast more hmore => ?_⟩
    obtain ⟨behind, rfl, hbehind⟩ := hfront.exists_cons (mt .inl hstep.moves)
    rw [List.cons_append, follow, if_neg hstep.moves, if_neg hstep.not_parent]
    simp only [hentry]
    exact hsame behind hbehind followLast more hmore
  | through hstep _ hentry _ ih =>
    obtain ⟨remaining, hsame⟩ := ih htarget
    refine ⟨remaining, fun front hfront followLast more hmore => ?_⟩
    obtain ⟨behind, rfl, hbehind⟩ := hfront.exists_cons (mt .inl hstep.moves)
    have hgoesOn : (behind ++ more).isEmpty = false := by simp [hmore]
    have hon := hsame _ (hbehind.append _) followLast more hmore
    rw [List.append_assoc] at hon
    rw [List.cons_append, follow, if_neg hstep.moves, if_neg hstep.not_parent]
    simp only [hentry, hgoesOn, Bool.false_and, Bool.false_eq_true, if_false]
    exact hon
  | file => exact Entry.noConfusion (Target.found.inj htarget).2
  | missing => contradiction
  | link _ hlast => contradiction

section Child

variable {directory : Path} {name : String}
  (hdirectory : tree.find directory = .ok (location, .directory)) (hname : IsEntryName name)
include hdirectory hname

/-- The path of an entry leads to its directory first. -/
theorem exists_resolve_child : ∃ links, ∀ followLast,
    tree.resolve followLast (directory.child name) =
      tree.follow followLast links location [name] := by
  obtain ⟨hsome, hleads⟩ := resolve_eq_ok_iff_leads.mp (find_eq_ok_iff.mp hdirectory)
  obtain ⟨front, hsteps, htrims⟩ := directory.exists_steps_child hname
  obtain ⟨links, hsame⟩ := hleads.exists_append
  refine ⟨links, fun followLast => ?_⟩
  rw [resolve, directory.isEmpty_text_child hname, if_neg Bool.false_ne_true,
    Path.isAbsolute_child directory hname, hsteps]
  exact hsame front htrims followLast [name] (List.cons_ne_nil name [])

/-- An entry that is no link, or nothing, is where its path leads to. -/
theorem resolve_child (hlink : ∀ target, tree.entryAt (location ++ [name]) ≠ some (.link target))
    (followLast : Bool) :
    tree.resolve followLast (directory.child name) = .ok (tree.targetAt (location ++ [name])) := by
  obtain ⟨links, hresolve⟩ := exists_resolve_child hdirectory hname
  rw [hresolve]
  exact follow_last hlink (Path.isMove_of_isEntryName hname) hname.ne_parent

theorem find_child {entry : Entry} (hentry : tree.entryAt (location ++ [name]) = some entry)
    (hlink : ∀ target, entry ≠ .link target) :
    tree.find (directory.child name) = .ok (location ++ [name], entry) := by
  rw [find_eq_ok_iff, resolve_child hdirectory hname (by simpa [hentry] using hlink), targetAt,
    hentry]

theorem isLink_child_iff :
    tree.IsLink (directory.child name) ↔
      ∃ target, tree.entryAt (location ++ [name]) = some (.link target) := by
  constructor
  · rintro ⟨place, target, hfound⟩
    by_contra hnone
    rw [not_exists] at hnone
    rw [findLink, resolve_child hdirectory hname hnone, targetAt] at hfound
    cases hentry : tree.entryAt (location ++ [name]) with
    | none => simp [hentry, bind, Except.bind] at hfound
    | some entry =>
      simp only [hentry, bind, Except.bind, pure, Except.pure, Except.ok.injEq,
        Prod.mk.injEq] at hfound
      exact hnone target (hfound.2 ▸ hentry)
  · rintro ⟨target, hentry⟩
    obtain ⟨links, hresolve⟩ := exists_resolve_child hdirectory hname
    have hmove : ¬(name = "" ∨ name = ".") := not_or.mpr ⟨hname.ne_empty, hname.ne_dot⟩
    refine ⟨location ++ [name], target, findLink_of_resolve ?_⟩
    rw [hresolve, follow, if_neg hmove, if_neg hname.ne_parent]
    simp only [hentry, List.isEmpty_nil, Bool.not_false, Bool.and_self, if_true]

/-- Unless a link is there, a path leads to a file if there is one in the directory. -/
theorem isFile_child_iff (hlink : ¬tree.IsLink (directory.child name)) :
    tree.isFile (directory.child name) = true ↔
      ∃ content, tree.entryAt (location ++ [name]) = some (.file content) := by
  rw [isLink_child_iff hdirectory hname, not_exists] at hlink
  rw [isFile, find, resolve_child hdirectory hname hlink, targetAt]
  cases hentry : tree.entryAt (location ++ [name]) with
  | none => simp [bind, Except.bind]
  | some entry =>
    simp only [bind, Except.bind, pure, Except.pure]
    cases entry with
    | file content => simp [Entry.isFile]
    | directory => simp [Entry.isFile]
    | link target => exact absurd hentry (hlink target)

end Child

/-- What a walk reaches is where the names lead to from the root of the walk. -/
theorem find_foldl_child {directory : Path} {admits : String → Bool} {names : List String}
    (hdirectory : tree.find directory = .ok (location, .directory))
    (hnames : ∀ name ∈ names, IsEntryName name)
    (hreached : tree.isReached admits location names = true) :
    tree.find (names.foldl Path.child directory) = .ok (location ++ names, .directory) := by
  induction names generalizing directory location with
  | nil => simpa using hdirectory
  | cons name rest ih =>
    obtain ⟨hname, hrest⟩ := List.forall_mem_cons.mp hnames
    simp only [isReached, Bool.and_eq_true, Option.any_eq_true] at hreached
    obtain ⟨⟨-, entry, hentry, hkind⟩, hreached⟩ := hreached
    obtain rfl := Entry.eq_directory_of_isDirectory hkind
    rw [List.append_cons]
    exact ih (find_child hdirectory hname hentry (by simp)) hrest hreached

end FileTree

end SelectorMangling
