import Mathlib.Tactic.MkIffOfInductiveProp
import Mathlib.Tactic.SplitIfs
import SelectorMangling.FileTree.Resolve
import SelectorMangling.Path.Normal

/-!
# Paths that lead straight down

A path that starts at the root and has no double dots names an entry by the names on the way to it.
Needless separators and single dots in it do not matter.
-/

namespace SelectorMangling

/-- What an entry of a directory can be called. -/
@[mk_iff]
structure IsEntryName (name : String) : Prop where
  ne_empty : name ≠ ""
  ne_dot : name ≠ "."
  ne_parent : name ≠ ".."
  separator_notMem : '/' ∉ name.toList

instance (name : String) : Decidable (IsEntryName name) :=
  decidable_of_iff' _ (isEntryName_iff name)

namespace Path

theorem segments_ne_nil (text : List Char) : segments text ≠ [] := by
  cases text with
  | nil => simp [segments]
  | cons c rest =>
    rw [segments]
    split
    · simp
    · split <;> simp

/-- A separator cuts a text into two texts. -/
theorem segments_append (left right : List Char) :
    segments (left ++ '/' :: right) = segments left ++ segments right := by
  induction left with
  | nil => simp [segments]
  | cons c rest ih =>
    rw [List.cons_append, segments, segments, ih]
    split
    · rfl
    · cases hrest : segments rest with
      | nil => exact absurd hrest (segments_ne_nil rest)
      | cons segment others => rfl

theorem segments_of_notMem {text : List Char} (hplain : '/' ∉ text) : segments text = [text] := by
  induction text with
  | nil => rfl
  | cons c rest ih =>
    rw [List.mem_cons, not_or] at hplain
    rw [segments, if_neg (Ne.symm hplain.1), ih hplain.2]

theorem separator_notMem_of_mem_segments {text segment : List Char}
    (hsegment : segment ∈ segments text) : '/' ∉ segment := by
  induction text generalizing segment with
  | nil => simp_all [segments]
  | cons c rest ih =>
    rw [segments] at hsegment
    split at hsegment
    · rcases List.mem_cons.mp hsegment with rfl | hlater
      · exact List.not_mem_nil
      · exact ih hlater
    · next hplain =>
      split at hsegment
      · next hnil => exact absurd hnil (segments_ne_nil rest)
      · next first others hrest =>
        rw [hrest] at ih
        rcases List.mem_cons.mp hsegment with rfl | hlater
        · rw [List.mem_cons, not_or]
          exact ⟨Ne.symm hplain, ih List.mem_cons_self⟩
        · exact ih (List.mem_cons_of_mem _ hlater)

/-- What the pieces of a path stand for, without regard to how it begins. -/
def inner (path : Path) : List Component :=
  (segments path.text.toList).filterMap Component.ofSegment?

theorem components_of_isAbsolute {path : Path} (habsolute : path.isAbsolute = true) :
    path.components = .root :: path.inner := by
  rw [components, if_pos habsolute, inner]

theorem inner_of_isEntryName {name : String} (hname : IsEntryName name) :
    (Path.mk name).inner = [.name name] := by
  have hsegment : Component.ofSegment? name.toList = some (.name name) := by
    have hempty : name.toList ≠ [] := fun heq => hname.ne_empty (String.toList_inj.mp heq)
    have hdot : name.toList ≠ ['.'] := fun heq => hname.ne_dot (String.toList_inj.mp heq)
    have hparent : name.toList ≠ ['.', '.'] := fun heq => hname.ne_parent (String.toList_inj.mp heq)
    simp [Component.ofSegment?, hempty, hdot, hparent]
  simp [inner, segments_of_notMem hname.separator_notMem, hsegment]

/-- The pieces of a path are names of entries and double dots. -/
theorem mem_inner {path : Path} {component : Component} (hcomponent : component ∈ path.inner) :
    component = .parent ∨ ∃ name, component = .name name ∧ IsEntryName name := by
  obtain ⟨segment, hsegment, hsome⟩ := List.mem_filterMap.mp hcomponent
  unfold Component.ofSegment? at hsome
  split_ifs at hsome with hskipped hparent
  · exact .inl (Option.some.inj hsome).symm
  · have ⟨hempty, hdot⟩ := not_or.mp hskipped
    refine .inr ⟨String.ofList segment, (Option.some.inj hsome).symm, ?_, ?_, ?_, ?_⟩
    · exact fun heq => hempty (by simpa using congrArg String.toList heq)
    · exact fun heq => hdot (by simpa using congrArg String.toList heq)
    · exact fun heq => hparent (by simpa using congrArg String.toList heq)
    · rw [String.toList_ofList]
      exact separator_notMem_of_mem_segments hsegment

/-! ## Joining -/

theorem isAbsolute_iff {path : Path} :
    path.isAbsolute = true ↔ ∃ rest, path.text.toList = '/' :: rest := by
  rw [isAbsolute, beq_iff_eq, List.head?_eq_some_iff]

/-- A relative path is written behind the path in front with at most a separator between. -/
theorem exists_text_join (base : Path) {path : Path} (hpath : path.isAbsolute = false) :
    ∃ separator, (base.join path).text = base.text ++ separator ++ path.text ∧
      (separator = "/" ∨
        separator = "" ∧ (base.text = "" ∨ base.text.toList.getLast? = some '/')) := by
  rw [join, if_neg (by simp [hpath])]
  split
  · next hseparated =>
    rw [Bool.or_eq_true, String.isEmpty_iff, beq_iff_eq] at hseparated
    exact ⟨"", by simp, .inr ⟨rfl, hseparated⟩⟩
  · exact ⟨"/", rfl, .inl rfl⟩

theorem isAbsolute_join_eq (base : Path) {path : Path} (hpath : path.isAbsolute = false) :
    (base.join path).isAbsolute = base.isAbsolute := by
  cases htext : base.text.toList with
  | nil =>
    have hempty : base.text = "" := String.toList_eq_nil_iff.mp htext
    have hbase : base.isAbsolute = false := by simp [isAbsolute, htext]
    rw [join, if_neg (by simp [hpath]), if_pos (by simp [hempty]), hempty, String.empty_append,
      hbase]
    exact hpath
  | cons first rest =>
    obtain ⟨separator, hjoin, -⟩ := exists_text_join base hpath
    simp [isAbsolute, hjoin, htext]

theorem isAbsolute_join {base : Path} (hbase : base.isAbsolute = true) (path : Path) :
    (base.join path).isAbsolute = true := by
  cases hpath : path.isAbsolute with
  | true => rwa [join, if_pos hpath]
  | false => rwa [isAbsolute_join_eq base hpath]

/-- Joining puts the pieces of the second path behind what the first one stands for. -/
theorem exists_segments_join (base : Path) {path : Path} (hpath : path.isAbsolute = false) :
    ∃ front, segments (base.join path).text.toList = front ++ segments path.text.toList ∧
      front.filterMap Component.ofSegment? = base.inner := by
  unfold join
  rw [if_neg (by simp [hpath])]
  split
  · next hseparated =>
    rw [Bool.or_eq_true, String.isEmpty_iff, beq_iff_eq] at hseparated
    rcases hseparated with hempty | hend
    · exact ⟨[], by simp [hempty], by simp [inner, hempty, segments, Component.ofSegment?]⟩
    · obtain ⟨front, hfront⟩ := List.getLast?_eq_some_iff.mp hend
      refine ⟨segments front, ?_, ?_⟩
      · rw [String.toList_append, hfront, List.append_assoc, List.singleton_append,
          segments_append]
      · rw [inner, hfront, segments_append]
        simp [segments, Component.ofSegment?]
  · refine ⟨segments base.text.toList, ?_, rfl⟩
    rw [String.toList_append, String.toList_append, List.append_assoc]
    exact segments_append _ _

theorem inner_join (base : Path) {path : Path} (hpath : path.isAbsolute = false) :
    (base.join path).inner = base.inner ++ path.inner := by
  obtain ⟨front, hsegments, hfront⟩ := exists_segments_join base hpath
  rw [inner, hsegments, List.filterMap_append, hfront]
  rfl

theorem not_isAbsolute_of_notMem {text : String} (hplain : '/' ∉ text.toList) :
    (Path.mk text).isAbsolute = false := by
  rw [Bool.eq_false_iff]
  intro habsolute
  obtain ⟨rest, hrest⟩ := isAbsolute_iff.mp habsolute
  exact hplain (hrest ▸ List.mem_cons_self)

theorem not_isAbsolute_of_isEntryName {name : String} (hname : IsEntryName name) :
    (Path.mk name).isAbsolute = false :=
  not_isAbsolute_of_notMem hname.separator_notMem

theorem text_child_ne_empty (base : Path) {name : String} (hname : IsEntryName name) :
    (base.child name).text ≠ "" := by
  intro hempty
  have hinner := inner_join base (not_isAbsolute_of_isEntryName hname)
  rw [inner_of_isEntryName hname] at hinner
  have hnothing : (base.child name).inner = [] := by
    simp [inner, hempty, segments, Component.ofSegment?]
  exact List.append_ne_nil_of_right_ne_nil _ (List.cons_ne_nil _ _) (hinner.symm.trans hnothing)

/-! ## What a path denotes -/

/-- A path leads from the root along names. -/
def Denotes (path : Path) (location : Location) : Prop :=
  path.components = .root :: location.map .name

instance (path : Path) (location : Location) : Decidable (path.Denotes location) :=
  inferInstanceAs (Decidable (path.components = .root :: location.map .name))

/-- The names that a path leads along. -/
def location (path : Path) : Location :=
  path.components.filterMap fun component =>
    match component with
    | .name name => some name
    | _ => none

namespace Denotes

variable {path : Path} {location : Location}

theorem location_eq (hdenotes : path.Denotes location) : path.location = location := by
  rw [Path.location, hdenotes, List.filterMap_cons, List.filterMap_map]
  exact List.filterMap_some

theorem isAbsolute (hdenotes : path.Denotes location) : path.isAbsolute = true := by
  cases hrelative : path.isAbsolute with
  | true => rfl
  | false =>
    rw [Denotes, components, hrelative, if_neg Bool.false_ne_true, ← inner] at hdenotes
    split_ifs at hdenotes
    · simp at hdenotes
    · have hroot : Component.root ∈ path.inner := hdenotes ▸ List.mem_cons_self
      simpa using mem_inner hroot

theorem inner_eq (hdenotes : path.Denotes location) : path.inner = location.map .name := by
  have hcomponents := components_of_isAbsolute hdenotes.isAbsolute
  rw [hdenotes] at hcomponents
  exact (List.cons.inj hcomponents).2.symm

theorem isEntryName (hdenotes : path.Denotes location) {name : String} (hname : name ∈ location) :
    IsEntryName name := by
  have hinner : .name name ∈ path.inner := by
    rw [hdenotes.inner_eq]
    exact List.mem_map_of_mem hname
  simpa using mem_inner hinner

/-- Joining a relative path leads further along its names. -/
theorem join (hdenotes : path.Denotes location) {other : Path} {names : List String}
    (hother : other.isAbsolute = false) (hnames : other.inner = names.map .name) :
    (path.join other).Denotes (location ++ names) := by
  rw [Denotes, components_of_isAbsolute (isAbsolute_join hdenotes.isAbsolute other),
    inner_join path hother, hdenotes.inner_eq, hnames, List.map_append]

theorem child (hdenotes : path.Denotes location) {name : String} (hname : IsEntryName name) :
    (path.child name).Denotes (location ++ [name]) :=
  hdenotes.join (not_isAbsolute_of_isEntryName hname) (inner_of_isEntryName hname)

end Denotes

/-! ## Steps -/

/-- Whether a step of a path leads anywhere. -/
def isMove (step : String) : Bool := step != "" && step != "."

theorem moves_of_filterMap {pieces : List (List Char)} {names : List String}
    (hnames : pieces.filterMap Component.ofSegment? = names.map .name) :
    (pieces.map String.ofList).filter isMove = names ∧ ".." ∉ pieces.map String.ofList := by
  induction pieces generalizing names with
  | nil => simp_all
  | cons piece rest ih =>
    rw [List.filterMap_cons, Component.ofSegment?] at hnames
    rw [List.map_cons, List.filter_cons, List.mem_cons, not_or]
    split_ifs at hnames with hskipped hparent
    · obtain ⟨hmoves, hplain⟩ := ih hnames
      rcases hskipped with rfl | rfl
      · exact ⟨hmoves, by decide, hplain⟩
      · exact ⟨hmoves, by decide, hplain⟩
    · cases names <;> simp at hnames
    · cases names with
      | nil => simp at hnames
      | cons name names =>
        simp only [List.map_cons, List.cons.injEq, Component.name.injEq] at hnames
        obtain ⟨rfl, hrest⟩ := hnames
        obtain ⟨hmoves, hplain⟩ := ih hrest
        have ⟨hempty, hdot⟩ := not_or.mp hskipped
        have hmove : isMove (String.ofList piece) = true := by
          simp [isMove, ← String.toList_inj, hempty, hdot]
        rw [if_pos hmove, hmoves]
        exact ⟨rfl, fun heq => hparent (by simpa using (congrArg String.toList heq).symm), hplain⟩

/-- The steps of a path, less those that lead nowhere, are the names that it leads along. -/
theorem Denotes.moves_eq {path : Path} {location : Location} (hdenotes : path.Denotes location) :
    path.steps.filter isMove = location ∧ ".." ∉ path.steps :=
  moves_of_filterMap hdenotes.inner_eq

/-- The last one of some steps leads to an entry. -/
def EndInMove (steps : List String) : Prop := ∃ last ∈ steps.getLast?, isMove last = true

instance (steps : List String) : Decidable (EndInMove steps) :=
  decidable_of_iff (steps.getLast?.any isMove = true) (Option.any_eq_true isMove steps.getLast?)

/-- A path is not written like that of a directory. -/
def EndsInMove (path : Path) : Prop := EndInMove path.steps

instance (path : Path) : Decidable path.EndsInMove :=
  inferInstanceAs (Decidable (EndInMove path.steps))

theorem endInMove_cons_iff {step : String} {rest : List String} (hrest : rest ≠ []) :
    EndInMove (step :: rest) ↔ EndInMove rest := by
  cases rest with
  | nil => contradiction
  | cons next later => rfl

theorem EndInMove.moves_ne_nil {steps : List String} (hend : EndInMove steps) :
    steps.filter isMove ≠ [] := by
  obtain ⟨last, hlast, hmove⟩ := hend
  exact List.ne_nil_of_mem (List.mem_filter.mpr ⟨List.mem_of_getLast? hlast, hmove⟩)

theorem isMove_of_isEntryName {name : String} (hname : IsEntryName name) : isMove name = true := by
  simp [isMove, hname.ne_empty, hname.ne_dot]

theorem endsInMove_child (base : Path) {name : String} (hname : IsEntryName name) :
    (base.child name).EndsInMove := by
  obtain ⟨front, hsegments, -⟩ :=
    exists_segments_join base (not_isAbsolute_of_isEntryName hname)
  refine ⟨name, ?_, isMove_of_isEntryName hname⟩
  rw [child, steps, hsegments, segments_of_notMem hname.separator_notMem]
  simp

theorem EndsInMove.getLast?_ne {path : Path} (hends : path.EndsInMove) :
    path.text.toList.getLast? ≠ some '/' := by
  intro hlast
  obtain ⟨front, hfront⟩ := List.getLast?_eq_some_iff.mp hlast
  obtain ⟨step, hstep, hmove⟩ := hends
  rw [steps, hfront, segments_append] at hstep
  obtain rfl : "" = step := by simpa [segments] using hstep
  contradiction

/-! ## Normal paths -/

theorem Denotes.foldl_child {path : Path} {location : Location} (hdenotes : path.Denotes location)
    {names : List String} (hnames : ∀ name ∈ names, IsEntryName name) :
    (names.foldl Path.child path).Denotes (location ++ names) := by
  induction names generalizing path location with
  | nil => simpa using hdenotes
  | cons name rest ih =>
    have ⟨hname, hrest⟩ := List.forall_mem_cons.mp hnames
    simpa using ih (hdenotes.child hname) hrest

theorem denotes_root : Denotes ⟨"/"⟩ [] := rfl

theorem ofComponents_names (names : List String) :
    ofComponents (.root :: names.map .name) = names.foldl child ⟨"/"⟩ := by
  rw [ofComponents, List.foldl_cons, List.foldl_map]
  rfl

theorem denotes_ofComponents {names : List String} (hnames : ∀ name ∈ names, IsEntryName name) :
    (ofComponents (.root :: names.map .name)).Denotes names := by
  rw [ofComponents_names]
  exact denotes_root.foldl_child hnames

theorem endsInMove_ofComponents {names : List String} (hnames : ∀ name ∈ names, IsEntryName name)
    (hnonempty : names ≠ []) : (ofComponents (.root :: names.map .name)).EndsInMove := by
  obtain ⟨front, last, rfl⟩ := (List.eq_nil_or_concat names).resolve_left hnonempty
  rw [List.concat_eq_append] at hnames ⊢
  rw [ofComponents_names, List.foldl_append]
  exact endsInMove_child _ (hnames last (by simp))

/-- Where a normal path starts: at the root, or so many directories above the one that the path is
relative to. -/
inductive Start where
  | root
  | above (depth : Nat)
deriving DecidableEq, Repr

def Start.components : Start → List Component
  | root => [.root]
  | above depth => List.replicate depth .parent

theorem Start.reverse_components (start : Start) :
    start.components.reverse = start.components := by
  cases start with
  | root => rfl
  | above depth => exact List.reverse_replicate

/-- Behind the start there are names only, however many double dots are followed.  A path that starts
at the root stays there. -/
theorem exists_foldl_pushComponent {components : List Component} {before : List String}
    (start : Start)
    (hcomponents : ∀ component ∈ components,
      component = .parent ∨ ∃ name, component = .name name ∧ IsEntryName name)
    (hbefore : ∀ name ∈ before, IsEntryName name) :
    ∃ (names : List String) (last : Start),
      components.foldl pushComponent (before.map .name ++ start.components) =
        names.map .name ++ last.components ∧
      (∀ name ∈ names, IsEntryName name) ∧ (last = .root ↔ start = .root) := by
  induction components generalizing before start with
  | nil => exact ⟨before, start, rfl, hbefore, Iff.rfl⟩
  | cons component rest ih =>
    have ⟨hfirst, hrest⟩ := List.forall_mem_cons.mp hcomponents
    rw [List.foldl_cons]
    rcases hfirst with rfl | ⟨name, rfl, hname⟩
    · cases before with
      | cons name earlier => exact ih start hrest (List.forall_mem_cons.mp hbefore).2
      | nil =>
        -- Without a name to take back, double dots do nothing at the root and count elsewhere.
        cases start with
        | root => exact ih .root hrest hbefore
        | above depth =>
          have hpush : pushComponent (Start.above depth).components .parent =
              (Start.above (depth + 1)).components := by
            cases depth <;> rfl
          obtain ⟨names, last, hfold, hnames, hroot⟩ := ih (.above (depth + 1)) hrest hbefore
          refine ⟨names, last, ?_, hnames, hroot.trans (by simp)⟩
          rw [← hfold, List.map_nil, List.nil_append, List.nil_append, hpush]
    · exact ih start hrest (List.forall_mem_cons.mpr ⟨hname, hbefore⟩)

/-- The components of a path, less a single dot at its front. -/
def counted (path : Path) : List Component :=
  if path.isAbsolute then .root :: path.inner else path.inner

/-- Going through the components comes to the same if single dots do nothing. -/
theorem foldl_components {State : Type} {step : State → Component → State}
    (hcurrent : ∀ state, step state .current = state) (path : Path) (state : State) :
    path.components.foldl step state = path.counted.foldl step state := by
  rw [components, counted, inner]
  split
  · rfl
  · split
    · rw [List.foldl_cons, hcurrent]
    · rfl

theorem normalComponents_eq (path : Path) :
    path.normalComponents = (path.counted.foldl pushComponent []).reverse := by
  rw [normalComponents, foldl_components fun _ => rfl]

/-- What is left of a path is its start and names behind it. -/
theorem exists_normalComponents (path : Path) :
    ∃ (start : Start) (names : List String),
      path.normalComponents = start.components ++ names.map .name ∧
      (∀ name ∈ names, IsEntryName name) ∧ (start = .root ↔ path.isAbsolute = true) := by
  have hstart : ∃ start : Start, path.counted.foldl pushComponent [] =
      path.inner.foldl pushComponent ([].map .name ++ start.components) ∧
      (start = .root ↔ path.isAbsolute = true) := by
    cases habsolute : path.isAbsolute with
    | true => exact ⟨.root, by rw [counted, if_pos habsolute]; rfl, by simp⟩
    | false => exact ⟨.above 0, by rw [counted, if_neg (by simp [habsolute])]; rfl, by simp⟩
  obtain ⟨start, hcounted, hroot⟩ := hstart
  obtain ⟨names, last, hfold, hnames, hlast⟩ := exists_foldl_pushComponent start
    (fun _ hcomponent => mem_inner hcomponent) (List.forall_mem_nil IsEntryName)
  refine ⟨last, names.reverse, ?_, fun name hname => hnames name (List.mem_reverse.mp hname),
    hlast.trans hroot⟩
  rw [normalComponents_eq, hcounted, hfold, List.reverse_append, last.reverse_components,
    List.map_reverse]

/-- The normal form of an absolute path leads straight down. -/
theorem exists_denotes_normalize {path : Path} (habsolute : path.isAbsolute = true) :
    ∃ names : List String, path.normalize = ofComponents (.root :: names.map .name) ∧
      path.normalize.Denotes names ∧ ∀ name ∈ names, IsEntryName name := by
  obtain ⟨start, names, hcomponents, hnames, hroot⟩ := path.exists_normalComponents
  obtain rfl := hroot.mpr habsolute
  have hnormal : path.normalize = ofComponents (.root :: names.map .name) := by
    rw [normalize, hcomponents]
    rfl
  exact ⟨names, hnormal, hnormal ▸ denotes_ofComponents hnames, hnames⟩

end Path

end SelectorMangling
