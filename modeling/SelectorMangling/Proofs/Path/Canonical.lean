import SelectorMangling.FileTree.Basic
import SelectorMangling.Proofs.Path.Direct

/-!
# What the normal form of a path is

Every path has one normal spelling.  It keeps the place that the path leads to from any directory,
and it is all that joining needs to know of the path in front.  These laws are read off the
components: what is left of them has a normal form, which pushing leaves as it is.
-/

namespace SelectorMangling.Path

/-! ## Joining -/

/-- The components of a relative path are put behind those of the path in front. -/
theorem counted_join (base : Path) {path : Path} (hpath : path.isAbsolute = false) :
    (base.join path).counted = base.counted ++ path.inner := by
  rw [counted, counted, isAbsolute_join_eq base hpath, inner_join base hpath]
  split
  · rfl
  · rfl

/-- The path of a component that is put behind others. -/
theorem inner_of_component {component : Component}
    (hcomponent : component = .parent ∨ ∃ name, component = .name name ∧ IsEntryName name) :
    (Path.mk component.text).isAbsolute = false ∧ (Path.mk component.text).inner = [component] := by
  rcases hcomponent with rfl | ⟨name, rfl, hname⟩
  · decide
  · exact ⟨not_isAbsolute_of_isEntryName hname, inner_of_isEntryName hname⟩

theorem counted_foldl_join (base : Path) {components : List Component}
    (hcomponents : ∀ component ∈ components,
      component = .parent ∨ ∃ name, component = .name name ∧ IsEntryName name) :
    (components.foldl (fun path component => path.join ⟨component.text⟩) base).counted =
      base.counted ++ components := by
  induction components generalizing base with
  | nil => simp
  | cons component rest ih =>
    have ⟨hfirst, hrest⟩ := List.forall_mem_cons.mp hcomponents
    obtain ⟨hrelative, hinner⟩ := inner_of_component hfirst
    rw [List.foldl_cons, ih _ hrest, counted_join base hrelative, hinner, List.append_assoc]
    rfl

/-! ## Components in normal form -/

namespace Start

/-- Pushing the components of a start leaves them. -/
theorem foldl_pushComponent (start : Start) :
    start.components.foldl pushComponent [] = start.components := by
  cases start with
  | root => rfl
  | above depth =>
    have hfold : ∀ more depth, (List.replicate more Component.parent).foldl pushComponent
        (List.replicate depth .parent) = List.replicate (more + depth) .parent := by
      intro more
      induction more with
      | zero => simp
      | succ more ih =>
        intro depth
        have hpush : pushComponent (List.replicate depth .parent) .parent =
            List.replicate (depth + 1) .parent := by
          cases depth <;> rfl
        rw [List.replicate_succ, List.foldl_cons, hpush, ih]
        congr 1
        omega
    exact hfold depth 0

end Start

/-- So does pushing names behind it. -/
theorem foldl_pushComponent_names (before : List Component) (names : List String) :
    (names.map Component.name).foldl pushComponent before =
      (names.map Component.name).reverse ++ before := by
  induction names generalizing before with
  | nil => rfl
  | cons name rest ih =>
    rw [List.map_cons, List.foldl_cons, ih, List.reverse_cons, List.append_assoc]
    rfl

theorem foldl_pushComponent_normal (start : Start) (names : List String) :
    (start.components ++ names.map Component.name).foldl pushComponent [] =
      (start.components ++ names.map Component.name).reverse := by
  rw [List.foldl_append, start.foldl_pushComponent, foldl_pushComponent_names, List.reverse_append,
    start.reverse_components]

/-- The normal form of a path is written with the components that are left of it. -/
theorem counted_normalize (path : Path) : path.normalize.counted = path.normalComponents := by
  obtain ⟨start, names, hcomponents, hnames, -⟩ := path.exists_normalComponents
  have hproper : ∀ component ∈ names.map Component.name,
      component = .parent ∨ ∃ name, component = .name name ∧ IsEntryName name := by
    intro component hcomponent
    obtain ⟨name, hname, rfl⟩ := List.mem_map.mp hcomponent
    exact .inr ⟨name, rfl, hnames name hname⟩
  rw [normalize, hcomponents]
  cases start with
  | root => exact counted_foldl_join ⟨"/"⟩ hproper
  | above depth =>
    have hall : ∀ component ∈ (Start.above depth).components ++ names.map .name,
        component = .parent ∨ ∃ name, component = .name name ∧ IsEntryName name := by
      intro component hcomponent
      rcases List.mem_append.mp hcomponent with habove | hname
      · exact .inl (List.eq_of_mem_replicate habove)
      · exact hproper component hname
    split
    · next hnone =>
      rw [hnone]
      rfl
    · exact counted_foldl_join ⟨""⟩ hall

theorem isAbsolute_iff_root_mem {path : Path} :
    path.isAbsolute = true ↔ .root ∈ path.counted := by
  rw [counted]
  split
  · next habsolute => simp [habsolute]
  · next hrelative =>
    refine iff_of_false hrelative fun hroot => ?_
    simpa using mem_inner hroot

theorem isAbsolute_normalize (path : Path) : path.normalize.isAbsolute = path.isAbsolute := by
  obtain ⟨start, names, hcomponents, -, hroot⟩ := path.exists_normalComponents
  rw [Bool.eq_iff_iff, isAbsolute_iff_root_mem, counted_normalize, hcomponents, ← hroot]
  cases start <;> simp [Start.components]

/-- What is left of a normal form is what is left of the path. -/
theorem normalComponents_normalize (path : Path) :
    path.normalize.normalComponents = path.normalComponents := by
  obtain ⟨start, names, hcomponents, -, -⟩ := path.exists_normalComponents
  rw [normalComponents_eq, counted_normalize, hcomponents, foldl_pushComponent_normal,
    List.reverse_reverse]

theorem normalize_eq_of_normalComponents_eq {left right : Path}
    (hsame : left.normalComponents = right.normalComponents) : left.normalize = right.normalize := by
  rw [normalize, normalize, hsame]

/-- Of the path in front only what is left of it counts. -/
theorem normalComponents_join (base : Path) {path : Path} (hpath : path.isAbsolute = false) :
    (base.join path).normalComponents =
      (path.inner.foldl pushComponent base.normalComponents.reverse).reverse := by
  rw [normalComponents_eq, counted_join base hpath, List.foldl_append, normalComponents_eq,
    List.reverse_reverse]

theorem normalize_join_normalize (base path : Path) :
    (base.normalize.join path).normalize = (base.join path).normalize := by
  cases hpath : path.isAbsolute with
  | true => rw [join, join, if_pos hpath, if_pos hpath]
  | false =>
    apply normalize_eq_of_normalComponents_eq
    rw [normalComponents_join _ hpath, normalComponents_join _ hpath, normalComponents_normalize]

/-! ## Places -/

/-- Where a component leads to from a directory in a tree without links.  Above the root there is
only the root. -/
def Component.leadFrom (directory : Location) : Component → Location
  | .root => []
  | .current => directory
  | .parent => directory.dropLast
  | .name label => directory ++ [label]

/-- Where a path leads to from a directory in a tree without links. -/
def leadFrom (directory : Location) (path : Path) : Location :=
  path.components.foldl Component.leadFrom directory

theorem leadFrom_eq_foldl_counted (directory : Location) (path : Path) :
    path.leadFrom directory = path.counted.foldl Component.leadFrom directory :=
  foldl_components (fun _ => rfl) path directory

/-- What a component takes back had been gone before. -/
theorem leadFrom_pushComponent (directory : Location) (before : List Component)
    (component : Component) :
    (pushComponent before component).reverse.foldl Component.leadFrom directory =
      Component.leadFrom (before.reverse.foldl Component.leadFrom directory) component := by
  have hpushed : (component :: before).reverse.foldl Component.leadFrom directory =
      Component.leadFrom (before.reverse.foldl Component.leadFrom directory) component := by
    rw [List.reverse_cons, List.foldl_append]
    rfl
  cases component with
  | root | name label => exact hpushed
  | current => rfl
  | parent =>
    cases before with
    | nil => exact hpushed
    | cons nearest earlier =>
      cases nearest with
      | current | parent => exact hpushed
      | root => simp [pushComponent, Component.leadFrom]
      | name label => simp [pushComponent, Component.leadFrom]

theorem leadFrom_foldl_pushComponent (directory : Location) (before components : List Component) :
    (components.foldl pushComponent before).reverse.foldl Component.leadFrom directory =
      components.foldl Component.leadFrom
        (before.reverse.foldl Component.leadFrom directory) := by
  induction components generalizing before with
  | nil => rfl
  | cons component rest ih => rw [List.foldl_cons, ih, leadFrom_pushComponent, List.foldl_cons]

/-- The normal form of a path leads to the same place. -/
theorem leadFrom_normalize (directory : Location) (path : Path) :
    path.normalize.leadFrom directory = path.leadFrom directory := by
  rw [leadFrom_eq_foldl_counted, counted_normalize, normalComponents,
    leadFrom_foldl_pushComponent]
  rfl

/-! ## Spelling -/

/-- How a path is written that has a start and names behind it.  There is one separator between two
steps and one at the front of an absolute path.  A path that leads nowhere is a single dot. -/
def spelling : Start → List String → String
  | .root, names => "/" ++ "/".intercalate names
  | .above depth, names =>
    match List.replicate depth ".." ++ names with
    | [] => "."
    | steps => "/".intercalate steps

theorem intercalate_append_cons (separator front first : String) (rest : List String) :
    separator.intercalate ((front ++ first) :: rest) =
      front ++ separator.intercalate (first :: rest) := by
  cases rest with
  | nil => rw [String.intercalate_singleton, String.intercalate_singleton]
  | cons next later =>
    rw [String.intercalate_cons_cons, String.intercalate_cons_cons, String.append_assoc,
      String.append_assoc, String.append_assoc]

/-- What a path can be written with between separators. -/
structure IsStep (step : String) : Prop where
  ne_empty : step ≠ ""
  separator_notMem : '/' ∉ step.toList

theorem isStep_of_isEntryName {name : String} (hname : IsEntryName name) : IsStep name :=
  ⟨hname.ne_empty, hname.separator_notMem⟩

namespace IsStep

variable {step : String}

theorem isAbsolute_eq (hstep : IsStep step) : (Path.mk step).isAbsolute = false :=
  not_isAbsolute_of_notMem hstep.separator_notMem

/-- A text that ends in a step ends in no separator. -/
theorem getLast?_append_ne (hstep : IsStep step) (front : String) :
    (front ++ step).toList.getLast? ≠ some '/' := by
  have hnonempty : step.toList ≠ [] := by simpa using hstep.ne_empty
  obtain ⟨others, last, hlast⟩ := (List.eq_nil_or_concat step.toList).resolve_left hnonempty
  rw [String.toList_append, hlast, List.concat_eq_append, ← List.append_assoc,
    List.getLast?_concat]
  intro hslash
  exact hstep.separator_notMem (by simp [hlast, Option.some.inj hslash])

end IsStep

/-- Steps are written behind a path with a separator before each. -/
theorem text_foldl_child {base : Path} (hbase : base.text ≠ "")
    (hend : base.text.toList.getLast? ≠ some '/') {steps : List String}
    (hsteps : ∀ step ∈ steps, IsStep step) :
    (steps.foldl child base).text = "/".intercalate (base.text :: steps) := by
  induction steps generalizing base with
  | nil => exact String.intercalate_singleton.symm
  | cons step rest ih =>
    have ⟨hstep, hrest⟩ := List.forall_mem_cons.mp hsteps
    have hchild : base.child step = ⟨base.text ++ "/" ++ step⟩ := by
      rw [child, join, if_neg (by simp [hstep.isAbsolute_eq]), if_neg (by simp [hbase, hend])]
    rw [List.foldl_cons, hchild, ih (by simp [hbase]) (hstep.getLast?_append_ne _) hrest,
      intercalate_append_cons, String.intercalate_cons_cons]

/-- Steps behind nothing are written with separators between them. -/
theorem text_foldl_child_empty {first : String} {rest : List String}
    (hsteps : ∀ step ∈ first :: rest, IsStep step) :
    ((first :: rest).foldl child ⟨""⟩).text = "/".intercalate (first :: rest) := by
  have ⟨hstep, hrest⟩ := List.forall_mem_cons.mp hsteps
  have hchild : Path.child ⟨""⟩ first = ⟨"" ++ first⟩ := by
    rw [child, join, if_neg (by simp [hstep.isAbsolute_eq]), if_pos (by simp)]
  rw [List.foldl_cons, hchild, text_foldl_child (by simpa using hstep.ne_empty)
    (hstep.getLast?_append_ne "") hrest, String.empty_append]

/-- Steps behind the root have the separator of the root before them. -/
theorem text_foldl_child_root {steps : List String} (hsteps : ∀ step ∈ steps, IsStep step) :
    (steps.foldl child ⟨"/"⟩).text = "/" ++ "/".intercalate steps := by
  cases steps with
  | nil => rfl
  | cons first rest =>
    have ⟨hstep, hrest⟩ := List.forall_mem_cons.mp hsteps
    have hchild : Path.child ⟨"/"⟩ first = ⟨"/" ++ first⟩ := by
      rw [child, join, if_neg (by simp [hstep.isAbsolute_eq]), if_pos (by simp)]
    rw [List.foldl_cons, hchild, text_foldl_child (by simp) (hstep.getLast?_append_ne "/") hrest,
      intercalate_append_cons]

theorem ofComponents_eq_foldl_child (components : List Component) :
    ofComponents components = (components.map Component.text).foldl child ⟨""⟩ := by
  rw [List.foldl_map]
  rfl

/-- The normal form of a path is spelled with its start and the names that are left of it. -/
theorem exists_spelling_normalize (path : Path) :
    ∃ (start : Start) (names : List String), (∀ name ∈ names, IsEntryName name) ∧
      path.normalize.text = spelling start names ∧ (start = .root ↔ path.isAbsolute = true) := by
  obtain ⟨start, names, hcomponents, hnames, hroot⟩ := path.exists_normalComponents
  have hproper : ∀ name ∈ names, IsStep name :=
    fun name hname => isStep_of_isEntryName (hnames name hname)
  refine ⟨start, names, hnames, ?_, hroot⟩
  rw [normalize, hcomponents]
  cases start with
  | root =>
    change (ofComponents (.root :: names.map .name)).text = _
    rw [ofComponents_names, text_foldl_child_root hproper, spelling]
  | above depth =>
    have hsteps : ∀ step ∈ List.replicate depth ".." ++ names, IsStep step := by
      intro step hstep
      rcases List.mem_append.mp hstep with habove | hname
      · rw [List.eq_of_mem_replicate habove]
        exact ⟨by decide, by decide⟩
      · exact hproper step hname
    have htexts : List.replicate depth ".." ++ names =
        ((Start.above depth).components ++ names.map Component.name).map Component.text := by
      rw [List.map_append, Start.components, List.map_replicate, List.map_map]
      exact congrArg _ (List.map_id names).symm
    rw [spelling]
    rw [htexts] at hsteps ⊢
    cases hleft : (Start.above depth).components ++ names.map Component.name with
    | nil => rfl
    | cons first rest =>
      rw [hleft] at hsteps
      change (ofComponents (first :: rest)).text = _
      rw [ofComponents_eq_foldl_child]
      exact text_foldl_child_empty hsteps

/-- The normal form of a path is spelled without needless separators, single dots and double dots
behind a name: it is a start, which is the root exactly if the path is absolute, with names behind
it.  It is absolute if the path is, it is its own normal form, it leads from any directory to the
place that the path leads to, and what is joined with it has the normal form of what is joined with
the path. -/
theorem normalize_canonical (path : Path) :
    (∃ (start : Start) (names : List String), (∀ name ∈ names, IsEntryName name) ∧
      path.normalize.text = spelling start names ∧ (start = .root ↔ path.isAbsolute = true)) ∧
      path.normalize.isAbsolute = path.isAbsolute ∧
      path.normalize.normalize = path.normalize ∧
      (∀ directory : Location, path.normalize.leadFrom directory = path.leadFrom directory) ∧
      ∀ other : Path, (path.join other).normalize = (path.normalize.join other).normalize := by
  refine ⟨exists_spelling_normalize path, isAbsolute_normalize path, ?_, ?_, ?_⟩
  · exact normalize_eq_of_normalComponents_eq (normalComponents_normalize path)
  · intro directory
    exact leadFrom_normalize directory path
  · intro other
    exact (normalize_join_normalize path other).symm

end SelectorMangling.Path
