import SelectorMangling.Proofs.Catalog.Extension
import SelectorMangling.Proofs.Site.Course

/-!
# What a scan adds

The texts that a scan comes across make one stream of candidates.  A scan extends the catalog by the
front of this stream that it comes to, and it comes to the end unless the codes run out or something
cannot be listed or read.
-/

namespace SelectorMangling

/-- The candidates of texts, in the order of the texts. -/
def Rules.stream (rules : Rules) (contents : List (SourceKind × String)) : List String :=
  contents.flatMap fun content => rules.candidates content.1 content.2

theorem Rules.stream_append (rules : Rules) (first last : List (SourceKind × String)) :
    rules.stream (first ++ last) = rules.stream first ++ rules.stream last :=
  List.flatMap_append

namespace Site

variable {α β : Type} {tree : FileTree} {settings : Settings} {rules : Rules} {root : Path}

/-! ## How a scan goes -/

/-- The fault that a piece of work ends with, if it ends with one. -/
def fault? : Except Fault α → Option Fault
  | .ok _ => none
  | .error fault => some fault

theorem fault?_eq_some_iff {result : Except Fault α} {fault : Fault} :
    fault? result = some fault ↔ result = .error fault := by
  cases result <;> simp [fault?]

/-- A piece of work adds the candidates of the texts that it comes across until the codes run out or
something stops it. -/
def Passes (rules : Rules) (tree : FileTree) (found : List (Except Fault (SourceKind × String)))
    (work : Work α) : Prop :=
  ∀ workspace, workspace.tree = tree →
    (outcome work workspace).2.tree = tree ∧
      (outcome work workspace).2.catalog =
        (workspace.catalog.grow (rules.stream (untilFault found))).catalog ∧
      fault? (outcome work workspace).1 =
        ((workspace.catalog.grow (rules.stream (untilFault found))).exhausted.map
          Fault.exhausted).or (firstFault found)

namespace Passes

variable {found more : List (Except Fault (SourceKind × String))} {work : Work α}
  {next : α → Work β}

theorem pure (value : α) : Passes rules tree [] (pure value : Work α) :=
  fun _ htree => ⟨htree, rfl, rfl⟩

theorem bind (hwork : Passes rules tree found work)
    (hnext : ∀ value, Passes rules tree more (next value)) :
    Passes rules tree (found ++ more) (work >>= next) := by
  intro workspace htree
  obtain ⟨hbetween, hcatalog, hfault⟩ := hwork workspace htree
  rw [outcome_bind]
  cases hfirst : outcome work workspace with
  | mk result between =>
    rw [hfirst] at hbetween hcatalog hfault
    cases hexhausted :
        (workspace.catalog.grow (rules.stream (untilFault found))).exhausted with
    | some cause =>
      obtain ⟨behind, hbehind⟩ := untilFault_prefix_append found more
      rw [← hbehind, rules.stream_append, Catalog.grow_append_of_exhausted hexhausted, hexhausted]
      rw [hexhausted, Option.map_some, Option.some_or] at hfault
      cases result with
      | ok value => contradiction
      | error fault => exact ⟨hbetween, hcatalog, hfault⟩
    | none =>
      rw [hexhausted, Option.map_none, Option.none_or] at hfault
      rw [firstFault_append]
      cases hstop : firstFault found with
      | some stop =>
        rw [untilFault_append_of_some hstop, hexhausted]
        rw [hstop] at hfault
        cases result with
        | ok value => contradiction
        | error fault => exact ⟨hbetween, hcatalog, hfault⟩
      | none =>
        obtain ⟨hgrown, hroom⟩ := Catalog.grow_append hexhausted (rules.stream (untilFault more))
        rw [untilFault_append_of_none hstop, rules.stream_append, hgrown, hroom, Option.none_or]
        rw [hstop] at hfault
        cases result with
        | error fault => contradiction
        | ok value =>
          rw [← hcatalog]
          exact hnext value between hbetween

theorem onFault (hwork : Passes rules tree found work) (event : Event) :
    Passes rules tree found (onFault work event) := by
  intro workspace htree
  have hends := hwork workspace htree
  rw [outcome_onFault]
  cases houtcome : outcome work workspace with
  | mk result left =>
    rw [houtcome] at hends
    cases result with
    | ok value => exact hends
    | error fault =>
      dsimp only
      split
      · exact hends
      · exact hends

/-- What is only looked up in the tree adds nothing. -/
theorem lookUp (looked : Except Fault α)
    (hwork : ∀ workspace, workspace.tree = tree →
      ∃ events, outcome work workspace = (looked, { workspace with events }))
    (hfault : ∀ fault, looked = .error fault → found = [.error fault])
    (hnext : ∀ value, looked = .ok value → Passes rules tree found (next value)) :
    Passes rules tree found (work >>= next) := by
  intro workspace htree
  obtain ⟨events, houtcome⟩ := hwork workspace htree
  rw [outcome_bind, houtcome]
  cases hlooked : looked with
  | ok value => exact hnext value hlooked { workspace with events } htree
  | error fault =>
    rw [hfault fault hlooked]
    exact ⟨htree, rfl, rfl⟩

end Passes

theorem passes_scanFile (rules : Rules) (tree : FileTree) (file : SourceFile) :
    Passes rules tree [readOutcome tree file] (scanFile rules file) := by
  rintro workspace rfl
  simp only [scanFile, outcome_bind, outcome_readFile, outcome_get, outcome_modify,
    outcome_tellAll, readOutcome, readSource]
  cases workspace.tree.readText file.path with
  | error cause => exact ⟨rfl, rfl, rfl⟩
  | ok content =>
    have hstream : rules.stream [(file.kind, content)] = rules.candidates file.kind content :=
      List.flatMap_singleton _ _
    simp only [Except.mapError, Except.map, untilFault, firstFault, hstream]
    cases (workspace.catalog.grow (rules.candidates file.kind content)).exhausted with
    | none => exact ⟨rfl, rfl, rfl⟩
    | some cause => exact ⟨rfl, rfl, rfl⟩

theorem passes_scanFiles (rules : Rules) (tree : FileTree) (folder : Path) (stats : ScanStats)
    (files : List SourceFile) :
    Passes rules tree (files.map (readOutcome tree)) (scanFiles rules folder stats files) := by
  induction files generalizing stats with
  | nil => exact .pure stats
  | cons file rest ih =>
    rw [scanFiles]
    apply ((passes_scanFile rules tree file).onFault _).bind
    intro added
    exact ih _

theorem passes_scanFolders (rules : Rules) (tree : FileTree) (stats : ScanStats)
    (folders : List Path) :
    Passes rules tree (folders.flatMap (folderCourse tree)) (scanFolders rules stats folders) := by
  induction folders generalizing stats with
  | nil => exact .pure stats
  | cons folder rest ih =>
    have hfolder : ∀ stats, Passes rules tree (folderCourse tree folder)
        (listFiles folder >>= scanFiles rules folder stats) := by
      intro stats
      apply Passes.lookUp ((sourceFiles tree folder).mapError (.list folder))
      · rintro workspace rfl
        exact ⟨workspace.events, outcome_listFiles folder workspace⟩
      · intro fault hfault
        obtain ⟨cause, hcause, rfl⟩ := exists_of_mapError_eq_error hfault
        rw [folderCourse, hcause]
      · intro files hfiles
        rw [folderCourse, mapError_eq_ok_iff.mp hfiles]
        exact passes_scanFiles rules tree folder stats files
    rw [scanFolders, List.flatMap_cons, ← bind_assoc]
    exact (hfolder stats).bind ih

/-- A scan passes what it comes across in a locale. -/
theorem passes_scan (settings : Settings) (rules : Rules) (root : Path) (tree : FileTree) :
    Passes rules tree (course tree settings root) (scan settings rules root) := by
  rw [scan]
  apply Passes.lookUp ((featureFolders tree settings root).mapError (.walk root))
  · rintro workspace rfl
    exact outcome_listFolders settings root workspace
  · intro fault hfault
    obtain ⟨cause, hcause, rfl⟩ := exists_of_mapError_eq_error hfault
    rw [course, hcause]
  · intro folders hfolders
    rw [course, mapError_eq_ok_iff.mp hfolders]
    exact passes_scanFolders rules tree {} folders

/-! ## How a scan ends -/

/-- The ways in which going through files ends, with what has been added by then. -/
inductive ScanEnds (rules : Rules) (tree : FileTree) (stops : Fault → Prop)
    (files : List SourceFile) (before : Catalog) : Except Fault α → Workspace → Prop
  | done {value : α} {left : Workspace} {contents : List (SourceKind × String)}
      (hreads : ReadAs tree files contents) (htree : left.tree = tree)
      (hcatalog : left.catalog = (before.grow (rules.stream contents)).catalog)
      (hroom : (before.grow (rules.stream contents)).exhausted = none) :
      ScanEnds rules tree stops files before (.ok value) left
  | exhausted {cause : Code.Exhausted} {left : Workspace} {front : List SourceFile}
      {contents : List (SourceKind × String)} (hfront : front <+: files)
      (hreads : ReadAs tree front contents) (htree : left.tree = tree)
      (hcatalog : left.catalog = (before.grow (rules.stream contents)).catalog)
      (hexhausted : (before.grow (rules.stream contents)).exhausted = some cause) :
      ScanEnds rules tree stops files before (.error (.exhausted cause)) left
  | stopped {fault : Fault} {left : Workspace} {front : List SourceFile}
      {contents : List (SourceKind × String)} (hfault : stops fault) (hfront : front <+: files)
      (hreads : ReadAs tree front contents) (htree : left.tree = tree)
      (hcatalog : left.catalog = (before.grow (rules.stream contents)).catalog)
      (hroom : (before.grow (rules.stream contents)).exhausted = none) :
      ScanEnds rules tree stops files before (.error fault) left

/-- Whatever going through files comes to, it has added the candidates of some files at the front,
and of all of them if it gives a result. -/
theorem ScanEnds.exists_front {stops : Fault → Prop} {files : List SourceFile} {before : Catalog}
    {result : Except Fault α} {left : Workspace}
    (hends : ScanEnds rules tree stops files before result left) :
    ∃ front contents, front <+: files ∧ ReadAs tree front contents ∧
      left.catalog = (before.grow (rules.stream contents)).catalog ∧
      ∀ value, result = .ok value →
        front = files ∧ (before.grow (rules.stream contents)).exhausted = none := by
  cases hends with
  | done hreads _ hcatalog hroom =>
    exact ⟨files, _, List.prefix_refl _, hreads, hcatalog, fun _ _ => ⟨rfl, hroom⟩⟩
  | exhausted hfront hreads _ hcatalog _ => exact ⟨_, _, hfront, hreads, hcatalog, by simp⟩
  | stopped _ hfront hreads _ hcatalog _ => exact ⟨_, _, hfront, hreads, hcatalog, by simp⟩

/-- A piece of work goes through files of a tree and adds their candidates. -/
def GoesThrough (rules : Rules) (tree : FileTree) (stops : Fault → Prop) (files : List SourceFile)
    (work : Work α) : Prop :=
  ∀ workspace, workspace.tree = tree →
    ScanEnds rules tree stops files workspace.catalog (outcome work workspace).1
      (outcome work workspace).2

/-- A scan goes through the source files of a locale.  It stops at what cannot be listed or read. -/
theorem goesThrough_scan (settings : Settings) (rules : Rules) (root : Path) (tree : FileTree) :
    GoesThrough rules tree (Blocked tree settings root) (sources tree settings root)
      (scan settings rules root) := by
  intro workspace htree
  obtain ⟨hleft, hcatalog, hfault⟩ := passes_scan settings rules root tree workspace htree
  obtain ⟨front, hfront, hreads, hall⟩ := exists_front_of_course tree settings root
  cases houtcome : outcome (scan settings rules root) workspace with
  | mk result left =>
    rw [houtcome] at hleft hcatalog hfault
    cases hexhausted : (workspace.catalog.grow
        (rules.stream (untilFault (course tree settings root)))).exhausted with
    | some cause =>
      rw [hexhausted, Option.map_some, Option.some_or] at hfault
      cases result with
      | ok stats => contradiction
      | error fault =>
        obtain rfl : fault = .exhausted cause := Option.some.inj hfault
        exact .exhausted hfront hreads hleft hcatalog hexhausted
    | none =>
      rw [hexhausted, Option.map_none, Option.none_or] at hfault
      cases result with
      | ok stats =>
        rw [hall hfault.symm] at hreads
        exact .done hreads hleft hcatalog hexhausted
      | error fault =>
        have hblocked := blocked_of_mem_course (mem_of_firstFault hfault.symm)
        exact .stopped hblocked hfront hreads hleft hcatalog hexhausted

/-- Where all source files can be read, a scan adds the candidates of their texts, or it fails
because the codes run out. -/
theorem scan_of_provides (rules : Rules) (before : Catalog)
    {contents : List (SourceKind × String)} (hprovides : Provides tree settings root contents)
    (workspace : Workspace) (htree : workspace.tree = tree) (hbefore : workspace.catalog = before) :
    ((before.grow (rules.stream contents)).exhausted = none ∧
      ∃ stats left, outcome (scan settings rules root) workspace = (.ok stats, left) ∧
        left.tree = tree ∧ left.catalog = (before.grow (rules.stream contents)).catalog) ∨
    ∃ cause, (before.grow (rules.stream contents)).exhausted = some cause ∧
      ∃ left, outcome (scan settings rules root) workspace =
        (.error (.exhausted cause), left) := by
  have hends := goesThrough_scan settings rules root tree workspace htree
  rw [hbefore] at hends
  cases houtcome : outcome (scan settings rules root) workspace with
  | mk result left =>
    rw [houtcome] at hends
    cases hends with
    | @done stats _ found hreads hleft hcatalog hroom =>
      obtain rfl : found = contents := hreads.unique hprovides.reads
      exact .inl ⟨hroom, stats, left, rfl, hleft, hcatalog⟩
    | @exhausted cause _ _ found hfront hreads _ _ hexhausted =>
      obtain ⟨rest, rfl⟩ := hreads.prefix_of_prefix hfront hprovides.reads
      refine .inr ⟨cause, ?_, left, rfl⟩
      rw [rules.stream_append, Catalog.grow_append_of_exhausted hexhausted, hexhausted]
    | stopped hfault => exact absurd hfault hprovides.not_blocked

/-- Where all source files can be read, a scan succeeds as long as there are codes left. -/
theorem exists_scan_of_room {before : Catalog} {contents : List (SourceKind × String)}
    (hprovides : Provides tree settings root contents)
    (hroom : (before.grow (rules.stream contents)).exhausted = none) (workspace : Workspace)
    (htree : workspace.tree = tree) (hbefore : workspace.catalog = before) :
    ∃ stats left, outcome (scan settings rules root) workspace = (.ok stats, left) ∧
      left.tree = tree ∧ left.catalog = (before.grow (rules.stream contents)).catalog := by
  rcases scan_of_provides rules before hprovides workspace htree hbefore with
    ⟨-, hscan⟩ | ⟨cause, hcause, -⟩
  · exact hscan
  · rw [hroom] at hcause
    contradiction

/-! ## Exactly what a scan does -/

namespace Passes

variable {found : List (Except Fault (SourceKind × String))} {work : Work α} {workspace : Workspace}
  (hpasses : Passes rules workspace.tree found work)
include hpasses

theorem extends_catalog :
    workspace.catalog.Extends (outcome work workspace).2.catalog
      ((workspace.catalog.newNames (rules.stream (untilFault found))).take
        workspace.catalog.room) := by
  obtain ⟨-, hcatalog, -⟩ := hpasses workspace rfl
  rw [hcatalog]
  exact Catalog.extends_grow _ _

/-- Codes run out before anything further on can be in the way. -/
theorem fault?_eq :
    fault? (outcome work workspace).1 =
      if workspace.catalog.room <
          (workspace.catalog.newNames (rules.stream (untilFault found))).length then
        some (.exhausted ⟨(outcome work workspace).2.catalog.count⟩)
      else firstFault found := by
  obtain ⟨-, hcatalog, hfault⟩ := hpasses workspace rfl
  rw [hfault, hcatalog, Catalog.exhausted_grow]
  split
  · rfl
  · rfl

theorem fault?_eq_none_iff :
    fault? (outcome work workspace).1 = none ↔ firstFault found = none ∧
      (workspace.catalog.newNames (rules.stream (untilFault found))).length ≤
        workspace.catalog.room := by
  rw [hpasses.fault?_eq]
  split
  case isTrue hfull =>
    refine iff_of_false (Option.some_ne_none _) ?_
    rintro ⟨-, hroom⟩
    exact absurd hfull (Nat.not_lt_of_le hroom)
  case isFalse hroom => exact (and_iff_left (Nat.le_of_not_lt hroom)).symm

theorem eq_exhausted_iff (hother : ∀ cause, firstFault found ≠ some (.exhausted cause))
    {cause : Code.Exhausted} :
    (outcome work workspace).1 = .error (.exhausted cause) ↔
      workspace.catalog.RunsOut (outcome work workspace).2.catalog
        (rules.stream (untilFault found)) cause := by
  obtain ⟨-, hcatalog, hfault⟩ := hpasses workspace rfl
  rw [hcatalog, ← Catalog.exhausted_grow_iff, ← fault?_eq_some_iff, hfault]
  cases (workspace.catalog.grow (rules.stream (untilFault found))).exhausted with
  | some counter =>
    simp only [Option.map_some, Option.some_or, Option.some_inj, Fault.exhausted.injEq]
  | none => exact iff_of_false (hother cause) (Option.some_ne_none cause).symm

theorem eq_blocked_iff (hother : ∀ cause, firstFault found ≠ some (.exhausted cause))
    {fault : Fault} :
    (outcome work workspace).1 = .error fault ∧ (∀ cause, fault ≠ .exhausted cause) ↔
      firstFault found = some fault ∧
        (workspace.catalog.newNames (rules.stream (untilFault found))).length ≤
          workspace.catalog.room := by
  rw [← fault?_eq_some_iff, hpasses.fault?_eq]
  split
  case isTrue hfull =>
    apply iff_of_false
    · rintro ⟨heq, hnot⟩
      exact absurd (Option.some.inj heq).symm (hnot _)
    · rintro ⟨-, hroom⟩
      exact absurd hfull (Nat.not_lt_of_le hroom)
  case isFalse hroom =>
    constructor
    · rintro ⟨hblocked, -⟩
      exact ⟨hblocked, Nat.le_of_not_lt hroom⟩
    · rintro ⟨hblocked, -⟩
      exact ⟨hblocked, fun cause heq => hother cause (heq ▸ hblocked)⟩

end Passes

/-- Being in the way of a scan is not a want of codes. -/
theorem firstFault_course_ne (cause : Code.Exhausted) :
    firstFault (course tree settings root) ≠ some (.exhausted cause) := by
  intro hfault
  cases blocked_of_mem_course (mem_of_firstFault hfault)

/-- The numbers of a scan that gives a result. -/
theorem stats_of_scan {workspace left : Workspace} {stats : ScanStats} {added : List String}
    (houtcome : outcome (scan settings rules root) workspace = (.ok stats, left))
    (hextends : workspace.catalog.Extends left.catalog added) :
    stats = ⟨(sources workspace.tree settings root).length, added.length⟩ := by
  have hscanned := scan_eq_ok houtcome
  have hfiles := hscanned.scannedFiles_eq
  have hsize := hscanned.size_eq
  have hlarger := hextends.size_eq
  obtain ⟨scannedFiles, addedSelectors⟩ := stats
  simp only [ScanStats.mk.injEq]
  simp only at hfiles hsize
  omega

/-- A scan adds as many of the new names that it comes across as there are codes.  It gives a result
if nothing is in its way and there are codes for all of them, fails for want of a code if it comes
to a new name when the counter is used up, and otherwise fails at what is in its way, having added
what it came across before. -/
theorem scan_adds_exactly (settings : Settings) (rules : Rules) (root : Path)
    (workspace : Workspace) :
    let before := workspace.catalog
    let found := course workspace.tree settings root
    let stream := rules.stream (untilFault found)
    let new := before.newNames stream
    let result := (outcome (scan settings rules root) workspace).1
    let left := (outcome (scan settings rules root) workspace).2
    left.tree = workspace.tree ∧
      before.Extends left.catalog (new.take before.room) ∧
      (∀ stats, result = .ok stats ↔
        firstFault found = none ∧ new.length ≤ before.room ∧
          stats = ⟨(sources workspace.tree settings root).length, new.length⟩) ∧
      (∀ cause, result = .error (.exhausted cause) ↔
        before.RunsOut left.catalog stream cause) ∧
      ∀ fault, result = .error fault ∧ (∀ cause, fault ≠ .exhausted cause) ↔
        firstFault found = some fault ∧ new.length ≤ before.room := by
  intro before found stream new result left
  have hpasses := passes_scan settings rules root workspace.tree
  have hextends : before.Extends left.catalog (new.take before.room) := hpasses.extends_catalog
  have hclear : fault? result = none ↔ firstFault found = none ∧ new.length ≤ before.room :=
    hpasses.fault?_eq_none_iff
  -- When there is room for all new names, they are what a scan adds.
  have hstats : ∀ stats, result = .ok stats → new.length ≤ before.room →
      stats = ⟨(sources workspace.tree settings root).length, new.length⟩ := by
    intro stats hresult hroom
    rw [List.take_of_length_le hroom] at hextends
    exact stats_of_scan (Prod.ext hresult rfl) hextends
  refine ⟨(hpasses workspace rfl).1, hextends, ?succeeds,
    fun cause => hpasses.eq_exhausted_iff firstFault_course_ne,
    fun fault => hpasses.eq_blocked_iff firstFault_course_ne⟩
  intro stats
  rw [← and_assoc, ← hclear]
  cases hresult : result with
  | error fault => exact iff_of_false nofun fun hnone => Option.some_ne_none fault hnone.1
  | ok given =>
    have hgiven := hstats given hresult (hclear.mp (by rw [hresult, fault?])).2
    rw [Except.ok.injEq, ← hgiven]
    exact ⟨fun heq => ⟨rfl, heq.symm⟩, fun hsame => hsame.2.symm⟩

end Site

end SelectorMangling
