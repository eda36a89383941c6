import SelectorMangling.Proofs.Result
import SelectorMangling.Site.Workspace

/-!
# What a piece of work comes to

A piece of work gives a result or a fault, and leaves a workspace behind in either case.  A property
of workspaces is kept by a piece of work if it holds afterwards whatever the work came to.
-/

namespace SelectorMangling

variable {α β : Type}

namespace Site

/-- The result of a piece of work on a workspace, and the workspace that it leaves. -/
def outcome (work : Work α) (workspace : Workspace) : Except Fault α × Workspace :=
  work.run.run workspace

@[simp]
theorem outcome_pure (value : α) (workspace : Workspace) :
    outcome (pure value) workspace = (.ok value, workspace) := rfl

@[simp]
theorem outcome_throw (fault : Fault) (workspace : Workspace) :
    outcome (throw fault : Work α) workspace = (.error fault, workspace) := rfl

@[simp]
theorem outcome_get (workspace : Workspace) :
    outcome get workspace = (.ok workspace, workspace) := rfl

@[simp]
theorem outcome_set (left workspace : Workspace) :
    outcome (set left) workspace = (.ok ⟨⟩, left) := rfl

@[simp]
theorem outcome_modify (change : Workspace → Workspace) (workspace : Workspace) :
    outcome (modify change) workspace = (.ok ⟨⟩, change workspace) := rfl

theorem outcome_bind (work : Work α) (next : α → Work β) (workspace : Workspace) :
    outcome (work >>= next) workspace =
      match outcome work workspace with
      | (.ok value, left) => outcome (next value) left
      | (.error fault, left) => (.error fault, left) := by
  simp only [outcome, ExceptT.run_bind, StateT.run_bind]
  cases work.run.run workspace with
  | mk result left => cases result <;> rfl

theorem outcome_tryCatch (work : Work α) (handle : Fault → Work α) (workspace : Workspace) :
    outcome (tryCatch work handle) workspace =
      match outcome work workspace with
      | (.ok value, left) => (.ok value, left)
      | (.error fault, left) => outcome (handle fault) left := by
  simp only [outcome, ExceptT.run_tryCatch, StateT.run_bind]
  cases work.run.run workspace with
  | mk result left => cases result <;> rfl

/-- A piece of work in two parts gives a result if and only if both parts do. -/
theorem outcome_bind_eq_ok {work : Work α} {next : α → Work β} {workspace left : Workspace}
    {result : β} (houtcome : outcome (work >>= next) workspace = (.ok result, left)) :
    ∃ value between, outcome work workspace = (.ok value, between) ∧
      outcome (next value) between = (.ok result, left) := by
  rw [outcome_bind] at houtcome
  cases hwork : outcome work workspace with
  | mk first between =>
    rw [hwork] at houtcome
    cases first with
    | error fault => simp at houtcome
    | ok value => exact ⟨value, between, rfl, houtcome⟩

/-- A piece of work in two parts fails if the first part fails, or the second one after it. -/
theorem outcome_bind_eq_error {work : Work α} {next : α → Work β} {workspace left : Workspace}
    {fault : Fault} (houtcome : outcome (work >>= next) workspace = (.error fault, left)) :
    outcome work workspace = (.error fault, left) ∨
      ∃ value between, outcome work workspace = (.ok value, between) ∧
        outcome (next value) between = (.error fault, left) := by
  rw [outcome_bind] at houtcome
  cases hwork : outcome work workspace with
  | mk first between =>
    rw [hwork] at houtcome
    cases first with
    | error cause =>
      obtain ⟨hcause, hleft⟩ := Prod.mk.inj houtcome
      rw [Except.error.inj hcause, hleft]
      exact .inl rfl
    | ok value => exact .inr ⟨value, between, rfl, houtcome⟩

@[simp]
theorem outcome_tell (event : Event) (workspace : Workspace) :
    outcome (tell event) workspace =
      (.ok ⟨⟩, { workspace with events := workspace.events.push event }) := rfl

@[simp]
theorem outcome_tellAll (events : List Event) (workspace : Workspace) :
    outcome (tellAll events) workspace =
      (.ok ⟨⟩, { workspace with events := workspace.events ++ events }) := rfl

theorem outcome_onFault (work : Work α) (event : Event) (workspace : Workspace) :
    outcome (onFault work event) workspace =
      match outcome work workspace with
      | (.ok value, left) => (.ok value, left)
      | (.error fault, left) =>
        (.error fault,
          if fault.isReturned then { left with events := left.events.push event } else left) := by
  rw [onFault, outcome_tryCatch]
  rcases outcome work workspace with ⟨⟨fault⟩ | ⟨value⟩, left⟩
  · cases hreturned : fault.isReturned with
    | false => simp [hreturned]
    | true =>
      simp only [hreturned, if_true]
      rfl
  · rfl

theorem outcome_readFile (path : Path) (workspace : Workspace) :
    outcome (readFile path) workspace =
      ((workspace.tree.readText path).mapError (.read path), workspace) := by
  simp only [readFile, outcome_bind, outcome_get]
  cases workspace.tree.readText path <;> rfl

theorem outcome_saveCatalog (path : Path) (workspace : Workspace) :
    outcome (saveCatalog path) workspace =
      ((workspace.catalog.save workspace.tree path).2.mapError .save,
        { workspace with tree := (workspace.catalog.save workspace.tree path).1 }) := by
  simp only [saveCatalog, outcome_bind, outcome_get, outcome_set]
  cases (workspace.catalog.save workspace.tree path).2 <;> rfl

theorem outcome_writeFile (path : Path) (text : String) (workspace : Workspace) :
    outcome (writeFile path text) workspace =
      match workspace.tree.writeText path text with
      | .ok tree => (.ok ⟨⟩, { workspace with tree })
      | .error fault => (.error (.write path fault), workspace) := by
  simp only [writeFile, outcome_bind, outcome_get]
  cases workspace.tree.writeText path text <;> rfl

theorem outcome_loadCatalog (path : Path) (workspace : Workspace) :
    outcome (loadCatalog path) workspace =
      match Catalog.load workspace.tree path with
      | .ok catalog => (.ok ⟨⟩, { workspace with catalog })
      | .error fault => (.error (.load fault), workspace) := by
  simp only [loadCatalog, outcome_bind, outcome_get]
  cases Catalog.load workspace.tree path <;> rfl

/-- A property of workspaces holds after a piece of work, whatever the work came to. -/
def Keeps (holds : Workspace → Prop) (work : Work α) : Prop :=
  ∀ workspace, holds workspace → holds (outcome work workspace).2

/-- Where a property of workspaces holds, a piece of work gives only values of some kind. -/
def Yields (holds : Workspace → Prop) (work : Work α) (expected : α → Prop) : Prop :=
  ∀ workspace value, holds workspace → (outcome work workspace).1 = .ok value → expected value

/-- A property of workspaces does not depend on what has been told. -/
def IgnoresEvents (holds : Workspace → Prop) : Prop :=
  ∀ workspace events, holds workspace → holds { workspace with events }

namespace Keeps

variable {holds : Workspace → Prop}

theorem pure (value : α) : Keeps holds (pure value : Work α) := fun _ hholds => hholds

theorem throw (fault : Fault) : Keeps holds (throw fault : Work α) := fun _ hholds => hholds

theorem get : Keeps holds (get : Work Workspace) := fun _ hholds => hholds

/-- The second part may rely on what the first one yields. -/
theorem bind {work : Work α} {next : α → Work β} {expected : α → Prop} (hwork : Keeps holds work)
    (hyields : Yields holds work expected)
    (hnext : ∀ value, expected value → Keeps holds (next value)) : Keeps holds (work >>= next) := by
  intro workspace hholds
  have hbetween := hwork workspace hholds
  have hvalue := hyields workspace
  rw [outcome_bind]
  cases hfirst : outcome work workspace with
  | mk first between =>
    rw [hfirst] at hbetween hvalue
    cases first with
    | error fault => exact hbetween
    | ok value => exact hnext value (hvalue value hholds rfl) between hbetween

theorem bind_any {work : Work α} {next : α → Work β} (hwork : Keeps holds work)
    (hnext : ∀ value, Keeps holds (next value)) : Keeps holds (work >>= next) := by
  have hyields : Yields holds work fun _ => True := fun _ _ _ _ => trivial
  exact hwork.bind hyields fun value _ => hnext value

theorem tell (hevents : IgnoresEvents holds) (event : Event) : Keeps holds (tell event) :=
  fun workspace hholds => hevents workspace _ hholds

theorem onFault {work : Work α} (hevents : IgnoresEvents holds) (hwork : Keeps holds work)
    (event : Event) : Keeps holds (onFault work event) := by
  intro workspace hholds
  have hleft := hwork workspace hholds
  rw [outcome_onFault]
  cases houtcome : outcome work workspace with
  | mk result left =>
    rw [houtcome] at hleft
    cases result with
    | ok value => exact hleft
    | error fault =>
      dsimp only
      split
      · exact hevents left _ hleft
      · exact hleft

end Keeps

/-- Where a property of workspaces holds, a piece of work gives a result and the property holds
afterwards. -/
def Completes (holds : Workspace → Prop) (work : Work α) : Prop :=
  ∀ workspace, holds workspace →
    ∃ value left, outcome work workspace = (.ok value, left) ∧ holds left

namespace Completes

variable {holds : Workspace → Prop}

theorem pure (value : α) : Completes holds (pure value : Work α) :=
  fun workspace hholds => ⟨value, workspace, rfl, hholds⟩

theorem bind {work : Work α} {next : α → Work β} {expected : α → Prop}
    (hwork : Completes holds work) (hyields : Yields holds work expected)
    (hnext : ∀ value, expected value → Completes holds (next value)) :
    Completes holds (work >>= next) := by
  intro workspace hholds
  obtain ⟨value, between, hfirst, hbetween⟩ := hwork workspace hholds
  have hexpected := hyields workspace value hholds (by rw [hfirst])
  rw [outcome_bind, hfirst]
  exact hnext value hexpected between hbetween

theorem bind_any {work : Work α} {next : α → Work β} (hwork : Completes holds work)
    (hnext : ∀ value, Completes holds (next value)) : Completes holds (work >>= next) := by
  have hyields : Yields holds work fun _ => True := fun _ _ _ _ => trivial
  exact hwork.bind hyields fun value _ => hnext value

theorem tell (hevents : IgnoresEvents holds) (event : Event) : Completes holds (tell event) :=
  fun workspace hholds => ⟨_, _, rfl, hevents workspace _ hholds⟩

theorem onFault {work : Work α} (hwork : Completes holds work) (event : Event) :
    Completes holds (onFault work event) := by
  intro workspace hholds
  obtain ⟨value, left, hvalue, hleft⟩ := hwork workspace hholds
  exact ⟨value, left, by rw [outcome_onFault, hvalue], hleft⟩

end Completes

end Site

end SelectorMangling
