/-!
# Results and faults

What steps that may fail come to one after another: a step is done only if those before it gave
their values, so of a list of results only the values in front of the first fault count.
-/

namespace SelectorMangling

variable {α β ε : Type}

theorem exists_of_bind_eq_ok {first : Except ε α} {next : α → Except ε β} {result : β}
    (hbind : first >>= next = .ok result) :
    ∃ value, first = .ok value ∧ next value = .ok result := by
  cases first with
  | error fault => contradiction
  | ok value => exact ⟨value, rfl, hbind⟩

theorem mapError_eq_ok_iff {ζ : Type} {result : Except ε α} {change : ε → ζ} {value : α} :
    result.mapError change = .ok value ↔ result = .ok value := by
  cases result with
  | error fault => exact iff_of_false nofun nofun
  | ok found =>
    change Except.ok found = .ok value ↔ _
    rw [Except.ok.injEq, Except.ok.injEq]

theorem exists_of_mapError_eq_error {ζ : Type} {result : Except ε α} {change : ε → ζ}
    {fault : ζ} (hmap : result.mapError change = .error fault) :
    ∃ cause, result = .error cause ∧ change cause = fault := by
  cases result with
  | error cause => exact ⟨cause, rfl, Except.error.inj hmap⟩
  | ok value => contradiction

/-! ## Lists of results -/

/-- The values in front of the first fault of a list. -/
def untilFault : List (Except ε α) → List α
  | .ok value :: rest => value :: untilFault rest
  | _ => []

def firstFault : List (Except ε α) → Option ε
  | [] => none
  | .ok _ :: rest => firstFault rest
  | .error fault :: _ => some fault

theorem firstFault_append (first last : List (Except ε α)) :
    firstFault (first ++ last) = (firstFault first).or (firstFault last) := by
  induction first with
  | nil => rfl
  | cons result rest ih =>
    cases result with
    | ok value => exact ih
    | error fault => rfl

theorem untilFault_append_of_none {first : List (Except ε α)} (hnone : firstFault first = none)
    (last : List (Except ε α)) :
    untilFault (first ++ last) = untilFault first ++ untilFault last := by
  induction first with
  | nil => rfl
  | cons result rest ih =>
    cases result with
    | ok value => exact congrArg (value :: ·) (ih hnone)
    | error fault => contradiction

theorem untilFault_append_of_some {first : List (Except ε α)} {fault : ε}
    (hsome : firstFault first = some fault) (last : List (Except ε α)) :
    untilFault (first ++ last) = untilFault first := by
  induction first with
  | nil => contradiction
  | cons result rest ih =>
    cases result with
    | ok value => exact congrArg (value :: ·) (ih hsome)
    | error fault => rfl

theorem untilFault_prefix_append (first last : List (Except ε α)) :
    untilFault first <+: untilFault (first ++ last) := by
  cases hfault : firstFault first with
  | none =>
    rw [untilFault_append_of_none hfault]
    exact List.prefix_append _ _
  | some fault =>
    exact untilFault_append_of_some hfault last ▸ List.prefix_refl _

theorem eq_map_ok_of_firstFault {results : List (Except ε α)} (hnone : firstFault results = none) :
    results = (untilFault results).map .ok := by
  induction results with
  | nil => rfl
  | cons result rest ih =>
    cases result with
    | ok value => exact congrArg (.ok value :: ·) (ih hnone)
    | error fault => contradiction

theorem mem_of_firstFault {results : List (Except ε α)} {fault : ε}
    (hsome : firstFault results = some fault) : .error fault ∈ results := by
  induction results with
  | nil => contradiction
  | cons result rest ih =>
    cases result with
    | ok value => exact List.mem_cons_of_mem _ (ih hsome)
    | error found =>
      obtain rfl : found = fault := Option.some.inj hsome
      exact List.mem_cons_self

end SelectorMangling
