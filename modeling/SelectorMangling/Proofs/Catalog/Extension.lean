import SelectorMangling.Proofs.Catalog.Streams

/-!
# What a stream of names adds

A stream adds the names that are not cataloged yet, each one once, in the order in which they first
come, and gives them the codes of the counter values from the present one on.  It adds all of them
if there are codes for all of them; otherwise it adds as many as there are codes.
-/

namespace SelectorMangling

namespace Code

theorem ofCounter_eq_error_iff {counter : Nat} {cause : Exhausted} :
    ofCounter counter = .error cause ↔ capacity ≤ counter ∧ cause = ⟨counter⟩ := by
  rw [← letters?_eq_none_iff, ofCounter]
  cases letters? counter with
  | none => simp [eq_comm]
  | some letters => by_cases htag : isBuiltinTag letters = true <;> simp [htag]

end Code

namespace Catalog

variable {catalog before between after : Catalog}

/-- The names of a stream that are not cataloged yet, each one once, in the order in which they
first come. -/
def newNames (catalog : Catalog) (stream : List String) : List String :=
  (stream.filter fun name => !catalog.contains name).eraseDups

/-- Number of names that there are codes for. -/
def room (catalog : Catalog) : Nat := Code.capacity - catalog.count

/-- A later catalog is an earlier one with more names behind, and these have the codes of the
counter values from the earlier counter on. -/
structure Extends (before after : Catalog) (added : List String) : Prop where
  entries_prefix : before.entries <+: after.entries
  names_eq : after.names = before.names ++ added
  code : ∀ (place : Nat) (name : String), added[place]? = some name →
    ∃ code, Code.ofCounter (before.count + place) = .ok code ∧ after.get? name = some code
  count_eq : after.count = before.count + added.length

namespace Extends

variable {added more : List String}

theorem refl (catalog : Catalog) : Extends catalog catalog [] where
  entries_prefix := List.prefix_refl _
  names_eq := (List.append_nil _).symm
  code := by simp
  count_eq := rfl

theorem trans (hfirst : Extends before between added) (hlast : Extends between after more) :
    Extends before after (added ++ more) where
  entries_prefix := hfirst.entries_prefix.trans hlast.entries_prefix
  names_eq := by rw [hlast.names_eq, hfirst.names_eq, List.append_assoc]
  code := by
    intro place name hname
    rw [List.getElem?_append] at hname
    split at hname
    · obtain ⟨code, hcode, hget⟩ := hfirst.code place name hname
      exact ⟨code, hcode, get?_eq_some_of_prefix hlast.entries_prefix hget⟩
    · next hbehind =>
      obtain ⟨code, hcode, hget⟩ := hlast.code _ name hname
      have hcounter : between.count + (place - added.length) = before.count + place := by
        rw [hfirst.count_eq]
        omega
      rw [hcounter] at hcode
      exact ⟨code, hcode, hget⟩
  count_eq := by rw [hlast.count_eq, hfirst.count_eq, List.length_append, Nat.add_assoc]

theorem size_eq (hextends : Extends before after added) :
    after.size = before.size + added.length := by
  have hlength := congrArg List.length hextends.names_eq
  simpa [names, size] using hlength

end Extends

theorem extends_add {name code : String} (hnew : name ∉ catalog.names)
    (hadd : catalog.add name = .ok (code, after)) : Extends catalog after [name] := by
  obtain ⟨hcode, hentries, hcount⟩ := add_eq_ok hnew hadd
  constructor
  · rw [hentries]
    exact List.prefix_append _ _
  · simp [names, hentries]
  · intro place found hfound
    obtain ⟨rfl, rfl⟩ : place = 0 ∧ name = found := by
      simpa [List.getElem?_singleton] using hfound
    refine ⟨code, hcode, get?_eq_some_iff.mpr ?_⟩
    rw [hentries]
    exact List.mem_append_right _ (List.mem_singleton_self _)
  · exact hcount

theorem mem_newNames_iff {stream : List String} {name : String} :
    name ∈ catalog.newNames stream ↔ name ∈ stream ∧ name ∉ catalog.names := by
  simp [newNames, contains]

theorem newNames_cons_of_contains {name : String} (hcontains : catalog.contains name = true)
    (rest : List String) : catalog.newNames (name :: rest) = catalog.newNames rest := by
  simp [newNames, hcontains]

/-- After a new name has been added, it is not new any more. -/
theorem newNames_cons_of_add {name code : String} (hnew : name ∉ catalog.names)
    (hadd : catalog.add name = .ok (code, after)) (rest : List String) :
    catalog.newNames (name :: rest) = name :: after.newNames rest := by
  have hcontains : catalog.contains name = false := by simpa [contains] using hnew
  have hafter : ∀ other, after.contains other = (catalog.contains other || other == name) := by
    intro other
    simp [contains, (extends_add hnew hadd).names_eq, beq_eq_decide]
  rw [newNames, List.filter_cons_of_pos (by simp [hcontains]), List.eraseDups_cons,
    List.filter_filter, newNames]
  congr 3
  funext other
  rw [hafter, Bool.not_or, Bool.and_comm]

theorem room_of_add {name code : String} (hnew : name ∉ catalog.names)
    (hadd : catalog.add name = .ok (code, after)) : catalog.room = after.room + 1 := by
  obtain ⟨hcode, -, hcount⟩ := add_eq_ok hnew hadd
  have hlt := Code.lt_capacity_of_ofCounter hcode
  rw [room, room, hcount]
  omega

/-- A new name is none of those that the stream in front of it adds. -/
theorem length_newNames_lt {front : List String} (rest : List String) {name : String}
    (hnew : name ∉ catalog.names) (hfront : name ∉ front) :
    (catalog.newNames front).length < (catalog.newNames (front ++ name :: rest)).length := by
  rw [newNames, newNames, List.filter_append, List.eraseDups_append, List.length_append]
  apply Nat.lt_add_of_pos_right
  apply List.length_pos_of_mem (a := name)
  rw [List.mem_eraseDups, List.removeAll, List.mem_filter]
  constructor
  · simp [contains, hnew]
  · simp [hfront]

/-- A stream adds as many of its new names as there are codes. -/
theorem extends_grow (catalog : Catalog) (stream : List String) :
    Extends catalog (catalog.grow stream).catalog
      ((catalog.newNames stream).take catalog.room) := by
  induction stream generalizing catalog with
  | nil =>
    rw [newNames, List.filter_nil, List.eraseDups_nil, List.take_nil]
    exact .refl catalog
  | cons name rest ih =>
    rw [grow]
    by_cases hcontains : catalog.contains name = true
    · rw [if_pos hcontains, newNames_cons_of_contains hcontains]
      exact ih catalog
    · rw [if_neg hcontains]
      have hnew : name ∉ catalog.names := by simpa [contains] using hcontains
      cases hadd : catalog.add name with
      | error cause =>
        have hfull := (Code.ofCounter_eq_error_iff.mp (add_eq_error_iff.mp hadd)).1
        rw [room, Nat.sub_eq_zero_of_le hfull]
        exact .refl catalog
      | ok entry =>
        rw [newNames_cons_of_add hnew hadd, room_of_add hnew hadd, List.take_succ_cons]
        exact (extends_add hnew hadd).trans (ih entry.2)

/-- The codes run out if there are more new names than codes, at the first counter value that has
none. -/
theorem exhausted_grow (catalog : Catalog) (stream : List String) :
    (catalog.grow stream).exhausted =
      if catalog.room < (catalog.newNames stream).length then
        some ⟨(catalog.grow stream).catalog.count⟩
      else none := by
  induction stream generalizing catalog with
  | nil => simp [grow, newNames]
  | cons name rest ih =>
    rw [grow]
    by_cases hcontains : catalog.contains name = true
    · rw [if_pos hcontains, newNames_cons_of_contains hcontains]
      exact ih catalog
    · rw [if_neg hcontains]
      have hnew : name ∉ catalog.names := by simpa [contains] using hcontains
      cases hadd : catalog.add name with
      | error cause =>
        obtain ⟨hfull, rfl⟩ := Code.ofCounter_eq_error_iff.mp (add_eq_error_iff.mp hadd)
        have hmem : name ∈ catalog.newNames (name :: rest) :=
          mem_newNames_iff.mpr ⟨List.mem_cons_self, hnew⟩
        have hpos : catalog.room < (catalog.newNames (name :: rest)).length := by
          rw [room, Nat.sub_eq_zero_of_le hfull]
          exact List.length_pos_of_mem hmem
        rw [if_pos hpos]
      | ok entry =>
        simp only [newNames_cons_of_add hnew hadd, room_of_add hnew hadd, List.length_cons,
          Nat.add_lt_add_iff_right]
        exact ih entry.2

/-- A stream comes to a new name when all new names in front of it have been added and the counter
is at a value without a code. -/
def RunsOut (before after : Catalog) (stream : List String) (cause : Code.Exhausted) : Prop :=
  ∃ front name rest, stream = front ++ name :: rest ∧ name ∉ before.names ∧ name ∉ front ∧
    Extends before after (before.newNames front) ∧ Code.capacity ≤ after.count ∧
    cause = ⟨after.count⟩

namespace RunsOut

variable {first : String} {rest : List String} {after : Catalog} {cause : Code.Exhausted}

theorem cons_of_contains (hruns : RunsOut catalog after rest cause)
    (hcontains : catalog.contains first = true) :
    RunsOut catalog after (first :: rest) cause := by
  obtain ⟨front, name, behind, rfl, hnew, hfront, hextends, hfull⟩ := hruns
  have hfirst : first ∈ catalog.names := by simpa [contains] using hcontains
  refine ⟨first :: front, name, behind, rfl, hnew, ?_, ?_, hfull⟩
  · rintro (_ | ⟨_, hmem⟩)
    · exact hnew hfirst
    · exact hfront hmem
  · rwa [newNames_cons_of_contains hcontains]

theorem cons_of_add {entry : String × Catalog} (hruns : RunsOut entry.2 after rest cause)
    (hfirst : first ∉ catalog.names) (hadd : catalog.add first = .ok entry) :
    RunsOut catalog after (first :: rest) cause := by
  obtain ⟨front, name, behind, rfl, hnew, hfront, hextends, hfull⟩ := hruns
  have hadded := extends_add hfirst hadd
  rw [hadded.names_eq, List.mem_append, List.mem_singleton, not_or] at hnew
  refine ⟨first :: front, name, behind, rfl, hnew.1, ?_, ?_, hfull⟩
  · rintro (_ | ⟨_, hmem⟩)
    · exact hnew.2 rfl
    · exact hfront hmem
  · rw [newNames_cons_of_add hfirst hadd]
    exact hadded.trans hextends

end RunsOut

theorem runsOut_of_exhausted {stream : List String} {cause : Code.Exhausted}
    (hexhausted : (catalog.grow stream).exhausted = some cause) :
    RunsOut catalog (catalog.grow stream).catalog stream cause := by
  induction stream generalizing catalog with
  | nil => simp [grow] at hexhausted
  | cons first rest ih =>
    rw [grow] at hexhausted ⊢
    by_cases hcontains : catalog.contains first = true
    · rw [if_pos hcontains] at hexhausted ⊢
      exact (ih hexhausted).cons_of_contains hcontains
    · rw [if_neg hcontains] at hexhausted ⊢
      have hfirst : first ∉ catalog.names := by simpa [contains] using hcontains
      cases hadd : catalog.add first with
      | error found =>
        rw [hadd] at hexhausted
        obtain rfl : found = cause := Option.some.inj hexhausted
        obtain ⟨hfull, hfound⟩ := Code.ofCounter_eq_error_iff.mp (add_eq_error_iff.mp hadd)
        exact ⟨[], first, rest, rfl, hfirst, List.not_mem_nil, .refl catalog, hfull, hfound⟩
      | ok entry =>
        rw [hadd] at hexhausted
        exact (ih hexhausted).cons_of_add hfirst hadd

theorem exhausted_grow_iff {stream : List String} {cause : Code.Exhausted} :
    (catalog.grow stream).exhausted = some cause ↔
      RunsOut catalog (catalog.grow stream).catalog stream cause := by
  refine ⟨runsOut_of_exhausted, ?_⟩
  rintro ⟨front, name, rest, rfl, hnew, hfront, hextends, hfull, rfl⟩
  have hlt := length_newNames_lt rest hnew hfront
  have hcount := hextends.count_eq
  rw [exhausted_grow, if_pos]
  rw [room]
  omega

end Catalog

end SelectorMangling
