import SelectorMangling.Proofs.Catalog.Format
import SelectorMangling.Proofs.Catalog.Stability

/-!
# Streams of names in parts

A catalog may be extended by a stream of names at once or part by part, and between the parts the
family may be numbered anew.  The names that come in are the same either way, and a catalog with
settled codes is told by its names.
-/

namespace SelectorMangling.Catalog

variable {catalog left right : Catalog}

theorem add_eq_error_iff {name : String} {cause : Code.Exhausted} :
    catalog.add name = .error cause ↔ Code.ofCounter catalog.count = .error cause := by
  unfold add allocate
  constructor
  · intro hadd
    split at hadd
    · next found hallocate =>
      split at hallocate
      · next other hcode =>
        rw [hcode, Except.error.inj hallocate, Except.error.inj hadd]
      · contradiction
    · contradiction
  · intro hcode
    split
    · next found hallocate =>
      split at hallocate
      · next other hother =>
        rw [hcode] at hother
        rw [← Except.error.inj hallocate, Except.error.inj hother]
      · contradiction
    · next advancedCode advanced hallocate =>
      split at hallocate
      · contradiction
      · next code hother =>
        rw [hcode] at hother
        contradiction

/-- A stream that used up the codes adds nothing more, whatever follows. -/
theorem grow_append_of_exhausted {first : List String} {cause : Code.Exhausted}
    (hexhausted : (catalog.grow first).exhausted = some cause) (last : List String) :
    catalog.grow (first ++ last) = catalog.grow first := by
  induction first generalizing catalog with
  | nil => simp [grow] at hexhausted
  | cons name rest ih =>
    rw [List.cons_append, grow, grow]
    rw [grow] at hexhausted
    split at hexhausted
    · next hcontains => rw [if_pos hcontains, if_pos hcontains, ih hexhausted]
    · next hcontains =>
      rw [if_neg hcontains, if_neg hcontains]
      cases hadd : catalog.add name with
      | error found => rfl
      | ok entry =>
        rw [hadd] at hexhausted
        simp only [ih hexhausted]

/-- As long as there are codes, growing by two streams is growing by the first and then by the
second. -/
theorem grow_append {first : List String} (hroom : (catalog.grow first).exhausted = none)
    (last : List String) :
    (catalog.grow (first ++ last)).catalog = ((catalog.grow first).catalog.grow last).catalog ∧
      (catalog.grow (first ++ last)).exhausted =
        ((catalog.grow first).catalog.grow last).exhausted := by
  induction first generalizing catalog with
  | nil => exact ⟨rfl, rfl⟩
  | cons name rest ih =>
    rw [List.cons_append, grow, grow]
    rw [grow] at hroom
    split at hroom
    · next hcontains =>
      rw [if_pos hcontains, if_pos hcontains]
      exact ih hroom
    · next hcontains =>
      rw [if_neg hcontains, if_neg hcontains]
      cases hadd : catalog.add name with
      | error found => simp [hadd] at hroom
      | ok entry =>
        rw [hadd] at hroom
        exact ih hroom

/-- As long as there are codes, all names of a stream are cataloged in the end. -/
theorem mem_names_grow_iff {stream : List String} (hroom : (catalog.grow stream).exhausted = none)
    {name : String} :
    name ∈ (catalog.grow stream).catalog.names ↔ name ∈ catalog.names ∨ name ∈ stream := by
  constructor
  · exact fun hname => (grows_grow catalog fun _ hmem => hmem).mem_names hname
  · induction stream generalizing catalog with
    | nil => exact fun hname => hname.resolve_right List.not_mem_nil
    | cons first rest ih =>
      rw [grow] at hroom ⊢
      rw [List.mem_cons, ← or_assoc]
      split at hroom
      · next hcontains =>
        rw [if_pos hcontains]
        have hfirst : first ∈ catalog.names := by simpa [contains] using hcontains
        rintro ((hold | rfl) | hlater)
        · exact ih hroom (.inl hold)
        · exact ih hroom (.inl hfirst)
        · exact ih hroom (.inr hlater)
      · next hcontains =>
        rw [if_neg hcontains]
        have hnew : first ∉ catalog.names := by simpa [contains] using hcontains
        cases hadd : catalog.add first with
        | error cause => simp [hadd] at hroom
        | ok entry =>
          obtain ⟨code, larger⟩ := entry
          rw [hadd] at hroom
          have hlarger : larger.names = catalog.names ++ [first] := by
            simp [names, (add_eq_ok hnew hadd).2.1]
          rintro (hfront | hlater)
          · exact ih hroom (.inl (by rw [hlarger]; simpa using hfront))
          · exact ih hroom (.inr hlater)

/-- What growing comes to is told by the entries and the counter. -/
theorem grow_eq_of_entries_eq {stream : List String} {grown : Catalog}
    (hgrowth : ((catalog.grow stream).exhausted, (catalog.grow stream).catalog.entries,
      (catalog.grow stream).catalog.count) = (none, grown.entries, grown.count)) :
    (catalog.grow stream).exhausted = none ∧ (catalog.grow stream).catalog = grown := by
  simp only [Prod.mk.injEq] at hgrowth
  obtain ⟨hroom, hentries, hcount⟩ := hgrowth
  exact ⟨hroom, eq_of_entries_eq hentries hcount⟩

/-! ## Catalogs with the same names -/

/-- Two catalogs have the same names and counters, though maybe other codes. -/
structure SameNames (left right : Catalog) : Prop where
  names : left.names = right.names
  count : left.count = right.count

namespace SameNames

theorem refl (catalog : Catalog) : SameNames catalog catalog := ⟨rfl, rfl⟩

theorem symm (hsame : SameNames left right) : SameNames right left :=
  ⟨hsame.names.symm, hsame.count.symm⟩

theorem trans (hfirst : SameNames left catalog) (hlast : SameNames catalog right) :
    SameNames left right :=
  ⟨hfirst.names.trans hlast.names, hfirst.count.trans hlast.count⟩

theorem deriveElevation (hsame : SameNames left right) (stem : String) :
    SameNames (left.deriveElevation stem) right where
  names := (names_deriveElevation left stem).trans hsame.names
  count := (count_deriveElevation left stem).trans hsame.count

theorem add (hsame : SameNames left right) {name leftCode rightCode : String}
    {leftLarger rightLarger : Catalog} (hnew : name ∉ left.names)
    (hleft : left.add name = .ok (leftCode, leftLarger))
    (hright : right.add name = .ok (rightCode, rightLarger)) :
    SameNames leftLarger rightLarger := by
  obtain ⟨-, hleftEntries, hleftCount⟩ := add_eq_ok hnew hleft
  obtain ⟨-, hrightEntries, hrightCount⟩ := add_eq_ok (hsame.names ▸ hnew) hright
  constructor
  · have hnames := hsame.names
    simp only [Catalog.names] at hnames ⊢
    rw [hleftEntries, hrightEntries, List.map_append, List.map_append, hnames]
    rfl
  · rw [hleftCount, hrightCount, hsame.count]

/-- Catalogs with the same names take in the same names of a stream. -/
theorem grow (hsame : SameNames left right) (stream : List String) :
    SameNames (left.grow stream).catalog (right.grow stream).catalog ∧
      (left.grow stream).exhausted = (right.grow stream).exhausted := by
  induction stream generalizing left right with
  | nil => exact ⟨hsame, rfl⟩
  | cons name rest ih =>
    have hcontains : right.contains name = left.contains name := by
      rw [contains, contains, hsame.names]
    rw [Catalog.grow, Catalog.grow, hcontains]
    by_cases hmem : left.contains name = true
    · rw [if_pos hmem, if_pos hmem]
      exact ih hsame
    · rw [if_neg hmem, if_neg hmem]
      have hnew : name ∉ left.names := by simpa [contains] using hmem
      cases hleft : left.add name with
      | error cause =>
        have hright : right.add name = .error cause := by
          rwa [add_eq_error_iff, ← hsame.count, ← add_eq_error_iff]
        rw [hright]
        exact ⟨hsame, rfl⟩
      | ok leftEntry =>
        cases hright : right.add name with
        | error cause =>
          rw [add_eq_error_iff, ← hsame.count, ← add_eq_error_iff, hleft] at hright
          contradiction
        | ok rightEntry => exact ih (hsame.add hnew hleft hright)

end SameNames

/-- Settled codes are told by the names. -/
theorem Settled.eq_of_sameNames {stem : String} (hleft : Settled stem left)
    (hright : Settled stem right) (hsame : SameNames left right) : left = right := by
  refine eq_of_entries_eq (List.ext_getElem? fun place => ?_) hsame.count
  have hfront : left.names <+: right.names := hsame.names ▸ List.prefix_refl _
  cases hentry : left.entries[place]? with
  | none =>
    have hlength : left.entries.length = right.entries.length := by
      simpa [names] using congrArg List.length hsame.names
    rw [List.getElem?_eq_none_iff] at hentry
    exact (List.getElem?_eq_none_iff.mpr (hlength ▸ hentry)).symm
  | some entry =>
    obtain ⟨name, code⟩ := entry
    obtain ⟨later, hlater⟩ := exists_getElem?_of_prefix hfront hentry
    have hcode : left.get? name = some code := get?_eq_some_iff.mpr (List.mem_of_getElem? hentry)
    have hlaterCode : right.get? name = some later :=
      get?_eq_some_iff.mpr (List.mem_of_getElem? hlater)
    obtain ⟨now, hnow, hkept⟩ := hleft.keepsCodes hright hfront name code hcode
    obtain rfl : now = later := Option.some.inj (hnow.symm.trans hlaterCode)
    have hnone : ¬(isFamilyMember stem name = true ∧ stem ∉ left.names ∧ stem ∈ right.names) := by
      rintro ⟨-, hbefore, hafter⟩
      exact hbefore (hsame.names ▸ hafter)
    rw [hlater, hkept.mpr hnone]

end SelectorMangling.Catalog
