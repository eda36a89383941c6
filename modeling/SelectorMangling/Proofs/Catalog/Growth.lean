import Mathlib.Tactic.SplitIfs
import SelectorMangling.Catalog.Allocation

/-!
# Growing catalogs

A catalog grows by one new name at a time.  The name goes to the end with the code of the counter,
and the counter moves on by one; whatever was there before stays.
-/

namespace SelectorMangling.Catalog

/-- A later catalog comes from an earlier one by adding names that are new and `allowed`. -/
inductive Grows (allowed : String → Prop) (earlier : Catalog) : Catalog → Prop
  | refl : Grows allowed earlier earlier
  | add {catalog larger : Catalog} {name code : String} (hgrows : Grows allowed earlier catalog)
      (hnew : name ∉ catalog.names) (hallowed : allowed name)
      (hadd : catalog.add name = .ok (code, larger)) : Grows allowed earlier larger

/-- What comes in behind other entries does not change their codes. -/
theorem get?_eq_some_of_prefix {before after : Catalog} (hfront : before.entries <+: after.entries)
    {name code : String} (hcode : before.get? name = some code) : after.get? name = some code :=
  get?_eq_some_iff.mpr (hfront.subset (get?_eq_some_iff.mp hcode))

/-- What adding a new name does. -/
theorem add_eq_ok {catalog larger : Catalog} {name code : String} (hnew : name ∉ catalog.names)
    (hadd : catalog.add name = .ok (code, larger)) :
    Code.ofCounter catalog.count = .ok code ∧
      larger.entries = catalog.entries ++ [(name, code)] ∧ larger.count = catalog.count + 1 := by
  unfold add at hadd
  split at hadd
  · contradiction
  · next advancedCode advanced hallocate =>
    unfold allocate at hallocate
    split at hallocate
    · contradiction
    · next counterCode hcode =>
      simp only [Except.ok.injEq, Prod.mk.injEq] at hallocate hadd
      obtain ⟨rfl, rfl⟩ := hallocate
      obtain ⟨rfl, rfl⟩ := hadd
      exact ⟨hcode, Assoc.set_eq_append hnew, rfl⟩

/-- After a new name was added, an entry is one of the earlier ones or the new one at the end. -/
theorem getElem?_of_add {catalog larger : Catalog} {name code : String}
    (hnew : name ∉ catalog.names) (hadd : catalog.add name = .ok (code, larger)) {place : Nat}
    {entry : String × String} (hentry : larger.entries[place]? = some entry) :
    catalog.entries[place]? = some entry ∨ place = catalog.size ∧ entry = (name, code) := by
  rw [(add_eq_ok hnew hadd).2.1, List.getElem?_append] at hentry
  split_ifs at hentry with hplace
  · exact .inl hentry
  · rw [List.getElem?_singleton] at hentry
    split_ifs at hentry with hzero
    have hle : place ≤ catalog.size := Nat.sub_eq_zero_iff_le.mp hzero
    have heq : place = catalog.size := Nat.le_antisymm hle (Nat.le_of_not_lt hplace)
    exact .inr ⟨heq, (Option.some.inj hentry).symm⟩

namespace Grows

variable {allowed : String → Prop} {earlier middle later : Catalog}

theorem trans (hfirst : Grows allowed earlier middle) (hlast : Grows allowed middle later) :
    Grows allowed earlier later := by
  induction hlast with
  | refl => exact hfirst
  | add _ hnew hallowed hadd ih => exact ih.add hnew hallowed hadd

/-- Growing keeps the entries, their order and their codes. -/
theorem entries_prefix (hgrows : Grows allowed earlier later) :
    earlier.entries <+: later.entries := by
  induction hgrows with
  | refl => exact List.prefix_refl _
  | add _ hnew _ hadd ih =>
    rw [(add_eq_ok hnew hadd).2.1]
    exact ih.trans (List.prefix_append _ _)

theorem names_prefix (hgrows : Grows allowed earlier later) : earlier.names <+: later.names :=
  hgrows.entries_prefix.map Prod.fst

theorem get?_eq_some (hgrows : Grows allowed earlier later) {name code : String}
    (hcode : earlier.get? name = some code) : later.get? name = some code :=
  get?_eq_some_of_prefix hgrows.entries_prefix hcode

/-- Only allowed names come in. -/
theorem mem_names (hgrows : Grows allowed earlier later) {name : String}
    (hname : name ∈ later.names) : name ∈ earlier.names ∨ allowed name := by
  induction hgrows with
  | refl => exact .inl hname
  | add _ hnew hallowed hadd ih =>
    rw [names, (add_eq_ok hnew hadd).2.1, List.map_append, List.mem_append] at hname
    rcases hname with hold | hadded
    · exact ih hold
    · obtain rfl := List.mem_singleton.mp hadded
      exact .inr hallowed

end Grows

/-- Extending a catalog by a stream lets it grow by names of the stream, also if the codes run
out. -/
theorem grows_grow {allowed : String → Prop} (catalog : Catalog) {stream : List String}
    (hallowed : ∀ name ∈ stream, allowed name) :
    Grows allowed catalog (catalog.grow stream).catalog := by
  induction stream generalizing catalog with
  | nil => exact .refl
  | cons name rest ih =>
    have ⟨hfirst, hrest⟩ := List.forall_mem_cons.mp hallowed
    rw [grow]
    split_ifs with hcontains
    · exact ih catalog hrest
    · split
      · exact .refl
      · next code larger hadd =>
        have hnew : name ∉ catalog.names := by simpa [contains] using hcontains
        have hgrows : Grows allowed catalog larger := Grows.refl.add hnew hfirst hadd
        exact hgrows.trans (ih larger hrest)

/-- A stream of cataloged names adds nothing. -/
theorem grow_of_forall_mem {catalog : Catalog} {stream : List String}
    (hstream : ∀ name ∈ stream, name ∈ catalog.names) : catalog.grow stream = { catalog } := by
  induction stream with
  | nil => rfl
  | cons name rest ih =>
    obtain ⟨hname, hrest⟩ := List.forall_mem_cons.mp hstream
    rw [grow, if_pos (by simpa [contains] using hname), ih hrest]

end SelectorMangling.Catalog
