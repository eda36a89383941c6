import Mathlib.Data.List.Lex
import SelectorMangling.Proofs.Path.Direct

/-!
# The order of paths

Paths come component by component, so that a directory comes before what lies below it, and all that
lies below it comes before its next sibling.  This is not the order of the texts, in which a name
may come before the separator.
-/

namespace SelectorMangling.Path

/-! ## Components of joined paths -/

theorem head?_segments (text : List Char) :
    (segments text).head? = some (text.takeWhile (· != '/')) := by
  induction text with
  | nil => rfl
  | cons c rest ih =>
    rw [segments]
    split
    · next hseparator => simp [hseparator]
    · next hplain =>
      cases hrest : segments rest with
      | nil => exact absurd hrest (segments_ne_nil rest)
      | cons segment others =>
        rw [hrest, List.head?_cons, Option.some.injEq] at ih
        simp [hplain, ih]

/-- Joining leaves the first piece of the path in front. -/
theorem head?_segments_join {base path : Path} (hbase : base.text ≠ "")
    (hpath : path.isAbsolute = false) :
    (segments (base.join path).text.toList).head? = (segments base.text.toList).head? := by
  obtain ⟨separator, hjoin, hseparator⟩ := exists_text_join base hpath
  -- The first piece ends before a separator that follows it, in the path in front or behind it.
  have hfirst : ∀ front behind : List Char, '/' ∈ front ∨ behind.head? = some '/' →
      (front ++ behind).takeWhile (· != '/') = front.takeWhile (· != '/') := by
    intro front behind hends
    induction front with
    | nil =>
      obtain ⟨rest, rfl⟩ := List.head?_eq_some_iff.mp (hends.resolve_left List.not_mem_nil)
      rfl
    | cons c rest ih =>
      by_cases hc : c = '/'
      · simp [hc]
      · have hrest := hends.imp_left fun hmem => (List.mem_cons.mp hmem).resolve_left (Ne.symm hc)
        simp [hc, ih hrest]
  rw [head?_segments, head?_segments, hjoin, String.append_assoc, String.toList_append]
  congr 1
  apply hfirst
  rcases hseparator with rfl | ⟨rfl, hempty | hend⟩
  · exact .inr (by simp)
  · contradiction
  · exact .inl (List.mem_of_getLast? hend)

/-- A relative path is put behind a path that is not empty. -/
theorem components_join {base path : Path} (hbase : base.text ≠ "")
    (hpath : path.isAbsolute = false) :
    (base.join path).components = base.components ++ path.inner := by
  have hinner := inner_join base hpath
  rw [inner, inner] at hinner
  rw [components, components, isAbsolute_join_eq base hpath, head?_segments_join hbase hpath,
    hinner]
  split
  · rfl
  · split
    · rfl
    · rfl

/-- Names that are put behind a path are its last components. -/
theorem components_foldl_child {base : Path} (hbase : base.text ≠ "") {names : List String}
    (hnames : ∀ name ∈ names, IsEntryName name) :
    (names.foldl child base).components = base.components ++ names.map .name := by
  induction names generalizing base with
  | nil => simp
  | cons name rest ih =>
    have ⟨hname, hrest⟩ := List.forall_mem_cons.mp hnames
    have hchild : (base.child name).components = base.components ++ [.name name] := by
      rw [child, components_join hbase (not_isAbsolute_of_isEntryName hname),
        inner_of_isEntryName hname]
    rw [List.foldl_cons, ih (text_child_ne_empty base hname) hrest, hchild, List.append_assoc]
    rfl

/-! ## The order -/

/-- Names come last among components. -/
def Component.rank : Component → Nat
  | .root => 0
  | .current => 1
  | .parent => 2
  | .name _ => 3

/-- The order of components: by their kinds, and names as texts. -/
inductive Component.Before : Component → Component → Prop
  | kind {left right : Component} (hrank : left.rank < right.rank) : Before left right
  | name {left right : String} (hlt : left < right) : Before (.name left) (.name right)

/-- The order of paths, component by component. -/
def Before (left right : Path) : Prop :=
  List.Lex Component.Before left.components right.components

theorem Component.Before.ne {left right : Component} (hbefore : left.Before right) :
    left ≠ right := by
  rintro rfl
  cases hbefore with
  | kind hrank => exact Nat.lt_irrefl _ hrank
  | name hlt => exact String.lt_irrefl _ hlt

theorem Before.ne {left right : Path} (hbefore : left.Before right) : left ≠ right := by
  rintro rfl
  exact (List.Lex.imp (fun _ _ => Component.Before.ne) _ _ hbefore).to_ne rfl

/-- Names below one path come in the order of the names. -/
theorem before_foldl_child {base : Path} (hbase : base.text ≠ "") {left right : List String}
    (hleft : ∀ name ∈ left, IsEntryName name) (hright : ∀ name ∈ right, IsEntryName name)
    (hlt : left < right) : (left.foldl child base).Before (right.foldl child base) := by
  have hnames : List.Lex Component.Before (left.map .name) (right.map .name) := by
    clear hleft hright
    induction hlt with
    | nil => exact .nil
    | rel hfirst => exact .rel (.name hfirst)
    | cons _ ih => exact .cons ih
  rw [Before, components_foldl_child hbase hleft, components_foldl_child hbase hright]
  exact List.Lex.append_left _ hnames _

end SelectorMangling.Path
