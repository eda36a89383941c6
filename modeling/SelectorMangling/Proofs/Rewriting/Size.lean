import Mathlib.Algebra.Order.BigOperators.Group.List
import Mathlib.Data.String.Basic
import SelectorMangling.Proofs.Rewriting.Delimiter

/-!
# The size of a rewritten text

A rewritten text has the bytes of the text, less those of the names that are replaced, and with those
of their codes.  So a text does not get longer where no code is longer than its name.
-/

namespace SelectorMangling

/-- No code has more bytes than its name. -/
def Catalog.Shortens (catalog : Catalog) : Prop :=
  ∀ name code, catalog.get? name = some code → code.utf8ByteSize ≤ name.utf8ByteSize

namespace Rewriting

open String

theorem length_le_utf8Len (text : List Char) : text.length ≤ utf8Len text := by
  induction text with
  | nil => rfl
  | cons c rest ih => exact Nat.add_le_add ih c.utf8Size_pos

theorem length_le_utf8ByteSize (text : String) : text.length ≤ text.utf8ByteSize := by
  rw [← String.length_toList, ← utf8Len_toList]
  exact length_le_utf8Len _

theorem utf8Size_of_isWord {c : Char} (hword : isWord c = true) : c.utf8Size = 1 := by
  rw [Char.utf8Size_eq_one_iff, UInt32.le_iff_toNat_le]
  have hranges := toNat_of_isWord hword
  change c.toNat ≤ 127
  omega

/-- Word characters have one byte each. -/
theorem utf8Len_eq_length {text : List Char} (hwords : ∀ c ∈ text, isWord c = true) :
    utf8Len text = text.length := by
  induction text with
  | nil => rfl
  | cons c rest ih =>
    obtain ⟨hword, hrest⟩ := List.forall_mem_cons.mp hwords
    rw [utf8Len_cons, ih hrest, utf8Size_of_isWord hword, List.length_cons]

variable {catalog : Catalog} {text : List Char} {place : Nat}

/-- The bytes of the names that replacements take out of a text. -/
def takenSize (replacements : List Replacement) : Nat :=
  (replacements.map fun replacement => replacement.name.utf8ByteSize).sum

/-- The bytes of the codes that replacements put into a text. -/
def givenSize (replacements : List Replacement) : Nat :=
  (replacements.map fun replacement => replacement.code.utf8ByteSize).sum

/-- The bytes that are there besides names and codes stay. -/
theorem utf8Len_splice_add_takenSize {replacements : List Replacement}
    (hgreedy : Greedy catalog text place replacements) :
    utf8Len (splice text place replacements) + takenSize replacements =
      utf8Len (text.drop place) + givenSize replacements := by
  induction hgreedy with
  | done => rfl
  | @next place replacement later hplace _ hreplacement _ ih =>
    have hoccurs := hreplacement.standsLongest.occurs
    rw [drop_eq_append hplace hoccurs, splice]
    simp only [takenSize, givenSize, List.map_cons, List.sum_cons, utf8Len_append,
      utf8Len_toList] at ih ⊢
    omega

theorem givenSize_le_takenSize {replacements : List Replacement}
    (hshorter : ∀ replacement ∈ replacements,
      replacement.code.utf8ByteSize ≤ replacement.name.utf8ByteSize) :
    givenSize replacements ≤ takenSize replacements :=
  List.sum_le_sum hshorter

/-- Rewriting makes no text longer where codes are no longer than their names. -/
theorem exists_rewrite_utf8ByteSize_le (hnames : "" ∉ catalog.names)
    (hshortens : catalog.Shortens) (text : String) :
    ∃ new, catalog.rewrite text = some new ∧ new.utf8ByteSize ≤ text.utf8ByteSize := by
  obtain ⟨replacements, hgreedy, hrewritten⟩ := exists_greedy_rewrite hnames text
  refine ⟨_, hrewritten, ?_⟩
  have hsizes := utf8Len_splice_add_takenSize hgreedy
  have hle : givenSize replacements ≤ takenSize replacements := by
    apply givenSize_le_takenSize
    intro replacement hmem
    exact hshortens _ _ (hgreedy.isReplacement replacement hmem).code_eq
  rw [List.drop_zero, utf8Len_toList] at hsizes
  rw [← utf8Len_toList, String.toList_ofList]
  omega

end Rewriting

end SelectorMangling
