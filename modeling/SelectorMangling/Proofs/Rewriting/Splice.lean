import SelectorMangling.Proofs.Extraction.Token
import SelectorMangling.Proofs.Rewriting.Greedy

/-!
# What replacements keep

A text with replacements carried out is the text with names taken out and codes put in.  Where both
are made of characters of tokens, all other characters stay, in their order.
-/

namespace SelectorMangling.Rewriting

variable {catalog : Catalog} {text : List Char} {place : Nat}

/-- A text goes on up to the next replacement, with the name that is replaced, and behind it. -/
theorem drop_eq_append {replacement : Replacement} (hplace : place ≤ replacement.start)
    (hoccurs : replacement.name.toList <+: text.drop replacement.start) :
    text.drop place = (text.drop place).take (replacement.start - place) ++
      (replacement.name.toList ++ text.drop replacement.stop) := by
  obtain ⟨behind, hbehind⟩ := hoccurs
  have hstop : text.drop replacement.stop = behind := by
    rw [Replacement.stop, ← List.drop_drop, ← hbehind, ← String.length_toList, List.drop_left]
  calc
    text.drop place = (text.drop place).take (replacement.start - place) ++
        (text.drop place).drop (replacement.start - place) := (List.take_append_drop _ _).symm
    _ = (text.drop place).take (replacement.start - place) ++ text.drop replacement.start := by
      rw [List.drop_drop, Nat.add_sub_cancel' hplace]
    _ = (text.drop place).take (replacement.start - place) ++
        (replacement.name.toList ++ text.drop replacement.stop) := by rw [← hbehind, hstop]

/-- The characters of a text that belong to no token, in their order: quotation marks, brackets,
white space, and everything beyond ASCII. -/
def surroundings (text : List Char) : List Char := text.filter fun c => !isTokenChar c

@[simp]
theorem surroundings_append (left right : List Char) :
    surroundings (left ++ right) = surroundings left ++ surroundings right :=
  List.filter_append left right

theorem surroundings_eq_nil {text : List Char} (hchars : ∀ c ∈ text, isTokenChar c = true) :
    surroundings text = [] := by
  apply List.filter_eq_nil_iff.mpr
  intro c hc
  simp [hchars c hc]

/-- Replacing names by codes keeps what surrounds them. -/
theorem surroundings_splice {replacements : List Replacement}
    (hgreedy : Greedy catalog text place replacements)
    (hnames : ∀ name ∈ catalog.names, ∀ c ∈ name.toList, isTokenChar c = true)
    (hcodes : ∀ code ∈ catalog.codes, ∀ c ∈ code.toList, isTokenChar c = true) :
    surroundings (splice text place replacements) = surroundings (text.drop place) := by
  induction hgreedy with
  | done => rfl
  | @next place replacement later hplace _ hreplacement _ ih =>
    have hstands := hreplacement.standsLongest.toStands
    have hname : surroundings replacement.name.toList = [] :=
      surroundings_eq_nil (hnames _ hstands.cataloged)
    have hcode : surroundings replacement.code.toList = [] := by
      apply surroundings_eq_nil
      exact hcodes _ (List.mem_map_of_mem (Catalog.get?_eq_some_iff.mp hreplacement.code_eq))
    rw [drop_eq_append hplace hstands.occurs, splice]
    simp only [surroundings_append, hname, hcode, ih, List.nil_append, List.append_nil]

end SelectorMangling.Rewriting
