/-!
# Successive matches

Selectors are extracted from plain text by looking for matches from left to right.  A match is
sought at each place in turn; after a match the search goes on at its end, and after a place
without one it goes on at the next character.
-/

namespace SelectorMangling.Extraction

/-- What a match yields, and how many characters it covers. -/
structure Match where
  yield : List Char
  length : Nat
deriving DecidableEq, Repr

/-- Searches a text, with the yields found so far, last one first. -/
def searchFrom (matchAt? : List Char → Option Match) (found : List (List Char))
    (text : List Char) : List (List Char) :=
  match text with
  | [] => found.reverse
  | c :: rest =>
    match matchAt? (c :: rest) with
    | none => searchFrom matchAt? found rest
    | some hit => searchFrom matchAt? (hit.yield :: found) (rest.drop (hit.length - 1))
termination_by text.length
decreasing_by
  · simp
  · simp only [List.length_drop, List.length_cons]
    omega

/-- The yields of the successive matches in a text.  A match covers at least one character. -/
def search (matchAt? : List Char → Option Match) (text : List Char) : List (List Char) :=
  searchFrom matchAt? [] text

/-- What is found already is only put in front. -/
theorem searchFrom_eq_reverse_append (matchAt? : List Char → Option Match)
    (found : List (List Char)) (text : List Char) :
    searchFrom matchAt? found text = found.reverse ++ search matchAt? text := by
  induction hlength : text.length using Nat.strongRecOn generalizing found text with
  | ind length ih =>
    subst hlength
    cases text with
    | nil => simp [search, searchFrom]
    | cons c rest =>
      rw [search, searchFrom, searchFrom]
      split
      · next hnone =>
        simpa [hnone, search] using ih rest.length (by simp) found rest rfl
      · next hit hsome =>
        have hlt : (rest.drop (hit.length - 1)).length < (c :: rest).length := by
          simp only [List.length_drop, List.length_cons]
          omega
        rw [ih _ hlt (hit.yield :: found) _ rfl, ih _ hlt [hit.yield] _ rfl]
        simp

end SelectorMangling.Extraction
