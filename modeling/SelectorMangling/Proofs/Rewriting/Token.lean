import SelectorMangling.Proofs.Extraction.Token
import SelectorMangling.Proofs.Rewriting.Greedy

/-!
# Where replaced names end

A replaced name ends where a word ends.  A hyphen may follow, so that the name may be the front of a
longer hyphenated token; but if that token is cataloged, it is the token that is replaced.
-/

namespace SelectorMangling.Rewriting

open Extraction

/-- The hyphenated token from a place of a text on. -/
def tokenAt (text : List Char) (place : Nat) : List Char :=
  (text.drop place).takeWhile isTokenChar

variable {catalog : Catalog} {text : List Char} {place : Nat} {name : String}

theorem isWordSide_getLast?_take (htoken : IsToken name.toList)
    (hoccurs : name.toList <+: text.drop place) :
    isWordSide (text.take (place + name.length)).getLast? = true := by
  obtain ⟨last, hlast, hword⟩ := htoken.ends
  rw [← String.length_toList, take_add_length hoccurs, List.getLast?_append,
    Option.mem_def.mp hlast]
  exact hword

/-- Behind a token a word boundary lies if and only if no word character follows. -/
theorem isBoundaryAt_iff (htoken : IsToken name.toList)
    (hoccurs : name.toList <+: text.drop place) :
    IsBoundaryAt text (place + name.length) ↔
      isWordSide (text.drop (place + name.length)).head? = false := by
  rw [IsBoundaryAt, isBoundary, isWordSide_getLast?_take htoken hoccurs]
  simp

/-- Where a cataloged token stands, no word character follows it. -/
theorem Stands.isWord_eq_false (hstands : Stands catalog text place name)
    (htoken : IsToken name.toList) {next : Char}
    (hnext : (text.drop (place + name.length)).head? = some next) : isWord next = false := by
  have hside := (isBoundaryAt_iff htoken hstands.occurs).mp hstands.ends
  rwa [hnext] at hside

/-- A token that begins the rest of a text is at most as long as the token that stands there. -/
theorem prefix_tokenAt (htoken : IsToken name.toList)
    (hoccurs : name.toList <+: text.drop place) : name.toList <+: tokenAt text place := by
  obtain ⟨rest, hrest⟩ := hoccurs
  rw [tokenAt, ← hrest, List.takeWhile_append_of_pos htoken.chars]
  exact List.prefix_append _ _

/-- Behind the token at a place, the text goes on with a character that no token has. -/
theorem not_isTokenChar_behind {next : Char}
    (hnext : (text.drop (place + (tokenAt text place).length)).head? = some next) :
    isTokenChar next = false := by
  have hbehind : text.drop (place + (tokenAt text place).length) =
      (text.drop place).dropWhile isTokenChar := by
    calc
      text.drop (place + (tokenAt text place).length) =
          (tokenAt text place ++ (text.drop place).dropWhile isTokenChar).drop
            (tokenAt text place).length := by
        rw [tokenAt, List.takeWhile_append_dropWhile, List.drop_drop]
      _ = (text.drop place).dropWhile isTokenChar := List.drop_left
  have hstop := List.head?_dropWhile_not isTokenChar (text.drop place)
  rw [← hbehind, hnext] at hstop
  simpa using hstop

/-- The whole token at a place stands there if it is cataloged and a word begins there. -/
theorem stands_tokenAt (hcataloged : String.ofList (tokenAt text place) ∈ catalog.names)
    (htoken : IsToken (tokenAt text place)) (hstarts : IsBoundaryAt text place) :
    Stands catalog text place (String.ofList (tokenAt text place)) := by
  have hoccurs : (String.ofList (tokenAt text place)).toList <+: text.drop place := by
    rw [String.toList_ofList]
    exact List.takeWhile_prefix _
  refine ⟨hcataloged, hoccurs, hstarts, ?_⟩
  rw [isBoundaryAt_iff (by rwa [String.toList_ofList]) hoccurs, String.length_ofList]
  cases hnext : (text.drop (place + (tokenAt text place).length)).head? with
  | none => rfl
  | some next =>
    have hbehind := not_isTokenChar_behind hnext
    rw [isTokenChar, Bool.or_eq_false_iff] at hbehind
    exact hbehind.1

/-- The longest name at a place is the whole token there if that one is cataloged. -/
theorem StandsLongest.eq_tokenAt (hlongest : StandsLongest catalog text place name)
    (htokens : ∀ name ∈ catalog.names, IsToken name.toList)
    (hcataloged : String.ofList (tokenAt text place) ∈ catalog.names) :
    name = String.ofList (tokenAt text place) := by
  have htoken : IsToken (tokenAt text place) := by
    simpa using htokens _ hcataloged
  have hle := hlongest.longest _ (stands_tokenAt hcataloged htoken hlongest.starts)
  rw [String.length_ofList, ← String.length_toList] at hle
  have hfront := prefix_tokenAt (htokens name hlongest.cataloged) hlongest.occurs
  rw [← hfront.eq_of_length_le hle, String.ofList_toList]

/-- How a replaced name ends: no word character follows, and if the whole token at the place of the
name is cataloged, the name is the whole token. -/
structure EndsWord (catalog : Catalog) (text : List Char) (replacement : Replacement) : Prop where
  follows : ∀ next, (text.drop replacement.stop).head? = some next → isWord next = false
  whole : String.ofList (tokenAt text replacement.start) ∈ catalog.names →
    replacement.name = String.ofList (tokenAt text replacement.start)

theorem IsReplacement.endsWord {replacement : Replacement}
    (hreplacement : IsReplacement catalog text replacement)
    (htokens : ∀ name ∈ catalog.names, IsToken name.toList) :
    EndsWord catalog text replacement where
  follows := by
    intro next hnext
    have hstands := hreplacement.standsLongest.toStands
    exact hstands.isWord_eq_false (htokens _ hstands.cataloged) hnext
  whole := hreplacement.standsLongest.eq_tokenAt htokens

end SelectorMangling.Rewriting
