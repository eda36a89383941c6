import SelectorMangling.Json.Reader
import SelectorMangling.Proofs.Json.Number
import SelectorMangling.Proofs.Json.Text

/-!
# Members read back as written

A member is written without blanks as a string, a colon and its value.
-/

namespace SelectorMangling.Json

theorem skipBlanks_cons {c : Char} (hblank : isBlank c = false) (rest : List Char) :
    skipBlanks (c :: rest) = c :: rest := by
  simp [skipBlanks, hblank]

theorem writeText_append (text : String) (rest : List Char) :
    writeText text ++ rest = '"' :: (text.toList.flatMap escapeChar ++ '"' :: rest) := by
  simp [writeText]

theorem readValue_writeText (depth : Nat) (text : String) (rest : List Char) :
    readValue depth (writeText text ++ rest) = .ok (.text text, rest) := by
  rw [writeText_append]
  unfold readValue
  simp only [skipBlanks_cons (by decide : isBlank '"' = false), readText_flatMap_escapeChar]
  rfl

theorem isDigit_of_toDigits_eq_cons {n : Nat} {c : Char} {tail : List Char}
    (hdigits : Nat.toDigits 10 n = c :: tail) : isDigit c = true :=
  isDigit_of_mem_toDigits (n := n) (by rw [hdigits]; exact List.mem_cons_self)

theorem readValue_toDigits (depth : Nat) {n : Nat} (hword : n ≤ largestWord)
    {rest : List Char} (hrest : EndsNumber rest) :
    readValue depth (Nat.toDigits 10 n ++ rest) = .ok (.natural n, rest) := by
  have hread := readDigits_toDigits hword hrest
  cases hdigits : Nat.toDigits 10 n with
  | nil => exact absurd hdigits Nat.toDigits_ne_nil
  | cons c tail =>
    have hdigit := isDigit_of_toDigits_eq_cons hdigits
    have hblank : isBlank c = false := by
      simp only [isDigit, Bool.and_eq_true, decide_eq_true_eq, Char.le_def] at hdigit
      simp only [isBlank, Bool.or_eq_false_iff, beq_eq_false_iff_ne, ne_eq]
      refine ⟨⟨⟨?_, ?_⟩, ?_⟩, ?_⟩ <;> (rintro rfl; revert hdigit; decide)
    rw [hdigits] at hread
    unfold readValue
    rw [List.cons_append, skipBlanks_cons hblank]
    -- No digit is the first character of any other kind of value.
    split <;> simp_all [isDigit, readNumber, bind, Except.bind, pure, Except.pure]

theorem readMember_writeText {readItem : List Char → Except Fault (Value × List Char)}
    (name : String) {value : Value} {text rest : List Char}
    (hvalue : readItem text = .ok (value, rest)) :
    readMember readItem (writeText name ++ ':' :: text) = .ok ((name, value), rest) := by
  rw [writeText_append]
  simp only [readMember, readText_flatMap_escapeChar, bind, Except.bind,
    skipBlanks_cons (by decide : isBlank ':' = false), hvalue, pure, Except.pure]

section Members

variable {readItem : List Char → Except Fault (Value × List Char)} {budget : Nat}
variable {text after final : List Char} {member : String × Value}
variable {members : List (String × Value)}

theorem readMembers_first (hmember : readMember readItem ('"' :: text) = .ok (member, after))
    (hmembers : readMembers readItem budget false after = .ok (members, final)) :
    readMembers readItem (budget + 1) true ('"' :: text) = .ok (member :: members, final) := by
  rw [readMembers, skipBlanks_cons (by decide)]
  simp [hmember, hmembers, bind, Except.bind, pure, Except.pure]

theorem readMembers_next (hmember : readMember readItem ('"' :: text) = .ok (member, after))
    (hmembers : readMembers readItem budget false after = .ok (members, final)) :
    readMembers readItem (budget + 1) false (',' :: '"' :: text) =
      .ok (member :: members, final) := by
  rw [readMembers, skipBlanks_cons (by decide)]
  simp [skipBlanks_cons (by decide : isBlank '"' = false), hmember, hmembers, bind, Except.bind,
    pure, Except.pure]

end Members

end SelectorMangling.Json
