import Mathlib.Tactic.SplitIfs
import SelectorMangling.Json.Text

/-!
# Strings read back as written

Every character is written in a form that reads back as itself, the escapes of controls included.
A written string ends at its own closing quotation mark, whatever follows.
-/

namespace SelectorMangling.Json

theorem hexValue?_hexDigit {value : Nat} (hvalue : value < 16) :
    hexValue? (hexDigit value) = some value := by
  revert value
  decide

/-- The hexadecimal form of a control below the space reads back. -/
theorem readUnit_control {c : Char} (hcontrol : c.toNat < 0x20) (rest : List Char) :
    readUnit ('0' :: '0' :: hexDigit (c.toNat / 16) :: hexDigit (c.toNat % 16) :: rest) =
      .ok (c.toNat, rest) := by
  have hzero : hexValue? '0' = some 0 := by decide
  have hhigh : hexValue? (hexDigit (c.toNat / 16)) = some (c.toNat / 16) :=
    hexValue?_hexDigit (by omega)
  have hlow : hexValue? (hexDigit (c.toNat % 16)) = some (c.toNat % 16) :=
    hexValue?_hexDigit (by omega)
  simp only [readUnit, hzero, hhigh, hlow, Except.ok.injEq, Prod.mk.injEq, and_true]
  omega

theorem readPoint_control {c : Char} (hcontrol : c.toNat < 0x20) (rest : List Char) :
    readPoint ('0' :: '0' :: hexDigit (c.toNat / 16) :: hexDigit (c.toNat % 16) :: rest) =
      .ok (c, rest) := by
  have hnotTrail : ¬(0xdc00 ≤ c.toNat ∧ c.toNat ≤ 0xdfff) := by omega
  have hnotLead : c.toNat < 0xd800 ∨ 0xdbff < c.toNat := by omega
  simp only [readPoint, readUnit_control hcontrol, bind, Except.bind, if_neg hnotTrail,
    if_pos hnotLead, Char.ofNat_toNat]

/-- After a backslash a character is read and put in front of the string. -/
theorem readChars_backslash {c : Char} {text rest : List Char}
    (hescape : readEscape text = .ok (c, rest)) :
    readChars ('\\' :: text) = (readChars rest).map fun read => (c :: read.1, read.2) := by
  rw [readChars, if_neg (by decide), if_pos rfl]
  split
  · next fault hfault => simp [hescape] at hfault
  · next escaped after hread =>
    obtain ⟨rfl, rfl⟩ : c = escaped ∧ rest = after := by simpa [hescape] using hread
    cases readChars rest <;> rfl

theorem readChars_plain {c : Char} (hquote : c ≠ '"') (hbackslash : c ≠ '\\')
    (hcontrol : ¬c.toNat < 0x20) (rest : List Char) :
    readChars (c :: rest) = (readChars rest).map fun read => (c :: read.1, read.2) := by
  rw [readChars, if_neg hquote, if_neg hbackslash, if_neg hcontrol]
  cases readChars rest <;> rfl

/-- Each character reads back as it was written. -/
theorem readChars_escapeChar (c : Char) (rest : List Char) :
    readChars (escapeChar c ++ rest) =
      (readChars rest).map fun read => (c :: read.1, read.2) := by
  unfold escapeChar
  split_ifs with hquote hbackslash hbackspace hfeed hnewline hreturn htab hcontrol
  · subst hquote
    exact readChars_backslash rfl
  · subst hbackslash
    exact readChars_backslash rfl
  · subst hbackspace
    exact readChars_backslash rfl
  · subst hfeed
    exact readChars_backslash rfl
  · subst hnewline
    exact readChars_backslash rfl
  · subst hreturn
    exact readChars_backslash rfl
  · subst htab
    exact readChars_backslash rfl
  · exact readChars_backslash (readPoint_control hcontrol rest)
  · exact readChars_plain hquote hbackslash hcontrol rest

theorem readChars_flatMap_escapeChar (text rest : List Char) :
    readChars (text.flatMap escapeChar ++ '"' :: rest) = .ok (text, rest) := by
  induction text with
  | nil => rw [List.flatMap_nil, List.nil_append, readChars, if_pos rfl]
  | cons c tail ih =>
    rw [List.flatMap_cons, List.append_assoc, readChars_escapeChar, ih]
    rfl

/-- A written string reads back behind its opening quotation mark. -/
theorem readText_flatMap_escapeChar (text : String) (rest : List Char) :
    readText (text.toList.flatMap escapeChar ++ '"' :: rest) = .ok (text, rest) := by
  simp [readText, readChars_flatMap_escapeChar, bind, Except.bind, pure, Except.pure]

end SelectorMangling.Json
