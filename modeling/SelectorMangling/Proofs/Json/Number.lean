import SelectorMangling.Json.Number

/-!
# Numbers read back as written

A whole number of 64 bits is written by its decimal digits, without a needless zero in front.  It
reads back exactly if no digit, fraction or exponent follows.
-/

namespace SelectorMangling.Json

/-- Whether what follows a number leaves it a whole number with just the digits before. -/
def EndsNumber (rest : List Char) : Prop :=
  ∀ c ∈ rest.head?, isDigit c = false ∧ c ≠ '.' ∧ c ≠ 'e' ∧ c ≠ 'E'

theorem isDigit_of_char_isDigit {c : Char} (hdigit : c.isDigit = true) : isDigit c = true := by
  simpa [isDigit, Char.isDigit, Char.le_def] using hdigit

theorem isDigit_of_mem_toDigits {n : Nat} {c : Char} (hc : c ∈ Nat.toDigits 10 n) :
    isDigit c = true :=
  isDigit_of_char_isDigit (Nat.isDigit_of_mem_toDigits (by decide) (by decide) hc)

theorem takeWhile_isDigit_append {digits rest : List Char}
    (hdigits : ∀ c ∈ digits, isDigit c = true) (hrest : EndsNumber rest) :
    (digits ++ rest).takeWhile isDigit = digits := by
  rw [List.takeWhile_append_of_pos hdigits]
  cases rest with
  | nil => simp
  | cons c tail => simp [(hrest c rfl).1]

theorem digitChar_ne_zero {n : Nat} (hlt : n < 10) (hpos : 0 < n) : n.digitChar ≠ '0' := by
  revert n
  decide

/-- A written number begins with zero only if it is zero. -/
theorem head?_toDigits_ne_zero {n : Nat} (hpos : 0 < n) :
    (Nat.toDigits 10 n).head? ≠ some '0' := by
  induction n using Nat.strongRecOn with
  | ind n ih =>
    rcases Nat.lt_or_ge n 10 with hlt | hge
    · rw [Nat.toDigits_of_lt_base hlt, List.head?_cons]
      intro heq
      exact digitChar_ne_zero hlt hpos (Option.some.inj heq)
    · have hsome : (Nat.toDigits 10 (n / 10)).head?.isSome := by simp
      rw [Nat.toDigits_of_base_le (by decide) hge, List.head?_append, Option.or_of_isSome hsome]
      exact ih (n / 10) (by omega) (by omega)

/-- No digit is lost while the number stays within 64 bits. -/
theorem absorb_eq_ofDigitChars {n : Nat} {digits : List Char}
    (hfits : Nat.ofDigitChars 10 digits n ≤ largestWord) :
    absorb n digits = (Nat.ofDigitChars 10 digits n, digits.length) := by
  induction digits generalizing n with
  | nil => simp [absorb]
  | cons c rest ih =>
    have hlarger : n * 10 + digitValue c = 10 * n + (c.toNat - '0'.toNat) := by
      rw [digitValue, Nat.mul_comm]
    rw [Nat.ofDigitChars_cons, ← hlarger] at hfits ⊢
    have hle : n * 10 + digitValue c ≤ largestWord := by
      rw [Nat.ofDigitChars_eq_ofDigitChars_zero] at hfits
      have hpow : 1 ≤ 10 ^ rest.length := Nat.one_le_pow _ _ (by decide)
      have hmul := Nat.mul_le_mul_right (n * 10 + digitValue c) hpow
      omega
    simp only [absorb, hle, if_true, ih hfits, List.length_cons]

theorem readDigits_toDigits {n : Nat} (hword : n ≤ largestWord) {rest : List Char}
    (hrest : EndsNumber rest) :
    readDigits (Nat.toDigits 10 n ++ rest) = .ok (some n, rest) := by
  have hwhole := takeWhile_isDigit_append (fun _ => isDigit_of_mem_toDigits (n := n)) hrest
  have hnil : Nat.toDigits 10 n ≠ [] := Nat.toDigits_ne_nil
  have hzero : ¬((Nat.toDigits 10 n).length > 1 ∧ (Nat.toDigits 10 n).head? = some '0') := by
    rintro ⟨hlength, hhead⟩
    rcases Nat.eq_zero_or_pos n with rfl | hpos
    · simp at hlength
    · exact head?_toDigits_ne_zero hpos hhead
  have habsorb : absorb 0 (Nat.toDigits 10 n) = (n, (Nat.toDigits 10 n).length) := by
    rw [absorb_eq_ofDigitChars (by simpa using hword)]
    simp
  have hdrop : (Nat.toDigits 10 n ++ rest).drop (Nat.toDigits 10 n).length = rest := by simp
  simp only [readDigits, hwhole, hdrop, habsorb]
  rw [if_neg (by simp [hnil]), if_neg (by simpa [hnil] using hzero)]
  split
  · exact absurd rfl (hrest '.' rfl).2.1
  · exact absurd rfl (hrest 'e' rfl).2.2.1
  · exact absurd rfl (hrest 'E' rfl).2.2.2
  · simp

theorem isDigit_iff {c : Char} : isDigit c = true ↔ '0' ≤ c ∧ c ≤ '9' := by
  simp [isDigit]

theorem digitChar_digitValue {c : Char} (hdigit : isDigit c = true) :
    digitValue c < 10 ∧ (digitValue c).digitChar = c := by
  obtain ⟨hlow, hhigh⟩ := isDigit_iff.mp hdigit
  have hlarge : 48 ≤ c.toNat := hlow
  have hsmall : c.toNat ≤ 57 := hhigh
  have hvalue : digitValue c = c.toNat - 48 := rfl
  have hlt : digitValue c < 10 := by omega
  refine ⟨hlt, ?_⟩
  apply Char.toNat_inj.mp
  have hdigitChar : ∀ n < 10, n.digitChar.toNat = n + 48 := by decide
  rw [hdigitChar _ hlt]
  omega

/-- Digits behind the digits of a number are digits of a larger one. -/
theorem toDigits_ofDigitChars_of_pos {n : Nat} (hpos : 0 < n) {digits : List Char}
    (hdigits : ∀ c ∈ digits, isDigit c = true) :
    Nat.toDigits 10 (Nat.ofDigitChars 10 digits n) = Nat.toDigits 10 n ++ digits := by
  induction digits generalizing n with
  | nil => simp
  | cons c rest ih =>
    obtain ⟨hc, hrest⟩ := List.forall_mem_cons.mp hdigits
    obtain ⟨hlt, hchar⟩ := digitChar_digitValue hc
    have hdiv : (10 * n + digitValue c) / 10 = n := by omega
    have hmod : (10 * n + digitValue c) % 10 = digitValue c := by omega
    calc
      Nat.toDigits 10 (Nat.ofDigitChars 10 (c :: rest) n) =
          Nat.toDigits 10 (Nat.ofDigitChars 10 rest (10 * n + digitValue c)) := by
        rw [Nat.ofDigitChars_cons, digitValue]
      _ = Nat.toDigits 10 (10 * n + digitValue c) ++ rest := ih (by omega) hrest
      _ = Nat.toDigits 10 n ++ c :: rest := by
        rw [Nat.toDigits_of_base_le (by decide) (by omega), hdiv, hmod, hchar, List.append_assoc]
        rfl

/-- Digits without a needless zero in front are how their number is written. -/
theorem toDigits_ofDigitChars {digits : List Char} (hnil : digits ≠ [])
    (hdigits : ∀ c ∈ digits, isDigit c = true)
    (hzero : ¬(digits.length > 1 ∧ digits.head? = some '0')) :
    Nat.toDigits 10 (Nat.ofDigitChars 10 digits 0) = digits := by
  cases digits with
  | nil => contradiction
  | cons c rest =>
    obtain ⟨hc, hrest⟩ := List.forall_mem_cons.mp hdigits
    obtain ⟨hlt, hchar⟩ := digitChar_digitValue hc
    have hfirst : Nat.ofDigitChars 10 (c :: rest) 0 =
        Nat.ofDigitChars 10 rest (digitValue c) := by
      rw [Nat.ofDigitChars_cons, Nat.mul_zero, Nat.zero_add, digitValue]
    rw [hfirst]
    rcases Nat.eq_zero_or_pos (digitValue c) with hvalue | hpos
    · obtain rfl : c = '0' := by rw [← hchar, hvalue]; rfl
      obtain rfl : rest = [] := by
        apply List.eq_nil_of_length_eq_zero
        simp only [List.length_cons, List.head?_cons, and_true] at hzero
        omega
      rfl
    · rw [toDigits_ofDigitChars_of_pos hpos hrest, Nat.toDigits_of_lt_base hlt, hchar]
      rfl

/-- If no digit is left out, the number is within 64 bits. -/
theorem ofDigitChars_of_absorb {n total : Nat} {digits : List Char} (hword : n ≤ largestWord)
    (habsorb : absorb n digits = (total, digits.length)) :
    Nat.ofDigitChars 10 digits n = total ∧ total ≤ largestWord := by
  induction digits generalizing n with
  | nil =>
    obtain ⟨rfl, -⟩ := Prod.mk.inj habsorb
    exact ⟨Nat.ofDigitChars_nil, hword⟩
  | cons c rest ih =>
    rw [absorb] at habsorb
    split at habsorb
    · next hle =>
      obtain ⟨htotal, hcount⟩ := Prod.mk.inj habsorb
      rw [Nat.ofDigitChars_cons, Nat.mul_comm]
      exact ih hle (Prod.ext htotal (Nat.succ.inj hcount))
    · simp at habsorb

theorem drop_length_takeWhile (text : List Char) :
    text.drop (text.takeWhile isDigit).length = text.dropWhile isDigit := by
  induction text with
  | nil => rfl
  | cons c rest ih => by_cases hdigit : isDigit c = true <;> simp [hdigit, ih]

theorem map_none_ne_ok {result : Except Fault (List Char)} {behind : List Char} {n : Nat} :
    result.map (none, ·) ≠ .ok (some n, behind) := by
  cases result <;> simp [Except.map]

theorem endsNumber_dropWhile {text : List Char}
    (hpoint : ∀ after, text.dropWhile isDigit ≠ '.' :: after)
    (hsmall : ∀ after, text.dropWhile isDigit ≠ 'e' :: after)
    (hlarge : ∀ after, text.dropWhile isDigit ≠ 'E' :: after) :
    EndsNumber (text.dropWhile isDigit) := by
  intro c hc
  have hstop := List.head?_dropWhile_not isDigit text
  cases hdrop : text.dropWhile isDigit with
  | nil => simp [hdrop] at hc
  | cons first rest =>
    rw [hdrop] at hc hstop
    obtain rfl : first = c := Option.some.inj hc
    refine ⟨by simpa using hstop, ?_, ?_, ?_⟩
    · rintro rfl
      exact hpoint rest hdrop
    · rintro rfl
      exact hsmall rest hdrop
    · rintro rfl
      exact hlarge rest hdrop

/-- Digits that have all been absorbed are how their value is written, if no zero stands in front. -/
theorem toDigits_of_absorb {digits : List Char} {n : Nat}
    (hshape : ¬(digits.isEmpty || (digits.length > 1 && digits.head? == some '0')) = true)
    (hdigits : ∀ c ∈ digits, isDigit c = true) (habsorb : absorb 0 digits = (n, digits.length)) :
    Nat.toDigits 10 n = digits ∧ n ≤ largestWord := by
  obtain ⟨hvalue, hword⟩ := ofDigitChars_of_absorb (Nat.zero_le _) habsorb
  refine ⟨?_, hword⟩
  rw [← hvalue]
  apply toDigits_ofDigitChars
  · rintro hnil
    simp [hnil] at hshape
  · exact hdigits
  · rintro ⟨hlength, hhead⟩
    simp [hlength, hhead] at hshape

/-- Digits are read as a whole number exactly if they are how one of 64 bits is written and nothing
behind goes on with it. -/
theorem readDigits_eq_some_iff {text behind : List Char} {n : Nat} :
    readDigits text = .ok (some n, behind) ↔
      text = Nat.toDigits 10 n ++ behind ∧ EndsNumber behind ∧ n ≤ largestWord := by
  constructor
  · intro hread
    unfold readDigits at hread
    dsimp only at hread
    rw [drop_length_takeWhile] at hread
    split at hread
    · contradiction
    · split at hread
      · contradiction
      · next hshape =>
        -- A fraction or an exponent behind the digits leaves no whole number.
        split at hread
        · split at hread
          · contradiction
          · split at hread
            · contradiction
            · exact absurd hread map_none_ne_ok
        · exact absurd hread map_none_ne_ok
        · exact absurd hread map_none_ne_ok
        · next hpoint hsmall hlarge =>
          split at hread
          · next hpower =>
            rw [Except.ok.injEq, Prod.mk.injEq, Option.some.injEq] at hread
            obtain ⟨hn, rfl⟩ := hread
            have habsorb : absorb 0 (text.takeWhile isDigit) =
                (n, (text.takeWhile isDigit).length) := Prod.ext hn (by simp only; omega)
            obtain ⟨hdigits, hword⟩ :=
              toDigits_of_absorb hshape (List.all_eq_true.mp List.all_takeWhile) habsorb
            refine ⟨?_, endsNumber_dropWhile hpoint hsmall hlarge, hword⟩
            rw [hdigits, List.takeWhile_append_dropWhile]
          · exact absurd hread map_none_ne_ok
  · rintro ⟨rfl, hends, hword⟩
    exact readDigits_toDigits hword hends

end SelectorMangling.Json
