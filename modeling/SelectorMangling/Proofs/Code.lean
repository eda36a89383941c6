import SelectorMangling.Code

/-!
# Codes tell their counter

A code consists of letters, then perhaps of digits.  The letters alone tell which counter value they
were made from, so that two codes differ if their counters do, whatever digits are written behind
them.
-/

namespace SelectorMangling.Code

theorem toNat_letter {place : Nat} (hplace : place < alphabetSize) :
    (letter place).toNat = 'a'.toNat + place := by
  revert place
  decide

theorem isDigit_letter {place : Nat} (hplace : place < alphabetSize) :
    (letter place).isDigit = false := by
  revert place
  decide

theorem places?_eq (counter : Nat) :
    places? counter =
      if counter < 26 then some [counter]
      else if counter < 676 then some [counter / 26 - 1, counter % 26]
      else if counter < 17576 then
        some [counter / 676 - 1, counter / 26 % 26, counter % 26]
      else none := rfl

theorem lt_alphabetSize_of_places? {counter : Nat} {places : List Nat}
    (hplaces : places? counter = some places) : ∀ place ∈ places, place < alphabetSize := by
  rw [places?_eq] at hplaces
  rw [alphabetSize]
  split at hplaces
  · cases hplaces
    simpa
  · split at hplaces
    · cases hplaces
      simp only [List.forall_mem_cons, List.not_mem_nil, false_implies, implies_true, and_true]
      omega
    · split at hplaces
      · cases hplaces
        simp only [List.forall_mem_cons, List.not_mem_nil, false_implies, implies_true, and_true]
        omega
      · simp at hplaces

/-- The counter value that places of letters were made from. -/
def counterOf : List Nat → Nat
  | [last] => last
  | [first, last] => (first + 1) * 26 + last
  | [first, second, last] => (first + 1) * 676 + second * 26 + last
  | _ => 0

theorem counterOf_of_places? {counter : Nat} {places : List Nat}
    (hplaces : places? counter = some places) : counterOf places = counter := by
  rw [places?_eq] at hplaces
  split at hplaces
  · cases hplaces
    rfl
  · split at hplaces
    · cases hplaces
      simp only [counterOf]
      omega
    · split at hplaces
      · cases hplaces
        simp only [counterOf]
        omega
      · simp at hplaces

theorem letters_injective {left right : List Nat}
    (hleft : ∀ place ∈ left, place < alphabetSize)
    (hright : ∀ place ∈ right, place < alphabetSize)
    (heq : left.map letter = right.map letter) : left = right := by
  have hrecover : ∀ places : List Nat, (∀ place ∈ places, place < alphabetSize) →
      (places.map letter).map (fun c => c.toNat - 'a'.toNat) = places := by
    intro places hplaces
    rw [List.map_map]
    have hletter : ∀ place ∈ places, ((fun c => c.toNat - 'a'.toNat) ∘ letter) place = place := by
      intro place hplace
      simp [toNat_letter (hplaces place hplace)]
    rw [List.map_congr_left hletter, List.map_id']
  calc
    left = (left.map letter).map (fun c => c.toNat - 'a'.toNat) := (hrecover left hleft).symm
    _ = (right.map letter).map (fun c => c.toNat - 'a'.toNat) := by rw [heq]
    _ = right := hrecover right hright

/-- The characters of a text before its first digit. -/
def lead (text : String) : List Char := text.toList.takeWhile fun c => !c.isDigit

/-- Digits behind letters do not count. -/
theorem lead_eq_letters {places : List Nat} (hplaces : ∀ place ∈ places, place < alphabetSize)
    {digits : List Char} (hdigits : ∀ c ∈ digits, c.isDigit = true) :
    lead (String.ofList (places.map letter ++ digits)) = places.map letter := by
  have hletters : ∀ c ∈ places.map letter, (!c.isDigit) = true := by
    intro c hc
    obtain ⟨place, hplace, rfl⟩ := List.mem_map.mp hc
    simp [isDigit_letter (hplaces place hplace)]
  rw [lead, String.toList_ofList, List.takeWhile_append_of_pos hletters]
  cases digits with
  | nil => simp
  | cons digit rest => simp [hdigits digit List.mem_cons_self]

theorem isDigit_of_mem_repr {n : Nat} {c : Char} (hc : c ∈ n.repr.toList) : c.isDigit = true := by
  rw [Nat.toList_repr] at hc
  exact Nat.isDigit_of_mem_toDigits (by decide) (by decide) hc

theorem repr_injective {left right : Nat} (heq : left.repr = right.repr) : left = right := by
  have hdigits := congrArg String.toList heq
  rw [Nat.toList_repr, Nat.toList_repr] at hdigits
  have hvalue := congrArg (fun digits => Nat.ofDigitChars 10 digits 0) hdigits
  simpa using hvalue

/-- The letters of a counter value come first in its code, and only digits follow them. -/
theorem lead_of_ofCounter {counter : Nat} {code : String} (hcode : ofCounter counter = .ok code)
    {behind : String} (hbehind : ∀ c ∈ behind.toList, c.isDigit = true) :
    ∃ places, places? counter = some places ∧ lead (code ++ behind) = places.map letter := by
  simp only [ofCounter, letters?] at hcode
  cases hplaces : places? counter with
  | none => simp [hplaces] at hcode
  | some places =>
    refine ⟨places, rfl, ?_⟩
    have hlt := lt_alphabetSize_of_places? hplaces
    simp only [hplaces, Option.map_some] at hcode
    split at hcode
    · cases hcode
      have htext : String.ofList (places.map letter) ++ (counter % 10).repr ++ behind =
          String.ofList (places.map letter ++ ((counter % 10).repr.toList ++ behind.toList)) := by
        apply String.toList_inj.mp
        simp
      rw [htext]
      apply lead_eq_letters hlt
      intro c hc
      rcases List.mem_append.mp hc with hc | hc
      · exact isDigit_of_mem_repr hc
      · exact hbehind c hc
    · cases hcode
      have htext : String.ofList (places.map letter) ++ behind =
          String.ofList (places.map letter ++ behind.toList) := by
        apply String.toList_inj.mp
        simp
      rw [htext]
      exact lead_eq_letters hlt hbehind

/-- Codes of different counter values differ whatever digits are written behind them. -/
theorem counter_eq_of_append_eq {left right : Nat} {leftCode rightCode : String}
    (hleft : ofCounter left = .ok leftCode) (hright : ofCounter right = .ok rightCode)
    {leftBehind rightBehind : String} (hleftDigits : ∀ c ∈ leftBehind.toList, c.isDigit = true)
    (hrightDigits : ∀ c ∈ rightBehind.toList, c.isDigit = true)
    (heq : leftCode ++ leftBehind = rightCode ++ rightBehind) : left = right := by
  obtain ⟨leftPlaces, hleftPlaces, hleftLead⟩ := lead_of_ofCounter hleft hleftDigits
  obtain ⟨rightPlaces, hrightPlaces, hrightLead⟩ := lead_of_ofCounter hright hrightDigits
  have hplaces : leftPlaces = rightPlaces :=
    letters_injective (lt_alphabetSize_of_places? hleftPlaces)
      (lt_alphabetSize_of_places? hrightPlaces) (by rw [← hleftLead, heq, hrightLead])
  calc
    left = counterOf leftPlaces := (counterOf_of_places? hleftPlaces).symm
    _ = counterOf rightPlaces := by rw [hplaces]
    _ = right := counterOf_of_places? hrightPlaces

theorem ofCounter_injective {left right : Nat} {code : String}
    (hleft : ofCounter left = .ok code) (hright : ofCounter right = .ok code) : left = right := by
  have hnothing : ∀ c ∈ "".toList, c.isDigit = true := by simp
  exact counter_eq_of_append_eq hleft hright hnothing hnothing rfl

/-- A code with a number behind it is no code of a counter value. -/
theorem append_repr_ne_ofCounter {left right place : Nat} {leftCode rightCode : String}
    (hleft : ofCounter left = .ok leftCode) (hright : ofCounter right = .ok rightCode) :
    leftCode ++ place.repr ≠ rightCode := by
  intro heq
  have hnothing : ∀ c ∈ "".toList, c.isDigit = true := by simp
  have hcounter : left = right :=
    counter_eq_of_append_eq hleft hright (fun _ => isDigit_of_mem_repr) hnothing
      (by simpa using heq)
  subst hcounter
  obtain rfl : leftCode = rightCode := Except.ok.inj (hleft.symm.trans hright)
  have hempty : place.repr = "" := by
    apply String.toList_inj.mp
    have hlist := congrArg String.toList heq
    rw [String.toList_append] at hlist
    exact List.append_right_eq_self.mp hlist
  exact Nat.repr_ne_empty hempty

theorem repr_eq_of_append_eq {code : String} {left right : Nat}
    (heq : code ++ left.repr = code ++ right.repr) : left = right := by
  apply repr_injective
  apply String.toList_inj.mp
  have hlist := congrArg String.toList heq
  rw [String.toList_append, String.toList_append] at hlist
  exact List.append_cancel_left hlist

end SelectorMangling.Code
