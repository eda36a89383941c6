import SelectorMangling.Proofs.Json.Reader
import SelectorMangling.Proofs.Result

/-!
# Members as they stand in a text

What is read of an object is the list of its members, in the order in which they stand in the text.
The text also tells how a value is written: a value that is read as an unsigned whole number is
written by its decimal digits, with no sign in front and with neither a fraction nor an exponent
behind.
-/

namespace SelectorMangling.Json

theorem skipBlanks_skipBlanks (text : List Char) :
    skipBlanks (skipBlanks text) = skipBlanks text := by
  induction text with
  | nil => rfl
  | cons c rest ih =>
    by_cases hblank : isBlank c = true
    · simpa [skipBlanks, hblank] using ih
    · simp [skipBlanks, hblank]

theorem readValue_skipBlanks (depth : Nat) (text : List Char) :
    readValue depth (skipBlanks text) = readValue depth text := by
  unfold readValue
  rw [skipBlanks_skipBlanks]

/-- A text, blanks apart, begins with the decimal digits of a number, and what is behind them does
not go on with the number. -/
structure IsUnsigned (n : Nat) (text behind : List Char) : Prop where
  digits : skipBlanks text = (Nat.repr n).toList ++ behind
  ends : EndsNumber behind

/-- A number is read as a whole one only if no sign is in front of it. -/
theorem readNumber_eq_natural_iff {negative : Bool} {text behind : List Char} {n : Nat} :
    readNumber negative text = .ok (.natural n, behind) ↔
      negative = false ∧ readDigits text = .ok (some n, behind) := by
  unfold readNumber
  cases readDigits text with
  | error fault => simp [bind, Except.bind]
  | ok read =>
    obtain ⟨whole, rest⟩ := read
    cases whole with
    | none => simp [bind, Except.bind, pure, Except.pure]
    | some found => cases negative <;> simp [bind, Except.bind, pure, Except.pure]

theorem map_other_ne_natural {α : Type} {result : Except Fault α} {rest : α → List Char} {n : Nat}
    {behind : List Char} :
    result.map (fun read => (Value.other, rest read)) ≠ .ok (.natural n, behind) := by
  cases result <;> simp [Except.map]

/-- A value is read as an unsigned whole number exactly if it is written as one of 64 bits. -/
theorem readValue_eq_natural_iff {depth n : Nat} {text behind : List Char} :
    readValue depth text = .ok (.natural n, behind) ↔
      IsUnsigned n text behind ∧ n ≤ largestWord := by
  constructor
  · intro hread
    have hdigits : readDigits (skipBlanks text) = .ok (some n, behind) := by
      unfold readValue at hread
      split at hread
      · contradiction
      · exact absurd hread map_other_ne_natural
      · exact absurd hread map_other_ne_natural
      · exact absurd hread map_other_ne_natural
      · next rest _ => cases htext : readText rest <;> simp [htext, Except.map] at hread
      · simpa using (readNumber_eq_natural_iff.mp hread).1
      · split at hread
        · contradiction
        · exact absurd hread map_other_ne_natural
      · split at hread
        · contradiction
        · exact absurd hread map_other_ne_natural
      · next c rest _ _ _ _ _ _ _ hskip =>
        split at hread
        · rw [hskip]
          exact (readNumber_eq_natural_iff.mp hread).2
        · contradiction
    obtain ⟨htext, hends, hword⟩ := readDigits_eq_some_iff.mp hdigits
    exact ⟨⟨by rw [htext, Nat.toList_repr], hends⟩, hword⟩
  · rintro ⟨⟨hdigits, hends⟩, hword⟩
    rw [← readValue_skipBlanks, hdigits, Nat.toList_repr]
    exact readValue_toDigits depth hword hends

/-! ## Members -/

/-- A member of an object, with the text that its value stands in. -/
structure Member where
  name : String
  value : Value
  /-- The text behind the colon. -/
  text : List Char
  /-- The text behind the value. -/
  behind : List Char

namespace Member

def pair (member : Member) : String × Value := (member.name, member.value)

/-- A member stands at the front of a text: its name, a colon and its value. -/
def StandsIn (member : Member) (text : List Char) : Prop :=
  ∃ opened after, text = '"' :: opened ∧ readText opened = .ok (member.name, after) ∧
    skipBlanks after = ':' :: member.text ∧
    readValue innerDepth member.text = .ok (member.value, member.behind)

/-- The value of a member is written as an unsigned whole number. -/
def IsWritten (member : Member) (n : Nat) : Prop := IsUnsigned n member.text member.behind

end Member

/-- The members that stand in a text up to a closing brace, with commas between them. -/
inductive Stand : (first : Bool) → List Char → List Member → List Char → Prop
  | close {first : Bool} {text rest : List Char} (hclose : skipBlanks text = '\x7d' :: rest) :
      Stand first text [] rest
  | first {text rest : List Char} {member : Member} {members : List Member}
      (hmember : member.StandsIn (skipBlanks text))
      (hrest : Stand false member.behind members rest) : Stand true text (member :: members) rest
  | next {text after rest : List Char} {member : Member} {members : List Member}
      (hcomma : skipBlanks text = ',' :: after) (hmember : member.StandsIn (skipBlanks after))
      (hrest : Stand false member.behind members rest) : Stand false text (member :: members) rest

/-- A text is an object with these members, and nothing but blanks is around it. -/
def IsObject (text : List Char) (members : List Member) : Prop :=
  ∃ opened rest, skipBlanks text = '\x7b' :: opened ∧ Stand true opened members rest ∧
    skipBlanks rest = []

theorem Stand.standsIn {first : Bool} {text rest : List Char} {members : List Member}
    (hstand : Stand first text members rest) :
    ∀ member ∈ members, ∃ place, member.StandsIn place := by
  induction hstand with
  | close => exact List.forall_mem_nil _
  | first hmember _ ih => exact List.forall_mem_cons.mpr ⟨⟨_, hmember⟩, ih⟩
  | next _ hmember _ ih => exact List.forall_mem_cons.mpr ⟨⟨_, hmember⟩, ih⟩

theorem standsIn_of_readMember {text rest : List Char} {pair : String × Value}
    (hread : readMember (readValue innerDepth) text = .ok (pair, rest)) :
    ∃ member : Member, member.pair = pair ∧ member.behind = rest ∧ member.StandsIn text := by
  unfold readMember at hread
  split at hread
  · contradiction
  · next opened =>
    obtain ⟨⟨name, after⟩, hname, hread⟩ := exists_of_bind_eq_ok hread
    dsimp only at hread
    split at hread
    · contradiction
    · next source hcolon =>
      obtain ⟨⟨value, behind⟩, hvalue, hread⟩ := exists_of_bind_eq_ok hread
      obtain ⟨rfl, rfl⟩ := Prod.mk.inj (Except.ok.inj hread)
      exact ⟨⟨name, value, source, behind⟩, rfl, rfl, opened, after, rfl, hname, hcolon, hvalue⟩
    · contradiction
  · contradiction

/-- What is read as the members of an object stands in its text. -/
theorem exists_stand_of_readMembers {budget : Nat} {first : Bool} {text rest : List Char}
    {pairs : List (String × Value)}
    (hread : readMembers (readValue innerDepth) budget first text = .ok (pairs, rest)) :
    ∃ members, members.map Member.pair = pairs ∧ Stand first text members rest := by
  induction budget generalizing first text pairs with
  | zero => contradiction
  | succ budget ih =>
    unfold readMembers at hread
    split at hread
    · contradiction
    · next final hclose =>
      obtain ⟨rfl, rfl⟩ := Prod.mk.inj (Except.ok.inj hread)
      exact ⟨[], rfl, .close hclose⟩
    · next c after _ hskip =>
      split at hread
      · next hfirst =>
        subst hfirst
        obtain ⟨⟨pair, behind⟩, hmember, hread⟩ := exists_of_bind_eq_ok hread
        obtain ⟨⟨more, final⟩, hmore, hread⟩ := exists_of_bind_eq_ok hread
        obtain ⟨rfl, rfl⟩ := Prod.mk.inj (Except.ok.inj hread)
        obtain ⟨member, rfl, rfl, hstands⟩ := standsIn_of_readMember hmember
        obtain ⟨members, rfl, hrest⟩ := ih hmore
        exact ⟨member :: members, rfl, .first (hskip ▸ hstands) hrest⟩
      · next hfirst =>
        split at hread
        · next hcomma =>
          subst hcomma
          obtain ⟨⟨pair, behind⟩, hmember, hread⟩ := exists_of_bind_eq_ok hread
          obtain ⟨⟨more, final⟩, hmore, hread⟩ := exists_of_bind_eq_ok hread
          obtain ⟨rfl, rfl⟩ := Prod.mk.inj (Except.ok.inj hread)
          obtain ⟨member, rfl, rfl, hstands⟩ := standsIn_of_readMember hmember
          obtain ⟨members, rfl, hrest⟩ := ih hmore
          rw [Bool.not_eq_true] at hfirst
          exact ⟨member :: members, rfl, hfirst ▸ .next hskip hstands hrest⟩
        · contradiction

/-- An object that is read to the end of its text is there with the members that were read. -/
theorem exists_isObject_of_readObject {text rest : List Char} {pairs : List (String × Value)}
    (hobject : readObject text = .ok (pairs, rest)) (hend : readEnd rest = .ok ()) :
    ∃ members, members.map Member.pair = pairs ∧ IsObject text members := by
  unfold readObject at hobject
  split at hobject
  · contradiction
  · next opened hopen =>
    obtain ⟨members, hpairs, hstand⟩ := exists_stand_of_readMembers hobject
    refine ⟨members, hpairs, opened, rest, hopen, hstand, ?_⟩
    unfold readEnd at hend
    split at hend
    · next hempty => exact List.isEmpty_iff.mp hempty
    · contradiction
  · contradiction
  · obtain ⟨_, _, hread⟩ := exists_of_bind_eq_ok hobject
    contradiction

end SelectorMangling.Json
