import SelectorMangling.Json.Basic

/-!
# JSON strings

Writing a string escapes the double quotation mark, the backslash and the controls below the space;
everything else stands as it is.  Reading accepts every escape of the format, with surrogates in
pairs only, and no bare control.
-/

namespace SelectorMangling.Json

def hexValue? (c : Char) : Option Nat :=
  if '0' ≤ c && c ≤ '9' then some (c.toNat - '0'.toNat)
  else if 'a' ≤ c && c ≤ 'f' then some (c.toNat - 'a'.toNat + 10)
  else if 'A' ≤ c && c ≤ 'F' then some (c.toNat - 'A'.toNat + 10)
  else none

def hexDigit (value : Nat) : Char :=
  if value < 10 then Char.ofNat ('0'.toNat + value) else Char.ofNat ('a'.toNat + (value - 10))

def escapeChar (c : Char) : List Char :=
  if c = '"' then ['\\', '"']
  else if c = '\\' then ['\\', '\\']
  else if c = '\x08' then ['\\', 'b']
  else if c = '\x0c' then ['\\', 'f']
  else if c = '\n' then ['\\', 'n']
  else if c = '\r' then ['\\', 'r']
  else if c = '\t' then ['\\', 't']
  else if c.toNat < 0x20 then
    ['\\', 'u', '0', '0', hexDigit (c.toNat / 16), hexDigit (c.toNat % 16)]
  else [c]

/-- A string between its quotation marks. -/
def writeText (text : String) : List Char := '"' :: (text.toList.flatMap escapeChar ++ ['"'])

/-- The code unit written by four hexadecimal digits.  The text ends too early if fewer than four
bytes are left of it. -/
def readUnit : List Char → Except Fault (Nat × List Char)
  | a :: b :: c :: d :: rest =>
    match hexValue? a, hexValue? b, hexValue? c, hexValue? d with
    | some a, some b, some c, some d => .ok (((a * 16 + b) * 16 + c) * 16 + d, rest)
    | _, _, _, _ => .error .malformed
  | short =>
    if (String.ofList short).utf8ByteSize < 4 then .error .incomplete else .error .malformed

/-- The character of an escape by code units, after its first `u`.  A leading surrogate needs a
trailing one behind it, and no surrogate stands alone. -/
def readPoint (text : List Char) : Except Fault (Char × List Char) := do
  let (lead, rest) ← readUnit text
  if 0xdc00 ≤ lead ∧ lead ≤ 0xdfff then .error .malformed
  else if lead < 0xd800 ∨ 0xdbff < lead then .ok (Char.ofNat lead, rest)
  else
    match rest with
    | [] => .error .incomplete
    | '\\' :: [] => .error .incomplete
    | '\\' :: 'u' :: more =>
      let (trail, rest) ← readUnit more
      if trail < 0xdc00 ∨ 0xdfff < trail then .error .malformed
      else .ok (Char.ofNat (0x10000 + (lead - 0xd800) * 0x400 + (trail - 0xdc00)), rest)
    | _ => .error .malformed

def readEscape : List Char → Except Fault (Char × List Char)
  | [] => .error .incomplete
  | '"' :: rest => .ok ('"', rest)
  | '\\' :: rest => .ok ('\\', rest)
  | '/' :: rest => .ok ('/', rest)
  | 'b' :: rest => .ok ('\x08', rest)
  | 'f' :: rest => .ok ('\x0c', rest)
  | 'n' :: rest => .ok ('\n', rest)
  | 'r' :: rest => .ok ('\r', rest)
  | 't' :: rest => .ok ('\t', rest)
  | 'u' :: rest => readPoint rest
  | _ => .error .malformed

theorem length_lt_of_readUnit {text rest : List Char} {unit : Nat}
    (hread : readUnit text = .ok (unit, rest)) : rest.length < text.length := by
  unfold readUnit at hread
  split at hread
  · split at hread
    · simp only [Except.ok.injEq, Prod.mk.injEq] at hread
      simp [← hread.2]
      omega
    · simp at hread
  · split at hread <;> simp at hread

theorem length_lt_of_readPoint {text rest : List Char} {c : Char}
    (hread : readPoint text = .ok (c, rest)) : rest.length < text.length := by
  unfold readPoint at hread
  cases hlead : readUnit text with
  | error fault => simp [hlead, bind, Except.bind] at hread
  | ok result =>
    obtain ⟨lead, middle⟩ := result
    have hmiddle := length_lt_of_readUnit hlead
    simp only [hlead, bind, Except.bind] at hread
    split at hread
    · simp at hread
    · split at hread
      · simp only [Except.ok.injEq, Prod.mk.injEq] at hread
        simpa [← hread.2] using hmiddle
      · split at hread
        · simp at hread
        · simp at hread
        · next more =>
          cases htrail : readUnit more with
          | error fault => simp [htrail] at hread
          | ok result =>
            obtain ⟨trail, final⟩ := result
            have hfinal := length_lt_of_readUnit htrail
            simp only [htrail] at hread
            split at hread
            · simp at hread
            · simp only [Except.ok.injEq, Prod.mk.injEq] at hread
              simp only [List.length_cons] at hmiddle
              rw [← hread.2]
              omega
        · simp at hread

theorem length_lt_of_readEscape {text rest : List Char} {c : Char}
    (hread : readEscape text = .ok (c, rest)) : rest.length < text.length := by
  unfold readEscape at hread
  split at hread
  case h_10 more =>
    have hlt := length_lt_of_readPoint hread
    simp only [List.length_cons]
    omega
  all_goals simp_all

/-- The characters of a string up to its closing quotation mark, and what follows it. -/
def readChars (text : List Char) : Except Fault (List Char × List Char) :=
  match text with
  | [] => .error .incomplete
  | c :: rest =>
    if c = '"' then .ok ([], rest)
    else if c = '\\' then
      match _hread : readEscape rest with
      | .error fault => .error fault
      | .ok (escaped, after) => do
        let (chars, final) ← readChars after
        return (escaped :: chars, final)
    else if c.toNat < 0x20 then .error .malformed
    else do
      let (chars, final) ← readChars rest
      return (c :: chars, final)
termination_by text.length
decreasing_by
  · have hlt := length_lt_of_readEscape _hread
    simp only [List.length_cons]
    omega
  · simp

def readText (text : List Char) : Except Fault (String × List Char) := do
  let (chars, rest) ← readChars text
  return (String.ofList chars, rest)

end SelectorMangling.Json
