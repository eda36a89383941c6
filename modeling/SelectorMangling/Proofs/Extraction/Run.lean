import Mathlib.Data.List.DropRight
import SelectorMangling.Proofs.Extraction.Length
import SelectorMangling.Proofs.Extraction.LongestName

/-!
# Runs of characters

Names are told by runs: as many characters of one kind as stand in a row behind a place or before
it.  A tail is the longest part at the front of a run that is not too short and ends as a name may
end.
-/

namespace SelectorMangling.Extraction

/-- A text has a property, and no longer text has it. -/
structure IsLongest (property : List Char → Prop) (part : List Char) : Prop where
  holds : property part
  longest : ∀ other, property other → other.length ≤ part.length

/-- The maximal run of allowed characters at the front of a text. -/
def IsRun (isAllowed : Char → Bool) (text run : List Char) : Prop :=
  IsLongest (fun part => part <+: text ∧ ∀ c ∈ part, isAllowed c = true) run

/-- The maximal run of allowed characters that reaches up to the end of a text. -/
def IsRunUpTo (isAllowed : Char → Bool) (text run : List Char) : Prop :=
  IsLongest (fun part => part <:+ text ∧ ∀ c ∈ part, isAllowed c = true) run

/-- At least two characters, of which the last one may end a name. -/
structure EndsName (mayEnd : Char → Bool) (part : List Char) : Prop where
  two_le_length : 2 ≤ part.length
  ends : ∃ last ∈ part.getLast?, mayEnd last = true

variable {isAllowed mayEnd : Char → Bool} {text run tail part : List Char}

/-- Of the fronts of one text only one is the longest. -/
theorem IsLongest.unique {property : List Char → Prop} {other : List Char}
    (hpart : IsLongest property part) (hother : IsLongest property other)
    (hfront : ∀ front, property front → front <+: text) : part = other := by
  have hle := hother.longest part hpart.holds
  have hshorter := List.prefix_of_prefix_length_le (hfront part hpart.holds)
    (hfront other hother.holds) hle
  exact hshorter.eq_of_length_le (hpart.longest other hother.holds)

theorem isRun_takeWhile (isAllowed : Char → Bool) (text : List Char) :
    IsRun isAllowed text (text.takeWhile isAllowed) where
  holds := ⟨List.takeWhile_prefix _, fun _ => List.mem_takeWhile_imp⟩
  longest := by
    rintro other ⟨⟨rest, rfl⟩, hallowed⟩
    rw [List.takeWhile_append_of_pos hallowed, List.length_append]
    exact Nat.le_add_right _ _

theorem isRun_iff : IsRun isAllowed text run ↔ text.takeWhile isAllowed = run := by
  constructor
  · intro hrun
    exact (isRun_takeWhile isAllowed text).unique hrun fun _ hfront => hfront.1
  · rintro rfl
    exact isRun_takeWhile isAllowed text

/-- A run ends at the end of the text or before a character that is not allowed. -/
theorem isRun_append_cons {c : Char} {rest : List Char} (hallowed : ∀ c ∈ run, isAllowed c = true)
    (hstops : isAllowed c = false) : IsRun isAllowed (run ++ c :: rest) run := by
  rw [isRun_iff, List.takeWhile_append_of_pos hallowed, List.takeWhile_cons_of_neg (by simp [hstops]),
    List.append_nil]

theorem isRunUpTo_rtakeWhile (isAllowed : Char → Bool) (text : List Char) :
    IsRunUpTo isAllowed text (text.rtakeWhile isAllowed) where
  holds := ⟨List.rtakeWhile_suffix _ _, fun _ => List.mem_rtakeWhile_imp⟩
  longest := by
    rintro other ⟨hsuffix, hallowed⟩
    have hreversed := (isRun_takeWhile isAllowed text.reverse).longest other.reverse
      ⟨List.reverse_prefix.mpr hsuffix, by simpa using hallowed⟩
    simpa [List.rtakeWhile] using hreversed

/-- What is allowed up to the end of a text is at the end of the run there. -/
theorem IsRunUpTo.suffix (hrun : IsRunUpTo isAllowed text run) (hsuffix : part <:+ text)
    (hallowed : ∀ c ∈ part, isAllowed c = true) : part <:+ run :=
  List.suffix_of_suffix_length_le hsuffix hrun.holds.1 (hrun.longest part ⟨hsuffix, hallowed⟩)

/-- Trimming leaves the longest part that ends as a name may end. -/
theorem length_le_trimEnd (hpart : part <+: run) (hends : ∃ last ∈ part.getLast?, mayEnd last = true) :
    part.length ≤ (trimEnd mayEnd run).length := by
  obtain ⟨rest, hrun, hrest⟩ := exists_of_trimEnd mayEnd run
  rw [hrun] at hpart
  exact length_le_of_ends hpart hrest hends

/-- A tail is the longest part of a run that may end a name. -/
theorem tail?_eq_some_iff : tail? isAllowed mayEnd text = some tail ↔
    ∃ run, IsRun isAllowed text run ∧
      IsLongest (fun part => part <+: run ∧ EndsName mayEnd part) tail := by
  have hforward : ∀ {found}, tail? isAllowed mayEnd text = some found →
      IsLongest (fun part => part <+: text.takeWhile isAllowed ∧ EndsName mayEnd part) found := by
    intro found hfound
    obtain ⟨rfl, hne⟩ := eq_trimEnd_of_tail? hfound
    obtain ⟨rest, hrun, -⟩ := exists_of_trimEnd mayEnd (text.takeWhile isAllowed)
    refine ⟨⟨⟨rest, hrun.symm⟩, length_of_tail? hfound, exists_last_of_trimEnd hne⟩, ?_⟩
    exact fun other hother => length_le_trimEnd hother.1 hother.2.ends
  constructor
  · intro htail
    exact ⟨_, isRun_takeWhile isAllowed text, hforward htail⟩
  · rintro ⟨run, hrun, htail⟩
    obtain rfl := isRun_iff.mp hrun
    obtain ⟨hfront, hname⟩ := htail.holds
    have hlong := hname.two_le_length.trans (length_le_trimEnd hfront hname.ends)
    have hfound : tail? isAllowed mayEnd text = some (trimEnd mayEnd (text.takeWhile isAllowed)) := by
      simp only [tail?, if_neg (Nat.not_lt.mpr hlong)]
    rw [hfound, (hforward hfound).unique htail fun _ hfront => hfront.1]

end SelectorMangling.Extraction
