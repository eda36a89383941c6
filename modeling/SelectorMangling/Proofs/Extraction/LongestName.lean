import Mathlib.Data.Bool.Basic
import SelectorMangling.Proofs.Extraction.Token

/-!
# Class names are the longest ones

A class name reaches as far as characters of class names do, up to the last letter or digit among
them.  So no longer text of such characters that ends in a letter or a digit begins at its place,
whatever stands behind the source that it is taken from.
-/

namespace SelectorMangling.Extraction

/-- A text of the characters of class names that ends in a letter or a digit. -/
structure IsTrimmed (name : List Char) : Prop where
  chars : ∀ c ∈ name, isClassNameChar c = true
  ends : ∃ last ∈ name.getLast?, isLetterOrDigit last = true

theorem isClassNameChar_of_isLetter {c : Char} (hletter : isLetter c = true) :
    isClassNameChar c = true := by
  simp [isClassNameChar, isLetterOrDigit, hletter]

/-- What is trimmed off a run has no character that may end a name. -/
theorem exists_of_trimEnd (mayEnd : Char → Bool) (run : List Char) :
    ∃ rest, run = trimEnd mayEnd run ++ rest ∧ ∀ c ∈ rest, mayEnd c = false := by
  refine ⟨(run.reverse.takeWhile fun c => !mayEnd c).reverse, ?_, ?_⟩
  · rw [trimEnd, ← List.reverse_append, List.takeWhile_append_dropWhile, List.reverse_reverse]
  · intro c hc
    simpa using List.mem_takeWhile_imp (List.mem_reverse.mp hc)

theorem exists_last_of_trimEnd {mayEnd : Char → Bool} {run : List Char}
    (hne : trimEnd mayEnd run ≠ []) : ∃ last ∈ (trimEnd mayEnd run).getLast?, mayEnd last = true := by
  have hstop := List.head?_dropWhile_not (fun c => !mayEnd c) run.reverse
  rw [trimEnd, ne_eq, List.reverse_eq_nil_iff] at hne
  rw [trimEnd, List.getLast?_reverse]
  cases hhead : (run.reverse.dropWhile fun c => !mayEnd c).head? with
  | none => exact absurd (List.head?_eq_none_iff.mp hhead) hne
  | some last =>
    rw [hhead] at hstop
    exact ⟨last, rfl, by simpa using hstop⟩

/-- Where nothing behind the front of a text may end a name, no part that ends as a name may end
reaches over the front. -/
theorem length_le_of_ends {mayEnd : Char → Bool} {front rest part : List Char}
    (hpart : part <+: front ++ rest) (hrest : ∀ c ∈ rest, mayEnd c = false)
    (hends : ∃ last ∈ part.getLast?, mayEnd last = true) : part.length ≤ front.length := by
  by_contra hlonger
  obtain ⟨more, rfl⟩ :=
    List.prefix_of_prefix_length_le (List.prefix_append front rest) hpart (by omega)
  rw [List.prefix_append_right_inj] at hpart
  obtain ⟨last, hlast, hend⟩ := hends
  have hmore : more.getLast? = some last := by
    cases hmore : more.getLast? with
    | none => simp [List.getLast?_eq_none_iff.mp hmore] at hlonger
    | some c => rwa [List.getLast?_append, hmore] at hlast
  rw [hrest last (hpart.subset (List.mem_of_getLast? hmore))] at hend
  contradiction

theorem eq_trimEnd_of_tail? {isAllowed mayEnd : Char → Bool} {text tail : List Char}
    (htail : tail? isAllowed mayEnd text = some tail) :
    tail = trimEnd mayEnd (text.takeWhile isAllowed) ∧ tail ≠ [] := by
  simp only [tail?] at htail
  split at htail
  · contradiction
  · next hlong =>
    obtain rfl := Option.some.inj htail
    refine ⟨rfl, ?_⟩
    rintro hnil
    simp [hnil] at hlong

theorem prefix_of_separator? {text separator : List Char}
    (hseparator : separator? text = some separator) :
    separator <+: text ∧ ∀ c ∈ separator, isClassNameChar c = true := by
  unfold separator? at hseparator
  split at hseparator
  · cases hseparator
    exact ⟨⟨_, rfl⟩, by simp [isClassNameChar]⟩
  · cases hseparator
    exact ⟨⟨_, rfl⟩, by simp [isClassNameChar]⟩
  · contradiction

/-- A class name is the run of characters at the front of a text, less what is trimmed off. -/
theorem exists_of_className? {text name : List Char} (hname : className? text = some name) :
    IsTrimmed name ∧ ∃ rest, text.takeWhile isClassNameChar = name ++ rest ∧
      ∀ c ∈ rest, isLetterOrDigit c = false := by
  simp only [className?] at hname
  split at hname
  · contradiction
  · next hletters =>
    obtain ⟨separator, hseparator, hrest⟩ := Option.bind_eq_some_iff.mp hname
    obtain ⟨tail, htail, hsome⟩ := Option.bind_eq_some_iff.mp hrest
    obtain rfl := Option.some.inj hsome
    obtain ⟨⟨behind, hbehind⟩, hseparatorChars⟩ := prefix_of_separator? hseparator
    have hblock := List.prefix_iff_eq_append.mp (List.takeWhile_prefix (l := text) isLetter)
    generalize hlead : text.takeWhile isLetter ++ separator = lead at *
    have htext : text = lead ++ behind := by
      rw [← hlead, List.append_assoc, hbehind, hblock]
    have hleadChars : ∀ c ∈ lead, isClassNameChar c = true := by
      rw [← hlead]
      refine List.forall_mem_append.mpr ⟨?_, hseparatorChars⟩
      intro c hc
      exact isClassNameChar_of_isLetter (List.mem_takeWhile_imp hc)
    rw [show text.drop lead.length = behind by rw [htext, List.drop_left]] at htail
    obtain ⟨htrim, hne⟩ := eq_trimEnd_of_tail? htail
    obtain ⟨rest, hrun, hrest⟩ := exists_of_trimEnd isLetterOrDigit (behind.takeWhile isClassNameChar)
    rw [← htrim] at hrun
    obtain ⟨last, hlast, hends⟩ := exists_last_of_trimEnd (htrim ▸ hne)
    rw [← htrim] at hlast
    refine ⟨⟨?_, last, ?_, hends⟩, rest, ?_, hrest⟩
    · refine List.forall_mem_append.mpr ⟨hleadChars, ?_⟩
      intro c hc
      have hmem : c ∈ behind.takeWhile isClassNameChar := hrun ▸ List.mem_append_left _ hc
      exact List.mem_takeWhile_imp hmem
    · rw [List.getLast?_append, Option.mem_def.mp hlast]
      rfl
    · rw [htext, List.takeWhile_append_of_pos hleadChars, hrun, List.append_assoc]

theorem prefix_of_className? {text name : List Char} (hname : className? text = some name) :
    name <+: text := by
  obtain ⟨-, rest, hrun, -⟩ := exists_of_className? hname
  exact (hrun ▸ List.prefix_append name rest).trans (List.takeWhile_prefix _)

section Longest

variable {source behind name : List Char} (hname : className? source = some name)
  (hbehind : ∀ c ∈ behind.head?, isClassNameChar c = false)

include hname hbehind

/-- The class name at the front of a source is the longest trimmed text there, if the source ends
where a run of characters of class names does. -/
theorem length_le_of_className? {other : List Char} (hother : IsTrimmed other)
    (hoccurs : other <+: source ++ behind) : other.length ≤ name.length := by
  obtain ⟨-, rest, hrun, hrest⟩ := exists_of_className? hname
  have hstops : behind.takeWhile isClassNameChar = [] := by
    cases behind with
    | nil => rfl
    | cons c tail => simp [hbehind c (by simp)]
  have hwhole : (source ++ behind).takeWhile isClassNameChar = name ++ rest := by
    rw [List.takeWhile_append, hstops, List.append_nil]
    split
    · next hall =>
      rw [← hrun]
      exact ((List.takeWhile_prefix _).eq_of_length hall).symm
    · exact hrun
  have hfront : other <+: name ++ rest := by
    obtain ⟨tail, htail⟩ := hoccurs
    rw [← hwhole, ← htail, List.takeWhile_append_of_pos hother.chars]
    exact List.prefix_append _ _
  exact length_le_of_ends hfront hrest hother.ends

/-- No letter or digit follows a class name. -/
theorem not_isLetterOrDigit_behind {next : Char}
    (hnext : ((source ++ behind).drop name.length).head? = some next) :
    isLetterOrDigit next = false := by
  by_contra hword
  have hends := Bool.eq_true_of_not_eq_false hword
  obtain ⟨htrimmed, -⟩ := exists_of_className? hname
  have hlonger : IsTrimmed (name ++ [next]) := by
    refine ⟨List.forall_mem_append.mpr ⟨htrimmed.chars, ?_⟩, next, by simp, hends⟩
    simp [isClassNameChar, hends]
  obtain ⟨tail, htail⟩ := (prefix_of_className? hname).trans (List.prefix_append source behind)
  rw [← htail, List.drop_left] at hnext
  obtain ⟨others, rfl⟩ := List.head?_eq_some_iff.mp hnext
  have hle := length_le_of_className? hname hbehind hlonger ⟨others, by simp [← htail]⟩
  rw [List.length_append, List.length_singleton] at hle
  exact absurd hle (Nat.not_succ_le_self _)

end Longest

end SelectorMangling.Extraction
