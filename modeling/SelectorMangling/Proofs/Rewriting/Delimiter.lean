import SelectorMangling.Proofs.Rewriting.Shrinking

/-!
# Boundaries and delimiters in a text that is kept

Whether a word begins or ends at a place depends on the characters next to it alone, and so does a
delimiter, but for the quotation mark: that one looks back to the front of a route path.  So a
stretch of text that is kept holds the same names wherever words end before it and behind it alike.
-/

namespace SelectorMangling.Rewriting

open Extraction

variable {catalog : Catalog} {before behind front kept rest : List Char}

theorem toNat_of_between {low high c : Char} (hbetween : (low ≤ c && c ≤ high) = true) :
    low.toNat ≤ c.toNat ∧ c.toNat ≤ high.toNat := by
  rw [Bool.and_eq_true, decide_eq_true_eq, decide_eq_true_eq] at hbetween
  exact hbetween

theorem toNat_of_isWord {c : Char} (hword : isWord c = true) :
    48 ≤ c.toNat ∧ c.toNat ≤ 57 ∨ 65 ≤ c.toNat ∧ c.toNat ≤ 90 ∨ 97 ≤ c.toNat ∧ c.toNat ≤ 122 ∨
      c.toNat = 95 := by
  simp only [isWord_eq, Bool.or_eq_true, beq_iff_eq] at hword
  rcases hword with ((hupper | hlower) | hdigit) | rfl
  · have hbetween : 'A' ≤ c ∧ c ≤ 'Z' := of_decide_eq_true hupper
    exact .inr (.inl hbetween)
  · have hbetween : ('a' ≤ c && c ≤ 'z') = true := hlower
    exact .inr (.inr (.inl (toNat_of_between hbetween)))
  · have hbetween : ('0' ≤ c && c ≤ '9') = true := hdigit
    exact .inl (toNat_of_between hbetween)
  · exact .inr (.inr (.inr rfl))

theorem isBlank_eq_false_of_isWord {c : Char} (hword : isWord c = true) :
    Unicode.isBlank c = false := by
  have hranges := toNat_of_isWord hword
  simp only [Unicode.isBlank, Unicode.inRanges, Unicode.blankRanges, List.any_cons, List.any_nil,
    Bool.or_false, Bool.or_eq_false_iff, Bool.and_eq_false_iff, decide_eq_false_iff_not]
  omega

/-- A word character delimits nothing. -/
theorem isDelimited_cons_of_isWord {c : Char} (hword : isWord c = true) (earlier : List Char) :
    isDelimited (c :: earlier) = false := by
  have hother : ∀ delimiter, isWord delimiter = false → c ≠ delimiter := by
    rintro delimiter hnone rfl
    exact absurd hword (by simp [hnone])
  have hplain : c ∉ plainDelimiters := by
    intro hmem
    have hall : plainDelimiters.all (fun delimiter => !isWord delimiter) = true := by decide
    exact hother c (by simpa using List.all_eq_true.mp hall c hmem) rfl
  simp [isDelimited, hplain, hother '/' (by decide), hother '-' (by decide),
    hother '"' (by decide), isBlank_eq_false_of_isWord hword]

/-! ## Boundaries -/

theorem isWordSide_head?_append {run : List Char} (hrun : isWordSide run.head? = true)
    (tail : List Char) : isWordSide (run ++ tail).head? = true := by
  cases run with
  | nil => contradiction
  | cons c others => exact hrun

theorem isWordSide_getLast?_append {run : List Char} (hrun : isWordSide run.getLast? = true)
    (front : List Char) : isWordSide (front ++ run).getLast? = true := by
  rw [List.getLast?_append]
  cases hlast : run.getLast? with
  | none => simp [hlast, isWordSide] at hrun
  | some last => rwa [hlast] at hrun

theorem getElem?_of_occurs {text run : List Char} {offset inside : Nat}
    (hoccurs : run <+: text.drop offset) (hinside : inside < run.length) :
    text[offset + inside]? = some run[inside] := by
  obtain ⟨tail, htail⟩ := hoccurs
  rw [← List.getElem?_drop, ← htail, List.getElem?_append_left hinside,
    List.getElem?_eq_getElem hinside]

/-- Inside a run of word characters no word begins or ends. -/
theorem not_isBoundaryAt_of_inside {text run : List Char} {offset place : Nat}
    (hrun : ∀ c ∈ run, isWord c = true) (hoccurs : run <+: text.drop offset)
    (hbehind : offset < place) (hbefore : place < offset + run.length) :
    ¬IsBoundaryAt text place := by
  obtain ⟨index, rfl⟩ := Nat.exists_eq_add_of_lt hbehind
  have hindex : index + 1 < run.length := by omega
  have hnext : (text.drop (offset + index + 1)).head? = some run[index + 1] := by
    rw [List.head?_drop, Nat.add_assoc, getElem?_of_occurs hoccurs]
  have hlast : (text.take (offset + index + 1)).getLast? = some run[index] := by
    rw [List.getLast?_take, if_neg (Nat.succ_ne_zero _), Nat.add_sub_cancel,
      getElem?_of_occurs hoccurs]
    rfl
  simp [IsBoundaryAt, isBoundary, hlast, hnext, isWordSide, hrun]

section Kept

variable (hfront : isWordSide front.getLast? = isWordSide before.getLast?)
  (hrest : isWordSide rest.head? = isWordSide behind.head?)

include hfront hrest

theorem isBoundaryAt_kept {offset : Nat} (hoffset : offset ≤ kept.length) :
    IsBoundaryAt (front ++ kept ++ rest) (front.length + offset) ↔
      IsBoundaryAt (before ++ kept ++ behind) (before.length + offset) := by
  have hsides : ∀ left right : List Char,
      IsBoundaryAt (left ++ kept ++ right) (left.length + offset) ↔
        isBoundary (left ++ kept.take offset).getLast? (kept.drop offset ++ right).head? := by
    intro left right
    rw [IsBoundaryAt, List.append_assoc, List.take_length_add_append, List.drop_length_add_append,
      List.take_append_of_le_length hoffset, List.drop_append_of_le_length hoffset]
  have hlast : isWordSide (front ++ kept.take offset).getLast? =
      isWordSide (before ++ kept.take offset).getLast? := by
    rw [List.getLast?_append, List.getLast?_append]
    cases (kept.take offset).getLast? with
    | none => exact hfront
    | some c => rfl
  have hnext : isWordSide (kept.drop offset ++ rest).head? =
      isWordSide (kept.drop offset ++ behind).head? := by
    rw [List.head?_append, List.head?_append]
    cases (kept.drop offset).head? with
    | none => exact hrest
    | some c => rfl
  rw [hsides, hsides, isBoundary, isBoundary, hlast, hnext]

/-- A name in a text that is kept stands there still. -/
theorem Stands.of_kept {offset : Nat} {name : String} (hfits : offset + name.length ≤ kept.length)
    (hstands : Stands catalog (front ++ kept ++ rest) (front.length + offset) name) :
    Stands catalog (before ++ kept ++ behind) (before.length + offset) name where
  cataloged := hstands.cataloged
  occurs := by
    have hdrop : ∀ left right : List Char, (left ++ kept ++ right).drop (left.length + offset) =
        kept.drop offset ++ right := by
      intro left right
      rw [List.append_assoc, List.drop_length_add_append,
        List.drop_append_of_le_length (by omega)]
    have hoccurs := hstands.occurs
    rw [hdrop] at hoccurs ⊢
    have hroom : name.toList.length ≤ (kept.drop offset).length := by
      rw [String.length_toList, List.length_drop]
      omega
    exact (List.prefix_of_prefix_length_le hoccurs (List.prefix_append _ _) hroom).trans
      (List.prefix_append _ _)
  starts := (isBoundaryAt_kept hfront hrest (by omega)).mp hstands.starts
  ends := by
    rw [Nat.add_assoc]
    apply (isBoundaryAt_kept hfront hrest hfits).mp
    rw [← Nat.add_assoc]
    exact hstands.ends

end Kept

/-! ## Delimiters -/

/-- The end of a text in which nothing can be part of a delimiter: there is no text, or it ends in a
word. -/
def IsClosed (text : List Char) : Prop := text = [] ∨ isWordSide text.getLast? = true

theorem IsClosed.head?_reverse_ne (hclosed : IsClosed front) {c : Char} (hnone : isWord c = false) :
    front.reverse.head? ≠ some c := by
  rw [List.head?_reverse]
  rcases hclosed with rfl | hword
  · simp
  · intro hlast
    rw [hlast, isWordSide, hnone] at hword
    contradiction

theorem IsClosed.not_isDelimited (hclosed : IsClosed front) :
    isDelimited front.reverse = false := by
  cases hreverse : front.reverse with
  | nil => rfl
  | cons last earlier =>
    apply isDelimited_cons_of_isWord
    by_contra hnone
    exact hclosed.head?_reverse_ne (Bool.eq_false_of_not_eq_true hnone) (by rw [hreverse]; rfl)

/-- Behind the end of a word a single character decides whether it is a delimiter. -/
theorem IsClosed.isDelimited_cons (hclosed : IsClosed front) (c : Char) :
    isDelimited (c :: front.reverse) =
      (plainDelimiters.contains c ||
        c != '/' && c != '-' && (c == '"' || Unicode.isBlank c)) := by
  have hangle := hclosed.head?_reverse_ne (show isWord '<' = false by decide)
  have hhyphen := hclosed.head?_reverse_ne (show isWord '-' = false by decide)
  have hcolon := hclosed.head?_reverse_ne (show isWord ':' = false by decide)
  have hmember : pathMember.isPrefixOf front.reverse = false := by
    rw [← Bool.not_eq_true, List.isPrefixOf_iff_prefix]
    rintro ⟨rest, hrest⟩
    exact hcolon (by rw [← hrest]; rfl)
  simp only [isDelimited, hmember, beq_eq_false_iff_ne.mpr hangle,
    beq_eq_false_iff_ne.mpr hhyphen]
  grind

/-- A delimiter in a text that is kept is one still, but for the quotation mark of a route path. -/
theorem isDelimited_of_kept {near : List Char} (hfront : IsClosed front) (hbefore : IsClosed before)
    (hdelimited : isDelimited (near ++ front.reverse) = true) :
    isDelimited (near ++ before.reverse) = true ∨
      ∃ nearer, near = '"' :: ':' :: nearer ∧
        pathMember.tail <+: nearer ++ before.reverse ∧
        ¬pathMember.tail <+: nearer ++ front.reverse := by
  match near with
  | [] =>
    rw [List.nil_append, hfront.not_isDelimited] at hdelimited
    contradiction
  | [nearest] =>
    left
    rw [List.singleton_append, hfront.isDelimited_cons] at hdelimited
    rwa [List.singleton_append, hbefore.isDelimited_cons]
  | nearest :: second :: nearer =>
    simp only [List.cons_append, isDelimited, List.head?_cons] at hdelimited ⊢
    by_cases hquote : nearest = '"'
    · subst hquote
      by_cases hreaches : pathMember.isPrefixOf (second :: (nearer ++ before.reverse)) = true
      · right
        rw [List.isPrefixOf_iff_prefix, pathMember, List.cons_prefix_cons] at hreaches
        obtain ⟨rfl, hmember⟩ := hreaches
        refine ⟨nearer, rfl, hmember, ?_⟩
        intro hother
        have hroute : pathMember.isPrefixOf (':' :: (nearer ++ front.reverse)) = true :=
          List.isPrefixOf_iff_prefix.mpr (List.cons_prefix_cons.mpr ⟨rfl, hother⟩)
        simp [hroute, plainDelimiters] at hdelimited
      · left
        simp [hreaches]
    · simp only [hquote, if_false] at hdelimited ⊢
      exact .inl hdelimited

end SelectorMangling.Rewriting
