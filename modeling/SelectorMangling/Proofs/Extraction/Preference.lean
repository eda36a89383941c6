import Mathlib.Data.List.Infix
import SelectorMangling.Proofs.Extraction.LongestName

/-!
# Patterns with preferences

What extraction looks for is a pattern that a backtracking search reads.  A repetition takes as many
characters as it can and gives them back one by one, and words are tried in their order, until all of
the pattern is read.  Readings are listed in the order of the search, so that the first one counts.
The patterns of settings need no such order, since they are only asked whether they match.
-/

namespace SelectorMangling.Extraction

/-- What a part of a pattern looks like. -/
inductive Shape where
  /-- One character of a kind. -/
  | one (isIn : Char → Bool)
  /-- One character of a kind or more. -/
  | many (isIn : Char → Bool)
  /-- One of some words, the earlier ones preferred. -/
  | anyOf (words : List (List Char))
  /-- Two shapes in a row. -/
  | both (first second : Shape)

namespace Shape

def readOne (isIn : Char → Bool) : List Char → List (List Char)
  | [] => []
  | c :: _ => if isIn c then [[c]] else []

def readMany (isIn : Char → Bool) : List Char → List (List Char)
  | [] => []
  | c :: rest => if isIn c then (readMany isIn rest).map (c :: ·) ++ [[c]] else []

/-- What can be read at the front of a text, what is preferred first. -/
def readings : Shape → List Char → List (List Char)
  | one isIn, text => readOne isIn text
  | many isIn, text => readMany isIn text
  | anyOf words, text => words.filter (·.isPrefixOf text)
  | both first second, text =>
    (first.readings text).flatMap fun front =>
      (second.readings (text.drop front.length)).map (front ++ ·)

/-- The texts of a shape. -/
def Spells : Shape → List Char → Prop
  | one isIn, part => ∃ c, part = [c] ∧ isIn c = true
  | many isIn, part => part ≠ [] ∧ ∀ c ∈ part, isIn c = true
  | anyOf words, part => part ∈ words
  | both first second, part =>
    ∃ front back, part = front ++ back ∧ first.Spells front ∧ second.Spells back

variable {isIn isAllowed mayEnd : Char → Bool} {text part : List Char}

theorem mem_readMany_iff :
    part ∈ readMany isIn text ↔ (part ≠ [] ∧ ∀ c ∈ part, isIn c = true) ∧ part <+: text := by
  induction text generalizing part with
  | nil =>
    simp only [readMany, List.not_mem_nil, List.prefix_nil, false_iff]
    rintro ⟨⟨hne, -⟩, hnil⟩
    exact hne hnil
  | cons c rest ih =>
    rw [readMany]
    constructor
    · intro hpart
      split at hpart
      · next hc =>
        rcases List.mem_append.mp hpart with hmore | hlast
        · obtain ⟨others, hothers, rfl⟩ := List.mem_map.mp hmore
          obtain ⟨⟨-, hall⟩, hfront⟩ := ih.mp hothers
          exact ⟨⟨List.cons_ne_nil _ _, List.forall_mem_cons.mpr ⟨hc, hall⟩⟩,
            (List.prefix_cons_inj c).mpr hfront⟩
        · obtain rfl := List.mem_singleton.mp hlast
          exact ⟨⟨List.cons_ne_nil _ _, by simpa using hc⟩, rest, rfl⟩
      · contradiction
    · rintro ⟨⟨hne, hall⟩, hfront⟩
      obtain ⟨first, others, rfl⟩ := List.exists_cons_of_ne_nil hne
      obtain ⟨rfl, hothers⟩ := List.cons_prefix_cons.mp hfront
      obtain ⟨hc, hrest⟩ := List.forall_mem_cons.mp hall
      rw [if_pos hc, List.mem_append]
      by_cases hnil : others = []
      · exact .inr (by simp [hnil])
      · exact .inl (List.mem_map.mpr ⟨others, ih.mpr ⟨⟨hnil, hrest⟩, hothers⟩, rfl⟩)

/-- All texts of the shape at the front of a text are read, and nothing else. -/
theorem mem_readings_iff {shape : Shape} :
    part ∈ shape.readings text ↔ shape.Spells part ∧ part <+: text := by
  induction shape generalizing text part with
  | one isIn =>
    cases text with
    | nil =>
      simp only [readings, readOne, List.not_mem_nil, Spells, List.prefix_nil, false_iff]
      rintro ⟨⟨c, rfl, -⟩, hnil⟩
      exact List.cons_ne_nil _ _ hnil
    | cons c rest =>
      simp only [readings, readOne, Spells]
      constructor
      · intro hpart
        split at hpart
        · next hc =>
          obtain rfl := List.mem_singleton.mp hpart
          exact ⟨⟨c, rfl, hc⟩, rest, rfl⟩
        · contradiction
      · rintro ⟨⟨first, rfl, hfirst⟩, hfront⟩
        obtain ⟨rfl, -⟩ := List.cons_prefix_cons.mp hfront
        rw [if_pos hfirst]
        exact List.mem_singleton_self _
  | many isIn => exact mem_readMany_iff
  | anyOf words => simp [readings, Spells, List.isPrefixOf_iff_prefix]
  | both first second ihFirst ihSecond =>
    simp only [readings, Spells, List.mem_flatMap, List.mem_map, ihFirst, ihSecond]
    constructor
    · rintro ⟨front, ⟨hfront, hbegins⟩, back, ⟨hback, hfollows⟩, rfl⟩
      refine ⟨⟨front, back, rfl, hfront, hback⟩, ?_⟩
      rw [List.prefix_append_drop hbegins, List.prefix_append_right_inj]
      exact hfollows
    · rintro ⟨⟨front, back, rfl, hfront, hback⟩, rest, rfl⟩
      refine ⟨front, ⟨hfront, ?_⟩, back, ⟨hback, ?_⟩, rfl⟩
      · rw [List.append_assoc]
        exact List.prefix_append _ _
      · rw [List.append_assoc, List.drop_left]
        exact List.prefix_append _ _

/-! ## Repetitions -/

theorem readings_many_both_cons {c : Char} (hc : isIn c = true) (next : Shape) (rest : List Char) :
    (both (many isIn) next).readings (c :: rest) =
      ((both (many isIn) next).readings rest).map (c :: ·) ++
        (next.readings rest).map (c :: ·) := by
  simp [readings, readMany, hc, List.flatMap_map, List.map_flatMap, Function.comp_def]

theorem readings_many_both_of_not {c : Char} (hc : isIn c = false) (next : Shape)
    (rest : List Char) : (both (many isIn) next).readings (c :: rest) = [] := by
  simp [readings, readMany, hc]

/-- Where what follows a repetition cannot be read at characters of it, none of them are given
back. -/
theorem readings_many_both {next : Shape}
    (hnext : ∀ c rest, isIn c = true → next.readings (c :: rest) = []) (text : List Char) :
    (both (many isIn) next).readings text =
      if (text.takeWhile isIn).isEmpty then []
      else (next.readings (text.drop (text.takeWhile isIn).length)).map
        (text.takeWhile isIn ++ ·) := by
  induction text with
  | nil => rfl
  | cons c rest ih =>
    by_cases hc : isIn c = true
    · rw [readings_many_both_cons hc, ih, List.takeWhile_cons_of_pos hc]
      cases rest with
      | nil => simp
      | cons d others =>
        by_cases hd : isIn d = true
        · simp [hnext d others hd, List.takeWhile_cons_of_pos hd]
        · simp [List.takeWhile_cons_of_neg hd]
    · rw [readings_many_both_of_not (Bool.eq_false_of_not_eq_true hc), List.takeWhile_cons_of_neg hc]
      rfl

theorem trimEnd_cons (mayEnd : Char → Bool) (c : Char) (run : List Char) :
    trimEnd mayEnd (c :: run) =
      if (trimEnd mayEnd run).isEmpty then [c].filter mayEnd else c :: trimEnd mayEnd run := by
  simp only [trimEnd, List.reverse_cons, List.dropWhile_append, List.isEmpty_reverse]
  split
  · cases hc : mayEnd c <;> simp [hc]
  · simp

theorem readOne_eq_singleton {c : Char} (hrun : trimEnd mayEnd (text.takeWhile isAllowed) = [c]) :
    readOne mayEnd text = [[c]] := by
  obtain ⟨last, hlast, hc⟩ := exists_last_of_trimEnd (hrun ▸ List.cons_ne_nil c [])
  obtain ⟨rest, hwhole, -⟩ := exists_of_trimEnd mayEnd (text.takeWhile isAllowed)
  rw [hrun] at hlast hwhole
  obtain rfl : c = last := by simpa using hlast
  obtain ⟨behind, htext⟩ := List.takeWhile_prefix (l := text) isAllowed
  rw [← htext, hwhole]
  exact if_pos hc

section Tail

variable (hends : ∀ c, mayEnd c = true → isAllowed c = true)

include hends

/-- No name ends with the first character of a text if nothing is left of the run there. -/
theorem readOne_eq_nil (hrun : trimEnd mayEnd (text.takeWhile isAllowed) = []) :
    readOne mayEnd text = [] := by
  cases text with
  | nil => rfl
  | cons c rest =>
    refine if_neg fun hc => ?_
    rw [List.takeWhile_cons_of_pos (hends c hc), trimEnd_cons] at hrun
    split at hrun
    · simp [hc] at hrun
    · contradiction

/-- A repetition and a last character after it read the longest tail first. -/
theorem head?_readings_tail (text : List Char) :
    ((both (many isAllowed) (one mayEnd)).readings text).head? = tail? isAllowed mayEnd text := by
  induction text with
  | nil => rfl
  | cons c rest ih =>
    by_cases hc : isAllowed c = true
    · rw [readings_many_both_cons hc, List.head?_append, List.head?_map, ih]
      simp only [tail?, readings, List.takeWhile_cons_of_pos hc, trimEnd_cons]
      -- What is left of the run behind the character may be too short for a tail, but with the
      -- character it is long enough unless nothing is left.
      rcases hrun : trimEnd mayEnd (rest.takeWhile isAllowed) with _ | ⟨d, _ | ⟨e, more⟩⟩
      · cases hlast : mayEnd c <;> simp [readOne_eq_nil hends hrun, hlast]
      · simp [readOne_eq_singleton hrun]
      · simp +arith
    · rw [readings_many_both_of_not (Bool.eq_false_of_not_eq_true hc)]
      simp [tail?, List.takeWhile_cons_of_neg hc, trimEnd]

end Tail

/-! ## Parts in a row -/

theorem head?_readings_both (first second : Shape) (text : List Char) :
    ((both first second).readings text).head? =
      (first.readings text).findSome? fun front =>
        (second.readings (text.drop front.length)).head?.map (front ++ ·) := by
  simp only [readings, List.head?_flatMap, List.head?_map]

theorem findSome?_readings_anyOf {result : Type} (words : List (List Char)) (text : List Char)
    (continue? : List Char → Option result) :
    ((anyOf words).readings text).findSome? continue? =
      words.findSome? fun word => if word.isPrefixOf text then continue? word else none := by
  rw [readings]
  induction words with
  | nil => rfl
  | cons word rest ih =>
    by_cases hword : word.isPrefixOf text = true
    · rw [List.filter_cons, if_pos hword, List.findSome?_cons, List.findSome?_cons, ih, if_pos hword]
    · rw [List.filter_cons, if_neg hword, List.findSome?_cons, ih, if_neg hword]

@[simp]
theorem readings_anyOf_nil (text : List Char) : (anyOf [[]]).readings text = [[]] := by
  simp [readings]

end Shape

/-- A pattern whose names have something before them and behind them. -/
structure Template where
  before : Shape
  name : Shape
  behind : Shape

namespace Template

/-- The matches at the front of a text, what is preferred first. -/
def readings (template : Template) (text : List Char) : List Match :=
  (template.before.readings text).flatMap fun front =>
    (template.name.readings (text.drop front.length)).flatMap fun name =>
      (template.behind.readings (text.drop (front ++ name).length)).map fun back =>
        ⟨name, (front ++ name ++ back).length⟩

def match? (template : Template) (text : List Char) : Option Match := (template.readings text).head?

/-- The names of the successive matches in a source. -/
def namesIn (template : Template) (source : String) : List String :=
  (search template.match? source.toList).map String.ofList

variable {template : Template} {text : List Char} {hit : Match}

theorem mem_readings_iff : hit ∈ template.readings text ↔
    ∃ front name back, template.before.Spells front ∧ template.name.Spells name ∧
      template.behind.Spells back ∧ front ++ name ++ back <+: text ∧
      hit = ⟨name, (front ++ name ++ back).length⟩ := by
  simp only [readings, List.mem_flatMap, List.mem_map, Shape.mem_readings_iff]
  constructor
  · rintro ⟨front, ⟨hfront, before, rfl⟩, name, ⟨hname, hbegins⟩, back, ⟨hback, hfollows⟩, rfl⟩
    refine ⟨front, name, back, hfront, hname, hback, ?_, rfl⟩
    rw [List.drop_left] at hbegins
    rw [List.length_append, ← List.drop_drop, List.drop_left] at hfollows
    rw [List.append_assoc, List.prefix_append_right_inj, List.prefix_append_drop hbegins,
      List.prefix_append_right_inj]
    exact hfollows
  · rintro ⟨front, name, back, hfront, hname, hback, ⟨rest, rfl⟩, rfl⟩
    refine ⟨front, ⟨hfront, ?_⟩, name, ⟨hname, ?_⟩, back, ⟨hback, ?_⟩, rfl⟩
    · simp only [List.append_assoc, List.prefix_append]
    · simp only [List.append_assoc, List.drop_left, List.prefix_append]
    · rw [List.append_assoc (front ++ name), List.drop_left]
      exact List.prefix_append _ _

/-- A text that is read in one way only is matched in that way. -/
theorem match?_eq_of_mem_readings {only : Option Match}
    (honly : ∀ hit, hit ∈ template.readings text ↔ only = some hit) :
    template.match? text = only := by
  cases hfirst : template.match? text with
  | some hit => exact ((honly hit).mp (List.mem_of_mem_head? hfirst)).symm
  | none =>
    refine (Option.eq_none_iff_forall_ne_some.mpr fun hit honlyHit => ?_).symm
    have hmem := (honly hit).mpr honlyHit
    rw [List.head?_eq_none_iff.mp hfirst] at hmem
    contradiction

/-- Where nothing is sought behind a name, its first reading counts. -/
theorem match?_of_behind_nil (hbehind : template.behind = .anyOf [[]]) (text : List Char) :
    template.match? text = (template.before.readings text).findSome? fun front =>
      (template.name.readings (text.drop front.length)).head?.map fun name =>
        ⟨name, (front ++ name).length⟩ := by
  simp only [match?, readings, hbehind, Shape.readings_anyOf_nil, List.map_cons, List.map_nil,
    List.append_nil, ← List.map_eq_flatMap, List.head?_flatMap, List.head?_map]

end Template

end SelectorMangling.Extraction
