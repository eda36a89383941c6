import SelectorMangling.Proofs.Extraction.Excerpt
import SelectorMangling.Proofs.Extraction.Preference
import SelectorMangling.Proofs.Extraction.Run

/-!
# Framework selectors by their prefixes

Framework selectors may begin anywhere, inside of words and of what was tried before.  They are the
successive parts of a script that begin with one of the prefixes: each is the first behind the one
before, with the first prefix in their order that a tail follows.
-/

namespace SelectorMangling.Extraction

namespace Excerpt

/-- The place behind a part of a text. -/
def stop (part : Excerpt) : Nat := part.place + part.text.length

/-- Successive parts from a place on: each is the first of its kind that begins at its place or behind
it, and the next one is sought at its end. -/
inductive Successive (stands : Excerpt → Prop) : Nat → List Excerpt → Prop
  | done {place : Nat} (hnone : ∀ part, stands part → part.place < place) :
      Successive stands place []
  | next {place : Nat} {part : Excerpt} {rest : List Excerpt}
      (hstands : stands part) (hbehind : place ≤ part.place)
      (hfirst : ∀ other, stands other → place ≤ other.place → part.place ≤ other.place)
      (hrest : Successive stands part.stop rest) :
      Successive stands place (part :: rest)

namespace Successive

variable {stands : Excerpt → Prop} {place : Nat} {parts others : List Excerpt}

/-- A place where nothing stands is passed over. -/
theorem skip (hnone : ∀ part, stands part → part.place ≠ place)
    (hlater : Successive stands (place + 1) parts) : Successive stands place parts := by
  cases hlater with
  | done hearlier =>
    refine .done fun part hpart => ?_
    have hplace := hearlier part hpart
    have hne := hnone part hpart
    omega
  | next hstands hbehind hfirst hrest =>
    refine .next hstands (by omega) (fun other hother hplace => ?_) hrest
    have hne := hnone other hother
    exact hfirst other hother (by omega)

/-- Where at most one part stands at a place, no other parts are successive. -/
theorem unique (hsame : ∀ part other, stands part → stands other → part.place = other.place →
      part = other)
    (hparts : Successive stands place parts) (hothers : Successive stands place others) :
    parts = others := by
  induction hparts generalizing others with
  | done hnone =>
    cases hothers with
    | done => rfl
    | next hstands hbehind => exact absurd (hnone _ hstands) (Nat.not_lt_of_le hbehind)
  | @next place part rest hstands hbehind hfirst _ ih =>
    cases hothers with
    | done hnone => exact absurd (hnone part hstands) (Nat.not_lt_of_le hbehind)
    | @next _ other _ hother hotherBehind hotherFirst hlater =>
      have hstart : part.place = other.place :=
        Nat.le_antisymm (hfirst other hother hotherBehind) (hotherFirst part hstands hbehind)
      obtain rfl := hsame part other hstands hother hstart
      rw [ih hlater]

/-- The matches in a text are successive parts of it, if they cover what they yield. -/
theorem of_matchesFrom {matchAt? : List Char → Option Match} {text : List Char}
    (hstands : ∀ {place part}, stands ⟨place, part⟩ ↔
      matchAt? (text.drop place) = some ⟨part, part.length⟩)
    (hhits : ∀ {rest hit}, matchAt? rest = some hit →
      rest ≠ [] ∧ 0 < hit.length ∧ hit.length = hit.yield.length) (place : Nat) :
    Successive stands place
      ((matchesFrom matchAt? place (text.drop place)).map fun found => ⟨found.1, found.2.yield⟩) := by
  generalize hrest : text.drop place = rest
  fun_induction matchesFrom matchAt? place rest with
  | case1 place =>
    refine .done fun part hpart => ?_
    have hne := (hhits (hstands.mp hpart)).1
    rw [ne_eq, List.drop_eq_nil_iff, Nat.not_le] at hne
    exact hne.trans_le (List.drop_eq_nil_iff.mp hrest)
  | case2 place c rest hnone ih =>
    have htail : text.drop (place + 1) = rest := by
      rw [← List.drop_drop, hrest, List.drop_one, List.tail_cons]
    refine (ih htail).skip ?_
    rintro ⟨_, part⟩ hpart rfl
    rw [hstands, hrest, hnone] at hpart
    contradiction
  | case3 place c rest hit hsome ih =>
    obtain ⟨-, hpos, hlength⟩ := hhits hsome
    have hpart : stands ⟨place, hit.yield⟩ := by
      rw [hstands, hrest, hsome, ← hlength]
    have hstop : place + 1 + (hit.length - 1) = stop ⟨place, hit.yield⟩ := by
      show place + 1 + (hit.length - 1) = place + hit.yield.length
      omega
    have hlater : text.drop (place + 1 + (hit.length - 1)) = rest.drop (hit.length - 1) := by
      rw [← List.drop_drop, ← List.drop_drop, hrest, List.drop_one, List.tail_cons]
    rw [hstop] at ih hlater
    rw [List.map_cons, hstop]
    exact .next hpart le_rfl (fun _ _ hplace => hplace) (ih hlater)

end Successive

end Excerpt

/-- The selector with a prefix at the front of a text: the prefix, a hyphen, and the longest tail of
the run behind it. -/
def IsStemmed (stem text name : List Char) : Prop :=
  stem ++ ['-'] <+: text ∧ ∃ run tail,
    IsRun isFrameworkChar (text.drop (stem ++ ['-']).length) run ∧
      IsLongest (fun part => part <+: run ∧ EndsName isLetter part) tail ∧
      name = stem ++ ['-'] ++ tail

/-- A selector stands at its place of a text with the first of the prefixes that any selector has
there. -/
def IsSelector (stems : List String) (text : List Char) (selector : Excerpt) : Prop :=
  ∃ earlier stem later, stems = earlier ++ stem :: later ∧
    IsStemmed stem.toList (text.drop selector.place) selector.text ∧
    ∀ other ∈ earlier, ∀ name, ¬IsStemmed other.toList (text.drop selector.place) name

variable {text stem name : List Char}

theorem stemmedSelector?_eq_some_iff :
    stemmedSelector? text stem = some name ↔ IsStemmed stem text name := by
  rw [stemmedSelector?, IsStemmed]
  by_cases hlead : stem ++ ['-'] <+: text
  · simp only [List.isPrefixOf_iff_prefix.mpr hlead, if_true, Option.map_eq_some_iff,
      tail?_eq_some_iff, hlead, true_and]
    constructor
    · rintro ⟨tail, ⟨run, hrun, htail⟩, rfl⟩
      exact ⟨run, tail, hrun, htail, rfl⟩
    · rintro ⟨run, tail, hrun, htail, rfl⟩
      exact ⟨tail, ⟨run, hrun, htail⟩, rfl⟩
  · simp [hlead]

theorem stemmedSelector?_eq_none_iff :
    stemmedSelector? text stem = none ↔ ∀ name, ¬IsStemmed stem text name := by
  simp only [Option.eq_none_iff_forall_ne_some, ne_eq, stemmedSelector?_eq_some_iff]

/-- A selector stands where the search for the prefixes in their order matches. -/
theorem isSelector_iff {stems : List String} {place : Nat} : IsSelector stems text ⟨place, name⟩ ↔
    frameworkMatch? (stems.map String.toList) (text.drop place) = some ⟨name, name.length⟩ := by
  have hmatch : frameworkMatch? (stems.map String.toList) (text.drop place) =
      some ⟨name, name.length⟩ ↔
        stems.findSome? (fun stem => stemmedSelector? (text.drop place) stem.toList) = some name := by
    rw [frameworkMatch?, List.findSome?_map, Option.map_eq_some_iff]
    constructor
    · rintro ⟨found, hfound, heq⟩
      obtain ⟨rfl, -⟩ := Match.mk.inj heq
      exact hfound
    · exact fun hfound => ⟨name, hfound, rfl⟩
  rw [hmatch, List.findSome?_eq_some_iff]
  simp only [stemmedSelector?_eq_some_iff, stemmedSelector?_eq_none_iff]
  rfl

/-! ## The pattern of selectors -/

/-- One of the prefixes, a hyphen, and a tail. -/
def frameworkTemplate (stems : List String) : Template where
  before := .anyOf [[]]
  name := .both (.anyOf (stems.map String.toList)) (.both (.anyOf [['-']])
    (.both (.many isFrameworkChar) (.one isLetter)))
  behind := .anyOf [[]]

theorem head?_readings_framework (stems : List String) (text : List Char) :
    ((frameworkTemplate stems).name.readings text).head? =
      (stems.map String.toList).findSome? (stemmedSelector? text) := by
  rw [frameworkTemplate, Shape.head?_readings_both, Shape.findSome?_readings_anyOf]
  congr 1
  funext stem
  rw [Shape.head?_readings_both, Shape.findSome?_readings_anyOf, stemmedSelector?]
  by_cases hstem : stem <+: text
  · obtain ⟨rest, rfl⟩ := hstem
    have hends : ∀ c, isLetter c = true → isFrameworkChar c = true := by
      intro c hc
      simp [isFrameworkChar, hc]
    by_cases hhyphen : ['-'] <+: rest
    · simp [Shape.head?_readings_tail hends, hhyphen, Function.comp_def]
    · simp [hhyphen]
  · have hlead : ¬stem ++ ['-'] <+: text := fun hlead => hstem ((List.prefix_append _ _).trans hlead)
    simp [hstem, hlead]

/-- Framework selectors are what a search for the pattern finds. -/
theorem namesIn_frameworkTemplate {stems : List String} (hstems : stems ≠ []) (script : String) :
    (frameworkTemplate stems).namesIn script = frameworkSelectors stems script := by
  have hmatch : (frameworkTemplate stems).match? = frameworkMatch? (stems.map String.toList) := by
    funext text
    rw [Template.match?_of_behind_nil rfl]
    simp only [head?_readings_framework]
    simp [frameworkTemplate, frameworkMatch?]
  rw [Template.namesIn, hmatch, frameworkSelectors, if_neg (by simpa using hstems)]

/-! ## What a search finds -/

/-- A match covers what it yields, which is not empty. -/
theorem covers_of_frameworkMatch? {stems : List (List Char)} {hit : Match}
    (hmatch : frameworkMatch? stems text = some hit) :
    text ≠ [] ∧ 0 < hit.length ∧ hit.length = hit.yield.length := by
  obtain ⟨name, hname, rfl⟩ := Option.map_eq_some_iff.mp hmatch
  obtain ⟨stem, -, hstem⟩ := List.exists_of_findSome?_eq_some hname
  obtain ⟨hlead, run, tail, -, -, rfl⟩ := stemmedSelector?_eq_some_iff.mp hstem
  refine ⟨?_, ?_, rfl⟩
  · rintro rfl
    simp at hlead
  · simp +arith

/-- The framework selectors of a script are its successive selectors, and these are told by the text and
by the prefixes in their order alone. -/
theorem framework_selectors_exact {stems : List String} (hstems : stems ≠ []) (script : String) :
    ∃ found, Excerpt.Successive (IsSelector stems script.toList) 0 found ∧
      (∀ others, Excerpt.Successive (IsSelector stems script.toList) 0 others → others = found) ∧
      frameworkSelectors stems script =
        found.map fun selector => String.ofList selector.text := by
  have hsuccessive : Excerpt.Successive (IsSelector stems script.toList) 0 _ :=
    .of_matchesFrom isSelector_iff covers_of_frameworkMatch? 0
  have hsame : ∀ part other, IsSelector stems script.toList part →
      IsSelector stems script.toList other → part.place = other.place → part = other := by
    rintro ⟨place, name⟩ ⟨_, other⟩ hpart hother rfl
    rw [isSelector_iff] at hpart hother
    rw [hpart, Option.some.injEq, Match.mk.injEq] at hother
    rw [hother.1]
  refine ⟨_, hsuccessive, fun others hothers => hothers.unique hsame hsuccessive, ?_⟩
  rw [frameworkSelectors, if_neg (by simpa using hstems), ← yields_matchesFrom _ 0, List.map_map,
    List.map_map]
  rfl

/-- Prefixes of which one begins another one, and one that is no word. -/
def nestedStems : List String := ["a", "a-1", "c+"]

/-- The first prefix gives way to the second one where nothing but that one has a tail. -/
theorem framework_selectors_exact_nestedStems :
    nestedStems ≠ [] ∧ ∃ found,
      Excerpt.Successive (IsSelector nestedStems "xa-1-bc,a-d_e-,c+-fg,cc-fg".toList) 0 found ∧
      found.map (fun selector => String.ofList selector.text) = ["a-1-bc", "a-d_e", "c+-fg"] := by
  have hstems : nestedStems ≠ [] := by decide
  obtain ⟨found, hsuccessive, -, hfound⟩ :=
    framework_selectors_exact hstems "xa-1-bc,a-d_e-,c+-fg,cc-fg"
  refine ⟨hstems, found, hsuccessive, ?_⟩
  rw [← hfound]
  cbv

end SelectorMangling.Extraction
