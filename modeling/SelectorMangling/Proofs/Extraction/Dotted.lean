import SelectorMangling.Proofs.Extraction.Excerpt
import SelectorMangling.Proofs.Extraction.Preference
import SelectorMangling.Proofs.Extraction.Run

/-!
# Class names behind dots

A dot yields the class name that begins behind it, if one does.  Class names have no dots inside, so
no match hides another one: each dot is judged by the text behind it alone.
-/

namespace SelectorMangling.Extraction

/-- What may stand between the letters and the tail of a class name. -/
def separators : List (List Char) := [['-'], ['_', '_']]

/-- The parts of a compound class name. -/
structure CompoundName where
  letters : List Char
  separator : List Char
  tail : List Char

namespace CompoundName

def spelled (name : CompoundName) : List Char := name.letters ++ name.separator ++ name.tail

/-- The name stands at the front of a text: all letters there, then a separator, then the longest
tail of all characters of class names there. -/
structure Begins (name : CompoundName) (text : List Char) : Prop where
  letters_run : IsRun isLetter text name.letters
  letters_ne_nil : name.letters ≠ []
  separator_mem : name.separator ∈ separators
  separator_behind : name.separator <+: text.drop name.letters.length
  tail_longest : ∃ run,
    IsRun isClassNameChar (text.drop (name.letters ++ name.separator).length) run ∧
      IsLongest (fun part => part <+: run ∧ EndsName isLetterOrDigit part) name.tail

end CompoundName

variable {text name separator : List Char}

theorem separator?_eq_some_iff :
    separator? text = some separator ↔ separator ∈ separators ∧ separator <+: text := by
  constructor
  · intro hseparator
    refine ⟨?_, (prefix_of_separator? hseparator).1⟩
    unfold separator? at hseparator
    split at hseparator
    · cases hseparator
      exact List.mem_cons_self
    · cases hseparator
      exact List.mem_cons_of_mem _ List.mem_cons_self
    · contradiction
  · rintro ⟨hmem, rest, rfl⟩
    have hcases : separator = ['-'] ∨ separator = ['_', '_'] := by simpa [separators] using hmem
    rcases hcases with rfl | rfl
    · rfl
    · rfl

/-- The class name at the front of a text, told by its parts. -/
theorem className?_eq_some_iff : className? text = some name ↔
    ∃ parts : CompoundName, parts.Begins text ∧ parts.spelled = name := by
  constructor
  · intro hname
    simp only [className?] at hname
    split at hname
    · contradiction
    · next hletters =>
      obtain ⟨separator, hseparator, hrest⟩ := Option.bind_eq_some_iff.mp hname
      obtain ⟨tail, htail, hsome⟩ := Option.bind_eq_some_iff.mp hrest
      obtain ⟨hmem, hbehind⟩ := separator?_eq_some_iff.mp hseparator
      refine ⟨⟨text.takeWhile isLetter, separator, tail⟩, ?_, Option.some.inj hsome⟩
      exact ⟨isRun_takeWhile _ _, mt List.isEmpty_iff.mpr hletters, hmem, hbehind,
        tail?_eq_some_iff.mp htail⟩
  · rintro ⟨⟨letters, separator, tail⟩, hbegins, rfl⟩
    obtain rfl := isRun_iff.mp hbegins.letters_run
    have hseparator := separator?_eq_some_iff.mpr ⟨hbegins.separator_mem, hbegins.separator_behind⟩
    have htail := tail?_eq_some_iff.mpr hbegins.tail_longest
    have hletters : (text.takeWhile isLetter).isEmpty = false := by
      simpa using hbegins.letters_ne_nil
    simp only [className?, hletters, hseparator, Option.bind_eq_bind, Option.bind_some, htail]
    rfl

/-- A match is a dot with a class name behind it. -/
theorem classNameMatch?_eq_some_iff {hit : Match} : classNameMatch? text = some hit ↔
    ∃ name rest, text = '.' :: rest ∧ className? rest = some name ∧
      hit = ⟨name, 1 + name.length⟩ := by
  constructor
  · intro hmatch
    unfold classNameMatch? at hmatch
    split at hmatch
    · obtain ⟨name, hname, rfl⟩ := Option.map_eq_some_iff.mp hmatch
      exact ⟨name, _, rfl, hname, rfl⟩
    · contradiction
  · rintro ⟨name, rest, rfl, hname, rfl⟩
    rw [classNameMatch?, hname]
    rfl

/-! ## The pattern of class names -/

/-- A dot, and a class name. -/
def classNameTemplate : Template where
  before := .anyOf [['.']]
  name := .both (.many isLetter) (.both (.anyOf separators)
    (.both (.many isClassNameChar) (.one isLetterOrDigit)))
  behind := .anyOf [[]]

theorem findSome?_readings_separators {result : Type} (text : List Char)
    (continue? : List Char → Option result) :
    ((Shape.anyOf separators).readings text).findSome? continue? =
      (separator? text).bind continue? := by
  unfold separator?
  split
  · simp [Shape.readings, separators]
  · simp [Shape.readings, separators]
  · next hhyphen hunderscores =>
    have hnone : (Shape.anyOf separators).readings text = [] := by
      refine List.filter_eq_nil_iff.mpr fun word hword hfront => ?_
      obtain ⟨rest, rfl⟩ := List.isPrefixOf_iff_prefix.mp hfront
      rcases List.mem_pair.mp hword with rfl | rfl
      · exact hhyphen rest rfl
      · exact hunderscores rest rfl
    rw [hnone]
    rfl

theorem separator?_eq_none_of_isLetter {c : Char} (hc : isLetter c = true) (rest : List Char) :
    separator? (c :: rest) = none := by
  unfold separator?
  split
  · next heq => cases heq; exact absurd hc (by decide)
  · next heq => cases heq; exact absurd hc (by decide)
  · rfl

theorem head?_readings_className (text : List Char) :
    (classNameTemplate.name.readings text).head? = className? text := by
  have hnext : ∀ c rest, isLetter c = true →
      (Shape.both (.anyOf separators)
        (.both (.many isClassNameChar) (.one isLetterOrDigit))).readings (c :: rest) = [] := by
    intro c rest hc
    rw [← List.head?_eq_none_iff, Shape.head?_readings_both, findSome?_readings_separators,
      separator?_eq_none_of_isLetter hc, Option.bind_none]
  rw [classNameTemplate, Shape.readings_many_both hnext, className?]
  split
  · rfl
  · rw [List.head?_map, Shape.head?_readings_both, findSome?_readings_separators]
    cases separator? (text.drop (text.takeWhile isLetter).length) with
    | none => rfl
    | some separator =>
      have hends : ∀ c, isLetterOrDigit c = true → isClassNameChar c = true := by
        intro c hc
        simp [isClassNameChar, hc]
      rw [Option.bind_some, Shape.head?_readings_tail hends, List.drop_drop]
      simp only [Option.bind_eq_bind, Option.bind_some, List.length_append]
      cases tail? isClassNameChar isLetterOrDigit
        (text.drop ((text.takeWhile isLetter).length + separator.length)) with
      | none => rfl
      | some tail => simp

theorem classNameTemplate_match? : classNameTemplate.match? = classNameMatch? := by
  funext text
  rw [Template.match?_of_behind_nil rfl]
  simp only [head?_readings_className]
  rw [classNameTemplate, Shape.findSome?_readings_anyOf]
  unfold classNameMatch?
  split
  · simp [Nat.add_comm]
  · next hdot =>
    have hnone : ¬['.'] <+: text := by
      rintro ⟨rest, rfl⟩
      exact hdot rest rfl
    simp [hnone]

/-- Class names are what a search for the pattern finds. -/
theorem namesIn_classNameTemplate (source : String) :
    classNameTemplate.namesIn source = classNames source := by
  rw [Template.namesIn, classNameTemplate_match?, classNames]

/-! ## What a search finds -/

/-- No dot stands inside a class name. -/
theorem getElem?_ne_dot_of_className? {inside : Nat} (hname : className? text = some name)
    (hinside : inside < name.length) : text[inside]? ≠ some '.' := by
  intro hdot
  obtain ⟨rest, rfl⟩ := prefix_of_className? hname
  rw [List.getElem?_append_left hinside] at hdot
  have hchar := (exists_of_className? hname).1.chars '.' (List.mem_of_getElem? hdot)
  exact absurd hchar (by decide)

/-- The class names of a text, each with the place of its dot. -/
def dottedNames (text : List Char) : List Excerpt :=
  (matchesFrom classNameMatch? 0 text).map fun found => ⟨found.1, found.2.yield⟩

theorem texts_dottedNames (source : String) :
    (dottedNames source.toList).map (fun name => String.ofList name.text) = classNames source := by
  rw [classNames, ← yields_matchesFrom _ 0, dottedNames, List.map_map, List.map_map]
  rfl

theorem pairwise_dottedNames (text : List Char) :
    (dottedNames text).Pairwise fun name later => name.place < later.place := by
  refine List.pairwise_map.mpr ((pairwise_matchesFrom _ _ _).imp_of_mem ?_)
  intro found later hfound _ hapart
  obtain ⟨_, _, -, -, hhit⟩ :=
    classNameMatch?_eq_some_iff.mp (match_of_mem_matchesFrom hfound)
  simp only [hhit] at hapart
  simp only
  omega

/-- Each dot with a class name behind it is matched: it is not inside an earlier match. -/
theorem mem_matchesFrom_of_dot {dot : Nat} (hdot : text[dot]? = some '.')
    (hname : className? (text.drop (dot + 1)) = some name) :
    (dot, ⟨name, 1 + name.length⟩) ∈ matchesFrom classNameMatch? 0 text := by
  have hdrop : text.drop dot = '.' :: text.drop (dot + 1) := by
    obtain ⟨hlt, hget⟩ := List.getElem?_eq_some_iff.mp hdot
    rw [List.drop_eq_getElem_cons hlt, hget]
  have hmatch : classNameMatch? (text.drop dot) = some ⟨name, 1 + name.length⟩ :=
    classNameMatch?_eq_some_iff.mpr ⟨name, _, hdrop, hname, rfl⟩
  have hcovers : ∀ {rest hit}, classNameMatch? rest = some hit → rest ≠ [] ∧ 0 < hit.length := by
    intro rest hit hhit
    obtain ⟨_, _, rfl, -, rfl⟩ := classNameMatch?_eq_some_iff.mp hhit
    exact ⟨List.cons_ne_nil _ _, by simp only; omega⟩
  obtain ⟨first, hit, hfound, hbefore, hover⟩ := exists_cover_of_match 0 hcovers hmatch
  have hfirst := match_of_mem_matchesFrom hfound
  obtain ⟨earlier, rest, hrest, hearlier, rfl⟩ := classNameMatch?_eq_some_iff.mp hfirst
  simp only [Nat.zero_add] at hbefore hover
  rcases Nat.eq_or_lt_of_le hbefore with rfl | hlater
  · rw [hmatch, Option.some.injEq] at hfirst
    rwa [hfirst]
  · -- A dot behind the first one would be a character of the name there.
    obtain ⟨inside, rfl⟩ := Nat.exists_eq_add_of_lt hlater
    have hinside : inside < earlier.length := by omega
    refine absurd ?_ (getElem?_ne_dot_of_className? hearlier hinside)
    rw [← hdot, Nat.add_assoc, ← List.getElem?_drop, hrest, List.getElem?_cons_succ]

theorem mem_dottedNames_iff {dot : Nat} : ⟨dot, name⟩ ∈ dottedNames text ↔
    text[dot]? = some '.' ∧ className? (text.drop (dot + 1)) = some name := by
  rw [dottedNames, List.mem_map]
  constructor
  · rintro ⟨⟨first, hit⟩, hfound, heq⟩
    obtain ⟨rfl, rfl⟩ : first = dot ∧ hit.yield = name := by simpa using heq
    obtain ⟨name, rest, hrest, hname, rfl⟩ :=
      classNameMatch?_eq_some_iff.mp (match_of_mem_matchesFrom hfound)
    rw [← List.drop_drop, ← Nat.add_zero first, ← List.getElem?_drop, Nat.add_zero, hrest]
    exact ⟨List.getElem?_cons_zero, hname⟩
  · rintro ⟨hdot, hname⟩
    exact ⟨_, mem_matchesFrom_of_dot hdot hname, rfl⟩

/-- The class names of a source are those behind its dots: in the order of the dots, each dot with a
class name behind it yields that name, and no other dot yields any. -/
theorem class_names_exact (source : String) :
    ∃ found : List Excerpt,
      classNames source = found.map (fun name => String.ofList name.text) ∧
      found.Pairwise (fun name later => name.place < later.place) ∧
      ∀ dot name, ⟨dot, name⟩ ∈ found ↔
        source.toList[dot]? = some '.' ∧
          ∃ parts : CompoundName,
            parts.Begins (source.toList.drop (dot + 1)) ∧ parts.spelled = name := by
  refine ⟨dottedNames source.toList, (texts_dottedNames source).symm,
    pairwise_dottedNames source.toList, fun dot name => ?_⟩
  rw [mem_dottedNames_iff, className?_eq_some_iff]

example : classNames ".card-title-,.a-b.x--yz .card__9.a_b" = ["card-title", "x--yz"] := by cbv

end SelectorMangling.Extraction
