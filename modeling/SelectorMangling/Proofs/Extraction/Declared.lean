import Mathlib.Data.List.Nodup
import SelectorMangling.Proofs.Extraction.Excerpt
import SelectorMangling.Proofs.Extraction.Preference
import SelectorMangling.Proofs.Extraction.Run

/-!
# Custom properties before colons

A search reads forward from two hyphens.  What it finds is told backward from the colons: of the
declarations that end there, each colon yields the longest one.  A declaration has no colon inside, so
that those which end at different colons do not meet.
-/

namespace SelectorMangling.Extraction

/-- A compound name: letters, a hyphen and a tail. -/
def IsPropertyName (name : List Char) : Prop :=
  ∃ letters tail, name = letters ++ '-' :: tail ∧ letters ≠ [] ∧
    (∀ c ∈ letters, isLetter c = true) ∧ (∀ c ∈ tail, isPropertyChar c = true) ∧
    EndsName isLetterOrDigit tail

/-- A name with its two hyphens, as it stands before a colon. -/
def hyphened (name : List Char) : List Char := '-' :: '-' :: name

theorem length_hyphened (name : List Char) : (hyphened name).length = name.length + 2 := rfl

/-- A name stands with its hyphens before the colon at a place of a text. -/
structure Declares (text : List Char) (colon : Nat) (name : List Char) : Prop where
  colon_at : text[colon]? = some ':'
  isName : IsPropertyName name
  before : hyphened name <:+ text.take colon

variable {text name other : List Char} {colon : Nat}

theorem IsPropertyName.isPropertyChar (hname : IsPropertyName name) :
    ∀ c ∈ hyphened name, isPropertyChar c = true := by
  obtain ⟨letters, tail, rfl, -, hletters, htail, -⟩ := hname
  intro c hc
  simp only [hyphened, List.mem_cons, List.mem_append] at hc
  rcases hc with rfl | rfl | hletter | rfl | hmem
  · rfl
  · rfl
  · simp [Extraction.isPropertyChar, isLetterOrDigit, hletters c hletter]
  · rfl
  · exact htail c hmem

/-! ## What a match is -/

/-- The name at the front of a text, up to a colon. -/
theorem propertyName?_eq_some_iff :
    propertyName? text = some name ↔ IsPropertyName name ∧ name ++ [':'] <+: text := by
  constructor
  · intro hname
    simp only [propertyName?] at hname
    split at hname
    · next rest hrest =>
      split at hname
      · contradiction
      · next hform =>
        split at hname
        · next hcolon =>
          obtain rfl := Option.some.inj hname
          simp only [Bool.or_eq_true, not_or, decide_eq_true_eq, Nat.not_lt, Bool.not_eq_true',
            Bool.not_eq_false] at hform
          obtain ⟨behind, hbehind⟩ := List.head?_eq_some_iff.mp hcolon
          obtain ⟨last, hlast, hends⟩ := (Option.any_eq_true _ _).mp hform.2
          refine ⟨⟨text.takeWhile isLetter, rest.takeWhile isPropertyChar, rfl,
            mt List.isEmpty_iff.mpr hform.1.1, fun _ => List.mem_takeWhile_imp,
            fun _ => List.mem_takeWhile_imp, hform.1.2, last, hlast, hends⟩, behind, ?_⟩
          calc text.takeWhile isLetter ++ '-' :: rest.takeWhile isPropertyChar ++ [':'] ++ behind
            _ = text.takeWhile isLetter ++ '-' :: (rest.takeWhile isPropertyChar ++
                  ':' :: behind) := by simp
            _ = text.takeWhile isLetter ++ '-' :: rest := by
              rw [← hbehind, List.prefix_iff_eq_append.mp (List.takeWhile_prefix _)]
            _ = text := by
              rw [← hrest, List.prefix_iff_eq_append.mp (List.takeWhile_prefix _)]
        · contradiction
    · contradiction
  · rintro ⟨⟨letters, tail, rfl, hne, hletters, htail, htwo, last, hlast, hends⟩, behind, rfl⟩
    have htext : letters ++ '-' :: tail ++ [':'] ++ behind =
        letters ++ '-' :: (tail ++ ':' :: behind) := by simp
    have hblock : (letters ++ '-' :: (tail ++ ':' :: behind)).takeWhile isLetter = letters :=
      isRun_iff.mp (isRun_append_cons hletters (by decide))
    have hrun : (tail ++ ':' :: behind).takeWhile isPropertyChar = tail :=
      isRun_iff.mp (isRun_append_cons htail (by decide))
    rw [htext]
    simp only [propertyName?, hblock, List.drop_left, hrun]
    have hlong : ¬ tail.length < 2 := Nat.not_lt.mpr htwo
    have hany : tail.getLast?.any isLetterOrDigit = true :=
      (Option.any_eq_true _ _).mpr ⟨last, hlast, hends⟩
    simp [hne, hlong, hany]

/-- A match is a name with two hyphens before it and a colon behind it. -/
theorem customPropertyMatch?_eq_some_iff {hit : Match} : customPropertyMatch? text = some hit ↔
    ∃ name, IsPropertyName name ∧ hyphened name ++ [':'] <+: text ∧
      hit = ⟨name, (hyphened name).length + 1⟩ := by
  constructor
  · intro hmatch
    unfold customPropertyMatch? at hmatch
    split at hmatch
    · obtain ⟨name, hname, rfl⟩ := Option.map_eq_some_iff.mp hmatch
      obtain ⟨hproper, behind, rfl⟩ := propertyName?_eq_some_iff.mp hname
      exact ⟨name, hproper, ⟨behind, rfl⟩, by rw [length_hyphened, Nat.add_comm]⟩
    · contradiction
  · rintro ⟨name, hname, ⟨behind, rfl⟩, rfl⟩
    have hfound : propertyName? (name ++ [':'] ++ behind) = some name :=
      propertyName?_eq_some_iff.mpr ⟨hname, behind, rfl⟩
    have hlength : 3 + name.length = (hyphened name).length + 1 := Nat.add_comm 3 name.length
    simp only [hyphened, List.cons_append, customPropertyMatch?, hfound, Option.map_some, hlength]

/-! ## The pattern of declarations -/

/-- Two hyphens, a compound name, and a colon. -/
def propertyTemplate : Template where
  before := .anyOf [['-', '-']]
  name := .both (.many isLetter) (.both (.anyOf [['-']])
    (.both (.many isPropertyChar) (.one isLetterOrDigit)))
  behind := .anyOf [[':']]

/-- The shape has the last character of a name by itself. -/
theorem spells_propertyName_iff : propertyTemplate.name.Spells name ↔ IsPropertyName name := by
  constructor
  · rintro ⟨letters, _, rfl, ⟨hne, hletters⟩, _, _, rfl, hhyphen, run, _, rfl, ⟨hrun, hchars⟩, last,
      rfl, hlast⟩
    obtain rfl := List.mem_singleton.mp hhyphen
    refine ⟨letters, run ++ [last], rfl, hne, hletters, ?_, ?_, last, by simp, hlast⟩
    · refine List.forall_mem_append.mpr ⟨hchars, ?_⟩
      simp [isPropertyChar, hlast]
    · have hlength := List.length_pos_iff.mpr hrun
      rw [List.length_append, List.length_singleton]
      omega
  · rintro ⟨letters, tail, rfl, hne, hletters, hchars, htwo, last, hlast, hends⟩
    obtain ⟨run, rfl⟩ := List.getLast?_eq_some_iff.mp hlast
    refine ⟨letters, _, rfl, ⟨hne, hletters⟩, ['-'], _, rfl, List.mem_singleton_self _, run, [last],
      rfl, ⟨?_, (List.forall_mem_append.mp hchars).1⟩, last, rfl, hends⟩
    rintro rfl
    simp at htwo

theorem propertyTemplate_match? : propertyTemplate.match? = customPropertyMatch? := by
  funext text
  have hmem : ∀ hit, hit ∈ propertyTemplate.readings text ↔ customPropertyMatch? text = some hit := by
    intro hit
    rw [Template.mem_readings_iff, customPropertyMatch?_eq_some_iff]
    simp only [spells_propertyName_iff]
    constructor
    · rintro ⟨_, name, _, hhyphens, hname, hcolon, hfront, rfl⟩
      obtain rfl := List.mem_singleton.mp hhyphens
      obtain rfl := List.mem_singleton.mp hcolon
      exact ⟨name, hname, hfront, by rw [List.length_append]; rfl⟩
    · rintro ⟨name, hname, hfront, rfl⟩
      exact ⟨['-', '-'], name, [':'], List.mem_singleton_self _, hname, List.mem_singleton_self _,
        hfront, by rw [List.length_append]; rfl⟩
  exact Template.match?_eq_of_mem_readings hmem

/-- Custom properties are what a search for the pattern finds. -/
theorem namesIn_propertyTemplate (source : String) :
    propertyTemplate.namesIn source = customProperties source := by
  rw [Template.namesIn, propertyTemplate_match?, customProperties]

/-! ## Declarations in a text -/

/-- What stands before a declaration and behind it. -/
theorem Declares.exists_split (hdeclares : Declares text colon name) : ∃ front behind,
    text = front ++ (hyphened name ++ ':' :: behind) ∧
      colon = front.length + (hyphened name).length := by
  obtain ⟨hlt, hcolon⟩ := List.getElem?_eq_some_iff.mp hdeclares.colon_at
  obtain ⟨front, hfront⟩ := hdeclares.before
  refine ⟨front, text.drop (colon + 1), ?_, ?_⟩
  · rw [← List.append_assoc, hfront, ← hcolon, ← List.drop_eq_getElem_cons hlt,
      List.take_append_drop]
  · rw [← List.length_append, hfront, List.length_take_of_le hlt.le]

theorem declares_append (hname : IsPropertyName name) (front behind : List Char) :
    Declares (front ++ (hyphened name ++ ':' :: behind)) (front.length + (hyphened name).length)
      name where
  colon_at := by
    rw [← List.append_assoc, ← List.length_append, List.getElem?_append_right le_rfl, Nat.sub_self,
      List.getElem?_cons_zero]
  isName := hname
  before := by
    rw [← List.append_assoc, ← List.length_append, List.take_left]
    exact List.suffix_append front _

/-- Where a match begins, a name is declared before the colon that ends the match. -/
theorem declares_of_match {start : Nat} {hit : Match}
    (hmatch : customPropertyMatch? (text.drop start) = some hit) :
    hit.length = (hyphened hit.yield).length + 1 ∧
      Declares text (start + (hyphened hit.yield).length) hit.yield := by
  obtain ⟨name, hname, ⟨behind, hbehind⟩, rfl⟩ := customPropertyMatch?_eq_some_iff.mp hmatch
  refine ⟨rfl, ?_⟩
  have hlength : (text.take start).length = start := by
    refine List.length_take_of_le (Nat.le_of_not_lt fun hlong => ?_)
    rw [List.drop_eq_nil_of_le hlong.le] at hbehind
    simp at hbehind
  have hdeclares := declares_append hname (text.take start) behind
  rw [hlength, ← List.singleton_append, ← List.append_assoc _ [':'], hbehind,
    List.take_append_drop] at hdeclares
  exact hdeclares

/-- A declared name is matched where its hyphens begin. -/
theorem Declares.exists_match (hdeclares : Declares text colon name) :
    ∃ start, colon = start + (hyphened name).length ∧
      customPropertyMatch? (text.drop start) = some ⟨name, (hyphened name).length + 1⟩ := by
  obtain ⟨front, behind, rfl, hcolon⟩ := hdeclares.exists_split
  refine ⟨front.length, hcolon, customPropertyMatch?_eq_some_iff.mpr ?_⟩
  exact ⟨name, hdeclares.isName, ⟨behind, by rw [List.drop_left]; simp⟩, rfl⟩

/-- No colon stands between the hyphens and the colon of a declaration. -/
theorem Declares.getElem?_ne {inside : Nat} (hdeclares : Declares text colon name)
    (hbefore : inside < colon) (hinside : colon ≤ inside + (hyphened name).length) :
    text[inside]? ≠ some ':' := by
  intro hcolon
  obtain ⟨front, behind, rfl, rfl⟩ := hdeclares.exists_split
  rw [List.getElem?_append_right (by omega), List.getElem?_append_left (by omega)] at hcolon
  exact absurd (hdeclares.isName.isPropertyChar ':' (List.mem_of_getElem? hcolon)) (by decide)

/-- Declarations that reach into each other end at the same colon. -/
theorem Declares.eq_of_meet {later : Nat} (hdeclares : Declares text colon name)
    (hother : Declares text later other) (hreaches : colon ≤ later + (hyphened name).length)
    (hreached : later ≤ colon + (hyphened other).length) : colon = later := by
  rcases Nat.lt_trichotomy colon later with hlt | heq | hgt
  · exact absurd hdeclares.colon_at (hother.getElem?_ne hlt hreached)
  · exact heq
  · exact absurd hother.colon_at (hdeclares.getElem?_ne hgt hreaches)

/-! ## What a search finds -/

/-- The custom properties that a text declares, each with the place of its colon. -/
def declaredNames (text : List Char) : List Excerpt :=
  (matchesFrom customPropertyMatch? 0 text).map fun found =>
    ⟨found.1 + (hyphened found.2.yield).length, found.2.yield⟩

theorem texts_declaredNames (source : String) :
    (declaredNames source.toList).map (fun name => String.ofList name.text) =
      customProperties source := by
  rw [customProperties, ← yields_matchesFrom _ 0, declaredNames, List.map_map, List.map_map]
  rfl

theorem pairwise_declaredNames (text : List Char) :
    (declaredNames text).Pairwise fun name later => name.place < later.place := by
  refine List.pairwise_map.mpr ((pairwise_matchesFrom _ _ _).imp_of_mem ?_)
  intro found later hfound _ hapart
  have hlength := (declares_of_match (match_of_mem_matchesFrom hfound)).1
  simp only
  omega

theorem declares_of_mem (hfound : ⟨colon, name⟩ ∈ declaredNames text) :
    Declares text colon name := by
  obtain ⟨⟨start, hit⟩, hmem, heq⟩ := List.mem_map.mp hfound
  obtain ⟨rfl, rfl⟩ : start + (hyphened hit.yield).length = colon ∧ hit.yield = name := by
    simpa using heq
  exact (declares_of_match (match_of_mem_matchesFrom hmem)).2

/-- A colon with a declaration before it yields a name that is no shorter. -/
theorem Declares.exists_found (hdeclares : Declares text colon name) :
    ∃ found, ⟨colon, found⟩ ∈ declaredNames text ∧ name.length ≤ found.length := by
  obtain ⟨start, rfl, hmatch⟩ := hdeclares.exists_match
  have hcovers : ∀ {rest hit}, customPropertyMatch? rest = some hit →
      rest ≠ [] ∧ 0 < hit.length := by
    rintro rest hit hhit
    obtain ⟨_, -, ⟨_, rfl⟩, rfl⟩ := customPropertyMatch?_eq_some_iff.mp hhit
    exact ⟨by simp, Nat.succ_pos _⟩
  obtain ⟨first, hit, hfound, hbefore, hover⟩ := exists_cover_of_match 0 hcovers hmatch
  obtain ⟨hlength, hlonger⟩ := declares_of_match (match_of_mem_matchesFrom hfound)
  have hsame := hdeclares.eq_of_meet hlonger (by omega) (by omega)
  refine ⟨hit.yield, List.mem_map.mpr ⟨_, hfound, by rw [hsame]⟩, ?_⟩
  simp only [length_hyphened] at hsame
  omega

/-- Each colon yields the longest of the names that are declared before it. -/
theorem mem_declaredNames_iff : ⟨colon, name⟩ ∈ declaredNames text ↔
    Declares text colon name ∧ ∀ other, Declares text colon other → other.length ≤ name.length := by
  constructor
  · intro hfound
    refine ⟨declares_of_mem hfound, fun other hother => ?_⟩
    obtain ⟨longer, hlonger, hle⟩ := hother.exists_found
    have hnodup : ((declaredNames text).map Excerpt.place).Nodup :=
      List.pairwise_map.mpr ((pairwise_declaredNames text).imp Nat.ne_of_lt)
    obtain rfl : longer = name := by
      simpa using List.inj_on_of_nodup_map hnodup hlonger hfound rfl
    exact hle
  · rintro ⟨hdeclares, hlongest⟩
    obtain ⟨longer, hlonger, hle⟩ := hdeclares.exists_found
    have hother := declares_of_mem hlonger
    have hsuffix := List.suffix_of_suffix_length_le hdeclares.before hother.before
      (Nat.add_le_add_right hle 2)
    have hsame := hsuffix.eq_of_length_le (Nat.add_le_add_right (hlongest longer hother) 2)
    obtain rfl : name = longer := by simpa [hyphened] using hsame
    exact hlonger

/-- Two hyphens and a compound name. -/
def IsDeclaration (part : List Char) : Prop := ∃ name, part = hyphened name ∧ IsPropertyName name

/-- Declarations that end before a colon are those at the end of the run there. -/
theorem declares_iff {run : List Char} (hrun : IsRunUpTo isPropertyChar (text.take colon) run) :
    Declares text colon name ↔
      text[colon]? = some ':' ∧ hyphened name <:+ run ∧ IsDeclaration (hyphened name) := by
  constructor
  · rintro ⟨hcolon, hname, hbefore⟩
    exact ⟨hcolon, hrun.suffix hbefore hname.isPropertyChar, name, rfl, hname⟩
  · rintro ⟨hcolon, hsuffix, other, hsame, hname⟩
    obtain rfl : name = other := by simpa [hyphened] using hsame
    exact ⟨hcolon, hname, hsuffix.trans hrun.holds.1⟩

/-- The custom properties of a source are told by its colons: in their order, each colon yields the
longest declaration at the end of the run before it, without the hyphens, if there is one. -/
theorem custom_properties_exact (source : String) :
    ∃ found : List Excerpt,
      customProperties source = found.map (fun name => String.ofList name.text) ∧
      found.Pairwise (fun name later => name.place < later.place) ∧
      (∀ colon name, ⟨colon, name⟩ ∈ found ↔
        source.toList[colon]? = some ':' ∧
          ∃ run, IsRunUpTo isPropertyChar (source.toList.take colon) run ∧
            IsLongest (fun part => part <:+ run ∧ IsDeclaration part) (hyphened name)) ∧
      ∀ colon, (∃ name, ⟨colon, name⟩ ∈ found) ↔
        source.toList[colon]? = some ':' ∧
          ∃ run, IsRunUpTo isPropertyChar (source.toList.take colon) run ∧
            ∃ part, part <:+ run ∧ IsDeclaration part := by
  refine ⟨declaredNames source.toList, (texts_declaredNames source).symm,
    pairwise_declaredNames source.toList, fun colon name => ?_, fun colon => ?_⟩
  · rw [mem_declaredNames_iff]
    constructor
    · rintro ⟨hdeclares, hlongest⟩
      have hrun := isRunUpTo_rtakeWhile isPropertyChar (source.toList.take colon)
      obtain ⟨hcolon, hends⟩ := (declares_iff hrun).mp hdeclares
      refine ⟨hcolon, _, hrun, hends, ?_⟩
      rintro _ ⟨hsuffix, other, rfl, hother⟩
      have hle := hlongest other ((declares_iff hrun).mpr ⟨hcolon, hsuffix, other, rfl, hother⟩)
      exact Nat.add_le_add_right hle 2
    · rintro ⟨hcolon, run, hrun, hends, hlongest⟩
      refine ⟨(declares_iff hrun).mpr ⟨hcolon, hends⟩, fun other hother => ?_⟩
      have hle := hlongest _ ((declares_iff hrun).mp hother).2
      simpa only [length_hyphened, Nat.add_le_add_iff_right] using hle
  · constructor
    · rintro ⟨name, hfound⟩
      have hrun := isRunUpTo_rtakeWhile isPropertyChar (source.toList.take colon)
      obtain ⟨hcolon, hends⟩ := (declares_iff hrun).mp (declares_of_mem hfound)
      exact ⟨hcolon, _, hrun, _, hends⟩
    · rintro ⟨hcolon, run, hrun, _, hsuffix, name, rfl, hname⟩
      obtain ⟨found, hfound, -⟩ :=
        ((declares_iff hrun).mpr ⟨hcolon, hsuffix, name, rfl, hname⟩).exists_found
      exact ⟨found, hfound⟩

example : customProperties "--a--b-cd:--9--b-cd:--b-cd-:--b-c" = ["a--b-cd", "b-cd"] := by cbv

end SelectorMangling.Extraction
