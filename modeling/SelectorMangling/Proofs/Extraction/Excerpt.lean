import SelectorMangling.Proofs.Extraction.LongestName

/-!
# Where class names are extracted

Extraction yields texts alone.  Here the same matches are told with the places where they stand in
the file: the style sources of it, and the class names behind the dots of these.
-/

namespace SelectorMangling.Extraction

/-- A part of a text, and the place where it begins. -/
structure Excerpt where
  place : Nat
  text : List Char
deriving DecidableEq, Repr

/-- The successive matches in a text that begins at a place, with their own places. -/
def matchesFrom (matchAt? : List Char → Option Match) (place : Nat) (text : List Char) :
    List (Nat × Match) :=
  match text with
  | [] => []
  | c :: rest =>
    match matchAt? (c :: rest) with
    | none => matchesFrom matchAt? (place + 1) rest
    | some hit =>
      (place, hit) ::
        matchesFrom matchAt? (place + 1 + (hit.length - 1)) (rest.drop (hit.length - 1))
termination_by text.length
decreasing_by
  · simp
  · simp only [List.length_drop, List.length_cons]
    omega

section Matches

variable {matchAt? : List Char → Option Match} {place : Nat} {text : List Char}

/-- These are the matches that a search goes through. -/
theorem yields_matchesFrom (matchAt? : List Char → Option Match) (place : Nat)
    (text : List Char) :
    (matchesFrom matchAt? place text).map (fun found => found.2.yield) = search matchAt? text := by
  fun_induction matchesFrom matchAt? place text with
  | case1 => simp [search, searchFrom]
  | case2 place c rest hnone ih => simpa [search, searchFrom, hnone] using ih
  | case3 place c rest hit hsome ih =>
    rw [search, searchFrom, hsome]
    simp [searchFrom_eq_reverse_append _ [hit.yield], ← ih]

theorem exists_of_mem_matchesFrom {found : Nat × Match}
    (hfound : found ∈ matchesFrom matchAt? place text) :
    ∃ index, found.1 = place + index ∧ matchAt? (text.drop index) = some found.2 := by
  fun_induction matchesFrom matchAt? place text with
  | case1 => contradiction
  | case2 place c rest hnone ih =>
    obtain ⟨index, hplace, hmatch⟩ := ih hfound
    exact ⟨index + 1, by omega, hmatch⟩
  | case3 place c rest hit hsome ih =>
    rcases List.mem_cons.mp hfound with rfl | hlater
    · exact ⟨0, rfl, hsome⟩
    · obtain ⟨index, hplace, hmatch⟩ := ih hlater
      refine ⟨hit.length - 1 + index + 1, by omega, ?_⟩
      rwa [List.drop_succ_cons, ← List.drop_drop]

theorem match_of_mem_matchesFrom {hit : Match} (hfound : (place, hit) ∈ matchesFrom matchAt? 0 text) :
    matchAt? (text.drop place) = some hit := by
  obtain ⟨index, hplace, hmatch⟩ := exists_of_mem_matchesFrom hfound
  obtain rfl : place = index := by simpa using hplace
  exact hmatch

/-- The matches stand one behind another. -/
theorem pairwise_matchesFrom (matchAt? : List Char → Option Match) (place : Nat)
    (text : List Char) :
    (matchesFrom matchAt? place text).Pairwise fun found later =>
      found.1 + found.2.length ≤ later.1 := by
  fun_induction matchesFrom matchAt? place text with
  | case1 => exact .nil
  | case2 place c rest hnone ih => exact ih
  | case3 place c rest hit hsome ih =>
    refine List.pairwise_cons.mpr ⟨?_, ih⟩
    intro later hlater
    obtain ⟨index, hplace, -⟩ := exists_of_mem_matchesFrom hlater
    simp only [hplace]
    omega

/-- Whatever matches begins with one of these matches, or inside one that begins earlier. -/
theorem exists_cover_of_match (place : Nat) {index : Nat} {hit : Match}
    (hcovers : ∀ {rest hit}, matchAt? rest = some hit → rest ≠ [] ∧ 0 < hit.length)
    (hmatch : matchAt? (text.drop index) = some hit) :
    ∃ start found, (start, found) ∈ matchesFrom matchAt? place text ∧
      start ≤ place + index ∧ place + index < start + found.length := by
  fun_induction matchesFrom matchAt? place text generalizing index with
  | case1 =>
    rw [List.drop_nil] at hmatch
    exact absurd rfl (hcovers hmatch).1
  | case2 place c rest hnone ih =>
    cases index with
    | zero => simp [hnone] at hmatch
    | succ index =>
      obtain ⟨start, found, hfound, hbefore, hover⟩ := ih hmatch
      exact ⟨start, found, hfound, by omega, by omega⟩
  | case3 place c rest first hsome ih =>
    have hpos := (hcovers hsome).2
    by_cases hinside : index < first.length
    · exact ⟨place, first, List.mem_cons_self, Nat.le_add_right _ _, Nat.add_lt_add_left hinside _⟩
    · obtain ⟨behind, rfl⟩ := Nat.exists_eq_add_of_le (Nat.le_of_not_lt hinside)
      have hdrop : (c :: rest).drop (first.length + behind) =
          (rest.drop (first.length - 1)).drop behind := by
        rw [List.drop_drop, show first.length + behind = first.length - 1 + behind + 1 by omega,
          List.drop_succ_cons]
      rw [hdrop] at hmatch
      obtain ⟨start, found, hfound, hbefore, hover⟩ := ih hmatch
      exact ⟨start, found, List.mem_cons_of_mem _ hfound, by omega, by omega⟩

end Matches

/-- The style sources of a file with their places: the bodies of the style arrays of a script, and
the whole of a stylesheet. -/
def styleExcerpts (kind : SourceKind) (content : String) : List Excerpt :=
  match kind with
  | .script => (matchesFrom styleBodyMatch? 0 content.toList).map fun found =>
      ⟨found.1 + stylesOpening.length + 1, found.2.yield⟩
  | .style => [⟨0, content.toList⟩]
  | .markup => []

theorem texts_styleExcerpts (kind : SourceKind) (content : String) :
    (styleExcerpts kind content).map (fun source => String.ofList source.text) =
      styleSources kind content := by
  cases kind with
  | script =>
    rw [styleExcerpts, styleSources, styleBodies, ← yields_matchesFrom _ 0]
    simp
  | markup => rfl
  | style => simp [styleExcerpts, styleSources]

/-- The class names of the style sources of a file with the places behind their dots. -/
def classNameExcerpts (kind : SourceKind) (content : String) : List Excerpt :=
  (styleExcerpts kind content).flatMap fun source =>
    (matchesFrom classNameMatch? source.place source.text).map fun found =>
      ⟨found.1 + 1, found.2.yield⟩

/-- These are the class names that extraction finds. -/
theorem texts_classNameExcerpts (kind : SourceKind) (content : String) :
    (classNameExcerpts kind content).map (fun found => String.ofList found.text) =
      (styleSources kind content).flatMap classNames := by
  have hsame : ∀ source : Excerpt, classNames (String.ofList source.text) =
      (matchesFrom classNameMatch? source.place source.text).map fun found =>
        String.ofList found.2.yield := by
    intro source
    rw [classNames, String.toList_ofList, ← yields_matchesFrom _ source.place, List.map_map]
    rfl
  rw [← texts_styleExcerpts, classNameExcerpts, List.map_flatMap, List.flatMap_map]
  simp [hsame, Function.comp_def]

/-- What stands before the first closing of a quotation. -/
theorem exists_of_untilClosing? {quote : Char} {taken text body : List Char}
    (hbody : untilClosing? quote taken text = some body) :
    ∃ inside rest, body = taken.reverse ++ inside ∧ text = inside ++ quote :: ']' :: rest := by
  induction text generalizing taken with
  | nil => contradiction
  | cons c rest ih =>
    rw [untilClosing?] at hbody
    split at hbody
    · next hcloses =>
      obtain ⟨others, rfl⟩ := List.head?_eq_some_iff.mp hcloses.2
      exact ⟨[], others, by simp [← Option.some.inj hbody], by simp [hcloses.1]⟩
    · obtain ⟨inside, others, hinside, rfl⟩ := ih hbody
      exact ⟨c :: inside, others, by simp [hinside], rfl⟩

/-- A body that is read is not empty, and its closing follows it. -/
theorem exists_of_quotedBody? {quote : Char} {text body : List Char}
    (hbody : quotedBody? quote text = some body) :
    body ≠ [] ∧ ∃ rest, text = body ++ quote :: ']' :: rest := by
  cases text with
  | nil => contradiction
  | cons c tail =>
    obtain ⟨inside, rest, rfl, rfl⟩ := exists_of_untilClosing? hbody
    exact ⟨by simp, rest, rfl⟩

/-- A style body stands behind the opening of the array and the quotation mark, and the mark follows
it again. -/
theorem exists_of_styleBodyMatch? {text : List Char} {hit : Match}
    (hmatch : styleBodyMatch? text = some hit) :
    ∃ quote ∈ styleQuotes, ∃ rest,
      text.drop (stylesOpening.length + 1) = hit.yield ++ quote :: rest := by
  rw [styleBodyMatch?] at hmatch
  split at hmatch
  · split at hmatch
    · contradiction
    · next quote rest hrest =>
      split at hmatch
      · next hquote =>
        obtain ⟨body, hbody, rfl⟩ := Option.map_eq_some_iff.mp hmatch
        obtain ⟨-, others, hothers⟩ := exists_of_quotedBody? hbody
        refine ⟨quote, by simpa using hquote, ']' :: others, ?_⟩
        rw [← List.drop_drop, hrest, List.drop_one, List.tail_cons, hothers]
      · contradiction
  · contradiction

/-- A style source stands in the file at its place, and no character of class names follows it. -/
theorem exists_of_mem_styleExcerpts {kind : SourceKind} {content : String} {source : Excerpt}
    (hsource : source ∈ styleExcerpts kind content) :
    ∃ behind, content.toList.drop source.place = source.text ++ behind ∧
      ∀ c ∈ behind.head?, isClassNameChar c = false := by
  cases kind with
  | script =>
    obtain ⟨⟨place, hit⟩, hfound, rfl⟩ := List.mem_map.mp hsource
    obtain ⟨index, hplace, hmatch⟩ := exists_of_mem_matchesFrom hfound
    obtain rfl : place = index := by simpa using hplace
    obtain ⟨quote, hquote, rest, hrest⟩ := exists_of_styleBodyMatch? hmatch
    refine ⟨quote :: rest, ?_, ?_⟩
    · rw [← hrest, List.drop_drop]
      rfl
    · intro c hc
      obtain rfl : quote = c := by simpa using hc
      have hall : styleQuotes.all (fun quote => !isClassNameChar quote) = true := by decide
      simpa using List.all_eq_true.mp hall quote hquote
  | markup => contradiction
  | style =>
    obtain rfl := List.mem_singleton.mp hsource
    exact ⟨[], by simp, by simp⟩

/-- Where a class name is extracted, a dot stands before it in the file. -/
theorem exists_of_mem_classNameExcerpts {kind : SourceKind} {content : String} {found : Excerpt}
    (hfound : found ∈ classNameExcerpts kind content) :
    ∃ dot rest behind, found.place = dot + 1 ∧
      content.toList.drop dot = '.' :: (rest ++ behind) ∧ className? rest = some found.text ∧
      ∀ c ∈ behind.head?, isClassNameChar c = false := by
  obtain ⟨source, hsource, hmem⟩ := List.mem_flatMap.mp hfound
  obtain ⟨⟨dot, hit⟩, hmatches, rfl⟩ := List.mem_map.mp hmem
  obtain ⟨index, rfl, hmatch⟩ := exists_of_mem_matchesFrom hmatches
  obtain ⟨behind, hbehind, hstops⟩ := exists_of_mem_styleExcerpts hsource
  unfold classNameMatch? at hmatch
  split at hmatch
  · next rest hrest =>
    obtain ⟨name, hname, rfl⟩ := Option.map_eq_some_iff.mp hmatch
    refine ⟨_, rest, behind, rfl, ?_, hname, hstops⟩
    have hle : index ≤ source.text.length := by
      by_contra hlong
      rw [List.drop_eq_nil_of_le (by omega)] at hrest
      contradiction
    rw [← List.drop_drop, hbehind, List.drop_append_of_le_length hle, hrest]
    rfl
  · contradiction

end SelectorMangling.Extraction
