import SelectorMangling.Proofs.Extraction.Excerpt

/-!
# Style arrays of scripts

The style bodies of a script are those of its successive style arrays: each the first one that begins
behind the array before, with the shortest body.  Nothing else determines them, and an array is left
out only inside another one.
-/

namespace SelectorMangling.Extraction

/-- A style array: where it begins, the quotation mark, and the body. -/
structure StyleArray where
  start : Nat
  quote : Char
  body : List Char

namespace StyleArray

/-- The array as it is written. -/
def spelled (array : StyleArray) : List Char :=
  stylesOpening ++ array.quote :: (array.body ++ [array.quote, ']'])

/-- The place behind the array. -/
def stop (array : StyleArray) : Nat := array.start + array.spelled.length

/-- The array can be read in a text. -/
structure StandsIn (array : StyleArray) (text : List Char) : Prop where
  quote_mem : array.quote ∈ styleQuotes
  body_ne_nil : array.body ≠ []
  spelled_prefix : array.spelled <+: text.drop array.start

/-- Successive arrays from a place on: each the first that begins at its place or behind it, and the
shortest there; the search goes on behind it. -/
inductive Successive (text : List Char) : Nat → List StyleArray → Prop
  | done {place : Nat} (hnone : ∀ array : StyleArray, array.StandsIn text → array.start < place) :
      Successive text place []
  | next {place : Nat} {array : StyleArray} {rest : List StyleArray}
      (hstands : array.StandsIn text) (hbehind : place ≤ array.start)
      (hfirst : ∀ other : StyleArray, other.StandsIn text → place ≤ other.start →
        array.start ≤ other.start)
      (hshortest : ∀ other : StyleArray, other.StandsIn text → other.start = array.start →
        array.body.length ≤ other.body.length)
      (hrest : Successive text array.stop rest) :
      Successive text place (array :: rest)

variable {text : List Char} {array other : StyleArray} {place : Nat}

theorem length_spelled (array : StyleArray) :
    array.spelled.length = stylesOpening.length + array.body.length + 3 := by
  simp only [spelled, List.length_append, List.length_cons, List.length_nil]
  omega

/-! ## Arrays that stand at one place -/

/-- Arrays at the same place have the same mark, and the same body if they are of the same length. -/
theorem StandsIn.eq_of_start_eq (harray : array.StandsIn text) (hother : other.StandsIn text)
    (hstart : array.start = other.start) (hlength : array.body.length = other.body.length) :
    array = other := by
  have hprefix := hother.spelled_prefix
  rw [← hstart] at hprefix
  have hsame : array.spelled.length = other.spelled.length := by
    rw [length_spelled, length_spelled, hlength]
  have hspelled : array.spelled = other.spelled :=
    (List.prefix_of_prefix_length_le harray.spelled_prefix hprefix hsame.le).eq_of_length hsame
  rw [spelled, spelled, List.append_cancel_left_eq, List.cons.injEq] at hspelled
  have hbody := List.append_inj_left hspelled.2 hlength
  obtain ⟨start, quote, body⟩ := array
  obtain ⟨otherStart, otherQuote, otherBody⟩ := other
  obtain rfl : start = otherStart := hstart
  obtain rfl : quote = otherQuote := hspelled.1
  obtain rfl : body = otherBody := hbody
  rfl

end StyleArray

/-! ## What a match is -/

/-- Where a closing can be read behind something, reading ends there or before. -/
theorem exists_untilClosing? {quote : Char} {inside text : List Char}
    (hcloses : inside ++ [quote, ']'] <+: text) (taken : List Char) :
    ∃ body, untilClosing? quote taken text = some body ∧
      body.length ≤ taken.length + inside.length := by
  induction inside generalizing taken text with
  | nil =>
    obtain ⟨rest, rfl⟩ := hcloses
    exact ⟨taken.reverse, by simp [untilClosing?], by simp⟩
  | cons c inside ih =>
    obtain ⟨rest, rfl⟩ := hcloses
    rw [List.cons_append, List.cons_append, untilClosing?]
    split
    · exact ⟨taken.reverse, rfl, by simp⟩
    · obtain ⟨body, hbody, hle⟩ := ih (List.prefix_append _ rest) (c :: taken)
      refine ⟨body, hbody, ?_⟩
      simp only [List.length_cons] at hle ⊢
      omega

theorem exists_quotedBody? {quote : Char} {body text : List Char} (hbody : body ≠ [])
    (hcloses : body ++ [quote, ']'] <+: text) :
    ∃ found, quotedBody? quote text = some found ∧ found.length ≤ body.length := by
  obtain ⟨first, inside, rfl⟩ := List.exists_cons_of_ne_nil hbody
  obtain ⟨rest, rfl⟩ := hcloses
  rw [List.cons_append, List.cons_append, quotedBody?]
  obtain ⟨found, hfound, hle⟩ := exists_untilClosing? (List.prefix_append _ rest) [first]
  refine ⟨found, hfound, ?_⟩
  rw [List.length_singleton] at hle
  rw [List.length_cons]
  omega

namespace StyleArray

variable {text : List Char} {array : StyleArray} {place : Nat}

/-- Where an array stands there is a match, and its body is no longer. -/
theorem StandsIn.exists_match (harray : array.StandsIn text) :
    ∃ hit, styleBodyMatch? (text.drop array.start) = some hit ∧
      hit.yield.length ≤ array.body.length := by
  obtain ⟨rest, hrest⟩ := harray.spelled_prefix
  obtain ⟨body, hbody, hle⟩ :=
    exists_quotedBody? harray.body_ne_nil (List.prefix_append (array.body ++ [array.quote, ']']) rest)
  have hopens : stylesOpening.isPrefixOf (array.spelled ++ rest) = true := by
    rw [List.isPrefixOf_iff_prefix, spelled, List.append_assoc]
    exact List.prefix_append _ _
  have hdrop : (array.spelled ++ rest).drop stylesOpening.length =
      array.quote :: (array.body ++ [array.quote, ']'] ++ rest) := by
    rw [spelled, List.append_assoc, List.drop_left, List.cons_append]
  refine ⟨⟨body, stylesOpening.length + body.length + 3⟩, ?_, hle⟩
  rw [← hrest, styleBodyMatch?, if_pos hopens, hdrop]
  simp only [List.contains_iff_mem.mpr harray.quote_mem, if_true, hbody, Option.map_some]

/-- A match is an array. -/
theorem exists_of_match {hit : Match} (hmatch : styleBodyMatch? (text.drop place) = some hit) :
    ∃ array : StyleArray, array.StandsIn text ∧ array.start = place ∧ array.body = hit.yield ∧
      array.spelled.length = hit.length := by
  rw [styleBodyMatch?] at hmatch
  split at hmatch
  · next hopens =>
    obtain ⟨behind, hbehind⟩ := List.isPrefixOf_iff_prefix.mp hopens
    rw [← hbehind, List.drop_left] at hmatch
    split at hmatch
    · contradiction
    · next quote tail =>
      split at hmatch
      · next hquote =>
        obtain ⟨body, hbody, rfl⟩ := Option.map_eq_some_iff.mp hmatch
        obtain ⟨hsome, rest, rfl⟩ := exists_of_quotedBody? hbody
        refine ⟨⟨place, quote, body⟩, ⟨by simpa using hquote, hsome, ?_⟩, rfl, rfl,
          length_spelled _⟩
        rw [← hbehind]
        exact ⟨rest, by simp [spelled]⟩
      · contradiction
  · contradiction

/-- No array stands where there is no match. -/
theorem StandsIn.start_ne (harray : array.StandsIn text)
    (hnone : styleBodyMatch? (text.drop place) = none) : array.start ≠ place := by
  rintro rfl
  obtain ⟨hit, hmatch, -⟩ := harray.exists_match
  rw [hnone] at hmatch
  contradiction

theorem StandsIn.start_lt_length (harray : array.StandsIn text) : array.start < text.length := by
  have hle := harray.spelled_prefix.length_le
  rw [List.length_drop, length_spelled] at hle
  omega

/-! ## Successive arrays -/

namespace Successive

variable {arrays : List StyleArray}

/-- A place where no array stands is passed over. -/
theorem skip (hnone : ∀ array : StyleArray, array.StandsIn text → array.start ≠ place)
    (hlater : Successive text (place + 1) arrays) : Successive text place arrays := by
  cases hlater with
  | done hearlier =>
    refine .done fun array harray => ?_
    have hplace := hearlier array harray
    have hne := hnone array harray
    omega
  | next hstands hbehind hfirst hshortest hrest =>
    refine .next hstands (by omega) ?_ hshortest hrest
    intro other hother hplace
    have hne := hnone other hother
    exact hfirst other hother (by omega)

/-- The matches in a script are successive arrays. -/
theorem exists_of_matchesFrom (text : List Char) (place : Nat) :
    ∃ arrays, Successive text place arrays ∧
      arrays.map StyleArray.body =
        (matchesFrom styleBodyMatch? place (text.drop place)).map fun found => found.2.yield := by
  generalize hrest : text.drop place = rest
  fun_induction matchesFrom styleBodyMatch? place rest with
  | case1 place =>
    refine ⟨[], .done fun array harray => ?_, rfl⟩
    have hend := List.drop_eq_nil_iff.mp hrest
    have hlt := harray.start_lt_length
    omega
  | case2 place c rest hnone ih =>
    have htail : text.drop (place + 1) = rest := by
      rw [← List.drop_drop, hrest, List.drop_one, List.tail_cons]
    obtain ⟨arrays, hsuccessive, hbodies⟩ := ih htail
    rw [← hrest] at hnone
    exact ⟨arrays, hsuccessive.skip fun array harray => harray.start_ne hnone, hbodies⟩
  | case3 place c rest hit hsome ih =>
    rw [← hrest] at hsome
    obtain ⟨array, hstands, rfl, hbody, hlength⟩ := exists_of_match hsome
    have hstop : array.start + 1 + (hit.length - 1) = array.stop := by
      rw [stop, ← hlength, length_spelled]
      omega
    have hlater : text.drop (array.start + 1 + (hit.length - 1)) = rest.drop (hit.length - 1) :=
      calc text.drop (array.start + 1 + (hit.length - 1))
        _ = ((text.drop array.start).drop 1).drop (hit.length - 1) := by
          rw [List.drop_drop, List.drop_drop, Nat.add_assoc]
        _ = rest.drop (hit.length - 1) := by rw [hrest, List.drop_one, List.tail_cons]
    obtain ⟨arrays, hsuccessive, hbodies⟩ := ih hlater
    rw [hstop] at hsuccessive
    refine ⟨array :: arrays, .next hstands le_rfl (fun _ _ hplace => hplace) ?_ hsuccessive, ?_⟩
    · intro other hother hstart
      obtain ⟨found, hfound, hle⟩ := hother.exists_match
      rw [hstart, hsome, Option.some.injEq] at hfound
      rwa [hbody, hfound]
    · rw [List.map_cons, List.map_cons, hbodies, hbody]

/-- No other arrays are successive. -/
theorem unique {others : List StyleArray} (harrays : Successive text place arrays)
    (hothers : Successive text place others) : arrays = others := by
  induction harrays generalizing others with
  | done hnone =>
    cases hothers with
    | done => rfl
    | next hstands hbehind => exact absurd (hnone _ hstands) (Nat.not_lt_of_le hbehind)
  | @next place array rest hstands hbehind hfirst hshortest _ ih =>
    cases hothers with
    | done hnone => exact absurd (hnone array hstands) (Nat.not_lt_of_le hbehind)
    | @next _ other others hother hotherBehind hotherFirst hotherShortest hlater =>
      have hstart : array.start = other.start :=
        Nat.le_antisymm (hfirst other hother hotherBehind) (hotherFirst array hstands hbehind)
      have hlength : array.body.length = other.body.length :=
        Nat.le_antisymm (hshortest other hother hstart.symm) (hotherShortest array hstands hstart)
      obtain rfl := hstands.eq_of_start_eq hother hstart hlength
      rw [ih hlater]

/-- Every array that stands in the text begins where one of the successive arrays begins, or inside
one that begins earlier. -/
theorem exists_cover (harrays : Successive text place arrays) (harray : array.StandsIn text)
    (hplace : place ≤ array.start) :
    ∃ found ∈ arrays,
      found.start = array.start ∨ found.start < array.start ∧ array.start < found.stop := by
  induction harrays with
  | done hnone => exact absurd (hnone array harray) (Nat.not_lt_of_le hplace)
  | @next place found rest _ _ hfirst _ _ ih =>
    by_cases hinside : array.start < found.stop
    · refine ⟨found, List.mem_cons_self, ?_⟩
      have hle := hfirst array harray hplace
      omega
    · obtain ⟨later, hlater, hcovers⟩ := ih (Nat.le_of_not_lt hinside)
      exact ⟨later, List.mem_cons_of_mem _ hlater, hcovers⟩

/-- In a body the closing can be read at the front only, where it would leave nothing. -/
theorem eq_nil_of_closes (harrays : Successive text place arrays) (hmem : array ∈ arrays)
    {front behind : List Char} (hbody : array.body = front ++ array.quote :: ']' :: behind) :
    front = [] := by
  induction harrays with
  | done => contradiction
  | @next place found rest hstands _ _ hshortest _ ih =>
    rcases List.mem_cons.mp hmem with rfl | hlater
    · by_contra hfront
      have hshorter : StandsIn ⟨array.start, array.quote, front⟩ text := by
        refine ⟨hstands.quote_mem, hfront, List.IsPrefix.trans ?_ hstands.spelled_prefix⟩
        exact ⟨behind ++ [array.quote, ']'], by simp [spelled, hbody]⟩
      have hle := hshortest _ hshorter rfl
      simp only [hbody, List.length_append, List.length_cons] at hle
      omega
    · exact ih hlater

end Successive

/-- What stands before all arrays does not matter. -/
theorem search_append {front rest : List Char}
    (hlater : ∀ array : StyleArray, array.StandsIn (front ++ rest) → front.length ≤ array.start) :
    search styleBodyMatch? (front ++ rest) = search styleBodyMatch? rest := by
  induction front with
  | nil => rfl
  | cons c front ih =>
    have hnone : styleBodyMatch? (c :: (front ++ rest)) = none := by
      by_contra hsome
      obtain ⟨hit, hmatch⟩ := Option.ne_none_iff_exists'.mp hsome
      rw [← List.drop_zero (l := c :: (front ++ rest))] at hmatch
      obtain ⟨array, hstands, hstart, -⟩ := exists_of_match hmatch
      have hle := hlater array hstands
      rw [hstart] at hle
      contradiction
    have htail : ∀ array : StyleArray, array.StandsIn (front ++ rest) →
        front.length ≤ array.start := by
      intro array hstands
      have hmoved : StandsIn ⟨array.start + 1, array.quote, array.body⟩ (c :: (front ++ rest)) :=
        ⟨hstands.quote_mem, hstands.body_ne_nil, hstands.spelled_prefix⟩
      exact Nat.le_of_succ_le_succ (hlater _ hmoved)
    rw [← ih htail, search, List.cons_append, searchFrom, hnone]
    rfl

end StyleArray

/-- The style sources of a script are the bodies of its successive style arrays, and these are told by
the text alone.  Every style array of the text is one of them or begins inside an earlier one.  A
closing is in a body at its front only.  What stands before all style arrays, such as openings that
nothing closes, is passed over. -/
theorem style_bodies_exact (script : String) :
    ∃ arrays, StyleArray.Successive script.toList 0 arrays ∧
      (∀ others, StyleArray.Successive script.toList 0 others → others = arrays) ∧
      styleSources .script script = arrays.map (fun array => String.ofList array.body) ∧
      (∀ array : StyleArray, array.StandsIn script.toList → ∃ found ∈ arrays,
        found.start = array.start ∨ found.start < array.start ∧ array.start < found.stop) ∧
      (∀ array ∈ arrays, ∀ front behind,
        array.body = front ++ array.quote :: ']' :: behind → front = []) ∧
      ∀ front rest, script = front ++ rest →
        (∀ array : StyleArray, array.StandsIn script.toList → front.length ≤ array.start) →
        styleSources .script script = styleSources .script rest := by
  obtain ⟨arrays, hsuccessive, hbodies⟩ :=
    StyleArray.Successive.exists_of_matchesFrom script.toList 0
  refine ⟨arrays, hsuccessive, fun _ hothers => hothers.unique hsuccessive, ?_,
    fun array harray => hsuccessive.exists_cover harray (Nat.zero_le _),
    fun array hmem _ _ => hsuccessive.eq_nil_of_closes hmem, ?_⟩
  · rw [List.drop_zero, yields_matchesFrom] at hbodies
    rw [styleSources, styleBodies, ← hbodies, List.map_map]
    rfl
  · rintro front rest rfl hlater
    rw [String.toList_append, ← String.length_toList] at hlater
    rw [styleSources, styleSources, styleBodies, styleBodies, String.toList_append,
      StyleArray.search_append hlater]

/-- The first opening is never closed, and the last body begins with its own mark. -/
example : styleSources .script "styles:[`a,styles:['b-c'],styles:[\"\"]d\"]" =
    ["b-c", "\"]d"] := by cbv

end SelectorMangling.Extraction
