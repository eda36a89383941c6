import SelectorMangling.Proofs.Rewriting.Landing

/-!
# Names that codes wake

A rewritten text has candidates exactly where codes wake names.  A code can do so only where a
hyphen adjoins the replaced name, or where the name was the front of a route path.
-/

namespace SelectorMangling

open Rewriting Extraction

/-- No code ends like the name of a route path member. -/
theorem Code.IsSpelled.not_path {code : String} (hspelled : IsSpelled code) :
    ¬"path".toList <:+ code.toList := by
  obtain ⟨letters, digits, hspells⟩ := hspelled
  rw [hspells.code_eq]
  rintro ⟨front, hfront⟩
  cases hlast : digits.getLast? with
  | none =>
    have hlength := congrArg List.length hfront
    rw [List.getLast?_eq_none_iff.mp hlast, List.append_nil, List.length_append] at hlength
    have hpath : "path".toList.length = 4 := by decide
    have hshort := hspells.length_letters
    omega
  | some last =>
    have hsame := congrArg List.getLast? hfront
    rw [List.getLast?_append, List.getLast?_append, hlast] at hsame
    obtain rfl : 'h' = last := by simpa using hsame
    exact absurd (hspells.isDigit _ (List.mem_of_getLast? hlast)) (by decide)

namespace Rewriting

variable {catalog : Catalog} {text written : List Char} {landing : Landing}

/-- What stands around a replaced name can become part of a name together with the code, or opens
the value of a route path together with the name. -/
inductive Adjoins (text : List Char) (replacement : Replacement) : Prop
  | hyphen (hbehind : (text.drop replacement.stop).head? = some '-')
  | hyphens (hbefore : ['-', '-'] <:+ text.take replacement.start)
  | path (hpath : "path".toList <:+ replacement.name.toList)
      (hbehind : (text.drop replacement.stop).head? = some ':')

section Awakened

variable (hnamed : catalog.WellNamed)
  (hreplacement : IsReplacement catalog text landing.replacement)
  (hlands : LandsIn text written landing)

include hnamed hreplacement hlands

/-- A code does not take the place of the front of a route path. -/
theorem LandsIn.not_path : ¬pathMember.tail <+: (written.take landing.stop).reverse := by
  have hspelled := hnamed.spelled.of_get? hreplacement.code_eq
  have htake : written.take landing.stop =
      written.take landing.offset ++ landing.replacement.code.toList := by
    rw [Landing.stop, ← String.length_toList]
    exact take_add_length hlands.occurs
  rw [htake, List.reverse_append]
  intro hpath
  rcases List.prefix_or_prefix_of_prefix hpath (List.prefix_append _ _) with hinside | hinside
  · exact hspelled.not_path (List.reverse_prefix.mp hinside)
  · obtain ⟨more, hmore⟩ := hinside
    rw [← hmore, List.prefix_append_right_inj] at hpath
    cases more with
    | nil =>
      rw [List.append_nil] at hmore
      exact hspelled.not_path (List.reverse_prefix.mp (hmore ▸ List.prefix_refl _))
    | cons c others =>
      -- What stands before the code would be part of the word that the path ends in.
      obtain ⟨rest, hrest⟩ := hpath
      have hall : pathMember.tail.all isWord = true := by decide
      have hword : isWord c = true :=
        List.all_eq_true.mp hall c (hmore ▸ List.mem_append_right _ List.mem_cons_self)
      have hnone := hreplacement.isWordSide_before hnamed
      rw [← hlands.before, ← List.head?_reverse, ← hrest, List.cons_append, List.head?_cons,
        isWordSide, hword] at hnone
      contradiction

/-- A name that begins before a code has a hyphen there, and another hyphen delimits it. -/
theorem LandsIn.hyphens_before {place : Nat} {name : String}
    (hstands : Stands catalog written place name) (hbefore : place < landing.offset)
    (hstop : landing.stop ≤ place + name.length) :
    ['-', '-'] <:+ text.take landing.replacement.start := by
  obtain ⟨index, hindex⟩ := Nat.exists_eq_add_of_lt hbefore
  have hinside : index < name.toList.length := by
    rw [Landing.stop] at hstop
    rw [String.length_toList]
    omega
  have hlast : (text.take landing.replacement.start).getLast? = some name.toList[index] := by
    rw [← hlands.before, hindex, List.getLast?_take, if_neg (Nat.succ_ne_zero _),
      Nat.add_sub_cancel, getElem?_of_occurs hstands.occurs hinside]
    rfl
  have hnone := hreplacement.isWordSide_before hnamed
  rw [hlast] at hnone
  rw [hnamed.eq_hyphen hstands.cataloged (List.getElem_mem hinside) hnone, ← List.head?_reverse,
    List.head?_eq_some_iff] at hlast
  obtain ⟨earlier, hearlier⟩ := hlast
  have hgate := hreplacement.candidate.1
  rw [hearlier] at hgate
  obtain ⟨others, rfl⟩ : ∃ others, earlier = '-' :: others := by
    simpa [isDelimited, plainDelimiters, List.head?_eq_some_iff] using hgate
  exact List.reverse_prefix.mp (hearlier ▸ List.prefix_append ['-', '-'] others)

/-- A name that begins with a code and goes on behind it has a hyphen there. -/
theorem LandsIn.hyphen_behind {name : String}
    (hstands : Stands catalog written landing.offset name)
    (hbehind : landing.stop < landing.offset + name.length) :
    (text.drop landing.replacement.stop).head? = some '-' := by
  have hinside : landing.replacement.code.length < name.toList.length := by
    rw [Landing.stop] at hbehind
    rw [String.length_toList]
    omega
  have hnext : (text.drop landing.replacement.stop).head? =
      some name.toList[landing.replacement.code.length] := by
    rw [← hlands.behind, List.head?_drop, Landing.stop,
      getElem?_of_occurs hstands.occurs hinside]
  have hnone := hreplacement.isWordSide_behind hnamed
  rw [hnext] at hnone
  rwa [hnamed.eq_hyphen hstands.cataloged (List.getElem_mem hinside) hnone] at hnext

/-- No name is a code, which has no separators. -/
theorem LandsIn.stop_ne {name : String} (hstands : Stands catalog written landing.offset name) :
    landing.stop ≠ landing.offset + name.length := by
  rw [Landing.stop]
  intro hwhole
  have hlength : landing.replacement.code.toList.length = name.toList.length := by
    rw [String.length_toList, String.length_toList]
    omega
  have heq : landing.replacement.code.toList = name.toList :=
    (List.prefix_of_prefix_length_le hlands.occurs hstands.occurs hlength.le).eq_of_length hlength
  have hplain := (hnamed.spelled.of_get? hreplacement.code_eq).not_isCompound
  exact hplain (heq ▸ hnamed.isCompound _ hstands.cataloged)

/-- A code wakes names only where something adjoins the name that it replaces. -/
theorem Wakes.adjoins (hwakes : Wakes catalog written landing) :
    Adjoins text landing.replacement := by
  cases hwakes with
  | covers hdelimited hstands hstart hstop =>
    rcases Nat.lt_or_eq_of_le hstart with hbefore | rfl
    · exact .hyphens (hlands.hyphens_before hnamed hreplacement hstands hbefore hstop)
    · have hbehind := Nat.lt_of_le_of_ne hstop (hlands.stop_ne hnamed hreplacement hstands)
      exact .hyphen (hlands.hyphen_behind hnamed hreplacement hstands hbehind)
  | releases hpath hfollows =>
    refine .path hpath ?_
    obtain ⟨tail, htail⟩ := hfollows
    rw [← hlands.behind, ← htail]
    rfl

theorem Wakes.exists_isCandidate (hwakes : Wakes catalog written landing) :
    ∃ place, IsCandidate catalog written place := by
  cases hwakes with
  | covers hdelimited hstands => exact ⟨_, hdelimited, _, hstands⟩
  | releases _ hfollows hstands =>
    refine ⟨_, ?_, _, hstands⟩
    rw [show landing.stop + 2 = landing.stop + [':', '"'].length from rfl,
      reverse_take_add_length hfollows]
    have hroute := hlands.not_path hnamed hreplacement
    have hopens : ¬pathMember <+: ':' :: (written.take landing.stop).reverse := by
      rw [pathMember, List.cons_prefix_cons]
      exact fun hmember => hroute hmember.2
    rw [← List.isPrefixOf_iff_prefix, Bool.not_eq_true] at hopens
    simp [isDelimited, plainDelimiters, hopens]

end Awakened

/-- The candidates of a rewritten text are due to codes. -/
theorem Greedy.exists_isCandidate_iff (hnamed : catalog.WellNamed)
    {replacements : List Replacement} (hgreedy : Greedy catalog text 0 replacements) :
    (∃ place, IsCandidate catalog (splice text 0 replacements) place) ↔
      ∃ landing ∈ landings 0 0 replacements,
        Wakes catalog (splice text 0 replacements) landing := by
  constructor
  · rintro ⟨place, hdelimited, name, hstands⟩
    exact hgreedy.exists_wakes hnamed .start (Nat.zero_le _) hdelimited hstands
  · rintro ⟨landing, hmem, hwakes⟩
    obtain ⟨hreplaced, hlands⟩ := hgreedy.landsIn hnamed .start landing hmem
    exact hwakes.exists_isCandidate hnamed (hgreedy.isReplacement _ hreplaced) hlands

end Rewriting

end SelectorMangling
