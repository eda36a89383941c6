import SelectorMangling.Proofs.Rewriting.Alike
import SelectorMangling.Proofs.Rewriting.Delimiter

/-!
# Rewriting line by line

No name goes over the end of a line, words end there, and a delimiter that looks back sees nothing of
the line before.  So what is replaced in a text of several lines is what is replaced in each of them,
provided that the newline before a line, which is a delimiter, is rewritten together with it.
-/

namespace SelectorMangling.Rewriting

variable {catalog : Catalog} {front behind rest line : List Char} {place : Nat}
  {replacements others : List Replacement}

/-! ## Two parts of a text -/

/-- Behind the first part of a text the second one is rewritten. -/
theorem splice_moved (front rest : List Char) (place : Nat) (replacements : List Replacement) :
    splice (front ++ rest) (front.length + place)
        (replacements.map (Replacement.moved front.length)) =
      splice rest place replacements := by
  induction replacements generalizing place with
  | nil => simp [splice]
  | cons replacement later ih =>
    simp only [List.map_cons, splice, Replacement.start_moved, Replacement.code_moved,
      Replacement.stop_moved, ih, List.drop_length_add_append, Nat.add_sub_add_left]

section Parts

variable (hnames : "" ∉ catalog.names) (hplace : place ≤ front.length)
  (hgreedy : Greedy catalog front place replacements)

include hnames hplace hgreedy

/-- If all places of the first part are as if it stood alone, what is replaced in the text is what
is replaced in the first part, then what is replaced behind it. -/
theorem Greedy.append
    (halike : ∀ place ≤ front.length, Alike catalog front place catalog (front ++ rest) place)
    (hbehind : Greedy catalog (front ++ rest) front.length others) :
    Greedy catalog (front ++ rest) place (replacements ++ others) := by
  induction hgreedy with
  | done hnone =>
    apply hbehind.skip hplace
    intro between hle hlt
    exact mt (halike between (Nat.le_of_lt hlt)).isCandidate_iff.mpr (hnone between hle)
  | @next place replacement later hfirst hskipped hreplacement _ ih =>
    have hstop : replacement.stop ≤ front.length :=
      hreplacement.standsLongest.stop_le_length hnames
    have hstart : replacement.start ≤ front.length :=
      Nat.le_trans (Nat.le_add_right _ _) hstop
    refine .next hfirst ?_ ?_ (ih hstop)
    · intro between hle hlt
      have hinside := Nat.le_trans (Nat.le_of_lt hlt) hstart
      exact mt (halike between hinside).isCandidate_iff.mpr (hskipped between hle hlt)
    · have hmoved : Alike catalog front replacement.start catalog (front ++ rest)
          (0 + replacement.start) := by
        rw [Nat.zero_add]
        exact halike _ hstart
      simpa using hmoved.isReplacement hreplacement

theorem splice_append :
    splice (front ++ rest) place (replacements ++ others.map (Replacement.moved front.length)) =
      splice front place replacements ++ splice rest 0 others := by
  induction hgreedy with
  | @done place _ =>
    cases others with
    | nil => simp [splice, List.drop_append_of_le_length hplace]
    | cons replacement later =>
      have hlength : front.length + replacement.start - place =
          (front.drop place).length + replacement.start := by
        rw [List.length_drop]
        omega
      simp only [List.map_cons, List.nil_append, splice, Replacement.start_moved,
        Replacement.code_moved, Replacement.stop_moved, splice_moved, hlength,
        List.drop_append_of_le_length hplace, List.take_length_add_append, List.append_assoc,
        Nat.sub_zero, List.drop_zero]
  | @next place replacement later hfirst _ hreplacement _ ih =>
    have hstop : replacement.stop ≤ front.length :=
      hreplacement.standsLongest.stop_le_length hnames
    have hkept : replacement.start - place ≤ (front.drop place).length := by
      rw [List.length_drop]
      rw [Replacement.stop] at hstop
      omega
    simp only [List.cons_append, splice, ih hstop, List.drop_append_of_le_length hplace,
      List.take_append_of_le_length hkept, List.append_assoc]

end Parts

/-! ## The end of a line -/

/-- A piece without newlines that begins a text begins its first line. -/
theorem prefix_append_newline_iff {piece : List Char} (hpiece : '\n' ∉ piece) :
    piece <+: front ++ '\n' :: behind ↔ piece <+: front := by
  constructor
  · intro hprefix
    rcases List.prefix_or_prefix_of_prefix hprefix (List.prefix_append front _) with
      hinside | ⟨more, hmore⟩
    · exact hinside
    · rw [← hmore, List.prefix_append_right_inj] at hprefix
      cases more with
      | nil => rw [← hmore, List.append_nil]
      | cons c others =>
        obtain ⟨rfl, -⟩ := List.cons_prefix_cons.mp hprefix
        exact absurd (hmore ▸ List.mem_append_right front List.mem_cons_self) hpiece
  · exact fun hprefix => hprefix.trans (List.prefix_append _ _)

/-- A delimiter does not look back beyond the start of its line. -/
theorem isDelimited_append_newline (near earlier : List Char) :
    isDelimited (near ++ '\n' :: earlier) = isDelimited (near ++ ['\n']) := by
  cases near with
  | nil => rfl
  | cons nearest others =>
    have hhead : (others ++ '\n' :: earlier).head? = (others ++ ['\n']).head? := by
      rw [List.head?_append, List.head?_append]
      rfl
    have hmember : pathMember.isPrefixOf (others ++ '\n' :: earlier) =
        pathMember.isPrefixOf (others ++ ['\n']) := by
      have hplain : '\n' ∉ pathMember := by decide
      rw [Bool.eq_iff_iff, List.isPrefixOf_iff_prefix, List.isPrefixOf_iff_prefix,
        prefix_append_newline_iff hplain, prefix_append_newline_iff hplain]
    simp only [List.cons_append, isDelimited, hhead, hmember]

section Lines

variable (hlines : ∀ name ∈ catalog.names, '\n' ∉ name.toList)

include hlines

/-- The first line of a text is as if it stood alone. -/
theorem alike_first_line (behind : List Char) (hplace : place ≤ front.length) :
    Alike catalog front place catalog (front ++ '\n' :: behind) place where
  delimited := by rw [List.take_append_of_le_length hplace]
  stands := by
    intro name
    have hfits : name.toList <+: front.drop place → place + name.length ≤ front.length := by
      intro hoccurs
      have hle := hoccurs.length_le
      rw [List.length_drop, String.length_toList] at hle
      omega
    have hsides : isWordSide ([] : List Char).getLast? = isWordSide ([] : List Char).getLast? := rfl
    have hends : isWordSide ([] : List Char).head? = isWordSide ('\n' :: behind).head? := rfl
    constructor
    · intro hstands
      have halone : Stands catalog ([] ++ front ++ []) (([] : List Char).length + place) name := by
        simpa using hstands
      simpa using halone.of_kept hsides hends (hfits hstands.occurs)
    · intro hstands
      have hoccurs := hstands.occurs
      rw [List.drop_append_of_le_length hplace,
        prefix_append_newline_iff (hlines name hstands.cataloged)] at hoccurs
      have hfirst : Stands catalog ([] ++ front ++ '\n' :: behind) (([] : List Char).length + place)
          name := by
        simpa using hstands
      simpa using hfirst.of_kept hsides.symm hends.symm (hfits hoccurs)
  codes := fun _ _ => rfl

/-- No name begins with a newline. -/
theorem not_isCandidate_newline (hnames : "" ∉ catalog.names) (front line : List Char) :
    ¬IsCandidate catalog (front ++ '\n' :: line) front.length := by
  rintro ⟨-, name, hstands⟩
  have hoccurs := hstands.occurs
  rw [List.drop_left] at hoccurs
  have hempty : name.toList <+: [] :=
    (prefix_append_newline_iff (hlines name hstands.cataloged)).mp hoccurs
  rw [List.prefix_nil, String.toList_eq_nil_iff] at hempty
  exact hnames (hempty ▸ hstands.cataloged)

end Lines

/-- A name that stands behind a newline stands there whatever is before the newline. -/
theorem Stands.behind_newline (hnames : "" ∉ catalog.names) {offset : Nat} {name : String}
    (hstands : Stands catalog (front ++ '\n' :: line) (front.length + (1 + offset)) name)
    (other : List Char) :
    Stands catalog (other ++ '\n' :: line) (other.length + (1 + offset)) name := by
  have htext : ∀ earlier : List Char, earlier ++ '\n' :: line = earlier ++ ['\n'] ++ line ++ [] := by
    simp
  have hspot : ∀ earlier : List Char,
      earlier.length + (1 + offset) = (earlier ++ ['\n']).length + offset := by
    simp [Nat.add_assoc]
  have hfits : offset + name.length ≤ line.length := by
    have hstop := hstands.stop_le_length hnames
    rw [List.length_append, List.length_cons] at hstop
    omega
  have hsides : isWordSide (front ++ ['\n']).getLast? = isWordSide (other ++ ['\n']).getLast? := by
    simp
  rw [htext, hspot] at hstands ⊢
  exact hstands.of_kept hsides rfl hfits

/-- A line behind a newline is as if nothing stood before the newline. -/
theorem alike_later_line (hnames : "" ∉ catalog.names) (front line : List Char)
    (hplace : 1 ≤ place) :
    Alike catalog ('\n' :: line) place catalog (front ++ '\n' :: line) (front.length + place) := by
  obtain ⟨offset, rfl⟩ := Nat.exists_eq_add_of_le hplace
  have hnear : ∀ earlier : List Char,
      ((earlier ++ '\n' :: line).take (earlier.length + (1 + offset))).reverse =
        (line.take offset).reverse ++ '\n' :: earlier.reverse := by
    intro earlier
    rw [List.take_length_add_append, Nat.add_comm 1, List.take_succ_cons, List.reverse_append,
      List.reverse_cons, List.append_assoc, List.singleton_append]
  have hstart : ([] : List Char).length + (1 + offset) = 1 + offset := Nat.zero_add _
  exact
    { delimited := by
        have halone := hnear []
        rw [hstart, List.nil_append] at halone
        rw [halone, hnear, List.reverse_nil, isDelimited_append_newline _ front.reverse]
      stands := by
        intro name
        constructor
        · intro hstands
          have halone : Stands catalog ([] ++ '\n' :: line)
              (([] : List Char).length + (1 + offset)) name := by
            rwa [hstart]
          exact halone.behind_newline hnames front
        · intro hstands
          simpa using hstands.behind_newline hnames []
      codes := fun _ _ => rfl }

/-! ## Lines -/

/-- What is replaced in a line and in the newline before it is replaced behind any text. -/
theorem exists_greedy_later_line (hnames : "" ∉ catalog.names)
    (hlines : ∀ name ∈ catalog.names, '\n' ∉ name.toList) (line : List Char) :
    ∃ replacements, Greedy catalog ('\n' :: line) 0 replacements ∧
      ∀ front, Greedy catalog (front ++ '\n' :: line) front.length
        (replacements.map (Replacement.moved front.length)) := by
  -- The newline itself is no candidate, so that all is replaced behind it.
  have hnewline := not_isCandidate_newline hlines hnames
  obtain ⟨replacements, hgreedy⟩ :=
    exists_greedy hnames ('\n' :: line) 1 (Nat.le_add_left _ _)
  refine ⟨replacements, ?_, ?_⟩
  · apply hgreedy.skip (Nat.zero_le 1)
    intro between _ hlt
    rw [Nat.lt_one_iff.mp hlt]
    exact hnewline [] line
  · intro front
    have hmoved := hgreedy.moved front.length fun later hlater =>
      alike_later_line hnames front line hlater
    apply hmoved.skip (Nat.le_succ _)
    intro between hle hlt
    rw [Nat.le_antisymm (Nat.le_of_lt_succ hlt) hle]
    exact hnewline front line

/-- A text is rewritten line by line: what is replaced in it is what is replaced in its first line,
then what is replaced in the rest, with the newline before the rest. -/
theorem rewrite_append_newline (catalog : Catalog) (hnames : "" ∉ catalog.names)
    (hlines : ∀ name ∈ catalog.names, '\n' ∉ name.toList) (first second : String) :
    (∃ front rest, catalog.rewrite first = some front ∧
      catalog.rewrite ("\n" ++ second) = some rest ∧
      catalog.rewrite (first ++ "\n" ++ second) = some (front ++ rest)) ∧
      ∃ left right, Greedy catalog first.toList 0 left ∧
        Greedy catalog ("\n" ++ second).toList 0 right ∧
        Greedy catalog (first ++ "\n" ++ second).toList 0
          (left ++ right.map (Replacement.moved first.length)) := by
  have hrest : ("\n" ++ second).toList = '\n' :: second.toList := by simp
  have hwhole : (first ++ "\n" ++ second).toList = first.toList ++ '\n' :: second.toList := by simp
  obtain ⟨left, hleft, hrewrittenFirst⟩ := exists_greedy_rewrite hnames first
  obtain ⟨right, hright, hrewrittenRest⟩ := exists_greedy_rewrite hnames ("\n" ++ second)
  obtain ⟨all, hall, hrewritten⟩ := exists_greedy_rewrite hnames (first ++ "\n" ++ second)
  rw [hrest] at hright hrewrittenRest
  rw [hwhole] at hall hrewritten
  obtain ⟨later, hlater, hbehind⟩ := exists_greedy_later_line hnames hlines second.toList
  obtain rfl := hlater.unique hright
  have hgreedy := hleft.append hnames (Nat.zero_le _)
    (fun _ hplace => alike_first_line hlines second.toList hplace) (hbehind first.toList)
  obtain rfl := hgreedy.unique hall
  refine ⟨⟨_, _, hrewrittenFirst, hrewrittenRest, ?_⟩, left, later, hleft, ?_, ?_⟩
  · rw [hrewritten, ← String.ofList_append]
    exact congrArg (some ∘ String.ofList) (splice_append hnames (Nat.zero_le _) hleft)
  · rwa [hrest]
  · rwa [hwhole, ← String.length_toList]

def pageNames : Catalog where
  entries := [("btn", "a0"), ("card-title", "b1")]
  count := 10

/-- The newline keeps the quotation mark from being one of a route path. -/
theorem rewrite_pageNames_append_newline :
    "" ∉ pageNames.names ∧ (∀ name ∈ pageNames.names, '\n' ∉ name.toList) ∧
      ∃ front rest, pageNames.rewrite "path:" = some front ∧
        pageNames.rewrite ("\n" ++ "\"btn .card-title") = some rest ∧
        pageNames.rewrite ("path:" ++ "\n" ++ "\"btn .card-title") = some (front ++ rest) := by
  have hnames : "" ∉ pageNames.names := by decide
  have hlines : ∀ name ∈ pageNames.names, '\n' ∉ name.toList := by decide
  exact ⟨hnames, hlines, (rewrite_append_newline pageNames hnames hlines "path:" _).1⟩

end SelectorMangling.Rewriting
