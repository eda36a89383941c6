import Mathlib.Data.String.Basic
import SelectorMangling.Proofs.Rewriting.Turn

/-!
# The rounds of a rewriting

The loop that rewrites a text searches once in each round and goes on behind what it has found.  What
a round reads of the text is told by byte offsets, as slices that exist only between boundaries of
characters.  No round asks for a slice that does not exist, each one goes on behind the place of the
one before, and what a round finds is always in the catalog.
-/

namespace SelectorMangling.Rewriting

open String

/-! ## Slices -/

/-- The part of a text between two byte offsets.  It exists if they are in order, and neither lies
beyond the text or within a character. -/
def slice? (text : String) (start stop : Pos.Raw) : Option String :=
  if start ≤ stop ∧ start.isValid text ∧ stop.isValid text then some (start.extract text stop)
  else none

theorem isValid_utf8Len {text : String} {front behind : List Char}
    (htext : front ++ behind = text.toList) : (⟨utf8Len front⟩ : Pos.Raw).IsValid text := by
  rw [Pos.Raw.isValid_iff_exists_append]
  refine ⟨ofList front, ofList behind, ?_, (rawEndPos_ofList front).symm⟩
  rw [← ofList_append, htext, ofList_toList]

/-- A stretch of a text is the slice between its offsets. -/
theorem slice?_eq_some {text : String} {start stop : Pos.Raw} (front middle behind : List Char)
    (htext : front ++ middle ++ behind = text.toList) (hstart : start.byteIdx = utf8Len front)
    (hstop : stop.byteIdx = utf8Len front + utf8Len middle) :
    slice? text start stop = some (ofList middle) := by
  obtain rfl : start = ⟨utf8Len front⟩ := Pos.Raw.ext hstart
  obtain rfl : stop = ⟨utf8Len front + utf8Len middle⟩ := Pos.Raw.ext hstop
  have hstart : (⟨utf8Len front⟩ : Pos.Raw).IsValid text := by
    apply isValid_utf8Len
    rw [← htext, List.append_assoc]
  have hstop : (⟨utf8Len front + utf8Len middle⟩ : Pos.Raw).IsValid text := by
    rw [← utf8Len_append]
    exact isValid_utf8Len htext
  have hle : (⟨utf8Len front⟩ : Pos.Raw) ≤ ⟨utf8Len front + utf8Len middle⟩ :=
    Nat.le_add_right _ _
  have hextract := extract_of_valid front middle behind
  rw [htext, ofList_toList] at hextract
  rw [slice?, if_pos ⟨hle, Pos.Raw.isValid_eq_true_iff.mpr hstart,
    Pos.Raw.isValid_eq_true_iff.mpr hstop⟩, hextract]

/-! ## Offsets -/

namespace Progress

/-- The byte offset of the place where the search goes on. -/
def resume (progress : Progress) : Pos.Raw := ⟨utf8Len progress.before⟩

/-- The byte offset behind the last replacement, or of the start of the text. -/
def last (progress : Progress) : Pos.Raw :=
  ⟨utf8Len (progress.before.drop progress.kept.length)⟩

end Progress

namespace Occurrence

/-- The byte offset at which an occurrence begins. -/
def start (found : Occurrence) : Pos.Raw := ⟨utf8Len found.before⟩

/-- The byte offset behind an occurrence. -/
def stop (found : Occurrence) : Pos.Raw := ⟨utf8Len found.before + utf8Len found.name⟩

end Occurrence

namespace Progress

/-- Behind a replacement the search goes on, and nothing is kept so far. -/
theorem offsets_replace (progress : Progress) (found : Occurrence) (code : List Char) :
    (progress.replace found code).resume = found.stop ∧
      (progress.replace found code).last = found.stop := by
  simp [replace, resume, last, Occurrence.stop, Nat.add_comm]

/-- Behind the first character of an occurrence that is passed by the search goes on, and what is
kept begins where it began. -/
theorem offsets_passBy {progress : Progress} {found : Occurrence}
    (hbefore : found.before = found.skipped ++ progress.before) (first : Char)
    (rest : List Char) :
    (progress.passBy found first rest).resume = found.start + first ∧
      (progress.passBy found first rest).last = progress.last := by
  constructor
  · rfl
  · simp only [passBy, last, hbefore, List.length_cons, List.length_append, List.drop_succ_cons]
    rw [List.drop_length_add_append]

end Progress

/-! ## One round -/

/-- What a round does that has found an occurrence: it is the first one from the place of the search
on, all slices of the text that the round takes exist, and the occurrence has a code. -/
structure IsSound (catalog : Catalog) (text : String) (progress : Progress) (found : Occurrence) :
    Prop where
  stands : Stands catalog text.toList found.before.length (ofList found.name)
  first : ∀ place, progress.before.length ≤ place → place < found.before.length →
    ∀ name, ¬Stands catalog text.toList place name
  ordered : progress.last ≤ progress.resume ∧ progress.resume ≤ found.start
  /-- The text before the occurrence, in which the delimiter is looked for. -/
  front : slice? text 0 found.start = some (ofList found.before.reverse)
  /-- The text before a quotation mark, in which the route path is looked for. -/
  quoted : ∀ earlier, found.before = '"' :: earlier →
    slice? text 0 ⟨found.start.byteIdx - 1⟩ = some (ofList earlier.reverse)
  remainder : slice? text found.start text.rawEndPos = some (ofList found.text)
  copied : slice? text progress.last found.start =
    some (ofList (found.skipped ++ progress.kept).reverse)
  named : slice? text found.start found.stop = some (ofList found.name)
  coded : (catalog.get? (ofList found.name)).isSome
  goesOn : ∃ next, catalog.rewriter.turn progress = .goesOn next ∧
    if isDelimited found.before then next.resume = found.stop ∧ next.last = found.stop
    else ∃ first, found.text.head? = some first ∧ next.resume = found.start + first ∧
      next.last = progress.last

/-- The state of a loop that can search, and that can copy what is left of the text if the search
finds nothing. -/
structure IsSafe (catalog : Catalog) (text : String) (progress : Progress) : Prop where
  boundary : progress.resume.IsValid text
  within : progress.resume ≤ text.rawEndPos
  remainder : slice? text progress.last text.rawEndPos =
    some (ofList (progress.kept.reverse ++ progress.rest))
  known : progress.unknown = []
  finds : ∀ found, searchNames catalog.rewriter.names [] progress.before progress.rest = some found →
    IsSound catalog text progress found
  ends : searchNames catalog.rewriter.names [] progress.before progress.rest = none →
    ∀ place, progress.before.length ≤ place → ∀ name, ¬Stands catalog text.toList place name

section Turn

variable {catalog : Catalog} {progress next : Progress} (hnames : "" ∉ catalog.names)

include hnames

/-- Each turn goes on behind the place of the one before. -/
theorem resume_lt_of_turn (hturn : catalog.rewriter.turn progress = .goesOn next) :
    progress.resume < next.resume := by
  have hle : ∀ found,
      searchNames catalog.rewriter.names [] progress.before progress.rest = some found →
        utf8Len progress.before ≤ utf8Len found.before := by
    intro found hfound
    obtain ⟨passed, -, -, hbefore⟩ := exists_passed_of_searchNames hfound
    rw [hbefore, utf8Len_append]
    exact Nat.le_add_left _ _
  have hturns := turnsTo catalog progress
  rw [hturn] at hturns
  cases hturns with
  | @replaces found code hfound _ _ =>
    have hpos : 0 < utf8Len found.name :=
      Nat.pos_of_ne_zero (mt utf8Len_eq_zero.mp (name_ne_nil_of_searchNames hnames hfound))
    rw [(progress.offsets_replace found code.toList).1]
    exact Nat.lt_of_le_of_lt (hle found hfound) (Nat.lt_add_of_pos_right hpos)
  | @passes found first rest hfound _ _ =>
    obtain ⟨passed, -, hskipped, hbefore⟩ := exists_passed_of_searchNames hfound
    rw [List.append_nil] at hskipped
    rw [(Progress.offsets_passBy (hskipped ▸ hbefore) first rest).1]
    exact Nat.lt_of_le_of_lt (hle found hfound) (Nat.lt_add_of_pos_right first.utf8Size_pos)

theorem isSound_of_searchNames {text : String} (hat : progress.IsAt text.toList)
    {found : Occurrence}
    (hfound :
      searchNames catalog.rewriter.names [] progress.before progress.rest = some found) :
    IsSound catalog text progress found := by
  obtain ⟨passed, -, hskipped, hbefore⟩ := exists_passed_of_searchNames hfound
  rw [List.append_nil] at hskipped
  obtain ⟨-, -, -, -, -, hlongest, hfirst⟩ := hat.of_searchNames hfound
  have htext : found.before.reverse ++ found.text = text.toList := by
    rw [text_of_searchNames hfound, hat.text_eq]
  -- What was written up to the last replacement, and what is kept since.
  obtain ⟨earlier, hearlier⟩ := hat.kept
  have hlast : progress.last.byteIdx = utf8Len earlier := by
    rw [Progress.last, ← hearlier, List.drop_left]
  have hsplit : found.before = found.skipped ++ progress.kept ++ earlier := by
    rw [hbefore, hskipped, List.append_assoc, hearlier]
  exact
    { stands := hlongest.toStands
      first := hfirst
      ordered := by
        rw [Pos.Raw.le_iff, Pos.Raw.le_iff, hlast, Progress.resume, Occurrence.start, hbefore,
          ← hearlier]
        simp only [utf8Len_append]
        omega
      front := by
        apply slice?_eq_some [] found.before.reverse found.text htext rfl
        rw [utf8Len_nil, Nat.zero_add, utf8Len_reverse, Occurrence.start]
      quoted := by
        intro nearer hnearer
        apply slice?_eq_some [] nearer.reverse ('"' :: found.text)
        · rw [← htext, hnearer]
          simp
        · rfl
        · rw [Occurrence.start, hnearer, utf8Len_cons, utf8Len_nil, utf8Len_reverse, Nat.zero_add,
            show '"'.utf8Size = 1 from rfl, Nat.add_sub_cancel]
      remainder := by
        apply slice?_eq_some found.before.reverse found.text [] (by rw [List.append_nil, htext])
        · rw [utf8Len_reverse, Occurrence.start]
        · rw [← utf8Len_append, htext, utf8Len_toList, byteIdx_rawEndPos]
      copied := by
        apply slice?_eq_some earlier.reverse _ found.text
        · rw [← htext, hsplit]
          simp
        · rw [hlast, utf8Len_reverse]
        · rw [Occurrence.start, hsplit, utf8Len_append, utf8Len_reverse, utf8Len_reverse,
            Nat.add_comm]
      named := by
        apply slice?_eq_some found.before.reverse found.name (found.text.drop found.name.length)
        · rw [List.append_assoc, name_of_searchNames hfound, htext]
        · rw [utf8Len_reverse, Occurrence.start]
        · rw [utf8Len_reverse, Occurrence.stop]
      coded := by
        obtain ⟨code, hcode⟩ := Catalog.exists_get?_of_mem_names hlongest.cataloged
        rw [hcode, Option.isSome_some]
      goesOn := by
        have hturns := turnsTo catalog progress
        cases hturn : catalog.rewriter.turn progress with
        | ends =>
          rw [hturn] at hturns
          cases hturns with
          | ends hnone =>
            rw [hfound] at hnone
            contradiction
        | goesOn next =>
          refine ⟨next, rfl, ?_⟩
          rw [hturn] at hturns
          cases hturns with
          | @replaces other code hother hdelimited _ =>
            obtain rfl := Option.some.inj (hfound.symm.trans hother)
            rw [if_pos hdelimited]
            exact progress.offsets_replace found code.toList
          | @passes other first rest hother hpassed hrest =>
            obtain rfl := Option.some.inj (hfound.symm.trans hother)
            rw [if_neg (Bool.not_eq_true _ ▸ hpassed)]
            exact ⟨first, by rw [hrest, List.head?_cons],
              Progress.offsets_passBy (hskipped ▸ hbefore) first rest⟩
        | fails => exact absurd hturn (turn_ne_fails hnames progress) }

theorem Progress.IsAt.isSafe {text : String} (hat : progress.IsAt text.toList) :
    IsSafe catalog text progress where
  boundary := by
    rw [resume, ← utf8Len_reverse]
    exact isValid_utf8Len hat.text_eq
  within := by
    rw [Pos.Raw.le_iff, byteIdx_rawEndPos, ← utf8Len_toList, ← hat.text_eq, utf8Len_append,
      utf8Len_reverse]
    exact Nat.le_add_right _ _
  remainder := by
    obtain ⟨earlier, hearlier⟩ := hat.kept
    have htext : earlier.reverse ++ (progress.kept.reverse ++ progress.rest) = text.toList := by
      rw [← hat.text_eq, ← hearlier, List.reverse_append, List.append_assoc]
    apply slice?_eq_some earlier.reverse _ [] (by rw [List.append_nil, htext])
    · rw [last, ← hearlier, List.drop_left, utf8Len_reverse]
    · rw [← utf8Len_append, htext, utf8Len_toList, byteIdx_rawEndPos]
  known := hat.known
  finds := fun _ hfound => isSound_of_searchNames hnames hat hfound
  ends := fun hnone _ hplace => hat.not_stands hnone hplace

end Turn

/-! ## All rounds -/

/-- The states in which a rewriter searches, from one on, and the last of them, in which it finds
nothing. -/
inductive Rounds (rewriter : Rewriter) : Progress → List Progress → Progress → Prop
  | finds {progress next last : Progress} {later : List Progress}
      (hturn : rewriter.turn progress = .goesOn next) (hlater : Rounds rewriter next later last) :
      Rounds rewriter progress (progress :: later) last
  | ends {progress : Progress} (hends : rewriter.turn progress = .ends) :
      Rounds rewriter progress [progress] progress

namespace Rounds

variable {rewriter : Rewriter} {progress last : Progress} {rounds : List Progress}

/-- What the loop returns is the last of its rounds. -/
theorem exists_of_finish (hfinish : rewriter.finish progress = some last) :
    ∃ rounds, Rounds rewriter progress rounds last := by
  refine Rewriter.finish.partial_correctness rewriter
    (fun progress last => ∃ rounds, Rounds rewriter progress rounds last) ?_ progress last hfinish
  intro finish ih progress last hlast
  cases hturn : rewriter.turn progress with
  | ends =>
    rw [hturn] at hlast
    obtain rfl : progress = last := Option.some.inj hlast
    exact ⟨[progress], .ends hturn⟩
  | goesOn next =>
    rw [hturn] at hlast
    obtain ⟨later, hlater⟩ := ih next last hlast
    exact ⟨progress :: later, .finds hturn hlater⟩
  | fails =>
    rw [hturn] at hlast
    contradiction

theorem last_mem (hrounds : Rounds rewriter progress rounds last) : last ∈ rounds := by
  induction hrounds with
  | finds _ _ ih => exact List.mem_cons_of_mem _ ih
  | ends => exact List.mem_cons_self

/-- There are not more rounds than characters and one more, if each round but the last takes at least
one character off the rest of the text. -/
theorem length_le
    (hshrinks : ∀ progress next, rewriter.turn progress = .goesOn next →
      next.rest.length < progress.rest.length)
    (hrounds : Rounds rewriter progress rounds last) :
    rounds.length ≤ progress.rest.length + 1 := by
  induction hrounds with
  | finds hturn _ ih =>
    have hlt := hshrinks _ _ hturn
    rw [List.length_cons]
    omega
  | ends => simp

/-- What holds at the start and is kept by each turn holds in all rounds. -/
theorem forall_of_turn {holds : Progress → Prop}
    (hkeeps : ∀ progress next, rewriter.turn progress = .goesOn next → holds progress → holds next)
    (hrounds : Rounds rewriter progress rounds last) (hstart : holds progress) :
    ∀ round ∈ rounds, holds round := by
  induction hrounds with
  | finds hturn _ ih => exact List.forall_mem_cons.mpr ⟨hstart, ih (hkeeps _ _ hturn hstart)⟩
  | ends => simpa using hstart

/-- If each turn goes on behind the place of the one before, so do all later rounds. -/
theorem pairwise_resume_lt
    (hgrows : ∀ progress next, rewriter.turn progress = .goesOn next →
      progress.resume < next.resume)
    (hrounds : Rounds rewriter progress rounds last) :
    rounds.Pairwise fun earlier later => earlier.resume < later.resume := by
  induction hrounds with
  | finds hturn hlater ih =>
    have hbehind := hlater.forall_of_turn
      (fun _ _ hnext hlt => Nat.lt_trans hlt (hgrows _ _ hnext)) (hgrows _ _ hturn)
    exact .cons hbehind ih
  | ends => exact List.pairwise_singleton _ _

end Rounds

/-- The loop that rewrites a text ends after as many rounds as the text has characters and one more,
at the latest.  Each round goes on behind the place of the one before, and all of them are safe: they
search from boundaries of characters, take slices that exist, and find names that have codes. -/
theorem run_in_safe_rounds (catalog : Catalog) (hnames : "" ∉ catalog.names) (text : String) :
    ∃ rounds last, catalog.rewriter.run text = some last ∧
      Rounds catalog.rewriter { rest := text.toList } rounds last ∧
      rounds.length ≤ text.length + 1 ∧
      rounds.Pairwise (fun earlier later => earlier.resume < later.resume) ∧
      (∀ round ∈ rounds, IsSafe catalog text round) ∧
      last.unknown = [] := by
  obtain ⟨last, hlast⟩ := exists_finish hnames { rest := text.toList }
  obtain ⟨rounds, hrounds⟩ := Rounds.exists_of_finish hlast
  have hat := hrounds.forall_of_turn (fun _ _ hturn hat => hat.of_turn hturn)
    (Progress.IsAt.start text.toList)
  refine ⟨rounds, last, hlast, hrounds, ?_, ?_, ?_, ?_⟩
  · rw [← String.length_toList]
    exact hrounds.length_le fun _ _ => length_rest_lt_of_turn hnames
  · exact hrounds.pairwise_resume_lt fun _ _ => resume_lt_of_turn hnames
  · exact fun round hround => (hat round hround).isSafe hnames
  · exact (hat _ hrounds.last_mem).known

/-- A catalog in which one name begins with a character of two bytes. -/
def accentedNames : Catalog where
  entries := [("é-b", "a0"), ("b-c", "b1")]
  count := 5

theorem run_accentedNames_in_safe_rounds :
    "" ∉ accentedNames.names ∧
      ∃ rounds last, accentedNames.rewriter.run "xé-b-c .b-c" = some last ∧
        Rounds accentedNames.rewriter { rest := "xé-b-c .b-c".toList } rounds last ∧
        rounds.length ≤ 12 ∧ ∀ round ∈ rounds, IsSafe accentedNames "xé-b-c .b-c" round := by
  have hnames : "" ∉ accentedNames.names := by decide
  obtain ⟨rounds, last, hlast, hrounds, hlength, -, hsafe, -⟩ :=
    run_in_safe_rounds accentedNames hnames "xé-b-c .b-c"
  exact ⟨hnames, rounds, last, hlast, hrounds, hlength, hsafe⟩

end SelectorMangling.Rewriting
