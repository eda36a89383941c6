import SelectorMangling.Proofs.Extraction.Beginning
import SelectorMangling.Proofs.Extraction.Excerpt
import SelectorMangling.Proofs.Rewriting.Delimiter
import SelectorMangling.Proofs.Rewriting.Token

/-!
# Class names are replaced where they are extracted

Extraction takes the longest class name behind a dot of a style source, and rewriting replaces the
longest cataloged name behind a delimiter of the whole file.  For class names these are the same,
but for one case: where an underscore or a capital letter follows, the class name ends inside of a
word, and a name is not replaced there.
-/

namespace SelectorMangling.Rewriting

open Extraction

variable {catalog : Catalog} {content : String} {kind : SourceKind}

/-- A word goes on at a place of a text with an underscore or a capital letter. -/
def GoesOn (text : List Char) (place : Nat) : Prop :=
  ∃ next ∈ (text.drop place).head?, next = '_' ∨ next.isUpper = true

theorem isWord_iff_of_not_isLetterOrDigit {c : Char} (hnone : isLetterOrDigit c = false) :
    isWord c = true ↔ c = '_' ∨ c.isUpper = true := by
  rw [isLetterOrDigit_eq, Bool.or_eq_false_iff] at hnone
  simp [isWord_eq, hnone.1, hnone.2, or_comm]

theorem isTokenChar_of_isClassNameChar {c : Char} (hc : isClassNameChar c = true) :
    isTokenChar c = true := by
  simp only [isClassNameChar, Bool.or_eq_true, beq_iff_eq] at hc
  rcases hc with (hword | rfl) | rfl
  · exact isTokenChar_of_isWord (isWord_of_isLetterOrDigit hword)
  · decide
  · decide

theorem isToken_of_isTrimmed {name : List Char} (htrimmed : IsTrimmed name) : IsToken name where
  chars c hc := isTokenChar_of_isClassNameChar (htrimmed.chars c hc)
  ends := by
    obtain ⟨last, hlast, hends⟩ := htrimmed.ends
    exact ⟨last, hlast, isWord_of_isLetterOrDigit hends⟩

/-- A class name as extraction finds it in a file.  A dot stands before it, no name that a catalog
could have there is longer, and no letter or digit follows. -/
structure IsExtracted (text : List Char) (found : Excerpt) : Prop where
  before : ∃ dot, found.place = dot + 1 ∧ ['.'] <+: text.drop dot
  occurs : found.text <+: text.drop found.place
  begins : isWordSide found.text.head? = true
  longest : ∀ other, IsTrimmed other → other <+: text.drop found.place →
    other.length ≤ found.text.length
  behind : ∀ next ∈ (text.drop (found.place + found.text.length)).head?,
    isLetterOrDigit next = false

theorem isExtracted_of_mem {found : Excerpt} (hfound : found ∈ classNameExcerpts kind content) :
    IsExtracted content.toList found := by
  obtain ⟨dot, rest, behind, hplace, hdrop, hname, hstops⟩ := exists_of_mem_classNameExcerpts hfound
  have hbehind : content.toList.drop found.place = rest ++ behind := by
    rw [hplace, ← List.drop_drop, hdrop, List.drop_one, List.tail_cons]
  constructor
  · exact ⟨dot, hplace, hdrop ▸ ⟨_, rfl⟩⟩
  · rw [hbehind]
    exact (prefix_of_className? hname).trans (List.prefix_append _ _)
  · exact isWordSide_head?_of_className? hname
  · intro other hother hoccurs
    rw [hbehind] at hoccurs
    exact length_le_of_className? hname hstops hother hoccurs
  · intro next hnext
    rw [← List.drop_drop, hbehind] at hnext
    exact not_isLetterOrDigit_behind hname hstops hnext

section Extracted

variable {text : List Char} {found : Excerpt} {code : String} {replacements : List Replacement}
  (hnames : ∀ name ∈ catalog.names, IsTrimmed name.toList) (hextracted : IsExtracted text found)

include hextracted

/-- A dot delimits a class name, and a word begins behind it. -/
theorem IsExtracted.isDelimited :
    isDelimited (text.take found.place).reverse = true ∧ IsBoundaryAt text found.place := by
  obtain ⟨dot, hplace, hdot⟩ := hextracted.before
  have htake : text.take found.place = text.take dot ++ ['.'] := by
    rw [hplace]
    exact take_add_length hdot
  obtain ⟨tail, htail⟩ := hextracted.occurs
  constructor
  · simp [htake, Rewriting.isDelimited, plainDelimiters]
  · rw [IsBoundaryAt, isBoundary, ← htail, isWordSide_head?_append hextracted.begins, htake,
      List.getLast?_concat]
    rfl

/-- Behind a class name, a word goes on only in one of two ways. -/
theorem IsExtracted.isWordSide_behind_iff :
    isWordSide (text.drop (found.place + found.text.length)).head? = true ↔
      GoesOn text (found.place + found.text.length) := by
  have hbehind := hextracted.behind
  rw [GoesOn]
  cases hnext : (text.drop (found.place + found.text.length)).head? with
  | none => simp [isWordSide]
  | some next =>
    rw [hnext] at hbehind
    simpa [isWordSide] using isWord_iff_of_not_isLetterOrDigit (hbehind next rfl)

include hnames

/-- A cataloged class name stands where it is extracted, unless the word goes on behind it. -/
theorem IsExtracted.stands_iff {name : String} (hname : name.toList = found.text)
    (hcataloged : name ∈ catalog.names) :
    Stands catalog text found.place name ↔ ¬GoesOn text (found.place + name.length) := by
  have hoccurs : name.toList <+: text.drop found.place := hname ▸ hextracted.occurs
  have hends := isBoundaryAt_iff (isToken_of_isTrimmed (hnames name hcataloged)) hoccurs
  have hlength : name.length = found.text.length := by
    rw [← hname, String.length_toList]
  rw [← Bool.not_eq_true, hlength, hextracted.isWordSide_behind_iff] at hends
  rw [hlength]
  constructor
  · intro hstands
    exact hends.mp (hlength ▸ hstands.ends)
  · intro hnot
    exact ⟨hcataloged, hoccurs, hextracted.isDelimited.2, hlength ▸ hends.mpr hnot⟩

/-- Where a class name is extracted, it is the longest of the cataloged names that stand there. -/
theorem IsExtracted.length_le {name other : String} (hname : name.toList = found.text)
    (hstands : Stands catalog text found.place other) : other.length ≤ name.length := by
  rw [← String.length_toList, ← String.length_toList, hname]
  exact hextracted.longest _ (hnames other hstands.cataloged) hstands.occurs

/-- No replacement reaches over the dot before a class name. -/
theorem IsExtracted.stop_lt {replacement : Replacement}
    (hreplacement : IsReplacement catalog text replacement)
    (hbefore : replacement.start < found.place) : replacement.stop < found.place := by
  obtain ⟨dot, hplace, hdot⟩ := hextracted.before
  have hstands := hreplacement.standsLongest.toStands
  by_contra hover
  obtain ⟨inside, hinside⟩ := Nat.exists_eq_add_of_le (show replacement.start ≤ dot by omega)
  have hlength : inside < replacement.name.toList.length := by
    rw [Replacement.stop] at hover
    rw [String.length_toList]
    omega
  have hchar : text[dot]? = some replacement.name.toList[inside] := by
    rw [hinside, getElem?_of_occurs hstands.occurs hlength]
  have hfound : text[dot]? = some '.' := getElem?_of_occurs hdot Nat.zero_lt_one
  have hmem := List.getElem_mem hlength
  rw [← Option.some.inj (hfound.symm.trans hchar)] at hmem
  exact absurd ((hnames _ hstands.cataloged).chars '.' hmem) (by decide)

/-- Where a class name stands, what is replaced at its place is that name. -/
theorem IsExtracted.eq_of_start_eq {name code : String} {replacement : Replacement}
    (hname : name.toList = found.text) (hcode : catalog.get? name = some code)
    (hstands : Stands catalog text found.place name)
    (hreplacement : IsReplacement catalog text replacement)
    (hstart : replacement.start = found.place) : replacement = ⟨found.place, name, code⟩ := by
  have hlongest := hreplacement.standsLongest
  rw [hstart] at hlongest
  have hlength : replacement.name.length = name.length :=
    Nat.le_antisymm (hextracted.length_le hnames hname hlongest.toStands)
      (hlongest.longest _ hstands)
  have hsame : replacement.name = name := hlongest.toStands.eq_of_length_eq hstands hlength
  have hown := hreplacement.code_eq
  rw [hsame, hcode, Option.some.injEq] at hown
  ext
  · exact hstart
  · rw [hsame]
  · rw [hown]

/-- Where a class name does not stand, no more than a shorter name is replaced at its place. -/
theorem IsExtracted.stop_lt_of_start_eq {name : String} {replacement : Replacement}
    (hname : name.toList = found.text) (hnot : ¬Stands catalog text found.place name)
    (hreplacement : IsReplacement catalog text replacement)
    (hstart : replacement.start = found.place) :
    replacement.stop < found.place + name.length := by
  have hother := hreplacement.standsLongest.toStands
  rw [hstart] at hother
  have hle := hextracted.length_le hnames hname hother
  have hne : replacement.name.length ≠ name.length := by
    intro hlength
    have hoccurs : name.toList <+: text.drop found.place := hname ▸ hextracted.occurs
    rw [← String.length_toList, ← String.length_toList] at hlength
    have hsame : replacement.name = name := String.toList_inj.mp
      ((List.prefix_of_prefix_length_le hother.occurs hoccurs hlength.le).eq_of_length hlength)
    exact hnot (hsame ▸ hother)
  rw [Replacement.stop, hstart]
  omega

end Extracted

/-- A class name of a script or a stylesheet that extraction finds and that is cataloged is replaced
at its place by its own code, unless the word goes on behind it with an underscore or a capital
letter; then no replacement covers it. -/
theorem class_names_are_replaced (hnames : ∀ name ∈ catalog.names, IsTrimmed name.toList)
    {found : Excerpt} (hfound : found ∈ classNameExcerpts kind content) {name code : String}
    (hname : name.toList = found.text) (hcode : catalog.get? name = some code) :
    IsExtracted content.toList found ∧
    ∃ replacements, Greedy catalog content.toList 0 replacements ∧
      catalog.rewrite content = some (String.ofList (splice content.toList 0 replacements)) ∧
      (⟨found.place, name, code⟩ ∈ replacements ↔
        ¬GoesOn content.toList (found.place + name.length)) ∧
      (GoesOn content.toList (found.place + name.length) →
        ∀ replacement ∈ replacements, replacement.start ≤ found.place →
          replacement.stop < found.place + name.length) := by
  have hempty : "" ∉ catalog.names := by
    intro hmem
    obtain ⟨last, hlast, -⟩ := (hnames "" hmem).ends
    simp at hlast
  have hcataloged := Catalog.mem_names_of_get? hcode
  have hextracted := isExtracted_of_mem hfound
  have hstands := hextracted.stands_iff hnames hname hcataloged
  obtain ⟨replacements, hgreedy, hrewritten⟩ := exists_greedy_rewrite hempty content
  refine ⟨hextracted, replacements, hgreedy, hrewritten, ⟨?_, ?_⟩, ?_⟩
  · intro hmem
    exact hstands.mp (hgreedy.isReplacement _ hmem).standsLongest.toStands
  · intro hnot
    have hcandidate : IsCandidate catalog content.toList found.place :=
      ⟨hextracted.isDelimited.1, name, hstands.mpr hnot⟩
    obtain ⟨replacement, hmem, hcovers⟩ := hgreedy.exists_covering (Nat.zero_le _) hcandidate
    have hreplacement := hgreedy.isReplacement _ hmem
    rcases hcovers with hstart | ⟨hbefore, hinside⟩
    · rwa [← hextracted.eq_of_start_eq hnames hname hcode (hstands.mpr hnot) hreplacement hstart]
    · exact absurd (hextracted.stop_lt hnames hreplacement hbefore) (Nat.lt_asymm hinside)
  · intro hgoes replacement hmem hstart
    have hreplacement := hgreedy.isReplacement _ hmem
    rcases Nat.lt_or_eq_of_le hstart with hbefore | hstart
    · exact Nat.lt_add_right _ (hextracted.stop_lt hnames hreplacement hbefore)
    · have hnot : ¬Stands catalog content.toList found.place name :=
        fun hstand => hstands.mp hstand hgoes
      exact hextracted.stop_lt_of_start_eq hnames hname hnot hreplacement hstart

/-- A script with two class names, of which an underscore follows the second one. -/
def styledScript : String := "styles:['.a-bc,.d-ef_']"

def styledNames : Catalog where
  entries := [("a-bc", "a0"), ("d-ef", "b1")]
  count := Catalog.empty.count + 2
  names_nodup := by decide

theorem isTrimmed_styledNames : ∀ name ∈ styledNames.names, IsTrimmed name.toList := by
  intro name hname
  have hname : name = "a-bc" ∨ name = "d-ef" := by simpa [styledNames, Catalog.names] using hname
  rcases hname with rfl | rfl
  · exact ⟨by simp [isClassNameChar, isLetterOrDigit, isLetter], 'c', by decide, by decide⟩
  · exact ⟨by simp [isClassNameChar, isLetterOrDigit, isLetter], 'f', by decide, by decide⟩

theorem classNameExcerpts_styledScript :
    classNameExcerpts .script styledScript = [⟨10, "a-bc".toList⟩, ⟨16, "d-ef".toList⟩] := by
  decide +kernel

theorem class_names_are_replaced_styledScript :
    (∀ name ∈ styledNames.names, IsTrimmed name.toList) ∧
      ⟨10, "a-bc".toList⟩ ∈ classNameExcerpts .script styledScript ∧
      styledNames.get? "a-bc" = some "a0" ∧
      ⟨16, "d-ef".toList⟩ ∈ classNameExcerpts .script styledScript ∧
      styledNames.get? "d-ef" = some "b1" ∧
      ∃ replacements, Greedy styledNames styledScript.toList 0 replacements ∧
        ⟨10, "a-bc", "a0"⟩ ∈ replacements ∧ ⟨16, "d-ef", "b1"⟩ ∉ replacements := by
  have hfirst : ⟨10, "a-bc".toList⟩ ∈ classNameExcerpts .script styledScript := by
    simp [classNameExcerpts_styledScript]
  have hsecond : ⟨16, "d-ef".toList⟩ ∈ classNameExcerpts .script styledScript := by
    simp [classNameExcerpts_styledScript]
  obtain ⟨-, replacements, hgreedy, -, hplain, -⟩ :=
    class_names_are_replaced isTrimmed_styledNames hfirst rfl (show _ = some "a0" by decide)
  obtain ⟨-, others, hothers, -, hgoes, -⟩ :=
    class_names_are_replaced isTrimmed_styledNames hsecond rfl (show _ = some "b1" by decide)
  obtain rfl := hgreedy.unique hothers
  refine ⟨isTrimmed_styledNames, hfirst, by decide, hsecond, by decide, replacements, hgreedy,
    hplain.mpr ?_, fun hmem => hgoes.mp hmem ⟨'_', by decide, .inl rfl⟩⟩
  rintro ⟨next, hnext, hcases⟩
  obtain rfl : ',' = next := by
    have hcomma : (styledScript.toList.drop (10 + "a-bc".length)).head? = some ',' := by decide
    exact Option.some.inj (hcomma.symm.trans hnext)
  exact absurd hcases (by decide)

end SelectorMangling.Rewriting
