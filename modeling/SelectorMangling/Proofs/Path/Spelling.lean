import SelectorMangling.Proofs.Path.Direct
import SelectorMangling.Settings.Basic

/-!
# Spellings of a name

One directory can be written in many ways: separators and single dots may stand behind its name.
These are all the ways, and paths that are joined with two spellings of one name have the same
components.
-/

namespace SelectorMangling

/-- A text is a name of an entry with nothing behind it but separators and single dots. -/
def Spells (name text : String) : Prop :=
  ∃ pieces, Path.segments text.toList = name.toList :: pieces ∧
    ∀ piece ∈ pieces, piece = [] ∨ piece = ['.']

namespace Path

theorem head?_segments_eq_nil_iff {text : List Char} :
    (segments text).head? = some [] ↔ text = [] ∨ text.head? = some '/' := by
  cases text with
  | nil => simp [segments]
  | cons c rest =>
    rw [segments]
    split
    · next hseparator => simp [hseparator]
    · next hplain => split <;> simp [hplain]

theorem filterMap_ofSegment?_eq_nil_iff {pieces : List (List Char)} :
    pieces.filterMap Component.ofSegment? = [] ↔ ∀ piece ∈ pieces, piece = [] ∨ piece = ['.'] := by
  rw [List.filterMap_eq_nil_iff]
  refine forall₂_congr fun piece _ => ?_
  unfold Component.ofSegment?
  split_ifs with hskipped hparent
  · simp [hskipped]
  · simp [hskipped]
  · simp [hskipped]

end Path

namespace Spells

variable {name text : String}

theorem inner_eq (hspells : Spells name text) (hname : IsEntryName name) :
    (Path.mk text).inner = [.name name] := by
  obtain ⟨pieces, hsegments, hskipped⟩ := hspells
  have hrest := Path.filterMap_ofSegment?_eq_nil_iff.mpr hskipped
  have halone := Path.inner_of_isEntryName hname
  rw [Path.inner, Path.segments_of_notMem hname.separator_notMem] at halone
  rw [Path.inner, hsegments, ← List.singleton_append, List.filterMap_append, hrest, halone]
  rfl

theorem isAbsolute_eq (hspells : Spells name text) (hname : IsEntryName name) :
    (Path.mk text).isAbsolute = false := by
  obtain ⟨pieces, hsegments, -⟩ := hspells
  rw [Path.isAbsolute, beq_eq_false_iff_ne]
  intro hseparator
  have hhead := Path.head?_segments_eq_nil_iff.mpr (.inr hseparator)
  rw [hsegments, List.head?_cons, Option.some.injEq] at hhead
  exact hname.ne_empty (String.toList_inj.mp hhead)

theorem unique {other : String} (hspells : Spells name text) (hother : Spells other text) :
    name = other := by
  obtain ⟨pieces, hsegments, -⟩ := hspells
  obtain ⟨otherPieces, hotherSegments, -⟩ := hother
  rw [hsegments, List.cons.injEq] at hotherSegments
  exact String.toList_inj.mp hotherSegments.1

/-- A spelling without a separator is the name itself. -/
theorem eq_of_notMem (hspells : Spells name text) (hplain : '/' ∉ text.toList) : text = name := by
  obtain ⟨pieces, hsegments, -⟩ := hspells
  rw [Path.segments_of_notMem hplain, List.cons.injEq] at hsegments
  exact String.toList_inj.mp hsegments.1

end Spells

/-- A relative path whose only piece is a name spells this name. -/
theorem spells_of_inner {name text : String} (hrelative : (Path.mk text).isAbsolute = false)
    (hdot : (Path.segments text.toList).head? ≠ some ['.'])
    (hinner : (Path.mk text).inner = [.name name]) : Spells name text := by
  obtain ⟨piece, rest, hsegments⟩ := List.exists_cons_of_ne_nil (Path.segments_ne_nil text.toList)
  rw [Path.inner, hsegments, List.filterMap_cons] at hinner
  rw [hsegments, List.head?_cons, ne_eq, Option.some.injEq] at hdot
  have hpiece : piece ≠ [] := by
    rintro rfl
    have hhead := congrArg List.head? hsegments
    rw [List.head?_cons, Path.head?_segments_eq_nil_iff] at hhead
    rcases hhead with hempty | hseparator
    · rw [hempty, Path.segments, List.cons.injEq] at hsegments
      rw [← hsegments.2] at hinner
      simp [Path.Component.ofSegment?] at hinner
    · rw [Path.isAbsolute, hseparator] at hrelative
      contradiction
  unfold Path.Component.ofSegment? at hinner
  rw [if_neg (by simp [hpiece, hdot])] at hinner
  split_ifs at hinner with hparent
  · simp at hinner
  · obtain ⟨hname, hrest⟩ := List.cons.inj hinner
    obtain rfl := Path.Component.name.inj hname
    refine ⟨rest, by rw [hsegments, String.toList_ofList], ?_⟩
    exact Path.filterMap_ofSegment?_eq_nil_iff.mp hrest

/-- The texts that name a single directory are the spellings of the names of entries. -/
theorem isValidLocale_iff {text : String} :
    isValidLocale text = true ↔ ∃ name, IsEntryName name ∧ Spells name text := by
  constructor
  · intro hvalid
    unfold isValidLocale at hvalid
    split at hvalid
    · next name hcomponents =>
      have hrelative : (Path.mk text).isAbsolute = false := by
        rw [Bool.eq_false_iff]
        intro habsolute
        rw [Path.components_of_isAbsolute habsolute] at hcomponents
        simp at hcomponents
      rw [Path.components, hrelative, if_neg Bool.false_ne_true] at hcomponents
      dsimp only at hcomponents
      split at hcomponents
      · simp at hcomponents
      · next hdot =>
        have hinner : (Path.mk text).inner = [.name name] := hcomponents
        have hmem : Path.Component.name name ∈ (Path.mk text).inner := by
          rw [hinner]
          exact List.mem_singleton_self _
        have hname : IsEntryName name := by simpa using Path.mem_inner hmem
        exact ⟨name, hname, spells_of_inner hrelative hdot hinner⟩
    · contradiction
  · rintro ⟨name, hname, hspells⟩
    have hdot : (Path.segments text.toList).head? ≠ some ['.'] := by
      obtain ⟨pieces, hsegments, -⟩ := hspells
      rw [hsegments, List.head?_cons, ne_eq, Option.some.injEq]
      exact fun heq => hname.ne_dot (String.toList_inj.mp heq)
    have hcomponents : (Path.mk text).components = [.name name] := by
      rw [Path.components, hspells.isAbsolute_eq hname, if_neg Bool.false_ne_true]
      dsimp only
      rw [if_neg hdot]
      exact hspells.inner_eq hname
    rw [isValidLocale, hcomponents]

end SelectorMangling
