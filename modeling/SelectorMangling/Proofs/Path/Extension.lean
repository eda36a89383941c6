import SelectorMangling.Proofs.Path.Order
import SelectorMangling.SourceKind

/-!
# Extensions of names

The extension of a name is what stands behind its last dot, if something stands in front of this dot.
It tells which entries of a folder are source files.
-/

namespace SelectorMangling

namespace Path

/-- Something stands in front of the dot before the extension of a name. -/
theorem exists_stem_of_extensionOf? {name extension : String}
    (hextension : extensionOf? name = some extension) :
    ∃ stem, stem ≠ "" ∧ name = stem ++ "." ++ extension := by
  have hsplit := name.toList.reverse.takeWhile_append_dropWhile (p := (· != '.'))
  have hlength := congrArg List.length hsplit
  rw [List.length_append, List.length_reverse, String.length_toList] at hlength
  rw [extensionOf?] at hextension
  generalize name.toList.reverse.takeWhile (· != '.') = behind at *
  split at hextension
  · contradiction
  · next hlong =>
    obtain rfl := Option.some.inj hextension
    cases hbefore : name.toList.reverse.dropWhile (· != '.') with
    | nil =>
      rw [hbefore, List.length_nil] at hlength
      omega
    | cons dot front =>
      rw [hbefore, List.length_cons] at hlength
      have hdot : dot = '.' := by
        have hstops := List.head?_dropWhile_not (· != '.') name.toList.reverse
        simpa [hbefore] using hstops
      refine ⟨String.ofList front.reverse, ?_, ?_⟩
      · rw [ne_eq, String.ofList_eq_empty_iff, List.reverse_eq_nil_iff, ← List.length_eq_zero_iff]
        omega
      · apply String.toList_injective
        rw [hbefore, hdot] at hsplit
        calc name.toList
            _ = (behind ++ '.' :: front).reverse := List.reverse_eq_iff.mp hsplit.symm
            _ = front.reverse ++ '.' :: behind.reverse := by simp
            _ = (String.ofList front.reverse ++ "." ++ String.ofList behind.reverse).toList := by
              simp

theorem extensionOf?_append {stem extension : String} (hstem : stem ≠ "")
    (hdotless : '.' ∉ extension.toList) :
    extensionOf? (stem ++ "." ++ extension) = some extension := by
  have hbehind : (stem ++ "." ++ extension).toList.reverse.takeWhile (· != '.') =
      extension.toList.reverse := by
    simp only [String.toList_append, List.reverse_append]
    rw [List.takeWhile_append_of_pos]
    · simp
    · intro c hc
      rw [bne_iff_ne]
      rintro rfl
      exact hdotless (List.mem_reverse.mp hc)
  have hlong : ¬(stem ++ "." ++ extension).length ≤ extension.toList.reverse.length + 1 := by
    have hsome : 0 < stem.length := by
      rwa [← String.length_toList, List.length_pos_iff, ne_eq, String.toList_eq_nil_iff]
    have hdot : ".".length = 1 := rfl
    rw [String.length_append, String.length_append, List.length_reverse, String.length_toList]
    omega
  rw [extensionOf?, hbehind, if_neg hlong, List.reverse_reverse, String.ofList_toList]

/-- A name has an extension without dots if it is spelled with it behind something and a dot. -/
theorem extensionOf?_eq_some_iff {name extension : String} (hdotless : '.' ∉ extension.toList) :
    extensionOf? name = some extension ↔ ∃ stem, stem ≠ "" ∧ name = stem ++ "." ++ extension := by
  constructor
  · exact exists_stem_of_extensionOf?
  · rintro ⟨stem, hstem, rfl⟩
    exact extensionOf?_append hstem hdotless

/-- The name of an entry is the last component of its path. -/
theorem fileName?_child {folder : Path} (hfolder : folder.text ≠ "") {name : String}
    (hname : IsEntryName name) : (folder.child name).fileName? = some name := by
  rw [fileName?, child, components_join hfolder (not_isAbsolute_of_isEntryName hname),
    inner_of_isEntryName hname, List.getLast?_concat]

end Path

namespace SourceKind

/-- The extension that files of a kind have. -/
def extension : SourceKind → String
  | script => "js"
  | markup => "html"
  | style => "css"

theorem ofExtension?_eq_some_iff {text : String} {kind : SourceKind} :
    ofExtension? text = some kind ↔ text = kind.extension := by
  constructor
  · intro hsome
    unfold ofExtension? at hsome
    split at hsome <;> cases hsome <;> rfl
  · rintro rfl
    cases kind <;> rfl

/-- The kind of a file in a folder is told by the end of its name. -/
theorem ofPath?_child_iff {folder : Path} (hfolder : folder.text ≠ "") {name : String}
    (hname : IsEntryName name) {kind : SourceKind} :
    ofPath? (folder.child name) = some kind ↔
      ∃ stem, stem ≠ "" ∧ name = stem ++ "." ++ kind.extension := by
  have hdotless : '.' ∉ kind.extension.toList := by
    cases kind <;> decide
  rw [ofPath?, Path.extension?, Path.fileName?_child hfolder hname, Option.bind_some,
    ← Path.extensionOf?_eq_some_iff hdotless, Option.bind_eq_some_iff]
  simp only [ofExtension?_eq_some_iff, exists_eq_right]

end SourceKind

end SelectorMangling
