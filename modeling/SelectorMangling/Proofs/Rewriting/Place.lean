import SelectorMangling.Rewriting.Rewriter

/-!
# Names at the places of a text

Places are counted in characters from the start of a text.  A cataloged name stands at a place if
the text goes on with it and word boundaries lie at both its ends; the rewriter of a catalog finds
exactly such names, and of several that stand at one place the longest.
-/

namespace SelectorMangling.Rewriting

/-- Whether a word begins or ends at a place of a text. -/
def IsBoundaryAt (text : List Char) (place : Nat) : Prop :=
  isBoundary (text.take place).getLast? (text.drop place).head? = true

/-- A cataloged name at a place of a text, between word boundaries. -/
structure Stands (catalog : Catalog) (text : List Char) (place : Nat) (name : String) : Prop where
  cataloged : name ∈ catalog.names
  occurs : name.toList <+: text.drop place
  starts : IsBoundaryAt text place
  ends : IsBoundaryAt text (place + name.length)

/-- A name at a place, none of the names there being longer. -/
structure StandsLongest (catalog : Catalog) (text : List Char) (place : Nat) (name : String) :
    Prop extends Stands catalog text place name where
  longest : ∀ other, Stands catalog text place other → other.length ≤ name.length

/-- A place where a name is to be replaced, unless it lies in an occurrence that is replaced
already. -/
def IsCandidate (catalog : Catalog) (text : List Char) (place : Nat) : Prop :=
  isDelimited (text.take place).reverse = true ∧ ∃ name, Stands catalog text place name

variable {catalog : Catalog} {text : List Char} {place : Nat}

/-- The text before the end of an occurrence is the text before it, then the name. -/
theorem take_add_length {name : List Char} (hoccurs : name <+: text.drop place) :
    text.take (place + name.length) = text.take place ++ name := by
  rw [List.take_add, ← List.prefix_iff_eq_take.mp hoccurs]

theorem reverse_take_add_length {name : List Char} (hoccurs : name <+: text.drop place) :
    (text.take (place + name.length)).reverse = name.reverse ++ (text.take place).reverse := by
  rw [take_add_length hoccurs, List.reverse_append]

/-- Two names at one place begin alike, so that they are the same if they are equally long. -/
theorem Stands.eq_of_length_eq {left right : String} (hleft : Stands catalog text place left)
    (hright : Stands catalog text place right) (hlength : left.length = right.length) :
    left = right := by
  apply String.toList_inj.mp
  rw [← String.length_toList, ← String.length_toList] at hlength
  exact (List.prefix_of_prefix_length_le hleft.occurs hright.occurs
    (Nat.le_of_eq hlength)).eq_of_length hlength

/-- The rewriter of a catalog looks for names as they stand in the text. -/
theorem occursAt_iff_stands {name : String} (hname : name ∈ catalog.names) :
    occursAt (text.take place).reverse (text.drop place) name.toList = true ↔
      Stands catalog text place name := by
  have hends : name.toList <+: text.drop place →
      (IsBoundaryAt text (place + name.length) ↔
        isBoundary (name.toList.reverse ++ (text.take place).reverse).head?
          ((text.drop place).drop name.toList.length).head? = true) := by
    intro hoccurs
    rw [IsBoundaryAt, ← reverse_take_add_length hoccurs, List.head?_reverse, List.drop_drop,
      String.length_toList]
  have hstarts : IsBoundaryAt text place ↔
      isBoundary (text.take place).reverse.head? (text.drop place).head? = true := by
    rw [IsBoundaryAt, List.head?_reverse]
  simp only [occursAt, Bool.and_eq_true, List.isPrefixOf_iff_prefix, ← hstarts]
  constructor
  · rintro ⟨⟨hoccurs, hstart⟩, hend⟩
    exact ⟨hname, hoccurs, hstart, (hends hoccurs).mpr hend⟩
  · intro hstands
    exact ⟨⟨hstands.occurs, hstands.starts⟩, (hends hstands.occurs).mp hstands.ends⟩

@[simp]
theorem mem_longestFirst {name : String} :
    name ∈ catalog.longestFirst ↔ name ∈ catalog.names := by
  simp [Catalog.longestFirst]

/-- Names are tried longest first. -/
theorem pairwise_longestFirst (catalog : Catalog) :
    catalog.longestFirst.Pairwise fun left right => right.utf8ByteSize ≤ left.utf8ByteSize := by
  let precedes : String → String → Bool :=
    fun left right => right.utf8ByteSize ≤ left.utf8ByteSize
  have htrans : ∀ left middle right, precedes left middle → precedes middle right →
      precedes left right := by
    intro left middle right hleft hright
    simp only [precedes, decide_eq_true_eq] at hleft hright ⊢
    exact Nat.le_trans hright hleft
  have htotal : ∀ left right, (precedes left right || precedes right left) = true := by
    intro left right
    simpa [precedes] using Nat.le_total right.utf8ByteSize left.utf8ByteSize
  have hsorted := List.pairwise_mergeSort htrans htotal catalog.names
  simpa [Catalog.longestFirst, precedes] using hsorted

/-- Of two names at one place the one with more characters has more bytes, too. -/
theorem Stands.length_le {left right : String} (hleft : Stands catalog text place left)
    (hright : Stands catalog text place right)
    (hsize : left.utf8ByteSize ≤ right.utf8ByteSize) : left.length ≤ right.length := by
  rcases Nat.le_total left.length right.length with hle | hle
  · exact hle
  · -- The shorter name begins the longer one, and there is no room for further characters.
    rw [← String.length_toList, ← String.length_toList] at hle
    obtain ⟨behind, hbehind⟩ :=
      List.prefix_of_prefix_length_le hright.occurs hleft.occurs hle
    have hleft_eq : left = right ++ String.ofList behind := by
      apply String.toList_inj.mp
      simp [hbehind]
    rw [hleft_eq, String.utf8ByteSize_append] at hsize
    have hempty : String.ofList behind = "" :=
      String.utf8ByteSize_eq_zero_iff.mp (by omega)
    have hsame : left = right := by rw [hleft_eq, hempty, String.append_empty]
    exact Nat.le_of_eq (congrArg String.length hsame)

/-- The rewriter finds nothing at a place exactly if no name stands there. -/
theorem find?_eq_none_iff :
    catalog.rewriter.names.find? (occursAt (text.take place).reverse (text.drop place)) = none ↔
      ∀ name, ¬Stands catalog text place name := by
  simp only [Catalog.rewriter, List.find?_eq_none, List.mem_map, forall_exists_index, and_imp,
    forall_apply_eq_imp_iff₂, mem_longestFirst]
  constructor
  · intro hnone name hstands
    exact hnone name hstands.cataloged ((occursAt_iff_stands hstands.cataloged).mpr hstands)
  · intro hnone name hcataloged hoccurs
    exact hnone name ((occursAt_iff_stands hcataloged).mp hoccurs)

/-- What the rewriter finds at a place is the longest name there. -/
theorem standsLongest_of_find? {found : List Char}
    (hfound : catalog.rewriter.names.find?
      (occursAt (text.take place).reverse (text.drop place)) = some found) :
    StandsLongest catalog text place (String.ofList found) := by
  rw [Catalog.rewriter, List.find?_map] at hfound
  obtain ⟨name, hname, rfl⟩ := Option.map_eq_some_iff.mp hfound
  obtain ⟨hoccurs, longer, shorter, hsplit, hlonger⟩ := List.find?_eq_some_iff_append.mp hname
  have hcataloged : name ∈ catalog.names :=
    mem_longestFirst.mp (List.mem_of_find?_eq_some hname)
  have hstands : Stands catalog text place name := (occursAt_iff_stands hcataloged).mp hoccurs
  rw [String.ofList_toList]
  refine ⟨hstands, ?_⟩
  intro other hother
  have hoccursOther := (occursAt_iff_stands hother.cataloged).mpr hother
  have hmem : other ∈ longer ++ name :: shorter :=
    hsplit ▸ mem_longestFirst.mpr hother.cataloged
  simp only [List.mem_append, List.mem_cons] at hmem
  rcases hmem with htried | rfl | hlater
  · simpa [hoccursOther] using hlonger other htried
  · exact Nat.le_refl _
  · have hsorted := pairwise_longestFirst catalog
    rw [hsplit, List.pairwise_append, List.pairwise_cons] at hsorted
    exact hother.length_le hstands (hsorted.2.1.1 other hlater)

/-- Behind the end of a text is as at its end. -/
theorem Stands.at_end {name : String} (hstands : Stands catalog text place name)
    (hplace : text.length ≤ place) : Stands catalog text text.length name := by
  have hoccurs := hstands.occurs
  rw [List.drop_eq_nil_of_le hplace, List.prefix_nil] at hoccurs
  have hstarts := hstands.starts
  rw [IsBoundaryAt, List.take_of_length_le hplace, List.drop_eq_nil_of_le hplace] at hstarts
  have hend : IsBoundaryAt text text.length := by simpa [IsBoundaryAt] using hstarts
  refine ⟨hstands.cataloged, by rw [hoccurs]; exact List.nil_prefix, hend, ?_⟩
  rwa [← String.length_toList, hoccurs, List.length_nil, Nat.add_zero]

section Nonempty

variable (hnames : "" ∉ catalog.names)

include hnames

theorem Stands.name_length_pos {name : String} (hstands : Stands catalog text place name) :
    0 < name.length := by
  rw [← String.length_toList, List.length_pos_iff, ne_eq, String.toList_eq_nil_iff]
  intro hempty
  exact hnames (hempty ▸ hstands.cataloged)

theorem Stands.stop_le_length {name : String} (hstands : Stands catalog text place name) :
    place + name.length ≤ text.length := by
  have hpos := hstands.name_length_pos hnames
  have hle := hstands.occurs.length_le
  rw [List.length_drop, String.length_toList] at hle
  omega

end Nonempty

end SelectorMangling.Rewriting
