import SelectorMangling.Catalog.Format
import SelectorMangling.Proofs.Json.Reader

/-!
# The catalog file reads back

What is written for a catalog is read as its names with their codes in catalog order, then the
counter.  Only a name that is spelled like the member of the counter does not survive.
-/

namespace SelectorMangling.Catalog

open Json

/-- The value of a code. -/
def memberOf (entry : String × String) : String × Value := (entry.1, .text entry.2)

/-- What is written behind the opening brace: the entries, the counter and the closing brace. -/
def renderMembers (entries : List (String × String)) (count : Nat) : List Char :=
  entries.flatMap renderEntry ++
    (writeText countKey ++ ':' :: (Nat.toDigits 10 count ++ ['\x7d']))

theorem toList_render (catalog : Catalog) :
    catalog.render.toList = '\x7b' :: renderMembers catalog.entries catalog.count := by
  simp [render, renderMembers, Nat.toList_repr]

theorem renderMembers_cons (entry : String × String) (entries : List (String × String))
    (count : Nat) :
    renderMembers (entry :: entries) count =
      writeText entry.1 ++ ':' :: (writeText entry.2 ++ ',' :: renderMembers entries count) := by
  simp [renderMembers, renderEntry]

/-- Members are written from an opening quotation mark on. -/
theorem exists_renderMembers_eq (entries : List (String × String)) (count : Nat) :
    ∃ rest, renderMembers entries count = '"' :: rest := by
  cases entries with
  | nil => exact ⟨_, by rw [renderMembers, List.flatMap_nil, List.nil_append, writeText_append]⟩
  | cons entry entries => exact ⟨_, by rw [renderMembers_cons, writeText_append]⟩

theorem length_lt_renderMembers (entries : List (String × String)) (count : Nat) :
    entries.length + 1 < (renderMembers entries count).length := by
  induction entries with
  | nil =>
    simp only [renderMembers, writeText, List.flatMap_nil, List.nil_append, List.length_append,
      List.length_cons, List.length_nil]
    omega
  | cons entry entries ih =>
    rw [renderMembers_cons]
    simp only [List.length_cons, List.length_append]
    omega

/-- Reading goes through the members in the order in which they were written. -/
theorem readMembers_renderMembers (depth : Nat) {count : Nat} (hword : count ≤ largestWord)
    (entries : List (String × String)) {budget : Nat} (hbudget : entries.length + 1 < budget) :
    readMembers (readValue depth) budget true (renderMembers entries count) =
        .ok (entries.map memberOf ++ [(countKey, .natural count)], []) ∧
      readMembers (readValue depth) budget false (',' :: renderMembers entries count) =
        .ok (entries.map memberOf ++ [(countKey, .natural count)], []) := by
  induction entries generalizing budget with
  | nil =>
    obtain ⟨smaller, rfl⟩ := Nat.exists_eq_add_of_lt hbudget
    have hends : EndsNumber ['\x7d'] := by simp [EndsNumber, isDigit]
    have hmember := readMember_writeText countKey
      (readValue_toDigits depth hword hends)
    have htext : renderMembers [] count =
        writeText countKey ++ ':' :: (Nat.toDigits 10 count ++ ['\x7d']) := by
      simp [renderMembers]
    have hbrace : readMembers (readValue depth) (1 + smaller) false ['\x7d'] = .ok ([], []) := by
      rw [Nat.add_comm]
      rfl
    obtain ⟨rest, hrest⟩ := exists_renderMembers_eq [] count
    rw [← htext, hrest] at hmember
    rw [hrest]
    exact ⟨readMembers_first hmember hbrace, readMembers_next hmember hbrace⟩
  | cons entry entries ih =>
    obtain ⟨smaller, rfl⟩ := Nat.exists_eq_add_of_lt hbudget
    have hlarge : entries.length + 1 < entries.length + 1 + 1 + smaller := by omega
    have hlater := (ih hlarge).2
    have hmember := readMember_writeText entry.1
      (readValue_writeText depth entry.2 (',' :: renderMembers entries count))
    obtain ⟨rest, hrest⟩ := exists_renderMembers_eq (entry :: entries) count
    rw [← renderMembers_cons, hrest] at hmember
    rw [hrest]
    exact ⟨readMembers_first hmember hlater, readMembers_next hmember hlater⟩

theorem readObject_render (catalog : Catalog) :
    readObject catalog.render.toList =
      .ok (catalog.entries.map memberOf ++ [(countKey, .natural catalog.count)], []) := by
  have hword : catalog.count ≤ largestWord :=
    Nat.le_of_lt (Nat.lt_of_lt_of_le catalog.count_lt (by decide))
  have hbudget := Nat.lt_succ_of_lt (length_lt_renderMembers catalog.entries catalog.count)
  have hread := (readMembers_renderMembers innerDepth hword catalog.entries hbudget).1
  rw [toList_render, readObject, skipBlanks_cons (by decide)]
  exact hread

/-- Members with names that differ stay as they are. -/
theorem mergeMembers_eq_self {members : List (String × Value)}
    (hnodup : (members.map Prod.fst).Nodup) : mergeMembers members = members := by
  suffices hfold : ∀ merged, ((merged ++ members).map Prod.fst).Nodup →
      members.foldl (fun merged member => Assoc.set member.1 member.2 merged) merged =
        merged ++ members by
    exact hfold [] hnodup
  clear hnodup
  induction members with
  | nil => simp
  | cons member rest ih =>
    intro merged hnodup
    have hnew : member.1 ∉ merged.map Prod.fst := by
      rw [List.map_append, List.nodup_append] at hnodup
      intro hmem
      exact hnodup.2.2 _ hmem _ (by simp) rfl
    rw [List.foldl_cons, Assoc.set_eq_append hnew, ih _ (by simpa using hnodup)]
    simp

theorem mergeMembers_append (members : List (String × Value)) (name : String) (value : Value) :
    mergeMembers (members ++ [(name, value)]) = Assoc.set name value (mergeMembers members) := by
  simp [mergeMembers]

theorem entriesOf_map_memberOf (entries : List (String × String)) :
    entriesOf (entries.map memberOf) = .ok entries := by
  induction entries with
  | nil => rfl
  | cons entry rest ih => simp [memberOf, entriesOf, ih, Except.map]

theorem eq_of_entries_eq {left right : Catalog} (hentries : left.entries = right.entries)
    (hcount : left.count = right.count) : left = right := by
  cases left
  cases right
  simp_all

/-- An accepted list of members gives the counter and the entries that stand in it. -/
theorem exists_ofMembers_eq {members : List (String × Value)}
    {counter : { count : Nat // count < UInt32.size }} {entries : List (String × String)}
    (hcounter : counterOf? ((mergeMembers members).lookup countKey) = some counter)
    (hentries :
      entriesOf ((mergeMembers members).filter fun member => member.1 != countKey) =
        .ok entries) :
    ∃ catalog, ofMembers members = .ok catalog ∧ catalog.entries = entries ∧
      catalog.count = counter.1 := by
  unfold ofMembers
  simp only [hcounter]
  split
  · next cause hcause => simp [hentries] at hcause
  · next found hfound =>
    obtain rfl : entries = found := by simpa [hentries] using hfound
    exact ⟨_, rfl, rfl, rfl⟩

/-- Reading what was written gives back the counter and the entries in their order, except one that
is spelled like the member of the counter. -/
theorem exists_parse_render_eq (catalog : Catalog) :
    ∃ parsed, parse catalog.render = .ok parsed ∧ parsed.count = catalog.count ∧
      parsed.entries = catalog.entries.filter fun entry => entry.1 != countKey := by
  have hmerged : mergeMembers
      (catalog.entries.map memberOf ++ [(countKey, .natural catalog.count)]) =
        Assoc.set countKey (.natural catalog.count) (catalog.entries.map memberOf) := by
    have hnames : (catalog.entries.map memberOf).map Prod.fst = catalog.entries.map Prod.fst := by
      simp [memberOf]
    rw [mergeMembers_append, mergeMembers_eq_self (hnames ▸ catalog.names_nodup)]
  have hcounter : counterOf? ((mergeMembers
      (catalog.entries.map memberOf ++ [(countKey, .natural catalog.count)])).lookup countKey) =
        some ⟨catalog.count, catalog.count_lt⟩ := by
    rw [hmerged, Assoc.lookup_set_self]
    exact dif_pos catalog.count_lt
  have hentries : entriesOf ((mergeMembers
      (catalog.entries.map memberOf ++ [(countKey, .natural catalog.count)])).filter
        fun member => member.1 != countKey) =
        .ok (catalog.entries.filter fun entry => entry.1 != countKey) := by
    rw [hmerged, Assoc.filter_ne_set, List.filter_map, entriesOf_map_memberOf]
    rfl
  obtain ⟨parsed, hparsed, hparsedEntries, hparsedCount⟩ := exists_ofMembers_eq hcounter hentries
  refine ⟨parsed, ?_, hparsedCount, hparsedEntries⟩
  simp [parse, readObject_render, hparsed, Except.mapError, bind, Except.bind, pure, Except.pure,
    readEnd, skipBlanks]

/-- A catalog without a name of that spelling is given back exactly. -/
theorem parse_render {catalog : Catalog} (hfree : countKey ∉ catalog.names) :
    parse catalog.render = .ok catalog := by
  obtain ⟨parsed, hparsed, hcount, hentries⟩ := exists_parse_render_eq catalog
  have hall : catalog.entries.filter (fun entry => entry.1 != countKey) = catalog.entries := by
    apply List.filter_eq_self.mpr
    intro entry hentry
    rw [bne_iff_ne]
    intro heq
    exact hfree (heq ▸ List.mem_map_of_mem hentry)
  rw [hparsed, eq_of_entries_eq (hentries.trans hall) hcount]

/-- A text that holds just an object is read as its members are. -/
theorem parse_of_readObject {text : String} {rest : List Char} {members : List (String × Value)}
    (hobject : readObject text.toList = .ok (members, rest)) (hend : readEnd rest = .ok ()) :
    parse text = ofMembers members := by
  simp only [parse, hobject, hend, Except.mapError, bind, Except.bind]
  cases ofMembers members <;> rfl

theorem exists_ofMembers_of_parse {text : String} {catalog : Catalog}
    (hparse : parse text = .ok catalog) : ∃ members, ofMembers members = .ok catalog := by
  simp only [parse, bind, Except.bind] at hparse
  cases hread : Json.readObject text.toList with
  | error fault => simp [hread, Except.mapError] at hparse
  | ok found =>
    cases hfound : ofMembers found.1 with
    | error cause => simp [hread, hfound, Except.mapError] at hparse
    | ok read =>
      cases hend : Json.readEnd found.2 with
      | error fault => simp [hread, hfound, hend, Except.mapError] at hparse
      | ok value =>
        simp only [hread, hfound, hend, Except.mapError] at hparse
        exact ⟨found.1, hfound.trans hparse⟩

/-- In an accepted text the member of the counter is none of the names. -/
theorem countKey_notMem_names_of_parse {text : String} {catalog : Catalog}
    (hparse : parse text = .ok catalog) : countKey ∉ catalog.names := by
  obtain ⟨members, hmembers⟩ := exists_ofMembers_of_parse hparse
  unfold ofMembers at hmembers
  dsimp only at hmembers
  split at hmembers
  · contradiction
  · split at hmembers
    · contradiction
    · next entries hentries =>
      obtain rfl := Except.ok.inj hmembers
      rw [names, names_entriesOf hentries]
      intro hmem
      obtain ⟨member, hmember, hname⟩ := List.mem_map.mp hmem
      simp [hname] at hmember

end SelectorMangling.Catalog
