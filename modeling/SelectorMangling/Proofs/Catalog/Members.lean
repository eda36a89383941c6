import Mathlib.Data.List.Basic
import Mathlib.Data.List.Induction
import SelectorMangling.Proofs.Catalog.Store
import SelectorMangling.Proofs.FileTree.Plain
import SelectorMangling.Proofs.Json.Members
import SelectorMangling.Proofs.Result

/-!
# What the members of a catalog file mean

A name counts once, at the place where it stands first, and with the value that stands last.  The
counter is taken out, and what is left are the names with their codes.
-/

namespace SelectorMangling

/-- Setting a value brings in its key at the end if it is new. -/
theorem Assoc.keys_set {Key Value : Type} [DecidableEq Key] (key : Key) (value : Value)
    (entries : List (Key × Value)) :
    (set key value entries).map Prod.fst =
      if key ∈ entries.map Prod.fst then entries.map Prod.fst
      else entries.map Prod.fst ++ [key] := by
  induction entries with
  | nil => rfl
  | cons entry rest ih =>
    obtain ⟨first, old⟩ := entry
    by_cases hfirst : first = key
    · simp [set, hfirst]
    · rw [set, if_neg (by simpa using hfirst), List.map_cons, ih]
      by_cases hmem : key ∈ rest.map Prod.fst
      · simp [hmem]
      · simp [hmem, Ne.symm hfirst]

namespace Catalog

open Json

/-! ## Names and last values -/

/-- The last value that stands with a name. -/
theorem lookup_mergeMembers (pairs : List (String × Value)) (name : String) :
    (mergeMembers pairs).lookup name = pairs.reverse.lookup name := by
  induction pairs using List.reverseRecOn with
  | nil => rfl
  | append_singleton front pair ih =>
    obtain ⟨last, value⟩ := pair
    rw [mergeMembers_append, List.reverse_append, List.reverse_singleton, List.singleton_append,
      List.lookup_cons]
    by_cases hname : name = last
    · rw [hname, Assoc.lookup_set_self]
      simp
    · rw [Assoc.lookup_set_of_ne hname, ih, beq_eq_false_iff_ne.mpr hname]

/-- Every name once, in the order in which they stand first. -/
theorem names_mergeMembers (pairs : List (String × Value)) :
    (mergeMembers pairs).map Prod.fst = (pairs.map Prod.fst).eraseDups := by
  induction pairs using List.reverseRecOn with
  | nil => rfl
  | append_singleton front pair ih =>
    obtain ⟨last, value⟩ := pair
    rw [mergeMembers_append, Assoc.keys_set, ih, List.map_append, List.eraseDups_append]
    by_cases hmem : last ∈ front.map Prod.fst
    · simp [hmem, List.removeAll]
    · simp [hmem, List.removeAll, List.eraseDups_cons]

theorem entriesOf_eq_ok_iff {pairs : List (String × Value)} {entries : List (String × String)} :
    entriesOf pairs = .ok entries ↔ pairs = entries.map memberOf := by
  constructor
  · intro hentries
    induction pairs generalizing entries with
    | nil =>
      obtain rfl := Except.ok.inj hentries
      rfl
    | cons pair rest ih =>
      obtain ⟨name, value⟩ := pair
      cases value with
      | text code =>
        rw [entriesOf] at hentries
        cases hrest : entriesOf rest with
        | error cause => simp [hrest, Except.map] at hentries
        | ok tail =>
          rw [hrest] at hentries
          obtain rfl := Except.ok.inj hentries
          rw [ih hrest]
          rfl
      | natural n => simp [entriesOf] at hentries
      | other => simp [entriesOf] at hentries
  · rintro rfl
    exact entriesOf_map_memberOf entries

/-- The entries fail at the first value that is not a string. -/
theorem entriesOf_eq_error_iff {pairs : List (String × Value)} {cause : FormatError} :
    entriesOf pairs = .error cause ↔ ∃ (entries : List (String × String)) (name : String)
      (value : Value) (rest : List (String × Value)),
      pairs = entries.map memberOf ++ (name, value) :: rest ∧ (∀ code, value ≠ .text code) ∧
        cause = .badCode name := by
  constructor
  · intro hentries
    induction pairs with
    | nil => contradiction
    | cons pair rest ih =>
      obtain ⟨name, value⟩ := pair
      cases value with
      | text code =>
        rw [entriesOf] at hentries
        cases hrest : entriesOf rest with
        | ok tail => simp [hrest, Except.map] at hentries
        | error found =>
          rw [hrest] at hentries
          obtain rfl := Except.error.inj hentries
          obtain ⟨entries, other, value, behind, rfl, hvalue, hcause⟩ := ih hrest
          exact ⟨(name, code) :: entries, other, value, behind, rfl, hvalue, hcause⟩
      | natural n => exact ⟨[], name, _, rest, rfl, by simp, (Except.error.inj hentries).symm⟩
      | other => exact ⟨[], name, _, rest, rfl, by simp, (Except.error.inj hentries).symm⟩
  · rintro ⟨entries, name, value, rest, rfl, hvalue, rfl⟩
    induction entries with
    | nil =>
      cases value with
      | text code => exact absurd rfl (hvalue code)
      | natural n => rfl
      | other => rfl
    | cons entry entries ih =>
      rw [List.map_cons, List.cons_append, memberOf, entriesOf, ih]
      rfl

/-- The entries of a file as its members have them, the counter apart. -/
def rawEntries (pairs : List (String × Value)) : List (String × Value) :=
  (mergeMembers pairs).filter fun member => member.1 != countKey

theorem ofMembers_eq_ok_iff {pairs : List (String × Value)} {catalog : Catalog} :
    ofMembers pairs = .ok catalog ↔
      counterOf? (pairs.reverse.lookup countKey) = some ⟨catalog.count, catalog.count_lt⟩ ∧
        rawEntries pairs = catalog.entries.map memberOf := by
  rw [← lookup_mergeMembers, ← entriesOf_eq_ok_iff]
  constructor
  · intro hmembers
    unfold ofMembers at hmembers
    dsimp only at hmembers
    split at hmembers
    · contradiction
    · next count hcount hcounter =>
      split at hmembers
      · contradiction
      · next entries hentries =>
        obtain rfl := Except.ok.inj hmembers
        exact ⟨hcounter, hentries⟩
  · rintro ⟨hcounter, hentries⟩
    obtain ⟨found, hfound, hfoundEntries, hfoundCount⟩ := exists_ofMembers_eq hcounter hentries
    rw [hfound, eq_of_entries_eq hfoundEntries hfoundCount]

theorem ofMembers_eq_error_iff {pairs : List (String × Value)} {cause : FormatError} :
    ofMembers pairs = .error cause ↔
      (counterOf? (pairs.reverse.lookup countKey) = none ∧ cause = .badCount) ∨
        (counterOf? (pairs.reverse.lookup countKey) ≠ none ∧
          entriesOf (rawEntries pairs) = .error cause) := by
  rw [← lookup_mergeMembers, rawEntries]
  unfold ofMembers
  dsimp only
  split
  · next hcounter => simp [hcounter, eq_comm]
  · next count hcount hcounter =>
    split
    · next found hfound => simp [hcounter, hfound]
    · next entries hentries => simp [hcounter, hentries]

/-! ## Members of a text -/

/-- The member that stands last with a name. -/
def lastMember? (members : List Member) (name : String) : Option Member :=
  members.reverse.find? fun member => member.name == name

def lastValue? (members : List Member) (name : String) : Option Value :=
  (lastMember? members name).map Member.value

/-- The names that members stand for, the counter apart. -/
def memberNames (members : List Member) : List String :=
  (members.map Member.name).eraseDups.filter (· != countKey)

/-- The counter that members stand for: zero if it is missing, and otherwise the unsigned whole
number that its last member is written as. -/
def CounterIs (members : List Member) (count : Nat) : Prop :=
  match lastMember? members countKey with
  | none => count = 0
  | some member => member.IsWritten count

variable {members : List Member}

theorem lookup_reverse_pairs (members : List Member) (name : String) :
    (members.map Member.pair).reverse.lookup name = lastValue? members name := by
  rw [lastValue?, lastMember?, ← List.map_reverse]
  induction members.reverse with
  | nil => rfl
  | cons member rest ih =>
    rw [List.map_cons, Member.pair, List.lookup_cons, List.find?_cons, BEq.comm]
    cases member.name == name with
    | true => rfl
    | false => exact ih

theorem names_rawEntries (members : List Member) :
    (rawEntries (members.map Member.pair)).map Prod.fst = memberNames members := by
  have hnames : (members.map Member.pair).map Prod.fst = members.map Member.name := by
    rw [List.map_map]
    rfl
  rw [memberNames, ← hnames, ← names_mergeMembers, List.filter_map, rawEntries]
  rfl

/-- What is left of the members beside the counter are the names with their last values. -/
theorem mem_rawEntries_iff {name : String} {value : Value} :
    (name, value) ∈ rawEntries (members.map Member.pair) ↔
      name ∈ memberNames members ∧ lastValue? members name = some value := by
  rw [← names_rawEntries, ← lookup_reverse_pairs, ← lookup_mergeMembers,
    Assoc.lookup_eq_some_iff (nodup_names_mergeMembers _)]
  constructor
  · intro hmem
    exact ⟨List.mem_map_of_mem hmem, (List.mem_filter.mp hmem).1⟩
  · rintro ⟨hname, hmem⟩
    obtain ⟨⟨_, found⟩, hfound, rfl⟩ := List.mem_map.mp hname
    exact List.mem_filter.mpr ⟨hmem, (List.mem_filter.mp hfound).2⟩

theorem map_lastValue?_memberNames (members : List Member) :
    (memberNames members).map (fun name => (name, lastValue? members name)) =
      (rawEntries (members.map Member.pair)).map fun pair => (pair.1, some pair.2) := by
  rw [← names_rawEntries, List.map_map]
  apply List.map_congr_left
  rintro ⟨name, value⟩ hmem
  exact Prod.ext rfl (mem_rawEntries_iff.mp hmem).2

/-- The entries are told by the last values of the names. -/
theorem rawEntries_eq_iff {entries : List (String × String)} :
    rawEntries (members.map Member.pair) = entries.map memberOf ↔
      (memberNames members).map (fun name => (name, lastValue? members name)) =
        entries.map fun entry => (entry.1, some (.text entry.2)) := by
  have hinjective : Function.Injective fun pair : String × Value => (pair.1, some pair.2) := by
    rintro ⟨name, value⟩ ⟨other, found⟩ heq
    simpa using heq
  rw [map_lastValue?_memberNames]
  constructor
  · intro hentries
    rw [hentries, List.map_map]
    rfl
  · intro hvalues
    apply List.map_injective_iff.mpr hinjective
    rw [hvalues, List.map_map]
    rfl

theorem exists_entries_iff {pairs : List (String × Value)} :
    (∃ entries : List (String × String), pairs = entries.map memberOf) ↔
      ∀ pair ∈ pairs, ∃ code, pair.2 = .text code := by
  constructor
  · rintro ⟨entries, rfl⟩ pair hpair
    obtain ⟨entry, -, rfl⟩ := List.mem_map.mp hpair
    exact ⟨entry.2, rfl⟩
  · intro htexts
    induction pairs with
    | nil => exact ⟨[], rfl⟩
    | cons pair rest ih =>
      obtain ⟨⟨code, hcode⟩, hrest⟩ := List.forall_mem_cons.mp htexts
      obtain ⟨entries, rfl⟩ := ih hrest
      exact ⟨(pair.1, code) :: entries, congrArg (· :: _) (Prod.ext rfl hcode)⟩

/-- All names have codes if and only if their last values are strings. -/
theorem exists_rawEntries_eq_iff :
    (∃ entries : List (String × String),
        rawEntries (members.map Member.pair) = entries.map memberOf) ↔
      ∀ name ∈ memberNames members, ∃ code, lastValue? members name = some (.text code) := by
  rw [exists_entries_iff, ← names_rawEntries]
  constructor
  · intro htexts name hname
    obtain ⟨⟨_, value⟩, hmem, rfl⟩ := List.mem_map.mp hname
    obtain ⟨code, rfl⟩ := htexts _ hmem
    exact ⟨code, (mem_rawEntries_iff.mp hmem).2⟩
  · rintro htexts ⟨name, value⟩ hmem
    obtain ⟨code, hcode⟩ := htexts name (List.mem_map_of_mem hmem)
    exact ⟨code, Option.some.inj ((mem_rawEntries_iff.mp hmem).2.symm.trans hcode)⟩

/-- The counter that is read is the one that is written. -/
theorem counterOf?_eq_some_iff (hstand : ∀ member ∈ members, ∃ place, member.StandsIn place)
    {counter : { count : Nat // count < UInt32.size }} :
    counterOf? (lastValue? members countKey) = some counter ↔ CounterIs members counter.1 := by
  rw [lastValue?, CounterIs]
  cases hlast : lastMember? members countKey with
  | none => simp [counterOf?, Subtype.ext_iff, eq_comm]
  | some member =>
    have hmem : member ∈ members := List.mem_reverse.mp (List.mem_of_find?_eq_some hlast)
    obtain ⟨_, _, _, _, _, _, hvalue⟩ := hstand member hmem
    have hword : counter.1 ≤ largestWord :=
      Nat.le_of_lt (Nat.lt_of_lt_of_le counter.2 (by decide))
    have hnatural : member.value = .natural counter.1 ↔ member.IsWritten counter.1 := by
      have hread := @readValue_eq_natural_iff innerDepth counter.1 member.text member.behind
      rw [hvalue] at hread
      simpa [Member.IsWritten, hword] using hread
    simp only [Option.map_some, ← hnatural]
    cases member.value with
    | natural n =>
      by_cases hlt : n < UInt32.size
      · simp [counterOf?, hlt, Subtype.ext_iff]
      · have hne : n ≠ counter.1 := fun heq => hlt (heq ▸ counter.2)
        simp [counterOf?, hlt, hne]
    | text code => simp [counterOf?]
    | other => simp [counterOf?]

theorem counterOf?_eq_none_iff (hstand : ∀ member ∈ members, ∃ place, member.StandsIn place) :
    counterOf? (lastValue? members countKey) = none ↔
      ¬∃ count < UInt32.size, CounterIs members count := by
  constructor
  · rintro hnone ⟨count, hcount, hcounter⟩
    have hsome := (@counterOf?_eq_some_iff members hstand ⟨count, hcount⟩).mpr hcounter
    simp [hnone] at hsome
  · intro hbad
    cases hcounter : counterOf? (lastValue? members countKey) with
    | none => rfl
    | some counter =>
      exact absurd ⟨counter.1, counter.2, (counterOf?_eq_some_iff hstand).mp hcounter⟩ hbad

/-- The first name whose last value is not a string. -/
def FirstBadName (members : List Member) (name : String) : Prop :=
  ∃ front behind, memberNames members = front ++ name :: behind ∧
    (∀ earlier ∈ front, ∃ code, lastValue? members earlier = some (.text code)) ∧
    ¬∃ code, lastValue? members name = some (.text code)

theorem entriesOf_rawEntries_eq_error_iff {name : String} :
    entriesOf (rawEntries (members.map Member.pair)) = .error (.badCode name) ↔
      FirstBadName members name := by
  rw [entriesOf_eq_error_iff, FirstBadName, ← names_rawEntries]
  constructor
  · rintro ⟨entries, found, value, rest, hentries, hvalue, hname⟩
    obtain rfl := FormatError.badCode.inj hname
    have hlast : ∀ pair ∈ entries.map memberOf ++ (name, value) :: rest,
        lastValue? members pair.1 = some pair.2 :=
      fun pair hpair => (mem_rawEntries_iff.mp (hentries ▸ hpair)).2
    obtain ⟨hfront, hbehind⟩ := List.forall_mem_append.mp hlast
    refine ⟨entries.map Prod.fst, rest.map Prod.fst, ?_, ?_, ?_⟩
    · rw [hentries, List.map_append, List.map_map]
      rfl
    · intro earlier hearlier
      obtain ⟨entry, hentry, rfl⟩ := List.mem_map.mp hearlier
      exact ⟨entry.2, hfront _ (List.mem_map_of_mem hentry)⟩
    · rintro ⟨code, hcode⟩
      exact hvalue code (Option.some.inj ((hbehind _ List.mem_cons_self).symm.trans hcode))
  · rintro ⟨front, behind, hnames, hfront, hbad⟩
    obtain ⟨first, last, hraw, rfl, hlast⟩ := List.map_eq_append_iff.mp hnames
    obtain ⟨⟨name, value⟩, rest, rfl, rfl, -⟩ := List.map_eq_cons_iff.mp hlast
    have hvalues : ∀ pair ∈ first ++ (name, value) :: rest,
        lastValue? members pair.1 = some pair.2 :=
      fun pair hpair => (mem_rawEntries_iff.mp (hraw ▸ hpair)).2
    obtain ⟨hfirst, hrest⟩ := List.forall_mem_append.mp hvalues
    obtain ⟨entries, rfl⟩ := exists_entries_iff.mpr fun pair hpair => by
      obtain ⟨code, hcode⟩ := hfront pair.1 (List.mem_map_of_mem hpair)
      exact ⟨code, Option.some.inj ((hfirst pair hpair).symm.trans hcode)⟩
    refine ⟨entries, name, value, rest, hraw, ?_, rfl⟩
    rintro code rfl
    exact hbad ⟨code, hrest _ List.mem_cons_self⟩

/-! ### What the members of a file make -/

section Stand

variable (hstand : ∀ member ∈ members, ∃ place, member.StandsIn place)
include hstand

theorem ofMembers_pairs_eq_ok_iff {catalog : Catalog} :
    ofMembers (members.map Member.pair) = .ok catalog ↔
      CounterIs members catalog.count ∧
        (memberNames members).map (fun name => (name, lastValue? members name)) =
          catalog.entries.map fun entry => (entry.1, some (.text entry.2)) := by
  rw [ofMembers_eq_ok_iff, lookup_reverse_pairs, counterOf?_eq_some_iff hstand, rawEntries_eq_iff]

theorem counterOf?_ne_none_iff :
    counterOf? (lastValue? members countKey) ≠ none ↔
      ∃ count < UInt32.size, CounterIs members count := by
  rw [ne_eq, counterOf?_eq_none_iff hstand, Classical.not_not]

theorem exists_ofMembers_pairs_iff :
    (∃ catalog, ofMembers (members.map Member.pair) = .ok catalog) ↔
      (∃ count < UInt32.size, CounterIs members count) ∧
        ∀ name ∈ memberNames members, ∃ code, lastValue? members name = some (.text code) := by
  rw [← counterOf?_ne_none_iff hstand, ← exists_rawEntries_eq_iff]
  constructor
  · rintro ⟨catalog, hcatalog⟩
    rw [ofMembers_eq_ok_iff, lookup_reverse_pairs] at hcatalog
    exact ⟨by simp [hcatalog.1], catalog.entries, hcatalog.2⟩
  · rintro ⟨hcount, entries, hentries⟩
    obtain ⟨counter, hfound⟩ := Option.ne_none_iff_exists'.mp hcount
    rw [← lookup_reverse_pairs, ← lookup_mergeMembers] at hfound
    obtain ⟨catalog, hcatalog, -⟩ := exists_ofMembers_eq hfound (entriesOf_eq_ok_iff.mpr hentries)
    exact ⟨catalog, hcatalog⟩

theorem ofMembers_pairs_eq_badCount_iff :
    ofMembers (members.map Member.pair) = .error .badCount ↔
      ¬∃ count < UInt32.size, CounterIs members count := by
  rw [ofMembers_eq_error_iff, lookup_reverse_pairs, ← counterOf?_eq_none_iff hstand]
  constructor
  · rintro (⟨hnone, -⟩ | ⟨-, hentries⟩)
    · exact hnone
    · obtain ⟨_, _, _, _, _, _, hcause⟩ := entriesOf_eq_error_iff.mp hentries
      contradiction
  · exact fun hnone => .inl ⟨hnone, rfl⟩

/-- The counter is looked at before the codes. -/
theorem ofMembers_pairs_eq_badCode_iff {name : String} :
    ofMembers (members.map Member.pair) = .error (.badCode name) ↔
      (∃ count < UInt32.size, CounterIs members count) ∧ FirstBadName members name := by
  rw [ofMembers_eq_error_iff, lookup_reverse_pairs, counterOf?_ne_none_iff hstand,
    entriesOf_rawEntries_eq_error_iff]
  simp

end Stand

section Load

variable {tree : FileTree} {path : Path} {text : String} {pairs : List (String × Value)}
  {rest : List Char} (htext : tree.readText path = .ok text)
  (hobject : readObject text.toList = .ok (pairs, rest)) (hend : readEnd rest = .ok ())
include htext hobject hend

theorem load_eq_ok_iff {catalog : Catalog} :
    load tree path = .ok catalog ↔ ofMembers pairs = .ok catalog := by
  rw [load_of_readText htext, parse_of_readObject hobject hend, mapError_eq_ok_iff]

theorem load_eq_error_iff {error : FormatError} :
    load tree path = .error ⟨path, .format error⟩ ↔ ofMembers pairs = .error error := by
  rw [load_of_readText htext, parse_of_readObject hobject hend]
  cases ofMembers pairs <;> simp [Except.mapError]

end Load

/-- Loading a file that holds an object, told by the members of the object. -/
theorem load_object {tree : FileTree} {path : Path} {text : String} {rest : List Char}
    {pairs : List (String × Value)} (htext : tree.readText path = .ok text)
    (hobject : readObject text.toList = .ok (pairs, rest)) (hend : readEnd rest = .ok ()) :
    ∃ members : List Member, IsObject text.toList members ∧ members.map Member.pair = pairs ∧
      (∀ catalog, load tree path = .ok catalog ↔
        CounterIs members catalog.count ∧
          (memberNames members).map (fun name => (name, lastValue? members name)) =
            catalog.entries.map fun entry => (entry.1, some (.text entry.2))) ∧
      ((∃ catalog, load tree path = .ok catalog) ↔
        (∃ count < UInt32.size, CounterIs members count) ∧
          ∀ name ∈ memberNames members, ∃ code, lastValue? members name = some (.text code)) ∧
      (load tree path = .error ⟨path, .format .badCount⟩ ↔
        ¬∃ count < UInt32.size, CounterIs members count) ∧
      ∀ name, load tree path = .error ⟨path, .format (.badCode name)⟩ ↔
        (∃ count < UInt32.size, CounterIs members count) ∧ FirstBadName members name := by
  obtain ⟨members, rfl, hmembers⟩ := exists_isObject_of_readObject hobject hend
  have hstand : ∀ member ∈ members, ∃ place, member.StandsIn place := by
    obtain ⟨_, _, _, hstand, _⟩ := hmembers
    exact hstand.standsIn
  refine ⟨members, hmembers, rfl, ?_, ?_, ?_, ?_⟩
  · intro catalog
    rw [load_eq_ok_iff htext hobject hend, ofMembers_pairs_eq_ok_iff hstand]
  · simp only [load_eq_ok_iff htext hobject hend, exists_ofMembers_pairs_iff hstand]
  · rw [load_eq_error_iff htext hobject hend, ofMembers_pairs_eq_badCount_iff hstand]
  · intro name
    rw [load_eq_error_iff htext hobject hend, ofMembers_pairs_eq_badCode_iff hstand]

/-- A catalog file as it was edited by hand: a name and the counter stand in it twice. -/
def untidyText : String :=
  "\x7b\"a\":\"1\",\"selectorCount\":-1, \"b\":\"\", \"a\":\"x\",\"selectorCount\": 7\x7d"

def untidyTree : FileTree where
  entries := [(["c"], .file untidyText.toUTF8)]

theorem load_object_untidyTree :
    ∃ members, IsObject untidyText.toList members ∧ CounterIs members 7 ∧
      (memberNames members).map (fun name => (name, lastValue? members name)) =
        [("a", some (.text "x")), ("b", some (.text ""))] := by
  have hplain : untidyTree.IsPlain := by decide
  have hpath : Path.Denotes ⟨"/c"⟩ ["c"] := by decide
  have htext : untidyTree.readText ⟨"/c"⟩ = .ok untidyText :=
    (hplain.readText_eq_ok_iff hpath).mpr ⟨by decide, rfl⟩
  have hobject : readObject untidyText.toList = .ok ([("a", .text "1"), (countKey, .other),
      ("b", .text ""), ("a", .text "x"), (countKey, .natural 7)], []) := by decide +kernel
  have hend : readEnd [] = .ok () := rfl
  have hload : load untidyTree ⟨"/c"⟩ =
      .ok { entries := [("a", "x"), ("b", "")], count := 7, names_nodup := by decide } := by
    rw [load_of_readText htext, parse_of_readObject hobject hend, ofMembers_eq_ok_iff.mpr]
    · rfl
    · exact ⟨rfl, rfl⟩
  obtain ⟨members, hmembers, -, hgood, -⟩ := load_object htext hobject hend
  exact ⟨members, hmembers, (hgood _).mp hload⟩

end Catalog

end SelectorMangling
