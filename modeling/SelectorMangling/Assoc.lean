/-!
# Association lists

Lists of keys with values whose order is the order in which the keys came.  Setting the value of a
key keeps its place, so that every key stands once in a list that is built this way.
-/

namespace SelectorMangling.Assoc

variable {Key Value : Type}

/-- Sets the value of a key: in place if the key is there, at the end if it is new. -/
def set [BEq Key] (key : Key) (value : Value) : List (Key × Value) → List (Key × Value)
  | [] => [(key, value)]
  | (first, old) :: rest =>
    if first == key then (key, value) :: rest else (first, old) :: set key value rest

theorem map_value_set [BEq Key] {Other : Type} (change : Value → Other) (key : Key) (value : Value)
    (entries : List (Key × Value)) :
    ((set key value entries).map fun entry => (entry.1, change entry.2)) =
      set key (change value) (entries.map fun entry => (entry.1, change entry.2)) := by
  induction entries with
  | nil => rfl
  | cons entry rest ih =>
    obtain ⟨first, old⟩ := entry
    by_cases hfirst : (first == key) = true <;> simp [set, hfirst, ih]

theorem lookup_map_value [BEq Key] {Other : Type} (change : Value → Other) (key : Key)
    (entries : List (Key × Value)) :
    (entries.map fun entry => (entry.1, change entry.2)).lookup key =
      (entries.lookup key).map change := by
  induction entries with
  | nil => rfl
  | cons entry rest ih =>
    obtain ⟨first, old⟩ := entry
    simp only [List.map_cons, List.lookup_cons, ih]
    cases key == first <;> rfl

theorem nodup_keys_filter {entries : List (Key × Value)} (keep : Key × Value → Bool)
    (hnodup : (entries.map Prod.fst).Nodup) : ((entries.filter keep).map Prod.fst).Nodup :=
  (List.filter_sublist.map _).nodup hnodup

variable [BEq Key] [LawfulBEq Key]

@[simp]
theorem mem_keys_set {key other : Key} {value : Value} {entries : List (Key × Value)} :
    other ∈ (set key value entries).map Prod.fst ↔
      other = key ∨ other ∈ entries.map Prod.fst := by
  induction entries with
  | nil => simp [set]
  | cons entry rest ih =>
    obtain ⟨first, old⟩ := entry
    by_cases hfirst : first = key
    · simp [set, hfirst]
    · simp only [set, beq_iff_eq, hfirst, if_false, List.map_cons, List.mem_cons, ih]
      constructor
      · rintro (rfl | rfl | hrest) <;> simp_all
      · rintro (rfl | rfl | hrest) <;> simp_all

theorem nodup_keys_set {key : Key} {value : Value} {entries : List (Key × Value)}
    (hnodup : (entries.map Prod.fst).Nodup) : ((set key value entries).map Prod.fst).Nodup := by
  induction entries with
  | nil => simp [set]
  | cons entry rest ih =>
    obtain ⟨first, old⟩ := entry
    simp only [List.map_cons, List.nodup_cons] at hnodup
    by_cases hfirst : first = key
    · subst hfirst
      simpa [set] using hnodup
    · simp only [set, beq_iff_eq, hfirst, if_false, List.map_cons, List.nodup_cons, mem_keys_set]
      exact ⟨by rintro (heq | hmem) <;> simp_all, ih hnodup.2⟩

theorem set_eq_append {key : Key} {value : Value} {entries : List (Key × Value)}
    (hnew : key ∉ entries.map Prod.fst) : set key value entries = entries ++ [(key, value)] := by
  induction entries with
  | nil => rfl
  | cons entry rest ih =>
    obtain ⟨first, old⟩ := entry
    simp only [List.map_cons, List.mem_cons, not_or] at hnew
    have hfirst : first ≠ key := fun heq => hnew.1 heq.symm
    simp [set, hfirst, ih hnew.2]

/-- What is set under one key is not seen where that key is left out. -/
theorem filter_ne_set [DecidableEq Key] (key : Key) (value : Value)
    (entries : List (Key × Value)) :
    (set key value entries).filter (fun entry => entry.1 != key) =
      entries.filter fun entry => entry.1 != key := by
  induction entries with
  | nil => simp [set]
  | cons entry rest ih =>
    obtain ⟨first, old⟩ := entry
    by_cases hfirst : first = key
    · simp [set, hfirst]
    · simp [set, hfirst, ih]

theorem lookup_set_self (key : Key) (value : Value) (entries : List (Key × Value)) :
    (set key value entries).lookup key = some value := by
  induction entries with
  | nil => simp [set]
  | cons entry rest ih =>
    obtain ⟨first, old⟩ := entry
    by_cases hfirst : first = key
    · simp [set, hfirst]
    · have hne : (key == first) = false := by simpa using Ne.symm hfirst
      simp [set, hfirst, List.lookup_cons, hne, ih]

theorem lookup_set_of_ne {key other : Key} (hne : other ≠ key) (value : Value)
    (entries : List (Key × Value)) :
    (set key value entries).lookup other = entries.lookup other := by
  have hbeq : (other == key) = false := by simpa using hne
  induction entries with
  | nil => simp [set, List.lookup_cons, hbeq]
  | cons entry rest ih =>
    obtain ⟨first, old⟩ := entry
    by_cases hfirst : first = key
    · simp [set, hfirst, List.lookup_cons, hbeq]
    · simp [set, hfirst, List.lookup_cons, ih]

/-- Setting a key to the value that it has changes nothing. -/
theorem set_eq_self {key : Key} {value : Value} {entries : List (Key × Value)}
    (hvalue : entries.lookup key = some value) : set key value entries = entries := by
  induction entries with
  | nil => simp at hvalue
  | cons entry rest ih =>
    obtain ⟨first, old⟩ := entry
    by_cases hfirst : first = key
    · subst hfirst
      obtain rfl : old = value := by simpa using hvalue
      simp [set]
    · have hbeq : (key == first) = false := by simpa using Ne.symm hfirst
      rw [List.lookup_cons, hbeq] at hvalue
      simp [set, hfirst, ih hvalue]

/-- Where every key stands once, looking up a key finds exactly what stands with it. -/
theorem lookup_eq_some_iff {key : Key} {value : Value} {entries : List (Key × Value)}
    (hnodup : (entries.map Prod.fst).Nodup) :
    entries.lookup key = some value ↔ (key, value) ∈ entries := by
  induction entries with
  | nil => simp
  | cons entry rest ih =>
    obtain ⟨first, old⟩ := entry
    simp only [List.map_cons, List.nodup_cons] at hnodup
    by_cases hfirst : key = first
    · subst hfirst
      have habsent : (key, value) ∉ rest := fun hmem =>
        hnodup.1 (List.mem_map_of_mem hmem)
      simp [habsent, eq_comm]
    · have hbeq : (key == first) = false := by simpa using hfirst
      simp [List.lookup_cons, hbeq, hfirst, ih hnodup.2]

theorem lookup_eq_none_iff {key : Key} {entries : List (Key × Value)} :
    entries.lookup key = none ↔ key ∉ entries.map Prod.fst := by
  induction entries with
  | nil => simp
  | cons entry rest ih =>
    obtain ⟨first, old⟩ := entry
    by_cases hfirst : key = first
    · simp [hfirst]
    · have hbeq : (key == first) = false := by simpa using hfirst
      simp only [List.lookup_cons, hbeq, ih, List.map_cons, List.mem_cons, hfirst, false_or]

end SelectorMangling.Assoc
