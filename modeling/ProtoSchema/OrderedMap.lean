/-! Maps from strings that keep their entries in the order of first insertion. `Entries` holds
the pairs as a list; `OrderedMap` adds that no key occurs twice.
-/

namespace ProtoSchema

/-- Pairs of a key and a value, the first pair of a key being the one that counts. -/
abbrev Entries (α : Type) :=
  List (String × α)

namespace Entries

variable {α : Type}

def keys (entries : Entries α) : List String :=
  entries.map Prod.fst

/-- The value of the first entry with this key. -/
def get? (key : String) : Entries α → Option α
  | [] => none
  | entry :: rest => if entry.1 = key then some entry.2 else get? key rest

/-- Gives the key a value, in its place if it has one and at the end otherwise. -/
def insert (key : String) (value : α) : Entries α → Entries α
  | [] => [(key, value)]
  | entry :: rest =>
      if entry.1 = key then (key, value) :: rest else entry :: insert key value rest

def erase (key : String) (entries : Entries α) : Entries α :=
  entries.filter fun entry => entry.1 ≠ key

def modify (key : String) (change : α → α) (entries : Entries α) : Entries α :=
  entries.map fun entry => if entry.1 = key then (entry.1, change entry.2) else entry

theorem get?_isSome_iff {key : String} {entries : Entries α}
    : (entries.get? key).isSome ↔ key ∈ entries.keys := by
  induction entries with
  | nil => simp [get?, keys]
  | cons entry rest ih =>
      by_cases h : entry.1 = key
      · simp [get?, keys, h]
      · simp only [get?, h, if_false, ih, keys, List.map_cons, List.mem_cons]
        exact ⟨.inr, fun present => present.resolve_left fun same => h same.symm⟩

/-- Insertion keeps the keys and adds the new one last if it was absent. -/
theorem keys_insert (key : String) (value : α) (entries : Entries α)
    : (entries.insert key value).keys
      = if key ∈ entries.keys then entries.keys else entries.keys ++ [key] := by
  induction entries with
  | nil => simp [insert, keys]
  | cons entry rest ih =>
      by_cases h : entry.1 = key
      · simp [insert, keys, h]
      · have distinct : key ≠ entry.1 := fun same => h same.symm
        simp only [keys] at ih
        by_cases present : key ∈ rest.map Prod.fst <;>
          simp [insert, keys, h, distinct, present, ih]

/-- Insertion does not make a key occur twice. -/
theorem nodup_keys_insert {entries : Entries α} (nodup : entries.keys.Nodup) (key : String)
    (value : α)
    : (entries.insert key value).keys.Nodup := by
  rw [keys_insert]
  split
  · exact nodup
  · next absent =>
      refine List.nodup_append.mpr ⟨nodup, by simp, fun a ha b hb same => ?_⟩
      rw [List.mem_singleton.mp hb] at same
      exact absent (same ▸ ha)

/-- What is there after an insertion was inserted or was there before, by induction on the entries.
-/
theorem mem_insert {key : String} {value : α} {entries : Entries α} {entry : String × α}
    (member : entry ∈ entries.insert key value)
    : entry = (key, value) ∨ entry ∈ entries := by
  induction entries with
  | nil => exact .inl (List.mem_singleton.mp member)
  | cons first rest ih =>
      rw [insert] at member
      split at member
      · rcases List.mem_cons.mp member with new | later
        · exact .inl new
        · exact .inr (List.mem_cons_of_mem first later)
      · rcases List.mem_cons.mp member with rfl | later
        · exact .inr List.mem_cons_self
        · exact (ih later).imp_right (List.mem_cons_of_mem first)

theorem insert_of_absent {key : String} {entries : Entries α} (absent : key ∉ entries.keys)
    (value : α)
    : entries.insert key value = entries ++ [(key, value)] := by
  induction entries with
  | nil => rfl
  | cons entry rest ih =>
      obtain ⟨distinct, later⟩ := not_or.mp (mt List.mem_cons.mpr absent)
      rw [insert, if_neg (Ne.symm distinct), ih later]
      rfl

theorem keys_erase (key : String) (entries : Entries α)
    : (entries.erase key).keys = entries.keys.filter (· ≠ key) := by
  simp only [keys, erase, List.filter_map]
  rfl

theorem keys_modify (key : String) (change : α → α) (entries : Entries α)
    : (entries.modify key change).keys = entries.keys := by
  simp only [keys, modify, List.map_map]
  refine List.map_congr_left fun entry _ => ?_
  by_cases h : entry.1 = key <;> simp [h]

theorem get?_insert (key : String) (value : α) (entries : Entries α) (other : String)
    : (entries.insert key value).get? other
      = if other = key then some value else entries.get? other := by
  induction entries with
  | nil =>
      by_cases same : other = key
      · simp [insert, get?, same]
      · simp [insert, get?, same, Ne.symm same]
  | cons entry rest ih =>
      by_cases h : entry.1 = key
      · by_cases same : other = key
        · simp [insert, get?, h, same]
        · simp [insert, get?, h, same, Ne.symm same]
      · by_cases found : entry.1 = other
        · have distinct : other ≠ key := fun same => h (found.trans same)
          simp [insert, get?, found, distinct]
        · simp [insert, get?, h, found, ih]

theorem erase_cons (key : String) (entry : String × α) (rest : Entries α)
    : Entries.erase key (entry :: rest)
      = if entry.1 = key then rest.erase key else entry :: rest.erase key := by
  by_cases h : entry.1 = key <;> simp [erase, h]

theorem get?_erase (key : String) (entries : Entries α) (other : String)
    : (entries.erase key).get? other
      = if other = key then none else entries.get? other := by
  induction entries with
  | nil => simp [erase, get?]
  | cons entry rest ih =>
      by_cases h : entry.1 = key
      · rw [erase_cons, if_pos h, ih]
        by_cases same : other = key
        · simp [same]
        · simp [get?, h, same, Ne.symm same]
      · rw [erase_cons, if_neg h]
        by_cases found : entry.1 = other
        · have distinct : other ≠ key := fun same => h (found.trans same)
          simp [get?, found, distinct]
        · simp [get?, found, ih]

theorem get?_modify (key : String) (change : α → α) (entries : Entries α) (other : String)
    : (entries.modify key change).get? other
      = if other = key then (entries.get? other).map change else entries.get? other := by
  induction entries with
  | nil => simp [modify, get?]
  | cons entry rest ih =>
      have tail : Entries.modify key change (entry :: rest)
          = (if entry.1 = key then (entry.1, change entry.2) else entry)
            :: Entries.modify key change rest := rfl
      rw [tail]
      by_cases found : entry.1 = other
      · by_cases same : other = key <;> simp [get?, found, same]
      · have head : (if entry.1 = key then (entry.1, change entry.2) else entry).1 ≠ other := by
          split <;> exact found
        simp only [get?, head, found, if_false, ih]

theorem mem_of_get?_eq_some {key : String} {value : α} {entries : Entries α}
    (found : entries.get? key = some value)
    : (key, value) ∈ entries := by
  induction entries with
  | nil => simp [get?] at found
  | cons entry rest ih =>
      by_cases h : entry.1 = key
      · simp only [get?, h, if_true, Option.some.injEq] at found
        exact List.mem_cons.mpr (.inl (Prod.ext h.symm found.symm))
      · simp only [get?, h, if_false] at found
        exact List.mem_cons_of_mem entry (ih found)

/-- Where no key occurs twice, each entry gives its key the value. -/
theorem get?_eq_some_of_mem {key : String} {value : α} {entries : Entries α}
    (nodup : entries.keys.Nodup) (member : (key, value) ∈ entries)
    : entries.get? key = some value := by
  induction entries with
  | nil => simp at member
  | cons entry rest ih =>
      obtain ⟨absent, unique⟩ := List.nodup_cons.mp nodup
      rcases List.mem_cons.mp member with same | later
      · simp [get?, ← same]
      · have distinct : entry.1 ≠ key := by
          intro same
          exact absent (same ▸ List.mem_map.mpr ⟨_, later, rfl⟩)
        simp only [get?, distinct, if_false]
        exact ih unique later

end Entries

/-- A map whose entries stand in the order of first insertion. -/
structure OrderedMap (α : Type) where
  entries : Entries α
  nodup : entries.keys.Nodup
deriving DecidableEq

namespace OrderedMap

variable {α : Type}

def empty : OrderedMap α :=
  ⟨[], by simp [Entries.keys]⟩

instance : Inhabited (OrderedMap α) :=
  ⟨empty⟩

/-- The keys, in order of first insertion. -/
def keys (map : OrderedMap α) : List String :=
  map.entries.keys

def values (map : OrderedMap α) : List α :=
  map.entries.map Prod.snd

def size (map : OrderedMap α) : Nat :=
  map.entries.length

def get? (map : OrderedMap α) (key : String) : Option α :=
  map.entries.get? key

def contains (map : OrderedMap α) (key : String) : Bool :=
  (map.get? key).isSome

/-- Gives the key a value, in its place if it has one and at the end otherwise. -/
def insert (map : OrderedMap α) (key : String) (value : α) : OrderedMap α where
  entries := map.entries.insert key value
  nodup := Entries.nodup_keys_insert map.nodup key value

/-- Gives a new key a value; fails if the key already has one. -/
def insertNew? (map : OrderedMap α) (key : String) (value : α) : Option (OrderedMap α) :=
  if map.contains key then none else some (map.insert key value)

def erase (map : OrderedMap α) (key : String) : OrderedMap α where
  entries := map.entries.erase key
  nodup := by
    rw [Entries.keys_erase]
    exact map.nodup.filter _

def modify (map : OrderedMap α) (key : String) (change : α → α) : OrderedMap α where
  entries := map.entries.modify key change
  nodup := by
    rw [Entries.keys_modify]
    exact map.nodup

@[simp] theorem get?_empty (key : String) : (empty : OrderedMap α).get? key = none :=
  rfl

theorem get?_insert (map : OrderedMap α) (key : String) (value : α) (other : String)
    : (map.insert key value).get? other
      = if other = key then some value else map.get? other :=
  Entries.get?_insert key value map.entries other

theorem get?_erase (map : OrderedMap α) (key other : String)
    : (map.erase key).get? other = if other = key then none else map.get? other :=
  Entries.get?_erase key map.entries other

theorem get?_modify (map : OrderedMap α) (key : String) (change : α → α) (other : String)
    : (map.modify key change).get? other
      = if other = key then (map.get? other).map change else map.get? other :=
  Entries.get?_modify key change map.entries other

/-- A new key can be inserted, and only a new one. -/
theorem insertNew?_eq (map : OrderedMap α) (key : String) (value : α)
    : map.insertNew? key value
      = match map.get? key with
        | none => some (map.insert key value)
        | some _ => none := by
  cases found : map.get? key <;> simp [insertNew?, contains, found]

theorem mem_keys_iff {map : OrderedMap α} {key : String}
    : key ∈ map.keys ↔ ∃ value, map.get? key = some value := by
  rw [← Option.isSome_iff_exists]
  exact Entries.get?_isSome_iff.symm

/-- Entries and lookups agree, since no key occurs twice. -/
theorem mem_entries_iff {map : OrderedMap α} {key : String} {value : α}
    : (key, value) ∈ map.entries ↔ map.get? key = some value :=
  ⟨Entries.get?_eq_some_of_mem map.nodup, Entries.mem_of_get?_eq_some⟩

theorem mem_values_iff {map : OrderedMap α} {value : α}
    : value ∈ map.values ↔ ∃ key, map.get? key = some value := by
  constructor
  · intro member
    obtain ⟨entry, present, same⟩ := List.mem_map.mp member
    exact ⟨entry.1, mem_entries_iff.mp (same ▸ present)⟩
  · rintro ⟨key, found⟩
    exact List.mem_map.mpr ⟨(key, value), mem_entries_iff.mpr found, rfl⟩

theorem length_keys (map : OrderedMap α) : map.keys.length = map.size :=
  List.length_map ..

theorem size_insert_le (map : OrderedMap α) (key : String) (value : α)
    : (map.insert key value).size ≤ map.size + 1 := by
  have keys : (map.insert key value).keys
      = if key ∈ map.keys then map.keys else map.keys ++ [key] :=
    Entries.keys_insert key value map.entries
  rw [← length_keys, ← length_keys, keys]
  split
  · exact Nat.le_succ _
  · exact Nat.le_of_eq (List.length_append ..)

theorem size_erase_lt {map : OrderedMap α} {key : String} (present : key ∈ map.keys)
    : (map.erase key).size < map.size := by
  have keys : (map.erase key).keys = map.keys.filter (· ≠ key) :=
    Entries.keys_erase key map.entries
  rw [← length_keys, ← length_keys, keys]
  exact List.length_filter_lt_length_iff_exists.mpr ⟨key, present, by simp⟩

/-- The map that inserting pairs one after the other builds. -/
def ofEntries (entries : Entries α) : OrderedMap α :=
  entries.foldl (fun map entry => map.insert entry.1 entry.2) empty

end OrderedMap

end ProtoSchema
