/-!
# Tables in order of insertion

`Keyed α` maps strings to values and remembers the order in which the keys were first put in.
Putting a key again changes its value and keeps its place; erasing a key closes the gap.
-/

namespace Capabilities

theorem mem_of_lookup {κ α : Type} [BEq κ] [LawfulBEq κ] {entries : List (κ × α)} {key : κ}
    {value : α} (h : entries.lookup key = some value) : (key, value) ∈ entries := by
  obtain ⟨front, back, rfl, -⟩ := List.lookup_eq_some_iff.1 h
  exact List.mem_append_right _ List.mem_cons_self

/-- Where no two keys are the same, looking up finds every entry. -/
theorem lookup_eq_some_iff_mem {κ α : Type} [BEq κ] [LawfulBEq κ] {entries : List (κ × α)} {key : κ}
    {value : α} (h : (entries.map Prod.fst).Nodup) :
    entries.lookup key = some value ↔ (key, value) ∈ entries := by
  refine ⟨mem_of_lookup, fun hmem => ?_⟩
  induction entries with
  | nil => cases hmem
  | cons entry rest ih =>
    obtain ⟨other, found⟩ := entry
    rw [List.map_cons, List.nodup_cons] at h
    rw [List.lookup_cons]
    rcases List.mem_cons.1 hmem with heq | hrest
    · cases heq
      rw [beq_self_eq_true]
    · have hne : key ≠ other := by
        rintro rfl
        exact h.1 (List.mem_map.2 ⟨_, hrest, rfl⟩)
      rw [beq_eq_false_iff_ne.2 hne]
      exact ih h.2 hrest

/-- A table from strings to values, in order of first insertion. -/
structure Keyed (α : Type) where
  entries : List (String × α)
deriving DecidableEq, Repr

namespace Keyed

variable {α : Type}

def empty : Keyed α := ⟨[]⟩

instance : Inhabited (Keyed α) := ⟨empty⟩

def get? (table : Keyed α) (key : String) : Option α := table.entries.lookup key

def contains (table : Keyed α) (key : String) : Bool := (table.get? key).isSome

def keys (table : Keyed α) : List String := table.entries.map Prod.fst

def values (table : Keyed α) : List α := table.entries.map Prod.snd

def size (table : Keyed α) : Nat := table.entries.length

def putAmong (key : String) (value : α) : List (String × α) → List (String × α)
  | [] => [(key, value)]
  | (other, old) :: rest =>
    if key == other then (key, value) :: rest else (other, old) :: putAmong key value rest

/-- Put a value at a key: in the place of the key's old value, or behind all entries. -/
def put (table : Keyed α) (key : String) (value : α) : Keyed α :=
  ⟨putAmong key value table.entries⟩

/-- Take a key out. The others keep their order. -/
def erase (table : Keyed α) (key : String) : Keyed α :=
  ⟨table.entries.filter fun entry => entry.1 != key⟩

theorem lookup_putAmong (key other : String) (value : α) (entries : List (String × α)) :
    (putAmong key value entries).lookup other =
      if other = key then some value else entries.lookup other := by
  induction entries with
  | nil =>
    by_cases h : other = key
    · simp [putAmong, h]
    · simp [putAmong, List.lookup_cons, beq_eq_false_iff_ne.2 h, h]
  | cons entry rest ih =>
    obtain ⟨name, old⟩ := entry
    by_cases hk : key = name
    · subst hk
      by_cases h : other = key
      · simp [putAmong, h]
      · simp [putAmong, List.lookup_cons, beq_eq_false_iff_ne.2 h, h]
    · by_cases hn : other = name
      · subst hn
        have h : ¬ other = key := fun h => hk h.symm
        simp [putAmong, hk, h]
      · simp [putAmong, hk, List.lookup_cons, beq_eq_false_iff_ne.2 hn, ih]

/-- A table answers the value last put at a key. -/
theorem get?_put (table : Keyed α) (key other : String) (value : α) :
    (table.put key value).get? other = if other = key then some value else table.get? other :=
  lookup_putAmong key other value table.entries

@[simp] theorem get?_empty (key : String) : (empty : Keyed α).get? key = none := rfl

theorem get?_put_self (table : Keyed α) (key : String) (value : α) :
    (table.put key value).get? key = some value := by
  rw [get?_put, if_pos rfl]

theorem get?_put_of_ne (table : Keyed α) {key other : String} (value : α) (h : other ≠ key) :
    (table.put key value).get? other = table.get? other := by
  rw [get?_put, if_neg h]

/-- A key that was taken out has no value; the others keep theirs. -/
theorem get?_erase (table : Keyed α) (key other : String) :
    (table.erase key).get? other = if other = key then none else table.get? other := by
  obtain ⟨entries⟩ := table
  unfold erase get?
  induction entries with
  | nil => simp
  | cons entry rest ih =>
    obtain ⟨name, value⟩ := entry
    by_cases hn : name = key
    · subst hn
      by_cases h : other = name
      · subst h
        simpa using ih
      · simpa [List.lookup_cons, beq_eq_false_iff_ne.2 h, h] using ih
    · by_cases h : other = name
      · subst h
        simp [hn]
      · simpa [List.lookup_cons, beq_eq_false_iff_ne.2 h, h, hn] using ih

theorem get?_erase_of_ne (table : Keyed α) {key other : String} (h : other ≠ key) :
    (table.erase key).get? other = table.get? other := by
  rw [get?_erase, if_neg h]

/-! ### Keys -/

theorem mem_keys_iff (table : Keyed α) (key : String) :
    key ∈ table.keys ↔ (table.get? key).isSome = true := by
  obtain ⟨entries⟩ := table
  unfold keys get?
  induction entries with
  | nil => simp
  | cons entry rest ih =>
    obtain ⟨name, value⟩ := entry
    by_cases h : key = name
    · subst h
      simp
    · simp [List.lookup_cons, beq_eq_false_iff_ne.2 h, h]

theorem contains_iff (table : Keyed α) (key : String) :
    table.contains key = true ↔ key ∈ table.keys := by
  rw [mem_keys_iff, contains]

/-- Putting a key that is there leaves the keys alone; another key comes behind all of them. -/
theorem keys_put (table : Keyed α) (key : String) (value : α) :
    (table.put key value).keys =
      if key ∈ table.keys then table.keys else table.keys ++ [key] := by
  obtain ⟨entries⟩ := table
  unfold keys put
  induction entries with
  | nil => simp [putAmong]
  | cons entry rest ih =>
    obtain ⟨name, old⟩ := entry
    by_cases h : key = name
    · subst h
      simp [putAmong]
    · simp only [putAmong, beq_eq_false_iff_ne.2 h, Bool.false_eq_true, if_false, List.map_cons,
        List.mem_cons, h, false_or]
      rw [ih]
      split <;> simp

theorem keys_erase (table : Keyed α) (key : String) :
    (table.erase key).keys = table.keys.filter (· != key) := by
  obtain ⟨entries⟩ := table
  simp [keys, erase, List.filter_map, Function.comp_def]

/-- Putting the value that a key has already changes nothing. -/
theorem put_of_get? {table : Keyed α} {key : String} {value : α}
    (h : table.get? key = some value) : table.put key value = table := by
  obtain ⟨entries⟩ := table
  unfold get? at h
  unfold put
  congr 1
  induction entries with
  | nil => simp at h
  | cons entry rest ih =>
    obtain ⟨name, old⟩ := entry
    by_cases hk : key = name
    · subst hk
      simp only [List.lookup_cons_self, Option.some.injEq] at h
      simp [putAmong, h]
    · simp only [List.lookup_cons, beq_eq_false_iff_ne.2 hk] at h
      simp [putAmong, beq_eq_false_iff_ne.2 hk, ih h]

/-- A new key comes behind all others. -/
theorem put_of_get?_none {table : Keyed α} {key : String} (value : α)
    (h : table.get? key = none) : table.put key value = ⟨table.entries ++ [(key, value)]⟩ := by
  obtain ⟨entries⟩ := table
  unfold get? at h
  unfold put
  congr 1
  induction entries with
  | nil => rfl
  | cons entry rest ih =>
    obtain ⟨name, old⟩ := entry
    by_cases hk : key = name
    · subst hk
      simp at h
    · simp only [List.lookup_cons, beq_eq_false_iff_ne.2 hk] at h
      simp [putAmong, beq_eq_false_iff_ne.2 hk, ih h]

/-- The value put last counts. -/
theorem put_put (table : Keyed α) (key : String) (first second : α) :
    (table.put key first).put key second = table.put key second := by
  obtain ⟨entries⟩ := table
  unfold put
  congr 1
  induction entries with
  | nil => simp [putAmong]
  | cons entry rest ih =>
    obtain ⟨name, old⟩ := entry
    by_cases h : key = name
    · subst h
      simp [putAmong]
    · simp [putAmong, beq_eq_false_iff_ne.2 h, ih]

/-- The table that lists keys with what a function says about them. -/
theorem get?_ofKeys (value : String → α) (names : List String) (key : String) :
    (⟨names.map fun name => (name, value name)⟩ : Keyed α).get? key =
      if key ∈ names then some (value key) else none := by
  unfold get?
  induction names with
  | nil => rfl
  | cons name rest ih =>
    by_cases h : key = name
    · subst h
      simp
    · simp [List.lookup_cons, beq_eq_false_iff_ne.2 h, ih, h]

/-! ### Changing all values -/

def map {β : Type} (change : α → β) (table : Keyed α) : Keyed β :=
  ⟨table.entries.map fun entry => (entry.1, change entry.2)⟩

variable {β : Type} (change : α → β)

@[simp] theorem map_empty : (empty : Keyed α).map change = empty := rfl

@[simp] theorem get?_map (table : Keyed α) (key : String) :
    (table.map change).get? key = (table.get? key).map change := by
  obtain ⟨entries⟩ := table
  unfold map get?
  induction entries with
  | nil => rfl
  | cons entry rest ih =>
    obtain ⟨name, value⟩ := entry
    by_cases h : key = name
    · subst h
      simp
    · simpa [List.lookup_cons, beq_eq_false_iff_ne.2 h] using ih

@[simp] theorem keys_map (table : Keyed α) : (table.map change).keys = table.keys := by
  simp [keys, map, Function.comp_def]

theorem map_put (table : Keyed α) (key : String) (value : α) :
    (table.put key value).map change = (table.map change).put key (change value) := by
  obtain ⟨entries⟩ := table
  unfold map put
  congr 1
  induction entries with
  | nil => rfl
  | cons entry rest ih =>
    obtain ⟨name, old⟩ := entry
    by_cases h : key = name
    · subst h
      simp [putAmong]
    · simpa [putAmong, beq_eq_false_iff_ne.2 h] using ih

end Keyed

end Capabilities
