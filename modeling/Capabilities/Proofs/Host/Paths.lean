import Capabilities.Host.Message

/-!
# Keys and path tables, read back

A key is *sound* if it begins with the mark: it then has a name, is the key of that name, and is
read from its own text. Keys of names are sound, and so are keys that are read as keys. A path table
also holds keys as they come, which may be any texts. Whatever its keys are, a table is in order and
holds each key once, and what it says about a capability is said by the last path put at the key of
the capability's name.
-/

namespace Capabilities.Host

/-! ### Keys -/

/-- Keys of different names are different. -/
theorem key_injective {first second : String}
    (h : (CapabilityKey.of first).text = (CapabilityKey.of second).text) : first = second := by
  have hlist := String.ofList_injective h
  simp only [List.cons.injEq, true_and] at hlist
  exact String.toList_inj.1 hlist

namespace CapabilityKey

variable {key : CapabilityKey} {name text : String}

/-- The text of the key begins with the mark. -/
def Marked (key : CapabilityKey) : Prop := key.text.toList.head? = some mark

theorem Marked.exists_eq (h : key.Marked) : ∃ letters, key.text.toList = mark :: letters :=
  List.head?_eq_some_iff.1 h

/-- The key is the key of its name, and is read from its own text. -/
structure Sound (key : CapabilityKey) : Prop where
  marked : key.Marked
  name : ∃ name, key.name? = some name ∧ of name = key
  wire : ofWire? key.text = some key

theorem toList_of (name : String) : (of name).text.toList = mark :: name.toList :=
  String.toList_ofList

theorem name?_of (name : String) : (of name).name? = some name := by
  unfold name?
  rw [toList_of]
  simp

theorem of_ofList {letters : List Char} (h : key.text.toList = mark :: letters) :
    of (String.ofList letters) = key := by
  cases key with
  | mk text =>
    rw [of, String.toList_ofList, ← h, String.ofList_toList]

/-- A text is read as a key just if it begins with the mark, and the key is this text. -/
theorem ofWire?_eq_some_iff : ofWire? text = some key ↔ key.text = text ∧ key.Marked := by
  unfold ofWire? Marked
  constructor
  · intro h
    split at h
    · rename_i c letters htext
      split at h
      · rename_i hc
        cases h
        rw [beq_iff_eq.1 hc] at htext
        have hkey : of (String.ofList letters) = ⟨text⟩ := of_ofList htext
        rw [hkey]
        exact ⟨rfl, by rw [htext]; rfl⟩
      · cases h
    · cases h
  · rintro ⟨rfl, hmarked⟩
    obtain ⟨letters, htext⟩ := Marked.exists_eq hmarked
    rw [htext]
    simp only [beq_self_eq_true, if_true, of_ofList htext]

theorem sound_iff : key.Sound ↔ key.Marked := by
  refine ⟨Sound.marked, fun hmarked => ⟨hmarked, ?_, ofWire?_eq_some_iff.2 ⟨rfl, hmarked⟩⟩⟩
  obtain ⟨letters, htext⟩ := hmarked.exists_eq
  refine ⟨String.ofList letters, ?_, of_ofList htext⟩
  rw [← of_ofList htext]
  exact name?_of _

theorem sound_of (name : String) : (of name).Sound :=
  sound_iff.2 (by rw [Marked, toList_of]; rfl)

theorem of_inj {other : String} (h : of name = of other) : name = other :=
  key_injective (congrArg CapabilityKey.text h)

theorem sound_of_ofWire? (h : ofWire? text = some key) : key.Sound ∧ key.text = text := by
  obtain ⟨htext, hmarked⟩ := ofWire?_eq_some_iff.1 h
  exact ⟨sound_iff.2 hmarked, htext⟩

/-- A key has a name if it begins with a character of one byte, whichever that is. -/
theorem isSome_name?_iff :
    key.name?.isSome = true ↔ ∃ c, key.text.toList.head? = some c ∧ c.utf8Size = 1 := by
  have hmark : mark.utf8Size = 1 := by decide
  unfold name?
  cases key.text.toList with
  | nil => simp
  | cons c letters => by_cases hc : c.utf8Size = 1 <;> simp [hmark, hc]

end CapabilityKey

/-! ### Tables -/

namespace CapabilityPaths

variable {paths : CapabilityPaths} {key other : CapabilityKey} {path : String}

/-- The keys are in ascending order, so each of them is there once. -/
def Ordered (paths : CapabilityPaths) : Prop :=
  paths.entries.Pairwise fun first second => first.1.text < second.1.text

theorem lookup_putAmong (key other : CapabilityKey) (path : String)
    (entries : List (CapabilityKey × String)) :
    (putAmong key path entries).lookup other =
      if other = key then some path else entries.lookup other := by
  induction entries with
  | nil =>
    by_cases h : other = key
    · simp [putAmong, h]
    · simp [putAmong, List.lookup_cons, beq_eq_false_iff_ne.2 h, h]
  | cons entry rest ih =>
    obtain ⟨name, old⟩ := entry
    unfold putAmong
    split
    · rename_i hkey
      obtain rfl := beq_iff_eq.1 hkey
      by_cases h : other = key
      · simp [h]
      · simp [List.lookup_cons, beq_eq_false_iff_ne.2 h, h]
    · rename_i hkey
      split
      · by_cases h : other = key
        · simp [h]
        · simp [List.lookup_cons, beq_eq_false_iff_ne.2 h, h]
      · rw [List.lookup_cons, List.lookup_cons]
        by_cases h : other = name
        · subst h
          have hne : other ≠ key := fun heq => hkey (beq_iff_eq.2 heq.symm)
          simp [hne]
        · rw [beq_eq_false_iff_ne.2 h]
          exact ih

def ofEntries (entries : List (CapabilityKey × String)) : CapabilityPaths :=
  entries.foldl (fun paths entry => paths.put entry.1 entry.2) .empty

/-- The last path of a key counts. -/
theorem lookup_ofEntries (entries : List (CapabilityKey × String)) (key : CapabilityKey) :
    (ofEntries entries).entries.lookup key = entries.reverse.lookup key := by
  suffices h : ∀ paths : CapabilityPaths,
      (entries.foldl (fun paths entry => paths.put entry.1 entry.2) paths).entries.lookup key =
        (entries.reverse.lookup key).or (paths.entries.lookup key) by
    exact (h .empty).trans Option.or_none
  induction entries with
  | nil => exact fun _ => rfl
  | cons entry rest ih =>
    intro paths
    obtain ⟨other, path⟩ := entry
    rw [List.foldl_cons, ih, put, lookup_putAmong, List.reverse_cons, List.lookup_append,
      Option.or_assoc]
    congr 1
    by_cases h : key = other
    · simp [h]
    · simp [List.lookup_cons, beq_eq_false_iff_ne.2 h, h]

/-- Entries under other keys, no two of which fall together. -/
theorem lookup_map_keys {α : Type} [DecidableEq α] {f : α → CapabilityKey}
    (hf : ∀ first second, f first = f second → first = second) (entries : List (α × String))
    (item : α) :
    (entries.map fun entry => (f entry.1, entry.2)).lookup (f item) = entries.lookup item := by
  induction entries with
  | nil => rfl
  | cons entry rest ih =>
    rw [List.map_cons, List.lookup_cons, List.lookup_cons, ih]
    by_cases h : item = entry.1
    · simp [h]
    · simp [beq_eq_false_iff_ne.2 h, beq_eq_false_iff_ne.2 fun heq => h (hf _ _ heq)]

/-- The last path of a name counts. -/
theorem get?_ofList (entries : List (String × String)) (name : String) :
    (ofList entries).get? name = entries.reverse.lookup name := by
  have htable : ofList entries = ofEntries (entries.map fun entry => (.of entry.1, entry.2)) := by
    unfold ofList ofEntries
    rw [List.foldl_map]
    rfl
  unfold get?
  rw [htable, lookup_ofEntries, ← List.map_reverse]
  exact lookup_map_keys (fun _ _ => CapabilityKey.of_inj) _ name

theorem mem_putAmong {entry : CapabilityKey × String} {entries : List (CapabilityKey × String)}
    (h : entry ∈ putAmong key path entries) : entry = (key, path) ∨ entry ∈ entries := by
  induction entries with
  | nil => exact Or.inl (List.mem_singleton.1 h)
  | cons first rest ih =>
    obtain ⟨name, old⟩ := first
    unfold putAmong at h
    split at h
    · exact (List.mem_cons.1 h).imp id (List.mem_cons_of_mem _)
    · split at h
      · exact List.mem_cons.1 h
      · rcases List.mem_cons.1 h with rfl | h
        · exact Or.inr List.mem_cons_self
        · exact (ih h).imp id (List.mem_cons_of_mem _)

theorem Ordered.put (h : paths.Ordered) (key : CapabilityKey) (path : String) :
    (paths.put key path).Ordered := by
  obtain ⟨entries⟩ := paths
  unfold Ordered CapabilityPaths.put at *
  induction entries with
  | nil => exact List.pairwise_singleton _ _
  | cons first rest ih =>
    obtain ⟨name, old⟩ := first
    obtain ⟨hfirst, hrest⟩ := List.pairwise_cons.1 h
    dsimp only at ih ⊢
    unfold putAmong
    split
    · rename_i hkey
      obtain rfl := beq_iff_eq.1 hkey
      exact List.pairwise_cons.2 ⟨hfirst, hrest⟩
    · rename_i hkey
      split
      · rename_i hlt
        refine List.pairwise_cons.2 ⟨?_, h⟩
        intro entry hentry
        rcases List.mem_cons.1 hentry with rfl | hentry
        · exact hlt
        · exact String.lt_trans hlt (hfirst entry hentry)
      · rename_i hlt
        refine List.pairwise_cons.2 ⟨?_, ih hrest⟩
        intro entry hentry
        rcases mem_putAmong hentry with rfl | hentry
        · apply Decidable.byContradiction
          intro hge
          have hsame := String.le_antisymm (String.not_lt.1 hge) (String.not_lt.1 hlt)
          cases key
          cases name
          exact hkey (beq_iff_eq.2 (congrArg CapabilityKey.mk hsame))
        · exact hfirst entry hentry

theorem ordered_ofEntries (entries : List (CapabilityKey × String)) :
    (ofEntries entries).Ordered := by
  suffices h : ∀ paths : CapabilityPaths, paths.Ordered →
      (entries.foldl (fun paths entry => paths.put entry.1 entry.2) paths).Ordered by
    exact h .empty List.Pairwise.nil
  induction entries with
  | nil => exact fun _ hpaths => hpaths
  | cons entry rest ih => exact fun paths hpaths => ih _ (hpaths.put entry.1 entry.2)

/-- What is looked up in an ordered table is what is there. -/
theorem Ordered.lookup_eq_some_iff (h : paths.Ordered) :
    paths.entries.lookup key = some path ↔ (key, path) ∈ paths.entries := by
  obtain ⟨entries⟩ := paths
  unfold Ordered at h
  dsimp only at h ⊢
  induction entries with
  | nil => simp
  | cons entry rest ih =>
    obtain ⟨other, old⟩ := entry
    obtain ⟨hfirst, hrest⟩ := List.pairwise_cons.1 h
    rw [List.lookup_cons, List.mem_cons]
    by_cases hkey : key = other
    · subst hkey
      have hnot : (key, path) ∉ rest := fun hmem =>
        String.lt_irrefl key.text (hfirst (key, path) hmem)
      simp [hnot, eq_comm]
    · simp [hkey, beq_eq_false_iff_ne.2 hkey, ih hrest]

/-! ### Tables as JSON -/

/-- The table of entries whose keys are taken as they are written. -/
def ofWritten (entries : List (String × String)) : CapabilityPaths :=
  ofEntries (entries.map fun entry => (⟨entry.1⟩, entry.2))

def writtenValue (entries : List (String × String)) : Json.Value :=
  .ofFields (entries.map fun entry => (entry.1, .ofString entry.2))

/-- The last path of a written key counts. -/
theorem lookup_ofWritten (entries : List (String × String)) (text : String) :
    (ofWritten entries).entries.lookup ⟨text⟩ = entries.reverse.lookup text := by
  rw [ofWritten, lookup_ofEntries, ← List.map_reverse]
  exact lookup_map_keys (fun _ _ heq => congrArg CapabilityKey.text heq) _ text

/-- The keys of the table are just the written ones. -/
theorem mem_keys_ofWritten (entries : List (String × String)) (key : CapabilityKey) :
    key ∈ (ofWritten entries).entries.map Prod.fst ↔ key.text ∈ entries.map Prod.fst := by
  have hmem {α : Type} [DecidableEq α] (pairs : List (α × String)) (item : α) :
      item ∈ pairs.map Prod.fst ↔ (pairs.lookup item).isSome = true := by
    rw [List.lookup_isSome_iff, List.mem_map]
    exact exists_congr fun pair => and_congr_right fun _ => eq_comm.trans beq_iff_eq.symm
  rw [hmem, lookup_ofWritten, ← hmem, List.map_reverse, List.mem_reverse]

theorem text?_eq_some_iff {value : Json.Value} {text : String} :
    value.text? = some text ↔ value = .ofString text := by
  constructor
  · intro h
    cases value with
    | string found =>
      obtain rfl : found = some text := h
      rfl
    | null => cases h
    | bool => cases h
    | number => cases h
    | array => cases h
    | object => cases h
  · rintro rfl
    rfl

/-- A reader that undoes a writer, item by item, reads just what was written. -/
theorem mapM_eq_some_iff {α β : Type} {read : α → Option β} {write : β → α}
    (h : ∀ item value, read item = some value ↔ item = write value) (items : List α)
    (values : List β) : items.mapM read = some values ↔ items = values.map write := by
  induction items generalizing values with
  | nil => cases values <;> simp
  | cons item rest ih =>
    rw [List.mapM_cons]
    simp only [bind, Option.bind_eq_some_iff, pure, Option.some.injEq]
    constructor
    · rintro ⟨value, hvalue, others, hothers, rfl⟩
      rw [(h item value).1 hvalue, (ih others).1 hothers, List.map_cons]
    · intro heq
      cases values with
      | nil => cases heq
      | cons value others =>
        obtain ⟨hitem, hrest⟩ := List.cons.inj heq
        exact ⟨value, (h item value).2 hitem, others, (ih others).2 hrest, rfl⟩

theorem readMember_eq_some_iff (member : Option String × Json.Value) (entry : String × String) :
    (do return (← member.1, ← member.2.text?)) = some entry ↔
      member = (some entry.1, .ofString entry.2) := by
  obtain ⟨key, value⟩ := member
  simp only [bind, Option.bind_eq_some_iff, pure, Option.some.injEq, text?_eq_some_iff]
  constructor
  · rintro ⟨name, rfl, path, rfl, rfl⟩
    rfl
  · intro h
    cases h
    exact ⟨entry.1, rfl, entry.2, rfl, rfl⟩

/-- A value is read as a table just if it is an object of paths; its keys may be any texts. -/
theorem ofJson?_eq_some_iff {value : Json.Value} :
    ofJson? value = some paths ↔
      ∃ entries, value = writtenValue entries ∧ paths = ofWritten entries := by
  have hwritten (entries : List (String × String)) : writtenValue entries =
      .object (entries.map fun entry => (some entry.1, .ofString entry.2)) := by
    unfold writtenValue Json.Value.ofFields
    rw [List.map_map]
    rfl
  have hfold (entries : List (String × String)) :
      entries.foldl (fun paths entry => paths.put ⟨entry.1⟩ entry.2) .empty =
        ofWritten entries := by
    unfold ofWritten ofEntries
    rw [List.foldl_map]
  constructor
  · intro h
    cases value with
    | object members =>
      obtain ⟨entries, hentries, htable⟩ := Option.bind_eq_some_iff.1 h
      refine ⟨entries, ?_, ?_⟩
      · rw [(mapM_eq_some_iff readMember_eq_some_iff members entries).1 hentries, hwritten]
      · rw [← hfold]
        exact (Option.some.inj htable).symm
    | null => cases h
    | bool => cases h
    | number => cases h
    | string => cases h
    | array => cases h
  · rintro ⟨entries, rfl, rfl⟩
    rw [hwritten, ← hfold]
    exact Option.bind_eq_some_iff.2
      ⟨entries, (mapM_eq_some_iff readMember_eq_some_iff _ entries).2 rfl, rfl⟩

end CapabilityPaths

end Capabilities.Host
