import Capabilities.Proofs.Host.Paths
import Capabilities.Proofs.Types.Operations
import Capabilities.Resolver.State

/-!
# What the resolver remembers, read back

Registering a provider changes what the registry says about one name and nothing else. A binding
made by binding names one after the other lists them once each, in the order of their first
occurrence, with what was looked up for them.
-/

namespace Capabilities.Resolver

open Host Capabilities.Types

/-! ### The registry -/

namespace Registry

theorem provider?_register (registry : Registry) (name other : String) (type : TypeId)
    (origin : Option String) :
    (registry.register name type origin).2.provider? other =
      if other = name then some ⟨type, origin⟩ else registry.provider? other := by
  unfold register provider?
  rw [Keyed.get?_put]
  by_cases h : other = name
  · rw [if_pos h, if_pos (by rw [h])]
  · rw [if_neg h, if_neg (fun heq => h (key_injective heq))]

end Registry

/-! ### Bindings -/

/-- The list of the names that a list has, each once. -/
theorem foldl_insertNew_nil (names : List String) :
    names.foldl Store.insertNew [] = names.eraseDups := by
  suffices h : ∀ (names found : List String), names.foldl Store.insertNew found =
      found ++ (names.filter fun name => !found.contains name).eraseDups by
    have hall : (names.filter fun name => !([] : List String).contains name) = names :=
      List.filter_eq_self.2 fun _ _ => rfl
    rw [h names [], hall, List.nil_append]
  intro names
  induction names with
  | nil => simp
  | cons name rest ih =>
    intro found
    rw [List.foldl_cons, ih]
    by_cases h : name ∈ found
    · rw [Store.insertNew_of_mem h, List.filter_cons_of_neg (by simpa using h)]
    · have hinsert : Store.insertNew found name = found ++ [name] := by
        unfold Store.insertNew
        rw [if_neg (by simpa using h)]
      rw [hinsert, List.filter_cons_of_pos (by simpa using h), List.eraseDups_cons,
        List.filter_filter, List.append_assoc, List.singleton_append]
      congr 4
      funext other
      by_cases ho : other = name <;> simp [ho]

namespace ImportsBinding

/-- The binding of a file in which every name has what was looked up for it. -/
def ofNames (file : String) (lookup : String → Option TypeId) (names : List String) :
    ImportsBinding :=
  names.foldl (fun binding name => binding.bind name (lookup name)) (.empty file)

variable (file : String) (lookup : String → Option TypeId) (names : List String)

theorem foldl_bind (found : List String) :
    names.foldl (fun binding name => binding.bind name (lookup name))
      (⟨file, ⟨found.map fun name => (name, lookup name)⟩⟩ : ImportsBinding) =
      ⟨file, ⟨(names.foldl Store.insertNew found).map fun name => (name, lookup name)⟩⟩ := by
  induction names generalizing found with
  | nil => rfl
  | cons name rest ih =>
    rw [List.foldl_cons, List.foldl_cons, ← ih]
    congr 1
    unfold bind
    congr 1
    by_cases h : name ∈ found
    · rw [Store.insertNew_of_mem h]
      refine Keyed.put_of_get? ?_
      rw [Keyed.get?_ofKeys, if_pos h]
    · have hinsert : Store.insertNew found name = found ++ [name] := by
        unfold Store.insertNew
        rw [if_neg (by simpa using h)]
      rw [hinsert, Keyed.put_of_get?_none]
      · simp
      · rw [Keyed.get?_ofKeys, if_neg h]

theorem entries_ofNames :
    (ofNames file lookup names).entries =
      ⟨names.eraseDups.map fun name => (name, lookup name)⟩ := by
  have h := foldl_bind file lookup names []
  rw [foldl_insertNew_nil] at h
  unfold ofNames
  change (names.foldl _ (⟨file, ⟨[].map fun name => (name, lookup name)⟩⟩ : ImportsBinding)).entries
    = _
  rw [h]

@[simp] theorem file_ofNames : (ofNames file lookup names).file = file := by
  have h := foldl_bind file lookup names []
  unfold ofNames
  change (names.foldl _
    (⟨file, ⟨[].map fun name => (name, lookup name)⟩⟩ : ImportsBinding)).file = _
  rw [h]

theorem declared_ofNames : (ofNames file lookup names).declared = names.eraseDups := by
  unfold declared
  rw [entries_ofNames]
  simp [Keyed.keys, Function.comp_def]

theorem get?_ofNames (name : String) :
    (ofNames file lookup names).entries.get? name =
      if name ∈ names then some (lookup name) else none := by
  rw [entries_ofNames, Keyed.get?_ofKeys]
  simp only [List.mem_eraseDups]

theorem type?_ofNames (name : String) :
    (ofNames file lookup names).type? name = if name ∈ names then lookup name else none := by
  unfold type?
  rw [get?_ofNames]
  split <;> rfl

theorem resolved_ofNames :
    (ofNames file lookup names).resolved =
      names.eraseDups.filter fun name => (lookup name).isSome := by
  unfold resolved
  rw [entries_ofNames]
  simp [List.filter_map, Function.comp_def]

end ImportsBinding

end Capabilities.Resolver
