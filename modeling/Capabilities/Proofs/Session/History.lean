import Capabilities.Proofs.Resolver.Provision
import Mathlib.Data.List.Forall2
import Mathlib.Data.List.Induction

/-!
# The texts a session has loaded

A history lists the texts that were loaded, with their paths, in order. What a session ends with
depends on the last text of each path only, provided a path that is loaded again registers again
what it registered before: the texts loaded last, in the order of their loads, have the same last
registration of every capability as the whole history (`source_settle`).
-/

namespace Capabilities.Session

open Resolver

def registers [Script.Parser] (config : Config) (load : String × String) (name : String) : Bool :=
  ((provision config load.1 load.2).registry.provider? name).isSome

/-- Every path that is loaded again registers again what it registered before. -/
def Reregisters [Script.Parser] (config : Config) : List (String × String) → Prop
  | [] => True
  | (path, text) :: rest =>
    (∀ next, rest.lookup path = some next → ∀ name,
      registers config (path, text) name = true → registers config (path, next) name = true) ∧
    Reregisters config rest

def lastText (history : List (String × String)) (path : String) : Option String :=
  history.reverse.lookup path

/-- The last text of every path, in the order of these loads. -/
def settle (history : List (String × String)) : List (String × String) :=
  history.foldl (fun kept load => kept.filter (·.1 != load.1) ++ [load]) []

/-- The last load that registered a capability. -/
def source [Script.Parser] (config : Config) (history : List (String × String)) (name : String) :
    Option (String × String) :=
  history.reverse.find? (registers config · name)

variable {config : Config} {history : List (String × String)} {load : String × String}
  {path text name : String}

/-! ### One more load -/

theorem settle_append (history : List (String × String)) (load : String × String) :
    settle (history ++ [load]) = (settle history).filter (·.1 != load.1) ++ [load] := by
  simp [settle]

theorem source_append [Script.Parser] (config : Config) (history : List (String × String))
    (load : String × String) (name : String) :
    source config (history ++ [load]) name =
      if registers config load name then some load else source config history name := by
  unfold source
  rw [List.reverse_append, List.reverse_singleton, List.singleton_append, List.find?_cons]
  cases registers config load name <;> rfl

theorem lastText_append (history : List (String × String)) (load : String × String)
    (path : String) :
    lastText (history ++ [load]) path =
      if path = load.1 then some load.2 else lastText history path := by
  obtain ⟨other, text⟩ := load
  unfold lastText
  rw [List.reverse_append, List.reverse_singleton, List.singleton_append, List.lookup_cons]
  by_cases h : path = other
  · simp [h]
  · simp [h, beq_eq_false_iff_ne.2 h]

/-- The load that comes last registers what the last text of its path did. -/
theorem Reregisters.last [Script.Parser] (h : Reregisters config (history ++ [load]))
    (htext : lastText history load.1 = some text)
    (hname : registers config (load.1, text) name = true) : registers config load name = true := by
  induction history with
  | nil => cases htext
  | cons first rest ih =>
    obtain ⟨path, old⟩ := first
    change Reregisters config ((path, old) :: (rest ++ [load])) at h
    obtain ⟨hnext, hrest⟩ := h
    unfold lastText at htext
    rw [List.reverse_cons, List.lookup_append] at htext
    cases hlater : rest.reverse.lookup load.1 with
    | some later =>
      rw [hlater] at htext
      exact ih hrest (hlater.trans htext)
    | none =>
      -- the path is not loaded between its former load and this one
      rw [hlater, Option.none_or, List.lookup_cons] at htext
      by_cases hpath : load.1 = path
      · subst hpath
        simp only [beq_self_eq_true, Option.some.injEq] at htext
        subst htext
        refine hnext load.2 ?_ name hname
        have hnone : rest.lookup load.1 = none := by
          rw [List.lookup_eq_none_iff] at hlater ⊢
          intro pair hpair
          exact hlater pair (List.mem_reverse.2 hpair)
        rw [List.lookup_append, hnone, Option.none_or, List.lookup_cons_self]
      · simp [beq_eq_false_iff_ne.2 hpath] at htext

theorem Reregisters.initial [Script.Parser] (h : Reregisters config (history ++ [load])) :
    Reregisters config history := by
  induction history with
  | nil => trivial
  | cons first rest ih =>
    change Reregisters config (first :: (rest ++ [load])) at h
    obtain ⟨hnext, hrest⟩ := h
    refine ⟨?_, ih hrest⟩
    intro next hlookup
    refine hnext next ?_
    rw [List.lookup_append, hlookup, Option.some_or]

/-- Without a second load of any path there is nothing to register again. -/
theorem reregisters_of_nodup [Script.Parser] (h : (history.map Prod.fst).Nodup) :
    Reregisters config history := by
  induction history with
  | nil => trivial
  | cons first rest ih =>
    rw [List.map_cons, List.nodup_cons] at h
    refine ⟨?_, ih h.2⟩
    intro next hlookup
    have hmem : first.1 ∈ rest.map Prod.fst := by
      obtain ⟨before, after, heq, _⟩ := List.lookup_eq_some_iff.1 hlookup
      rw [heq]
      simp
    exact absurd hmem h.1

/-! ### What remains -/

theorem lastText_of_mem_settle (h : load ∈ settle history) :
    lastText history load.1 = some load.2 := by
  induction history using List.reverseRecOn with
  | nil => cases h
  | append_singleton history last ih =>
    rw [settle_append] at h
    rw [lastText_append]
    rcases List.mem_append.1 h with hold | hlast
    · obtain ⟨hmem, hne⟩ := List.mem_filter.1 hold
      rw [if_neg (by simpa using hne)]
      exact ih hmem
    · rw [List.mem_singleton.1 hlast, if_pos rfl]

theorem nodup_settle (history : List (String × String)) :
    ((settle history).map Prod.fst).Nodup := by
  induction history using List.reverseRecOn with
  | nil => exact List.nodup_nil
  | append_singleton history last ih =>
    rw [settle_append, List.map_append, List.nodup_append]
    refine ⟨ih.sublist (List.filter_sublist.map _), by simp, ?_⟩
    intro first hfirst second hsecond heq
    obtain ⟨kept, hkept, rfl⟩ := List.mem_map.1 hfirst
    obtain ⟨_, hne⟩ := List.mem_filter.1 hkept
    rw [List.map_singleton, List.mem_singleton] at hsecond
    simp [heq, hsecond] at hne

theorem mem_settle_iff : load ∈ settle history ↔ lastText history load.1 = some load.2 := by
  refine ⟨lastText_of_mem_settle, ?_⟩
  intro h
  induction history using List.reverseRecOn with
  | nil => cases h
  | append_singleton history last ih =>
    rw [lastText_append] at h
    rw [settle_append, List.mem_append, List.mem_filter, List.mem_singleton, bne_iff_ne]
    split at h
    · rename_i hpath
      exact Or.inr (Prod.ext hpath (Option.some.inj h).symm)
    · rename_i hpath
      exact Or.inl ⟨ih h, hpath⟩

theorem path_mem_of_mem_settle (h : load ∈ settle history) : load.1 ∈ history.map Prod.fst := by
  have hlookup := lastText_of_mem_settle h
  unfold lastText at hlookup
  obtain ⟨before, after, heq, _⟩ := List.lookup_eq_some_iff.1 hlookup
  have hmem : (load.1, load.2) ∈ history.reverse := by
    rw [heq]
    simp
  exact List.mem_map.2 ⟨load, List.mem_reverse.1 hmem, rfl⟩

/-- A history that loads no path twice is settled. -/
theorem settle_of_nodup (h : (history.map Prod.fst).Nodup) : settle history = history := by
  induction history using List.reverseRecOn with
  | nil => rfl
  | append_singleton history last ih =>
    rw [List.map_append, List.nodup_append] at h
    obtain ⟨hhistory, _, happart⟩ := h
    have hkept : history.filter (·.1 != last.1) = history := by
      rw [List.filter_eq_self]
      intro other hother
      have hne := happart other.1 (List.mem_map.2 ⟨other, hother, rfl⟩) last.1 (by simp)
      simpa using hne
    rw [settle_append, ih hhistory, hkept]

theorem find?_filter_of_imp {α : Type} {keep found : α → Bool} {items : List α}
    (h : ∀ item ∈ items, found item = true → keep item = true) :
    (items.filter keep).find? found = items.find? found := by
  induction items with
  | nil => rfl
  | cons item rest ih =>
    have hrest := ih fun other hother => h other (List.mem_cons_of_mem _ hother)
    cases hfound : found item with
    | true =>
      rw [List.filter_cons_of_pos (h item List.mem_cons_self hfound), List.find?_cons_of_pos hfound,
        List.find?_cons_of_pos hfound]
    | false =>
      rw [List.find?_cons_of_neg (by simp [hfound]), ← hrest]
      cases hkeep : keep item with
      | true => rw [List.filter_cons_of_pos hkeep, List.find?_cons_of_neg (by simp [hfound])]
      | false => rw [List.filter_cons_of_neg (by simp [hkeep])]

/-- What remains registers each capability last where the whole history did. -/
theorem source_settle [Script.Parser] (h : Reregisters config history) (name : String) :
    source config (settle history) name = source config history name := by
  induction history using List.reverseRecOn with
  | nil => rfl
  | append_singleton history last ih =>
    rw [settle_append, source_append, source_append, ← ih h.initial]
    cases hlast : registers config last name with
    | true => rfl
    | false =>
      have hother : ∀ other ∈ (settle history).reverse, registers config other name = true →
          (other.1 != last.1) = true := by
        intro other hother hname
        rw [bne_iff_ne]
        intro heq
        have htext := lastText_of_mem_settle (List.mem_reverse.1 hother)
        rw [heq] at htext
        have hformer : registers config (last.1, other.2) name = true := by
          rw [← heq]
          exact hname
        rw [h.last htext hformer] at hlast
        cases hlast
      unfold source
      rw [← List.filter_reverse]
      exact find?_filter_of_imp hother

/-! ### Histories that come to the same -/

/-- Two histories have the same last text of every path and the same last registration of every
    capability, and in both what is loaded again registers again. -/
structure Agree [Script.Parser] (config : Config) (history other : List (String × String)) :
    Prop where
  reregisters : Reregisters config history
  reregisters_other : Reregisters config other
  texts : ∀ path, lastText other path = lastText history path
  sources : ∀ name, source config other name = source config history name

variable {other : List (String × String)}

theorem Agree.symm [Script.Parser] (h : Agree config history other) : Agree config other history :=
  ⟨h.reregisters_other, h.reregisters, fun path => (h.texts path).symm,
    fun name => (h.sources name).symm⟩

/-- The last text of every path depends on the members of a settled history only. -/
theorem lastText_eq_of_mem_iff (h : ∀ load, load ∈ settle other ↔ load ∈ settle history)
    (path : String) : lastText other path = lastText history path := by
  refine Option.ext fun text => ?_
  have hmem := h (path, text)
  rw [mem_settle_iff, mem_settle_iff] at hmem
  exact hmem

/-- A history agrees with what remains of it. -/
theorem agree_settle [Script.Parser] (h : Reregisters config history) :
    Agree config history (settle history) := by
  refine ⟨h, reregisters_of_nodup (nodup_settle history), lastText_eq_of_mem_iff fun load => ?_,
    source_settle h⟩
  rw [settle_of_nodup (nodup_settle history)]

theorem mem_paths_settle_iff :
    path ∈ (settle history).map Prod.fst ↔ (lastText history path).isSome = true := by
  rw [List.mem_map, Option.isSome_iff_exists]
  constructor
  · rintro ⟨load, hload, rfl⟩
    exact ⟨load.2, mem_settle_iff.1 hload⟩
  · rintro ⟨text, htext⟩
    exact ⟨(path, text), mem_settle_iff.2 htext, rfl⟩

variable [Script.Parser]

/-- No capability is registered by two of the texts. -/
def Unshared (config : Config) (texts : List (String × String)) : Prop :=
  ∀ first ∈ texts, ∀ second ∈ texts, ∀ name, registers config first name = true →
    registers config second name = true → first = second

theorem Unshared.source_eq_some_iff (h : Unshared config history) :
    source config history name = some load ↔
      load ∈ history ∧ registers config load name = true := by
  have hfound : ∀ found, source config history name = some found →
      found ∈ history ∧ registers config found name = true := by
    intro found hsource
    unfold source at hsource
    have hname := List.find?_some hsource
    exact ⟨List.mem_reverse.1 (List.mem_of_find?_eq_some hsource), hname⟩
  refine ⟨hfound load, ?_⟩
  rintro ⟨hload, hname⟩
  cases hsource : source config history name with
  | none =>
    have hnone := List.find?_eq_none.1 hsource load (List.mem_reverse.2 hload)
    exact absurd hname hnone
  | some found =>
    obtain ⟨hmem, hother⟩ := hfound found hsource
    rw [h found hmem load hload name hother hname]

/-- Texts that share no capability agree in any order. -/
theorem agree_of_perm (hnodup : (history.map Prod.fst).Nodup) (hunshared : Unshared config history)
    (hperm : history.Perm other) : Agree config history other := by
  have hnodup' : (other.map Prod.fst).Nodup := (hperm.map Prod.fst).nodup_iff.1 hnodup
  have hunshared' : Unshared config other := fun first hfirst second hsecond =>
    hunshared first (hperm.mem_iff.2 hfirst) second (hperm.mem_iff.2 hsecond)
  refine ⟨reregisters_of_nodup hnodup, reregisters_of_nodup hnodup',
    lastText_eq_of_mem_iff fun load => ?_, fun name => Option.ext fun load => ?_⟩
  · rw [settle_of_nodup hnodup, settle_of_nodup hnodup', hperm.mem_iff]
  · rw [hunshared.source_eq_some_iff, hunshared'.source_eq_some_iff, hperm.mem_iff]

end Capabilities.Session
