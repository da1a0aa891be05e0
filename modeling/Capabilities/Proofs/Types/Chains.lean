import Mathlib.Data.List.Basic
import Mathlib.Data.List.Induction
import Capabilities.Proofs.Types.Scopes

/-!
# Chains of scopes

A name is looked up along the *chain* of a scope: the scope itself and the scopes around it. The
scope around another is registered before it, so no chain has more scopes than there are, and each
ends with the root. Scopes that are registered stay where they are, and what they declare stays
declared; so a chain stays the same, and a look-up can change only by what the scopes on the chain
get to declare.
-/

namespace Capabilities.Types.Scopes

variable {scopes later last : Scopes} {id parent : ScopeId} {ids : List ScopeId} {name : String}
  {scope : Scope} {value : ValueId}

/-! ### Chains -/

/-- A scope and the scopes around it, at most `steps` of them. -/
def chainWithin (scopes : Scopes) : Nat → ScopeId → List ScopeId
  | 0, _ => []
  | steps + 1, id =>
    match scopes.get? id with
    | none => []
    | some scope => id :: (scope.parent.map (scopes.chainWithin steps)).getD []

def chain (scopes : Scopes) (id : ScopeId) : List ScopeId :=
  scopes.chainWithin scopes.all.length id

theorem lookupWithin_eq_findSome? (scopes : Scopes) (steps : Nat) (id : ScopeId) (name : String) :
    scopes.lookupWithin steps id name =
      (scopes.chainWithin steps id).findSome? (scopes.own? · name) := by
  induction steps generalizing id with
  | zero => rfl
  | succ steps ih =>
    unfold lookupWithin chainWithin
    cases hscope : scopes.get? id with
    | none => rfl
    | some scope =>
      have hown : scopes.own? id name = scope.declared.get? name := by
        unfold own?
        rw [hscope, Option.bind_some]
      dsimp only
      rw [List.findSome?_cons, hown]
      cases scope.declared.get? name with
      | some value => rfl
      | none =>
        cases scope.parent with
        | none => rfl
        | some parent => exact ih parent

/-- A look-up asks one scope of the chain after the other. -/
theorem lookup?_eq_findSome? (scopes : Scopes) (id : ScopeId) (name : String) :
    scopes.lookup? id name = (scopes.chain id).findSome? (scopes.own? · name) :=
  scopes.lookupWithin_eq_findSome? _ id name

/-- The chain of a scope, one scope after the other up to one with nothing around it. -/
inductive Chain (scopes : Scopes) : ScopeId → List ScopeId → Prop
  | outermost {id : ScopeId} {scope : Scope} (hscope : scopes.get? id = some scope)
      (hparent : scope.parent = none) : Chain scopes id [id]
  | inside {id parent : ScopeId} {scope : Scope} {ids : List ScopeId}
      (hscope : scopes.get? id = some scope) (hparent : scope.parent = some parent)
      (h : Chain scopes parent ids) : Chain scopes id (id :: ids)

theorem Chain.chainWithin_eq (h : Chain scopes id ids) {steps : Nat} (hsteps : ids.length ≤ steps) :
    scopes.chainWithin steps id = ids := by
  induction h generalizing steps with
  | outermost hscope hparent =>
    cases steps with
    | zero => cases hsteps
    | succ steps =>
      simp only [chainWithin, hscope, hparent]
      rfl
  | inside hscope hparent _ ih =>
    cases steps with
    | zero => cases hsteps
    | succ steps =>
      simp only [chainWithin, hscope, hparent, Option.map_some, Option.getD_some,
        ih (Nat.le_of_succ_le_succ hsteps)]

/-! ### Scopes within scopes -/

/-- The scope around each scope is registered before it. -/
def Founded (scopes : Scopes) : Prop :=
  ∀ front scope behind, scopes.all = front ++ scope :: behind →
    ∀ parent, scope.parent = some parent → ∃ outer ∈ front, outer.id = parent

/-- The scope around each scope is registered before it, and the root is the one with none around
    it. -/
structure Nested (scopes : Scopes) : Prop where
  parent : ∀ front scope behind, scopes.all = front ++ scope :: behind →
    ∀ parent, scope.parent = some parent → ∃ outer ∈ front, outer.id = parent
  root : ∀ scope ∈ scopes.all, scope.parent = none → scopes.root = some scope.id
  outermost : ∀ root, scopes.root = some root →
    ∃ scope, scopes.get? root = some scope ∧ scope.parent = none

theorem mem_all_of_get? (h : scopes.get? id = some scope) : scope ∈ scopes.all ∧ scope.id = id :=
  ⟨List.mem_of_find?_eq_some h, by simpa using List.find?_some h⟩

/-- Each of the first scopes has a chain among them, by induction on how many they are. -/
theorem Founded.exists_chain_among (h : scopes.Founded) {front behind : List Scope}
    (hall : scopes.all = front ++ behind) (hscope : scope ∈ front) :
    ∃ ids, Chain scopes scope.id ids ∧ ids.length ≤ front.length := by
  induction front using List.reverseRecOn generalizing behind scope with
  | nil => cases hscope
  | append_singleton front last ih =>
    have hall' : scopes.all = front ++ last :: behind := by
      rw [hall, List.append_assoc, List.singleton_append]
    have hlonger : front.length ≤ (front ++ [last]).length := by
      rw [List.length_append]
      exact Nat.le_add_right _ _
    by_cases hearlier : ∃ other ∈ front, other.id = scope.id
    · obtain ⟨other, hother, hid⟩ := hearlier
      obtain ⟨ids, hchain, hlength⟩ := ih hall' hother
      exact ⟨ids, hid ▸ hchain, Nat.le_trans hlength hlonger⟩
    · rcases List.mem_append.1 hscope with hfront | hlast
      · exact absurd ⟨scope, hfront, rfl⟩ hearlier
      · obtain rfl := List.mem_singleton.1 hlast
        -- it is the first with its id, so it is the one that is found
        have hfound : scopes.get? scope.id = some scope := by
          unfold get?
          rw [hall', List.find?_append]
          have hnone : front.find? (·.id == scope.id) = none :=
            List.find?_eq_none.2 fun other hother hid =>
              hearlier ⟨other, hother, beq_iff_eq.1 hid⟩
          rw [hnone, Option.none_or]
          exact List.find?_cons_of_pos (beq_self_eq_true scope.id)
        cases hparent : scope.parent with
        | none =>
          refine ⟨_, .outermost hfound hparent, ?_⟩
          rw [List.length_append]
          exact Nat.le_add_left _ _
        | some parent =>
          obtain ⟨outer, houter, hid⟩ := h front scope behind hall' parent hparent
          obtain ⟨ids, hchain, hlength⟩ := ih hall' houter
          refine ⟨_, .inside hfound hparent (hid ▸ hchain), ?_⟩
          rw [List.length_append]
          exact Nat.succ_le_succ hlength

/-- The chain of a scope that is registered. -/
theorem Founded.chain (h : scopes.Founded) (hscope : (scopes.get? id).isSome = true) :
    Chain scopes id (scopes.chain id) := by
  obtain ⟨scope, hscope⟩ := Option.isSome_iff_exists.1 hscope
  obtain ⟨hmem, rfl⟩ := mem_all_of_get? hscope
  obtain ⟨ids, hchain, hlength⟩ := h.exists_chain_among (List.append_nil _).symm hmem
  rw [Scopes.chain, hchain.chainWithin_eq hlength]
  exact hchain

theorem Nested.founded (h : scopes.Nested) : scopes.Founded := h.parent

theorem Nested.chain (h : scopes.Nested) (hscope : (scopes.get? id).isSome = true) :
    Chain scopes id (scopes.chain id) := h.founded.chain hscope

/-- Every chain ends with the root. -/
theorem Nested.root_of_chain (h : scopes.Nested) (hchain : Chain scopes id ids) :
    ∃ root ∈ ids, scopes.root = some root := by
  induction hchain with
  | outermost hscope hparent =>
    obtain ⟨hmem, hid⟩ := mem_all_of_get? hscope
    exact ⟨_, List.mem_singleton_self _, hid ▸ h.root _ hmem hparent⟩
  | inside _ _ _ ih =>
    obtain ⟨root, hroot, hsame⟩ := ih
    exact ⟨root, List.mem_cons_of_mem _ hroot, hsame⟩

theorem Chain.mem_self (h : Chain scopes id ids) : id ∈ ids := by
  cases h with
  | outermost _ _ => exact List.mem_singleton_self id
  | inside _ _ _ => exact List.mem_cons_self

/-- The scopes of a chain are registered. -/
theorem Chain.isSome_get? (h : Chain scopes id ids) :
    ∀ outer ∈ ids, (scopes.get? outer).isSome = true := by
  induction h with
  | outermost hscope _ =>
    intro outer houter
    rw [List.mem_singleton.1 houter, hscope]
    rfl
  | inside hscope _ _ ih =>
    intro outer houter
    rcases List.mem_cons.1 houter with rfl | houter
    · rw [hscope]
      rfl
    · exact ih outer houter

theorem get?_register_self (scopes : Scopes) (parent : Option ScopeId)
    (h : scopes.get? id = none) :
    (scopes.register id parent).get? id = some ⟨id, parent, .empty⟩ := by
  have hnone : ¬(scopes.get? id).isSome = true := by
    rw [h]
    exact Bool.false_ne_true
  unfold Scopes.register
  rw [if_neg hnone]
  unfold get? at h ⊢
  rw [List.find?_append, h, Option.none_or]
  exact List.find?_cons_of_pos (beq_self_eq_true id)

theorem isSome_get?_register (scopes : Scopes) (id : ScopeId) (parent : Option ScopeId) :
    ((scopes.register id parent).get? id).isSome = true := by
  cases hold : scopes.get? id with
  | none =>
    rw [get?_register_self scopes parent hold]
    rfl
  | some scope =>
    have hsome : (scopes.get? id).isSome = true := by
      rw [hold]
      rfl
    unfold Scopes.register
    rw [if_pos hsome]
    exact hsome

theorem get?_register_of_ne (scopes : Scopes) (around : Option ScopeId) (h : parent ≠ id) :
    (scopes.register parent around).get? id = scopes.get? id := by
  unfold Scopes.register
  split
  · rfl
  · have hnone : [(⟨parent, around, .empty⟩ : Scope)].find? (·.id == id) = none := by
      rw [List.find?_singleton, if_neg]
      exact fun hsame => h (beq_iff_eq.1 hsame)
    unfold get?
    rw [List.find?_append, hnone, Option.or_none]

theorem get?_withVariable (scopes : Scopes) (id : ScopeId) (name : String) (value : ValueId)
    (other : ScopeId) : (scopes.withVariable id name value).get? other =
      (scopes.get? other).map fun scope =>
        if scope.id == id then { scope with declared := scope.declared.put name value }
        else scope := by
  unfold get? Scopes.withVariable
  rw [List.find?_map]
  congr 2
  funext scope
  dsimp only [Function.comp]
  split <;> rfl

/-! ### Later scopes -/

/-- Scopes that were registered stay in their place, and what they declared stays declared. -/
structure Remain (scopes later : Scopes) : Prop where
  scope : ∀ id scope, scopes.get? id = some scope →
    ∃ next, later.get? id = some next ∧ next.parent = scope.parent
  own : ∀ id name value, scopes.own? id name = some value → later.own? id name = some value

namespace Remain

theorem refl (scopes : Scopes) : scopes.Remain scopes :=
  ⟨fun _ scope h => ⟨scope, h, rfl⟩, fun _ _ _ h => h⟩

theorem trans (h : scopes.Remain later) (h' : later.Remain last) : scopes.Remain last := by
  refine ⟨fun id scope hscope => ?_, fun id name value hown => h'.own _ _ _ (h.own _ _ _ hown)⟩
  obtain ⟨next, hnext, hparent⟩ := h.scope id scope hscope
  obtain ⟨final, hfinal, hsame⟩ := h'.scope id next hnext
  exact ⟨final, hfinal, hsame.trans hparent⟩

theorem isSome_get? (h : scopes.Remain later) (hscope : (scopes.get? id).isSome = true) :
    (later.get? id).isSome = true := by
  obtain ⟨scope, hscope⟩ := Option.isSome_iff_exists.1 hscope
  obtain ⟨next, hnext, -⟩ := h.scope id scope hscope
  rw [hnext]
  rfl

/-- Registering adds a scope at most; one that is registered already keeps its parent. -/
theorem register (scopes : Scopes) (id : ScopeId) (parent : Option ScopeId) :
    scopes.Remain (scopes.register id parent) := by
  refine ⟨fun other scope hscope => ⟨scope, ?_, rfl⟩,
    fun other name value hown => (own?_register ..).trans hown⟩
  unfold Scopes.register
  split
  · exact hscope
  · unfold get? at hscope ⊢
    rw [List.find?_append, hscope]
    rfl

theorem withVariable (hscope : scopes.get? id = some scope) (hnone : scopes.own? id name = none)
    (value : ValueId) : scopes.Remain (scopes.withVariable id name value) := by
  refine ⟨fun other found hfound => ?_, fun other key held hown => ?_⟩
  · refine ⟨_, (get?_withVariable ..).trans (congrArg _ hfound), ?_⟩
    dsimp only
    split <;> rfl
  · rw [own?_withVariable name value hscope]
    by_cases hsame : other = id ∧ key = name
    · rw [hsame.1, hsame.2, hnone] at hown
      cases hown
    · rw [if_neg hsame, hown]

/-- A chain stays as it is. -/
theorem chain (h : scopes.Remain later) (hchain : Chain scopes id ids) : Chain later id ids := by
  induction hchain with
  | outermost hscope hparent =>
    obtain ⟨next, hnext, hsame⟩ := h.scope _ _ hscope
    exact .outermost hnext (hsame.trans hparent)
  | inside hscope hparent _ ih =>
    obtain ⟨next, hnext, hsame⟩ := h.scope _ _ hscope
    exact .inside hnext (hsame.trans hparent) ih

end Remain

/-- Scopes that were registered stay in their place, what they declared stays declared, and the
    root stays the root. -/
structure Persist (scopes later : Scopes) : Prop where
  scope : ∀ id scope, scopes.get? id = some scope →
    ∃ next, later.get? id = some next ∧ next.parent = scope.parent
  own : ∀ id name value, scopes.own? id name = some value → later.own? id name = some value
  root : later.root = scopes.root

namespace Persist

theorem remain (h : scopes.Persist later) : scopes.Remain later := ⟨h.scope, h.own⟩

theorem of_remain (h : scopes.Remain later) (hroot : later.root = scopes.root) :
    scopes.Persist later := ⟨h.scope, h.own, hroot⟩

theorem refl (scopes : Scopes) : scopes.Persist scopes := of_remain (.refl scopes) rfl

theorem trans (h : scopes.Persist later) (h' : later.Persist last) : scopes.Persist last :=
  of_remain (h.remain.trans h'.remain) (h'.root.trans h.root)

theorem isSome_get? (h : scopes.Persist later) (hscope : (scopes.get? id).isSome = true) :
    (later.get? id).isSome = true := h.remain.isSome_get? hscope

theorem isSome_own? (h : scopes.Persist later) (hown : (scopes.own? id name).isSome = true) :
    (later.own? id name).isSome = true := by
  obtain ⟨value, hvalue⟩ := Option.isSome_iff_exists.1 hown
  rw [h.own id name value hvalue]
  rfl

theorem register (scopes : Scopes) (id : ScopeId) (parent : ScopeId) :
    scopes.Persist (scopes.register id (some parent)) :=
  of_remain (.register scopes id (some parent)) rfl

theorem withVariable (hscope : scopes.get? id = some scope) (hnone : scopes.own? id name = none)
    (value : ValueId) : scopes.Persist (scopes.withVariable id name value) :=
  of_remain (.withVariable hscope hnone value) rfl

theorem outermost (h : scopes.Persist later)
    (hscopes : ∀ root, scopes.root = some root →
      ∃ scope, scopes.get? root = some scope ∧ scope.parent = none) :
    ∀ root, later.root = some root →
      ∃ scope, later.get? root = some scope ∧ scope.parent = none := by
  intro root hroot
  obtain ⟨scope, hscope, hparent⟩ := hscopes root (h.root ▸ hroot)
  obtain ⟨next, hnext, hsame⟩ := h.scope root scope hscope
  exact ⟨next, hnext, hsame.trans hparent⟩

/-- A chain stays as it is. -/
theorem chain (h : scopes.Persist later) (hchain : Chain scopes id ids) : Chain later id ids :=
  h.remain.chain hchain

end Persist

theorem Chain.unique (h : Chain scopes id ids) {others : List ScopeId}
    (hothers : Chain scopes id others) : ids = others := by
  induction h generalizing others with
  | outermost hscope hparent =>
    cases hothers with
    | outermost => rfl
    | inside hother hinside _ =>
      cases hscope.symm.trans hother
      cases hparent.symm.trans hinside
  | inside hscope hparent _ ih =>
    cases hothers with
    | outermost hother hnone =>
      cases hscope.symm.trans hother
      cases hparent.symm.trans hnone
    | inside hother hinside h =>
      cases hscope.symm.trans hother
      cases hparent.symm.trans hinside
      rw [ih h]

theorem Persist.chain_eq (h : scopes.Persist later) (hnested : scopes.Nested)
    (hlater : later.Nested) (hscope : (scopes.get? id).isSome = true) :
    later.chain id = scopes.chain id :=
  (hlater.chain (h.isSome_get? hscope)).unique (h.chain (hnested.chain hscope))

/-! ### Scopes that are added to -/

theorem nested_register_empty (id : ScopeId) : (empty.register id none).Nested := by
  constructor
  · intro front scope behind hall parent hparent
    have hmem : scope ∈ (empty.register id none).all :=
      hall ▸ List.mem_append_right _ List.mem_cons_self
    obtain rfl := List.mem_singleton.1 hmem
    cases hparent
  · intro scope hscope _
    obtain rfl := List.mem_singleton.1 hscope
    rfl
  · rintro _ ⟨rfl⟩
    exact ⟨_, List.find?_cons_of_pos (beq_self_eq_true id), rfl⟩

theorem founded_empty : empty.Founded := by
  intro front scope behind hall
  simp [empty] at hall

theorem Founded.register (h : scopes.Founded) (id : ScopeId) (around : Option ScopeId)
    (haround : (scopes.get? id).isSome = true ∨
      ∀ parent, around = some parent → (scopes.get? parent).isSome = true) :
    (scopes.register id around).Founded := by
  unfold Scopes.register
  intro front scope behind hall parent hparent
  dsimp only at hall
  split at hall
  · exact h front scope behind hall parent hparent
  · rename_i hnew
    rcases List.eq_nil_or_concat' behind with rfl | ⟨behind, last, rfl⟩
    · -- the scope is the new one
      obtain ⟨rfl, hlast⟩ := List.append_inj' hall rfl
      obtain rfl := List.singleton_inj.1 hlast
      obtain ⟨outer, houter⟩ := Option.isSome_iff_exists.1
        (haround.resolve_left hnew parent hparent)
      obtain ⟨hmem, hid⟩ := mem_all_of_get? houter
      exact ⟨outer, hmem, hid⟩
    · rw [← List.cons_append, ← List.append_assoc] at hall
      exact h front scope behind (List.append_inj' hall rfl).1 parent hparent

theorem Nested.register (h : scopes.Nested) (id : ScopeId)
    (hparent : (scopes.get? parent).isSome = true) :
    (scopes.register id (some parent)).Nested := by
  have hfounded : (scopes.register id (some parent)).Founded := by
    apply h.founded.register id
    right
    rintro _ ⟨rfl⟩
    exact hparent
  refine ⟨hfounded, ?_, Persist.outermost (.register scopes id parent) h.outermost⟩
  intro scope hscope hnone
  unfold Scopes.register at hscope ⊢
  dsimp only at hscope
  split at hscope
  · exact h.root scope hscope hnone
  · rcases List.mem_append.1 hscope with hscope | hnew
    · exact h.root scope hscope hnone
    · rw [List.mem_singleton.1 hnew] at hnone
      cases hnone

/-- What a scope declares has nothing to do with where it is. -/
theorem withVariable_place (scopes : Scopes) (id : ScopeId) (name : String) (value : ValueId) :
    (scopes.withVariable id name value).all.map (fun scope => (scope.id, scope.parent)) =
      scopes.all.map fun scope => (scope.id, scope.parent) := by
  unfold Scopes.withVariable
  rw [List.map_map]
  congr 1
  funext scope
  dsimp only [Function.comp]
  split <;> rfl

theorem Founded.withVariable (h : scopes.Founded) (id : ScopeId) (name : String)
    (value : ValueId) : (scopes.withVariable id name value).Founded := by
  have hsame := scopes.withVariable_place id name value
  intro front scope behind hall parent hparent
  rw [hall, List.map_append, List.map_cons, eq_comm, List.map_eq_append_iff] at hsame
  obtain ⟨before, others, hfirst, hbefore, hothers⟩ := hsame
  obtain ⟨old, after, rfl, hold, -⟩ := List.map_eq_cons_iff.1 hothers
  obtain ⟨-, hsame⟩ := Prod.mk.inj hold
  obtain ⟨outer, houter, hid⟩ := h before old after hfirst parent (hsame.trans hparent)
  have hmem := List.mem_map_of_mem (f := fun scope : Scope => (scope.id, scope.parent)) houter
  rw [hbefore] at hmem
  obtain ⟨new, hnew, hplace⟩ := List.mem_map.1 hmem
  exact ⟨new, hnew, (Prod.mk.inj hplace).1.trans hid⟩

theorem Nested.withVariable (h : scopes.Nested) (hscope : scopes.get? id = some scope)
    (hnone : scopes.own? id name = none) (value : ValueId) :
    (scopes.withVariable id name value).Nested := by
  refine ⟨h.founded.withVariable id name value, ?_,
    Persist.outermost (.withVariable hscope hnone value) h.outermost⟩
  intro new hnew hparent
  have hmem := List.mem_map_of_mem (f := fun scope : Scope => (scope.id, scope.parent)) hnew
  rw [withVariable_place] at hmem
  obtain ⟨old, hold, hplace⟩ := List.mem_map.1 hmem
  obtain ⟨hid, hsame⟩ := Prod.mk.inj hplace
  rw [← hid]
  exact h.root old hold (hsame.trans hparent)

/-! ### What a name stands for -/

variable {root found : ScopeId}

theorem Nested.ne_root (h : scopes.Nested) (hroot : scopes.root = some root)
    (hscope : scopes.get? id = some scope) (hparent : scope.parent = some parent) : id ≠ root := by
  rintro rfl
  obtain ⟨outermost, houtermost, hnone⟩ := h.outermost id hroot
  cases hscope.symm.trans houtermost
  cases hparent.symm.trans hnone

theorem Nested.eq_root (h : scopes.Nested) (hroot : scopes.root = some root)
    (hscope : scopes.get? id = some scope) (hparent : scope.parent = none) : id = root := by
  obtain ⟨hmem, rfl⟩ := mem_all_of_get? hscope
  exact Option.some.inj ((h.root scope hmem hparent).symm.trans hroot)

/-- If it is the scopes of a kind that answer before the root, then the first of the kind is asked
    in the end, or the root if there is none. -/
theorem Chain.findSome?_eq {answer : ScopeId → Option ValueId} {kind : ScopeId → Bool}
    (hchain : Chain scopes id ids) (h : scopes.Nested) (hroot : scopes.root = some root)
    (hkind : ∀ outer, outer ≠ root → ((answer outer).isSome = true ↔ kind outer = true)) :
    ids.findSome? answer = answer ((ids.find? kind).getD root) := by
  induction hchain with
  | @outermost id scope hscope hparent =>
    obtain rfl := h.eq_root hroot hscope hparent
    rw [List.findSome?_singleton, List.find?_singleton]
    split <;> rfl
  | @inside id parent scope ids hscope hparent _ ih =>
    have hsame := hkind id (h.ne_root hroot hscope hparent)
    rw [List.findSome?_cons, List.find?_cons]
    cases hown : answer id with
    | some value =>
      rw [hsame.1 (hown ▸ rfl)]
      exact hown.symm
    | none =>
      have hother : kind id = false := by
        rw [← Bool.not_eq_true, ← hsame, hown]
        exact Bool.false_ne_true
      rw [hother]
      exact ih

/-- The first scope of a larger kind is the first of the smaller one if it is of the smaller
    kind. -/
theorem Chain.find?_eq {larger smaller : ScopeId → Bool} (hchain : Chain scopes id ids)
    (h : scopes.Nested) (hroot : scopes.root = some root) (hfound : ids.find? larger = some found)
    (hsmaller : smaller found = true)
    (hlarger : ∀ outer, outer ≠ root → smaller outer = true → larger outer = true) :
    ids.find? smaller = some found := by
  induction hchain with
  | outermost _ _ =>
    have hid := List.mem_singleton.1 (List.mem_of_find?_eq_some hfound)
    rw [List.find?_singleton, ← hid, hsmaller]
    rfl
  | @inside id parent scope ids hscope hparent _ ih =>
    rw [List.find?_cons] at hfound ⊢
    cases hid : larger id with
    | true =>
      rw [hid] at hfound
      cases hfound
      rw [hsmaller]
    | false =>
      rw [hid] at hfound
      have hother : smaller id = false := by
        rw [← Bool.not_eq_true]
        intro hsome
        cases hid.symm.trans (hlarger id (h.ne_root hroot hscope hparent) hsome)
      rw [hother]
      exact ih hfound

end Capabilities.Types.Scopes
