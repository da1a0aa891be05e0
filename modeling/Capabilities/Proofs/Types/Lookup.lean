import Capabilities.Proofs.Types.Chains
import Capabilities.Proofs.Types.Growth

/-!
# Registering, declaring and looking up in any order

Scopes are registered and variables declared in any order, with the store put to other uses in
between. All that is asked for is that a scope is registered before the scopes inside it; what is
registered once more may be given any parent, which is ignored. Then parents form a forest, so
every look-up comes to an end: it finds what the nearest scope on the chain declares. A declared
variable keeps its value, which is no other variable's (`Sound`), and the declaration is seen by the
scopes that have its scope on their chain with no declaration of the name before it.
-/

namespace Capabilities.Types

namespace Scopes

variable {scopes : Scopes} {id inner outer parent : ScopeId} {ids front behind : List ScopeId}
  {name : String} {value : ValueId} {steps : Nat}

/-! ### Parents -/

/-- A scope around another. -/
def Encloses (scopes : Scopes) (parent id : ScopeId) : Prop :=
  ∃ scope, scopes.get? id = some scope ∧ scope.parent = some parent

/-- Parents form a forest: a scope has one at most, which is registered, and going from parent to
    parent comes to an end. -/
structure Forest (scopes : Scopes) : Prop where
  wellFounded : WellFounded scopes.Encloses
  unique : ∀ id parent other, scopes.Encloses parent id → scopes.Encloses other id →
    other = parent
  registered : ∀ id parent, scopes.Encloses parent id → (scopes.get? parent).isSome = true

theorem Founded.registered (h : scopes.Founded) (hparent : scopes.Encloses parent id) :
    (scopes.get? parent).isSome = true := by
  obtain ⟨scope, hscope, hparent⟩ := hparent
  obtain ⟨front, behind, hall⟩ := List.append_of_mem (mem_all_of_get? hscope).1
  obtain ⟨outer, houter, rfl⟩ := h front scope behind hall parent hparent
  have hmem : outer ∈ scopes.all := by
    rw [hall]
    exact List.mem_append_left _ houter
  unfold get?
  rw [List.find?_isSome]
  exact ⟨outer, hmem, beq_self_eq_true outer.id⟩

theorem Founded.chain_inside (h : scopes.Founded) (hparent : scopes.Encloses parent id) :
    scopes.chain id = id :: scopes.chain parent := by
  have houter := h.chain (h.registered hparent)
  obtain ⟨scope, hscope, hparent⟩ := hparent
  have hself : (scopes.get? id).isSome = true := by
    rw [hscope]
    rfl
  exact (h.chain hself).unique (.inside hscope hparent houter)

/-- The chain of a scope is longer than that of its parent. -/
theorem Founded.forest (h : scopes.Founded) : scopes.Forest := by
  refine ⟨?_, ?_, ?_⟩
  · apply Subrelation.wf (r := InvImage (· < ·) fun id => (scopes.chain id).length)
    · intro parent id hparent
      change (scopes.chain parent).length < (scopes.chain id).length
      rw [h.chain_inside hparent, List.length_cons]
      omega
    · exact InvImage.wf _ Nat.lt_wfRel.wf
  · rintro id parent other ⟨scope, hscope, hparent⟩ ⟨same, hsame, hother⟩
    cases hscope.symm.trans hsame
    cases hparent.symm.trans hother
    rfl
  · intro id parent hparent
    exact h.registered hparent

/-! ### What is found -/

theorem chain_missing (h : scopes.get? id = none) (steps : Nat) :
    scopes.chainWithin steps id = [] := by
  cases steps with
  | zero => rfl
  | succ steps =>
    unfold chainWithin
    rw [h]

theorem lookup?_missing (h : scopes.get? id = none) (name : String) :
    scopes.lookup? id name = none := by
  rw [lookup?_eq_findSome?, Scopes.chain, chain_missing h]
  rfl

theorem Chain.length_le (h : Chain scopes id ids) (hfounded : scopes.Founded) :
    ids.length ≤ scopes.all.length := by
  obtain ⟨scope, hscope⟩ := Option.isSome_iff_exists.1 (h.isSome_get? id h.mem_self)
  obtain ⟨hmem, rfl⟩ := mem_all_of_get? hscope
  obtain ⟨others, hothers, hlength⟩ :=
    hfounded.exists_chain_among (List.append_nil _).symm hmem
  rwa [h.unique hothers]

theorem Chain.lookupWithin_eq (h : Chain scopes id ids) (hsteps : ids.length ≤ steps)
    (name : String) : scopes.lookupWithin steps id name = ids.findSome? (scopes.own? · name) := by
  rw [lookupWithin_eq_findSome?, h.chainWithin_eq hsteps]

theorem Chain.lookup?_eq (h : Chain scopes id ids) (hfounded : scopes.Founded) (name : String) :
    scopes.lookup? id name = ids.findSome? (scopes.own? · name) :=
  h.lookupWithin_eq (h.length_le hfounded) name

/-- A look-up comes to an end at every scope, and then no further step changes its answer: what the
    nearest scope of the chain declares, and nothing if none does or the scope is not
    registered. -/
structure Resolves (scopes : Scopes) : Prop where
  ends : ∀ id, (scopes.get? id).isSome = true → ∃ ids, Chain scopes id ids
  enough : ∀ steps id name, scopes.all.length ≤ steps →
    scopes.lookupWithin steps id name = scopes.lookup? id name
  nearest : ∀ id ids name value, Chain scopes id ids →
    (scopes.lookup? id name = some value ↔
      ∃ front outer behind, ids = front ++ outer :: behind ∧
        scopes.own? outer name = some value ∧ ∀ nearer ∈ front, scopes.own? nearer name = none)
  undeclared : ∀ id ids name, Chain scopes id ids →
    (scopes.lookup? id name = none ↔ ∀ outer ∈ ids, scopes.own? outer name = none)
  missing : ∀ id name, scopes.get? id = none → scopes.lookup? id name = none

theorem Founded.resolves (h : scopes.Founded) : scopes.Resolves := by
  refine ⟨?_, ?_, ?_, ?_, ?_⟩
  · intro id hscope
    exact ⟨_, h.chain hscope⟩
  · intro steps id name hsteps
    cases hscope : scopes.get? id with
    | none =>
      rw [lookup?_missing hscope, lookupWithin_eq_findSome?, chain_missing hscope]
      rfl
    | some scope =>
      have hself : (scopes.get? id).isSome = true := by
        rw [hscope]
        rfl
      have hchain := h.chain hself
      rw [hchain.lookup?_eq h, hchain.lookupWithin_eq (Nat.le_trans (hchain.length_le h) hsteps)]
  · intro id ids name value hchain
    rw [hchain.lookup?_eq h, List.findSome?_eq_some_iff]
  · intro id ids name hchain
    rw [hchain.lookup?_eq h, List.findSome?_eq_none_iff]
  · intro id name hscope
    exact lookup?_missing hscope name

/-! ### A further variable -/

/-- From a scope a declaration is seen if its scope is on the chain with no declaration of the name
    before it. -/
def Sees (scopes : Scopes) (inner id : ScopeId) (name : String) : Prop :=
  ∃ front behind, Chain scopes inner (front ++ id :: behind) ∧
    ∀ nearer ∈ front, scopes.own? nearer name = none

/-- What is asked first answers, if nothing before it does unless with the same. -/
theorem findSome?_of_first {answer : ScopeId → Option ValueId} (hid : answer id = some value)
    (hfront : ∀ nearer ∈ front, answer nearer = none ∨ answer nearer = some value) :
    (front ++ id :: behind).findSome? answer = some value := by
  induction front with
  | nil => rw [List.nil_append, List.findSome?_cons, hid]
  | cons nearer front ih =>
    rw [List.forall_mem_cons] at hfront
    rw [List.cons_append, List.findSome?_cons]
    rcases hfront.1 with hnone | hsome
    · rw [hnone]
      exact ih hfront.2
    · rw [hsome]

theorem findSome?_congr {answer other : ScopeId → Option ValueId}
    (h : ∀ outer ∈ ids, answer outer = other outer) :
    ids.findSome? answer = ids.findSome? other := by
  induction ids with
  | nil => rfl
  | cons outer ids ih =>
    rw [List.forall_mem_cons] at h
    rw [List.findSome?_cons, List.findSome?_cons, h.1, ih h.2]

section Variable

variable {scope : Scope} (hfounded : scopes.Founded) (hscope : scopes.get? id = some scope)
  (hnone : scopes.own? id name = none)

include hfounded hscope hnone

theorem lookup?_withVariable_seen (h : scopes.Sees inner id name) (value : ValueId) :
    (scopes.withVariable id name value).lookup? inner name = some value := by
  obtain ⟨front, behind, hchain, hfront⟩ := h
  have hremain := Remain.withVariable hscope hnone value
  rw [(hremain.chain hchain).lookup?_eq (hfounded.withVariable id name value)]
  apply findSome?_of_first
  · rw [own?_withVariable name value hscope, if_pos ⟨rfl, rfl⟩]
  · intro nearer hnearer
    rw [own?_withVariable name value hscope]
    split
    · exact Or.inr rfl
    · exact Or.inl (hfront nearer hnearer)

theorem lookup?_withVariable_unseen {key : String}
    (h : ¬(key = name ∧ scopes.Sees inner id name)) (value : ValueId) :
    (scopes.withVariable id name value).lookup? inner key = scopes.lookup? inner key := by
  have hremain := Remain.withVariable hscope hnone value
  cases hinner : scopes.get? inner with
  | none =>
    have hmissing : (scopes.withVariable id name value).get? inner = none := by
      rw [get?_withVariable, hinner]
      rfl
    rw [lookup?_missing hinner, lookup?_missing hmissing]
  | some _ =>
    have hself : (scopes.get? inner).isSome = true := by
      rw [hinner]
      rfl
    have hchain := hfounded.chain hself
    rw [hchain.lookup?_eq hfounded,
      (hremain.chain hchain).lookup?_eq (hfounded.withVariable id name value)]
    have hother : ∀ outer, ¬(outer = id ∧ key = name) →
        (scopes.withVariable id name value).own? outer key = scopes.own? outer key := by
      intro outer houter
      rw [own?_withVariable name value hscope, if_neg houter]
    by_cases hid : key = name ∧ id ∈ scopes.chain inner
    · -- the first scope on the chain that declares the name comes before the given one
      obtain ⟨rfl, hid⟩ := hid
      obtain ⟨front, behind, hids, hfresh⟩ := List.eq_append_cons_of_mem hid
      rw [hids] at hchain ⊢
      have hdeclared : ∃ nearer ∈ front, scopes.own? nearer key ≠ none := by
        by_contra hall
        push Not at hall
        exact h ⟨rfl, front, behind, hchain, hall⟩
      have hfront : front.findSome? ((scopes.withVariable id key value).own? · key) =
          front.findSome? (scopes.own? · key) := by
        apply findSome?_congr
        intro nearer hnearer
        apply hother
        rintro ⟨rfl, -⟩
        exact hfresh hnearer
      have hsome : (front.findSome? (scopes.own? · key)).isSome = true := by
        rw [List.findSome?_isSome_iff]
        obtain ⟨nearer, hnearer, hne⟩ := hdeclared
        exact ⟨nearer, hnearer, Option.isSome_iff_ne_none.2 hne⟩
      rw [List.findSome?_append, List.findSome?_append, hfront, Option.or_of_isSome hsome,
        Option.or_of_isSome hsome]
    · apply findSome?_congr
      intro outer houter
      apply hother
      rintro ⟨rfl, hkey⟩
      exact hid ⟨hkey, houter⟩

end Variable

end Scopes

open Scopes

/-! ### Calls -/

/-- A call on the scopes of a file, or another use of the store, after which it is the given one. -/
inductive Call where
  | register (id : ScopeId) (parent : Option ScopeId)
  | declare (id : ScopeId) (name : String)
  | work (store : Store)

structure Naming where
  scopes : Scopes
  store : Store

namespace Naming

def start (store : Store) : Naming := ⟨.empty, store⟩

/-- The value of a variable that is declared, be it for the first time or not. -/
def declared? (naming : Naming) (id : ScopeId) (name : String) : Option ValueId :=
  (naming.scopes.declare naming.store id name).1

def step (naming : Naming) : Call → Naming
  | .register id parent => ⟨naming.scopes.register id parent, naming.store⟩
  | .declare id name =>
    let answer := naming.scopes.declare naming.store id name
    ⟨answer.2.1, answer.2.2⟩
  | .work store => ⟨naming.scopes, store⟩

/-- What calls make of the scopes and the store, one after the other. -/
def run (naming : Naming) (calls : List Call) : Naming := calls.foldl step naming

/-- A scope that is registered for the first time needs its parent registered, and no use of the
    store takes a value away. -/
def Allows (naming : Naming) : Call → Prop
  | .register id parent => (naming.scopes.get? id).isSome = true ∨
      ∀ outer, parent = some outer → (naming.scopes.get? outer).isSome = true
  | .declare _ _ => True
  | .work store => naming.store.values.size ≤ store.values.size

/-- Every call is allowed when it is made. -/
def AllowsAll (naming : Naming) : List Call → Prop
  | [] => True
  | call :: calls => naming.Allows call ∧ (naming.step call).AllowsAll calls

variable {naming : Naming} {call : Call} {calls : List Call} {id inner : ScopeId}
  {name key : String} {value : ValueId}

/-! ### Declaring -/

theorem declared?_missing (hscope : naming.scopes.get? id = none) (name : String) :
    naming.declared? id name = none ∧ naming.step (.declare id name) = naming := by
  unfold declared? step
  dsimp only
  rw [declare_missing _ _ hscope]
  exact ⟨rfl, rfl⟩

theorem declared?_present (hown : naming.scopes.own? id name = some value) :
    naming.declared? id name = some value ∧ naming.step (.declare id name) = naming := by
  unfold declared? step
  dsimp only
  rw [declare_present _ hown]
  exact ⟨rfl, rfl⟩

theorem declared?_absent {scope : Scope} (hscope : naming.scopes.get? id = some scope)
    (hown : naming.scopes.own? id name = none) :
    naming.declared? id name = some naming.store.newValue.1 ∧
      naming.step (.declare id name) =
        ⟨naming.scopes.withVariable id name naming.store.newValue.1, naming.store.newValue.2⟩ := by
  unfold declared? step
  dsimp only
  rw [declare_absent _ hscope hown]
  exact ⟨rfl, rfl⟩

/-- There are three cases of a declaration. -/
theorem declare_cases (naming : Naming) (id : ScopeId) (name : String) :
    naming.scopes.get? id = none ∨ (∃ value, naming.scopes.own? id name = some value) ∨
      ∃ scope, naming.scopes.get? id = some scope ∧ naming.scopes.own? id name = none := by
  cases hscope : naming.scopes.get? id with
  | none => exact Or.inl rfl
  | some scope =>
    cases hown : naming.scopes.own? id name with
    | some value => exact Or.inr (Or.inl ⟨value, rfl⟩)
    | none => exact Or.inr (Or.inr ⟨scope, rfl, rfl⟩)

/-- What a declaration gives is what the scope declares from then on. -/
theorem own?_declare (h : naming.declared? id name = some value) :
    (naming.step (.declare id name)).scopes.own? id name = some value := by
  rcases naming.declare_cases id name with hscope | ⟨held, hown⟩ | ⟨scope, hscope, hown⟩
  · rw [(declared?_missing hscope name).1] at h
    cases h
  · obtain ⟨hdeclared, hstep⟩ := declared?_present hown
    rw [hstep, hown, ← hdeclared, h]
  · obtain ⟨hdeclared, hstep⟩ := declared?_absent hscope hown
    rw [hstep, own?_withVariable name _ hscope, if_pos ⟨rfl, rfl⟩, ← hdeclared, h]

/-! ### What every call keeps -/

/-- Scopes in the order of their nesting, with variables of values that are in the store, each
    another's. -/
structure Sound (naming : Naming) : Prop where
  founded : naming.scopes.Founded
  stored : ∀ id name value, naming.scopes.own? id name = some value →
    value.index < naming.store.values.size
  distinct : ∀ id name other key value, naming.scopes.own? id name = some value →
    naming.scopes.own? other key = some value → other = id ∧ key = name

theorem sound_start (store : Store) : (start store).Sound := by
  refine ⟨founded_empty, ?_, ?_⟩
  · intro id name value hown
    cases hown
  · intro id name other key value hown hother
    cases hown

theorem Sound.step (h : naming.Sound) (hcall : naming.Allows call) : (naming.step call).Sound := by
  cases call with
  | register id parent =>
    refine ⟨h.founded.register id parent hcall, ?_, ?_⟩
    · intro owner name value hown
      exact h.stored owner name value ((own?_register ..).symm.trans hown)
    · intro owner name other key value hown hother
      exact h.distinct owner name other key value ((own?_register ..).symm.trans hown)
        ((own?_register ..).symm.trans hother)
  | work store =>
    refine ⟨h.founded, ?_, h.distinct⟩
    intro id name value hown
    exact Nat.lt_of_lt_of_le (h.stored id name value hown) hcall
  | declare id name =>
    rcases naming.declare_cases id name with hscope | ⟨held, hown⟩ | ⟨scope, hscope, hown⟩
    · rwa [(declared?_missing hscope name).2]
    · rwa [(declared?_present hown).2]
    · rw [(declared?_absent hscope hown).2]
      -- the value of the new variable lies behind those of all others
      have hnew : naming.store.newValue.1.index = naming.store.values.size := rfl
      have hsize : naming.store.newValue.2.values.size = naming.store.values.size + 1 :=
        Store.values_size_newValue
      have hcases : ∀ owner key value,
          (naming.scopes.withVariable id name naming.store.newValue.1).own? owner key =
            some value →
          (owner = id ∧ key = name ∧ value = naming.store.newValue.1) ∨
            naming.scopes.own? owner key = some value ∧
              value.index < naming.store.values.size := by
        intro owner key value howner
        rw [own?_withVariable name _ hscope] at howner
        split at howner
        · rename_i hsame
          exact Or.inl ⟨hsame.1, hsame.2, (Option.some.inj howner).symm⟩
        · exact Or.inr ⟨howner, h.stored owner key value howner⟩
      refine ⟨h.founded.withVariable id name _, ?_, ?_⟩
      · intro owner key value howner
        rw [hsize]
        rcases hcases owner key value howner with ⟨-, -, rfl⟩ | ⟨-, hlt⟩
        · omega
        · omega
      · intro owner key other word value howner hother
        rcases hcases owner key value howner with ⟨rfl, rfl, rfl⟩ | ⟨howner, hlt⟩
        · rcases hcases other word _ hother with ⟨rfl, rfl, -⟩ | ⟨-, hlt⟩
          · exact ⟨rfl, rfl⟩
          · omega
        · rcases hcases other word _ hother with ⟨-, -, rfl⟩ | ⟨hother, -⟩
          · omega
          · exact h.distinct owner key other word value howner hother

theorem Sound.run (h : naming.Sound) (hcalls : naming.AllowsAll calls) :
    (naming.run calls).Sound := by
  induction calls generalizing naming with
  | nil => exact h
  | cons call calls ih => exact ih (h.step hcalls.1) hcalls.2

theorem remain_step (naming : Naming) (call : Call) :
    naming.scopes.Remain (naming.step call).scopes := by
  cases call with
  | register id parent => exact .register naming.scopes id parent
  | work store => exact .refl naming.scopes
  | declare id name =>
    rcases naming.declare_cases id name with hscope | ⟨held, hown⟩ | ⟨scope, hscope, hown⟩
    · rw [(declared?_missing hscope name).2]
      exact .refl naming.scopes
    · rw [(declared?_present hown).2]
      exact .refl naming.scopes
    · rw [(declared?_absent hscope hown).2]
      exact .withVariable hscope hown _

theorem remain_run (naming : Naming) (calls : List Call) :
    naming.scopes.Remain (naming.run calls).scopes := by
  induction calls generalizing naming with
  | nil => exact .refl naming.scopes
  | cons call calls ih => exact (naming.remain_step call).trans (ih (naming.step call))

/-! ### What a declaration does -/

/-- A declaration gives a value just where there is such a scope. However often scopes are
    registered and variables declared from then on, the same declaration gives the same value and
    every other another. What a look-up finds changes only for the name, and where the declaration
    is seen: there it finds the value. -/
structure Declares (naming : Naming) (id : ScopeId) (name : String) : Prop where
  given : (naming.declared? id name).isSome = (naming.scopes.get? id).isSome
  refused : naming.scopes.get? id = none → naming.step (.declare id name) = naming
  same : ∀ value after, naming.declared? id name = some value →
    (naming.step (.declare id name)).AllowsAll after →
      let later := (naming.step (.declare id name)).run after
      later.declared? id name = some value ∧ later.scopes.own? id name = some value
  exclusive : ∀ value after other key, naming.declared? id name = some value →
    (naming.step (.declare id name)).AllowsAll after →
      let later := (naming.step (.declare id name)).run after
      later.declared? other key = some value → other = id ∧ key = name
  seen : ∀ inner, naming.scopes.Sees inner id name →
    (naming.step (.declare id name)).scopes.lookup? inner name = naming.declared? id name
  unseen : ∀ inner key, ¬(key = name ∧ naming.scopes.Sees inner id name) →
    (naming.step (.declare id name)).scopes.lookup? inner key = naming.scopes.lookup? inner key

/-- A value that a declaration gives is that of a variable, or the next of the store. -/
theorem declared?_cases (h : naming.declared? id name = some value) :
    naming.scopes.own? id name = some value ∨ value.index = naming.store.values.size := by
  rcases naming.declare_cases id name with hscope | ⟨held, hown⟩ | ⟨scope, hscope, hown⟩
  · rw [(declared?_missing hscope name).1] at h
    cases h
  · left
    rwa [hown, ← (declared?_present hown).1]
  · right
    rw [(declared?_absent hscope hown).1] at h
    cases h
    rfl

theorem isSome_declared? (naming : Naming) (id : ScopeId) (name : String) :
    (naming.declared? id name).isSome = (naming.scopes.get? id).isSome := by
  rcases naming.declare_cases id name with hscope | ⟨held, hown⟩ | ⟨scope, hscope, hown⟩
  · rw [(declared?_missing hscope name).1, hscope]
    rfl
  · obtain ⟨scope, hscope, -⟩ := Option.bind_eq_some_iff.1 hown
    rw [(declared?_present hown).1, hscope]
    rfl
  · rw [(declared?_absent hscope hown).1, hscope]
    rfl

theorem lookup?_of_seen (h : naming.Sound) (hseen : naming.scopes.Sees inner id name) :
    (naming.step (.declare id name)).scopes.lookup? inner name = naming.declared? id name := by
  rcases naming.declare_cases id name with hscope | ⟨held, hown⟩ | ⟨scope, hscope, hown⟩
  · obtain ⟨front, behind, hchain, -⟩ := hseen
    have hsome := hchain.isSome_get? id (by simp)
    rw [hscope] at hsome
    cases hsome
  · obtain ⟨hdeclared, hstep⟩ := declared?_present hown
    obtain ⟨front, behind, hchain, hfront⟩ := hseen
    rw [hstep, hdeclared, hchain.lookup?_eq h.founded]
    apply findSome?_of_first hown
    intro nearer hnearer
    exact Or.inl (hfront nearer hnearer)
  · obtain ⟨hdeclared, hstep⟩ := declared?_absent hscope hown
    rw [hstep, hdeclared]
    exact lookup?_withVariable_seen h.founded hscope hown hseen _

theorem lookup?_of_unseen (h : naming.Sound)
    (hunseen : ¬(key = name ∧ naming.scopes.Sees inner id name)) :
    (naming.step (.declare id name)).scopes.lookup? inner key =
      naming.scopes.lookup? inner key := by
  rcases naming.declare_cases id name with hscope | ⟨held, hown⟩ | ⟨scope, hscope, hown⟩
  · rw [(declared?_missing hscope name).2]
  · rw [(declared?_present hown).2]
  · rw [(declared?_absent hscope hown).2]
    exact lookup?_withVariable_unseen h.founded hscope hown hunseen _

theorem Sound.declares (h : naming.Sound) (id : ScopeId) (name : String) :
    naming.Declares id name := by
  have hallowed : naming.Allows (.declare id name) := trivial
  have hnext := h.step hallowed
  have hlater : ∀ value after, naming.declared? id name = some value →
      ((naming.step (.declare id name)).run after).scopes.own? id name = some value := by
    intro value after hvalue
    exact (remain_run _ after).own id name value (own?_declare hvalue)
  refine ⟨isSome_declared? naming id name, ?_, ?_, ?_, ?_, ?_⟩
  · intro hscope
    exact (declared?_missing hscope name).2
  · intro value after hvalue hafter later
    have hown := hlater value after hvalue
    exact ⟨(declared?_present hown).1, hown⟩
  · intro value after other key hvalue hafter later hother
    have hsound := hnext.run hafter
    have hown := hlater value after hvalue
    rcases declared?_cases hother with hheld | hfresh
    · exact hsound.distinct id name other key value hown hheld
    · have hlt := hsound.stored id name value hown
      exact absurd hfresh (Nat.ne_of_lt hlt)
  · intro inner hseen
    exact lookup?_of_seen h hseen
  · intro inner key hunseen
    exact lookup?_of_unseen h hunseen

/-- However scopes were registered and variables declared, with parents before the scopes inside
    them: parents form a forest, look-ups come to an end at the nearest declaration, scopes keep
    their parents and chains whatever is called next, and a declaration gives a variable a value of
    its own for good, which is found just where the declaration is seen. -/
theorem lookup_discipline (store : Store) (calls : List Call)
    (h : (start store).AllowsAll calls) :
    let naming := (start store).run calls
    naming.scopes.Forest ∧ naming.scopes.Resolves ∧
      (∀ id name, naming.Declares id name) ∧
      ∀ after id ids, Chain naming.scopes id ids → Chain (naming.run after).scopes id ids := by
  intro naming
  have hsound : naming.Sound := (sound_start store).run h
  refine ⟨hsound.founded.forest, hsound.founded.resolves, hsound.declares, ?_⟩
  intro after id ids hchain
  exact (naming.remain_run after).chain hchain

/-- A program with a function in it. Both declare a name, with another value made in between, and
    the function is registered once more with itself for a parent. -/
def shadowing : List Call :=
  [.register 1 none, .register 2 (some 1), .declare 1 "x",
    .work (Store.initial.run [.newValue, .newValue]), .declare 2 "x", .register 2 (some 2)]

theorem lookup_discipline_shadowing :
    let naming := (start .initial).run shadowing
    (start .initial).AllowsAll shadowing ∧
      naming.scopes.lookup? 2 "x" = some ⟨2⟩ ∧ naming.declared? 1 "x" = some ⟨0⟩ ∧
      (naming.step (.declare 1 "y")).scopes.lookup? 2 "y" = some ⟨3⟩ ∧
      (naming.step (.declare 1 "x")).scopes.lookup? 2 "x" = some ⟨2⟩ := by
  intro naming
  have hallowed : (start .initial).AllowsAll shadowing := by
    simp only [shadowing, AllowsAll, Allows]
    decide
  obtain ⟨-, hresolves, hdeclares, -⟩ := lookup_discipline .initial shadowing hallowed
  have houter : Chain naming.scopes 1 [1] := .outermost rfl rfl
  have hchain : Chain naming.scopes 2 ([] ++ 2 :: [1]) := .inside rfl rfl houter
  have hinner : naming.scopes.lookup? 2 "x" = some ⟨2⟩ := by
    apply (hresolves.nearest 2 _ "x" ⟨2⟩ hchain).2
    exact ⟨[], 2, [1], rfl, by decide, by simp⟩
  refine ⟨hallowed, hinner, by decide, ?_, ?_⟩
  · rw [(hdeclares 1 "y").seen 2 ⟨[2], [], hchain, by decide⟩]
    decide
  · rw [(hdeclares 1 "x").unseen 2 "x", hinner]
    rintro ⟨-, front, behind, hother, hfront⟩
    -- the function is asked first, and it declares the name
    have hids := hchain.unique hother
    cases front with
    | nil => cases hids
    | cons nearer front =>
      obtain ⟨rfl, -⟩ := List.cons.inj hids
      have hnone := hfront 2 List.mem_cons_self
      revert hnone
      decide

end Naming

end Capabilities.Types
