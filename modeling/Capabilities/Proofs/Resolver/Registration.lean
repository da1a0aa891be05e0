import Capabilities.Proofs.Resolver.Attachment
import Capabilities.Proofs.Resolver.Provision

/-!
# Registering leaves the variables of a file alone

What a file provides is made of new object types. Types are put into their members only, so what
the variables of the file hold afterwards is what inference left them.
-/

namespace Capabilities.Resolver

open Host Script Session Capabilities.Types Capabilities.Module

variable {α β : Type} {locals : Variables} {store before after : Store}

/-! ### What all parts of registering do -/

def fillMember (object : TypeId) (member : Member) : Resolve Unit := do
  let place ← Resolve.onStore (·.ensureMember object member.1)
  match member.2 with
  | some type => Resolve.addType place type
  | none => return ()

/-- A property of steps that a step has if its parts have it. -/
structure Composes (Q : ∀ α : Type, Resolve α → Prop) : Prop where
  bind : ∀ {α β : Type} {step : Resolve α} {rest : α → Resolve β}, Q α step →
    (∀ answer, Q β (rest answer)) → Q β (step >>= rest)
  get : ∀ {β : Type} {rest : Work → Resolve β}, (∀ work, Q β (rest work)) →
    Q β (MonadState.get >>= rest)
  pure : ∀ {α : Type} (answer : α), Q α (Pure.pure answer)

/-- The steps that registering is made of. -/
structure Registers (Q : ∀ α : Type, Resolve α → Prop) (file : String) : Prop
    extends Composes Q where
  object : Q TypeId (Resolve.growing (·.newObject none (some file)))
  fill : ∀ object member, Q Unit (fillMember object member)
  document : ∀ object doc, Q Unit (Resolve.growing fun store => ((), store.setDoc object doc))
  register : ∀ name type, Q Unit (Resolve.remember (·.register name type (some file)))
  warn : ∀ warning, warning.capability? = none → warning ≠ .pathTableUnavailable →
    Q Unit (Resolve.remember (·.warnFile file warning))

section

variable {Q : ∀ α : Type, Resolve α → Prop} {file : String}

theorem Composes.forM_mem {items : List α} {each : α → Resolve Unit} (h : Composes Q)
    (heach : ∀ item ∈ items, Q Unit (each item)) : Q Unit (items.forM each) := by
  induction items with
  | nil => exact h.pure ()
  | cons item rest ih =>
    exact h.bind (heach item List.mem_cons_self) fun _ =>
      ih fun other hother => heach other (List.mem_cons_of_mem _ hother)

theorem Composes.forM {items : List α} {each : α → Resolve Unit} (h : Composes Q)
    (heach : ∀ item, Q Unit (each item)) : Q Unit (items.forM each) :=
  h.forM_mem fun item _ => heach item

namespace Registers

theorem providerObject (h : Registers Q file) (members : List Member) :
    Q TypeId (providerObject file members) := by
  refine h.bind h.object fun object => ?_
  refine h.bind ?_ fun _ => h.pure object
  exact h.forM fun member => h.fill object member

theorem literalMembers (h : Registers Q file) (literal : ObjectLiteral) :
    Q (List Member) (literalMembers file literal) :=
  h.get fun _ => h.pure _

theorem registerMembers (h : Registers Q file) (members : List Member) :
    Q Unit (registerMembers file members) := by
  refine h.forM ?_
  rintro ⟨name, type⟩
  cases type with
  | none => exact h.pure ()
  | some type => exact h.register name type

theorem registerAt (h : Registers Q file) (declared : Option (List String)) (position : Nat)
    (members : List Member) : Q Unit (registerAt file declared position members) := by
  unfold Resolver.registerAt
  split
  · exact h.bind (h.providerObject members) fun object => h.register _ object
  · exact h.warn _ rfl (by rintro ⟨⟩)

theorem registerAll (h : Registers Q file) (declared : Option (List String)) (position : Nat)
    (literals : List ObjectLiteral) : Q Unit (registerAll file declared position literals) := by
  induction literals generalizing position with
  | nil => exact h.pure ()
  | cons literal rest ih =>
    refine h.bind (h.literalMembers literal) fun members => ?_
    split
    · exact h.bind (h.registerMembers members) fun _ => ih position
    · exact h.bind (h.registerAt declared position members) fun _ => ih (position + 1)

theorem registerFrozen (h : Registers Q file) (declared : Option (List String))
    (freeze : FreezeCall) : Q Unit (registerFrozen file declared freeze) := by
  unfold Resolver.registerFrozen
  split
  · exact h.warn _ rfl (by rintro ⟨⟩)
  · refine h.bind (h.literalMembers freeze.literal) fun members => ?_
    refine h.bind (h.providerObject members) fun object => ?_
    refine h.bind (h.get fun _ => h.pure _) fun doc => ?_
    cases doc with
    | none => exact h.register _ object
    | some doc => exact h.bind (h.document object doc) fun _ => h.register _ object
  · exact h.warn _ rfl (by rintro ⟨⟩)

/-- Registering what a file provides does what all its parts do. -/
theorem synthesize (h : Registers Q file) (config : Config) : Q Unit (synthesize config file) := by
  refine h.get fun work => ?_
  split
  · exact h.pure ()
  · exact h.bind (h.registerAll _ 0 _) fun _ => h.forM fun freeze => h.registerFrozen _ freeze

end Registers

end

/-! ### Variables that keep their types -/

/-- The store is sound again, and the variables hold what they held. -/
structure VariablesStay (locals : Variables) (before after : Store) : Prop where
  sound : after.Sound locals
  types : ∀ of value, locals of = some value → after.typesOf value = before.typesOf value

theorem VariablesStay.refl (h : store.Sound locals) : VariablesStay locals store store :=
  ⟨h, fun _ _ _ => rfl⟩

theorem VariablesStay.trans {middle : Store} (h : VariablesStay locals before middle)
    (h' : VariablesStay locals middle after) : VariablesStay locals before after :=
  ⟨h'.sound, fun of value hof => (h'.types of value hof).trans (h.types of value hof)⟩

/-- However a step ends, the variables keep their types. -/
def Spares (locals : Variables) (step : Resolve α) : Prop :=
  ∀ work, work.program.store.Sound locals →
    VariablesStay locals work.program.store (step.runOn work).2.program.store

theorem Spares.bind {step : Resolve α} {rest : α → Resolve β} (h : Spares locals step)
    (hrest : ∀ answer, Spares locals (rest answer)) : Spares locals (step >>= rest) := by
  intro work hsound
  have hstep := h work hsound
  cases hrun : step.runOn work with
  | mk outcome next =>
    rw [hrun] at hstep
    cases outcome with
    | ok answer =>
      rw [runOn_bind hrun]
      exact hstep.trans (hrest answer next hstep.sound)
    | error error =>
      have hbind : (step >>= rest).runOn work = (.error error, next) := run_bind_error hrun
      rw [hbind]
      exact hstep

theorem Spares.get {rest : Work → Resolve β} (h : ∀ work, Spares locals (rest work)) :
    Spares locals (MonadState.get >>= rest) := by
  intro work hsound
  have hget : (MonadState.get : Resolve Work).runOn work = (.ok work, work) := rfl
  rw [runOn_bind hget]
  exact h work work hsound

theorem Spares.pure (answer : α) : Spares locals (Pure.pure answer) :=
  fun _ hsound => .refl hsound

theorem Spares.remember (change : State → State) :
    Spares locals (Resolve.remember change) :=
  fun _ hsound => .refl hsound

/-! ### The steps of registering -/

/-- A type is put into a value that is no variable. -/
theorem VariablesStay.addType {place : Place} {value : ValueId} {type : TypeId}
    (h : store.Sound locals) (hplace : store.place? locals place = some value)
    (hother : ∀ of, place ≠ .ofVariable of) :
    VariablesStay locals store (store.addType value type).2 := by
  obtain ⟨held, hheld⟩ := store.exists_value? (h.placed place value hplace)
  by_cases ht : type.index < store.types.size
  · rw [store.addType_eq ht hheld]
    refine ⟨h.withType ht, ?_⟩
    intro of found hof
    refine Store.typesOf_modifyValue_of_ne ?_
    rintro rfl
    exact hother of (h.distinct place (.ofVariable of) found hplace hof)
  · have hnone : store.type? type = none := by
      rw [← Option.not_isSome_iff_eq_none, store.isSome_type?_iff]
      exact ht
    unfold Store.addType
    rw [hnone]
    exact .refl h

theorem VariablesStay.ensureMember (h : store.Sound locals) (object : TypeId) (name : String) :
    VariablesStay locals store (store.ensureMember object name).2 ∧
      ∀ member, (store.ensureMember object name).1 = .ok member →
        (store.ensureMember object name).2.place? locals (.member object name) =
          some member := by
  cases hobject : store.object? object with
  | none =>
    unfold Store.ensureMember
    rw [hobject]
    refine ⟨.refl h, ?_⟩
    rintro member ⟨⟩
  | some found =>
    cases hmember : found.members.get? name with
    | some member =>
      rw [store.ensureMember_present hobject hmember]
      refine ⟨.refl h, ?_⟩
      rintro _ ⟨⟩
      simp only [Store.place?, Store.member?, hobject, Option.bind_some, hmember]
    | none =>
      rw [store.ensureMember_absent hobject hmember]
      refine ⟨⟨h.addMember name hobject, fun _ value _ =>
        Store.typesOf_addMember object found name value⟩, ?_⟩
      rintro _ ⟨⟩
      exact (Store.place?_addMember hobject _).trans (if_pos rfl)

theorem store_addType (work : Work) (value : ValueId) (type : TypeId) :
    ((Resolve.addType value type).runOn work).2.program.store =
      (work.program.store.addType value type).2 := by
  have hrun := run_onStore (·.addType value type) work
  cases hadd : work.program.store.addType value type with
  | mk outcome next =>
    simp only [hadd] at hrun
    cases outcome with
    | ok answer =>
      have hbind : (Resolve.addType value type).runOn work = (.ok (), work.withStore next) :=
        runOn_bind hrun
      rw [hbind]
      rfl
    | error error =>
      have hbind : (Resolve.addType value type).runOn work = (.error error, work.withStore next) :=
        run_bind_error hrun
      rw [hbind]
      rfl

theorem spares_fillMember (object : TypeId) (member : Member) :
    Spares locals (fillMember object member) := by
  intro work hsound
  obtain ⟨hstay, hplaced⟩ := VariablesStay.ensureMember hsound object member.1
  have hrun := run_onStore (·.ensureMember object member.1) work
  cases hensure : work.program.store.ensureMember object member.1 with
  | mk outcome next =>
    simp only [hensure] at hrun hstay hplaced
    cases outcome with
    | error error =>
      have hbind : (fillMember object member).runOn work = (.error error, work.withStore next) :=
        run_bind_error hrun
      rw [hbind]
      exact hstay
    | ok place =>
      have hbind : (fillMember object member).runOn work = (match member.2 with
          | some type => Resolve.addType place type
          | none => return ()).runOn (work.withStore next) := runOn_bind hrun
      rw [hbind]
      cases member.2 with
      | none => exact hstay
      | some type =>
        rw [store_addType]
        exact hstay.trans (.addType hstay.sound (hplaced place rfl) (by rintro of ⟨⟩))

theorem registers_spares (locals : Variables) (file : String) :
    Registers (fun _ step => Spares locals step) file := by
  constructor
  · exact ⟨fun h hrest => h.bind hrest, fun h => .get h, fun answer => .pure answer⟩
  · exact fun _ hsound => ⟨hsound.newObject none (some file), fun _ _ _ => rfl⟩
  · exact fun object member => spares_fillMember object member
  · exact fun object doc _ hsound => ⟨hsound.setDoc object doc, fun _ _ _ => rfl⟩
  · exact fun name type => .remember _
  · exact fun warning _ _ => .remember _

/-- What a variable of a file holds is what inference left it. -/
theorem typesOf_provision [Parser] {file text name : String} {scope : ScopeId} {value : ValueId}
    {inference : Inference.FileInference} {store : Store} (config : Config)
    (hown : Inference.inferFile file (parse text) .initial = (.ok inference, store))
    (hvalue : inference.scopes.own? scope name = some value) :
    (provision config file text).store.typesOf value = store.typesOf value := by
  obtain ⟨found, own, whole, hfound, _, hhoused⟩ :=
    Inference.inferFile_sound Store.Sound.initial file (parse text)
  rw [hown] at hfound
  cases hfound
  have hstay := (registers_spares (inference.locals file) file).synthesize config
    (.alone (SourceFile.ofText file text) inference store) hhoused.inside.sound
  have hprovision : (provision config file text).store =
      ((synthesize config file).runOn
        (.alone (SourceFile.ofText file text) inference store)).2.program.store := by
    have hroot := SourceFile.root_ofText file text
    unfold provision
    simp only [hroot, hown]
  rw [hprovision]
  refine hstay.types ⟨file, scope, name⟩ value ?_
  unfold Inference.FileInference.locals
  rw [if_pos rfl]
  exact hvalue

end Capabilities.Resolver
