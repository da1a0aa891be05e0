import Capabilities.Proofs.Module.Calls
import Capabilities.Proofs.Resolver.Registration
import Capabilities.Proofs.Resolver.Validity
import Capabilities.Proofs.Script.Grammar.Statement
import Capabilities.Proofs.Types.Additions

/-!
# What each call of an entry function provides

A call that provides something has one `Effect`, which is known before any of them is carried out:
what the members of its literal are and at which position among the unkeyed objects it stands are
read off the script and the store that inference left, since providing only adds to the store.
Registering what a file provides comes to the effects of its calls one after the other, those that
register first.

A call in the bodies of several entry functions has its effect once for each of them. Where no entry
function lies in another one, each call has one effect and a position of its own.
-/

namespace Capabilities.Resolver

open Host Script Session Capabilities.Types Capabilities.Module

/-! ### Effects -/

/-- What a call does: each member of an object is provided under its own name, or a new object with
    these members is provided under one name, or there is something to be warned about. -/
inductive Effect where
  | members (list : List Member)
  | whole (name : String) (list : List Member) (doc : Option String)
  | warned (warning : Warning)
deriving DecidableEq, Repr

namespace Effect

/-- What an effect makes of the resolver's memory and of the number of types. Members without a
    type are not provided, and a new object gets the next id. -/
def apply (file : String) : State × Nat → Effect → State × Nat
  | (state, free), .members list =>
    (list.foldl (fun state member =>
      member.2.elim state fun type => state.register member.1 type (some file)) state, free)
  | (state, free), .whole name _ _ => (state.register name ⟨free⟩ (some file), free + 1)
  | (state, free), .warned warning => (state.warnFile file warning, free)

def names : Effect → List String
  | .members list => (list.filter (·.2.isSome)).map Prod.fst
  | .whole name _ _ => [name]
  | .warned _ => []

/-- The members and the documentation of the new object, if there is one. -/
def object? : Effect → Option (List Member × Option String)
  | .whole _ list doc => some (list, doc)
  | _ => none

end Effect

/-- The effect of registering an object with these members. `position` is the number of unkeyed
    objects before it. -/
def attribution (declared : Option (List String)) (position : Nat) (literal : ObjectLiteral)
    (members : List Member) : Effect :=
  if isKeyed declared literal then .members members
  else
    match declared.bind (·[position]?) with
    | some name => .whole name members none
    | none => .warned (.unattributedRegistration position)

/-- The effects of registering objects in order, behind `position` unkeyed ones. -/
def attributions (declared : Option (List String)) (read : ObjectLiteral → List Member)
    (position : Nat) (literals : List ObjectLiteral) : List Effect :=
  literals.mapIdx fun index literal =>
    attribution declared (position + (literals.take index).countP (!isKeyed declared ·)) literal
      (read literal)

def freezing (declared : Option (List String)) (members : List Member) (doc : Option String) :
    Effect :=
  match declared with
  | none => .warned .providesUndeclared
  | some [name] => .whole name members doc
  | some names => .warned (.ambiguousFreeze names.length)

/-- The members of an object literal with the first type of each, as inference found them. -/
def Work.membersOf (work : Work) (file : String) (literal : ObjectLiteral) : List Member :=
  literal.keys.map fun key =>
    (key, ((work.program.expression? file literal.id).bind work.program.store.firstType?).bind
      (work.program.store.memberType? · key))

/-- The documentation in the comment block nearest before a place. -/
def Work.docBefore (work : Work) (file : String) (offset : Nat) : Option String :=
  (work.program.commentsBefore file offset).getLast?.bind Docs.describe

/-- The calls that a script may provide something with. -/
def providerCallsOf (config : Config) (root : Node) : List Node :=
  providerCalls (entries config.entryNames root)

/-- The effects of the calls of a script, those that register first. -/
def Work.effects (work : Work) (config : Config) (file : String) (root : Node) : List Effect :=
  let declared := (declaration .provides config.entryNames root).names?
  attributions declared (work.membersOf file) 0
      ((providerCallsOf config root).filterMap registration?)
    ++ ((providerCallsOf config root).filterMap freeze?).map fun freeze =>
      freezing declared (work.membersOf file freeze.literal) (work.docBefore file freeze.start)

/-! ### What effects make of the work -/

/-- The work after effects: they were carried out in order on the resolver's memory, the new objects
    stand behind the types that were there, and nothing else has changed. -/
structure Attributes (file : String) (effects : List Effect) (before after : Work) : Prop where
  memory : (after.state, after.program.store.types.size) =
    effects.foldl (Effect.apply file) (before.state, before.program.store.types.size)
  objects : ∀ index members doc, (effects.filterMap Effect.object?)[index]? = some (members, doc) →
    after.program.store.Consists ⟨before.program.store.types.size + index⟩ members doc (some file)
  gains : before.program.store.Gains after.program.store
  program : after.program = before.program.withStore after.program.store
  table : after.table = before.table

variable {file : String} {work before middle after : Work} {effect : Effect}
  {effects first second : List Effect} {members : List Member} {declared : Option (List String)}

theorem snd_foldl_apply (file : String) (effects : List Effect) (state : State) (free : Nat) :
    (effects.foldl (Effect.apply file) (state, free)).2 =
      free + (effects.filterMap Effect.object?).length := by
  induction effects generalizing state free with
  | nil => rfl
  | cons effect rest ih =>
    rw [List.foldl_cons]
    cases effect with
    | members list => exact ih _ _
    | whole name list doc =>
      refine (ih _ _).trans ?_
      change free + 1 + (rest.filterMap Effect.object?).length =
        free + ((rest.filterMap Effect.object?).length + 1)
      omega
    | warned warning => exact ih _ _

theorem Attributes.types_size (h : Attributes file effects before after) :
    after.program.store.types.size =
      before.program.store.types.size + (effects.filterMap Effect.object?).length := by
  rw [← snd_foldl_apply file, ← h.memory]

theorem Attributes.refl (file : String) (work : Work) : Attributes file [] work work :=
  ⟨rfl, fun _ _ _ hindex => (by cases hindex), .refl _, rfl, rfl⟩

/-- Effects one after the other. The objects that the first ones made stay as they are. -/
theorem Attributes.append (h : Attributes file first before middle) (hmiddle : middle.Valid)
    (h' : Attributes file second middle after) :
    Attributes file (first ++ second) before after := by
  refine ⟨?_, ?_, h.gains.trans h'.gains, ?_, h'.table.trans h.table⟩
  · rw [List.foldl_append, ← h.memory, ← h'.memory]
  · intro index members doc hindex
    rw [List.filterMap_append, List.getElem?_append] at hindex
    split at hindex
    · exact (h.objects index members doc hindex).mono hmiddle.program.sound h'.gains
    · rename_i hle
      have hobject := h'.objects _ members doc hindex
      rw [h.types_size, Nat.add_assoc, Nat.add_sub_cancel' (Nat.not_lt.1 hle)] at hobject
      exact hobject
  · rw [h'.program, h.program]
    rfl

/-- What is read off the store for a literal is not changed by effects. -/
theorem Attributes.membersOf (h : Attributes file effects before after) (hbefore : before.Valid)
    (literal : ObjectLiteral) : after.membersOf file literal = before.membersOf file literal := by
  have hexpression : after.program.expression? file literal.id =
      before.program.expression? file literal.id := by
    rw [h.program]
    rfl
  unfold Work.membersOf
  rw [hexpression]
  cases hvalue : before.program.expression? file literal.id with
  | none => rfl
  | some value =>
    rw [Option.bind_some, Option.bind_some,
      h.gains.firstType? (hbefore.program.noted file literal.id value hvalue)]
    cases hobject : before.program.store.firstType? value with
    | none => rfl
    | some object =>
      have hlt := hbefore.program.sound.lt_of_firstType? hobject
      refine List.map_congr_left fun key _ => congrArg (Prod.mk key) ?_
      exact h.gains.memberType? hbefore.program.sound hlt key

theorem Attributes.docBefore (h : Attributes file effects before after) (offset : Nat) :
    after.docBefore file offset = before.docBefore file offset := by
  unfold Work.docBefore
  rw [h.program]
  rfl

/-! ### The steps of registering -/

theorem membersOf_within (file : String) (hvalid : work.Valid) (literal : ObjectLiteral) :
    Located.Within work.program.store (work.membersOf file literal) := by
  obtain ⟨answer, next, hrun, -, -, hwithin⟩ :=
    succeeds_literalMembers file literal work hvalid (.refl _)
  cases hrun
  exact hwithin

theorem runOn_registerMembers (file : String) (members : List Member) (work : Work) :
    (registerMembers file members).runOn work =
      (.ok (), { work with
        state := (Effect.apply file (work.state, 0) (.members members)).1 }) := by
  induction members generalizing work with
  | nil => rfl
  | cons member rest ih =>
    obtain ⟨name, type⟩ := member
    cases type with
    | none => exact (runOn_bind (rfl : (pure () : Resolve Unit).runOn work = _)).trans (ih work)
    | some type => exact (runOn_bind rfl).trans (ih _)

theorem attributes_registerMembers (file : String) (members : List Member) (work : Work) :
    ∃ next, (registerMembers file members).runOn work = (.ok (), next) ∧
      Attributes file [.members members] work next :=
  ⟨_, runOn_registerMembers file members work, rfl, fun _ _ _ hindex => (by cases hindex),
    .refl _, rfl, rfl⟩

theorem attributes_warnFile (file : String) (warning : Warning) (work : Work) :
    ∃ next, (Resolve.remember (·.warnFile file warning)).runOn work = (.ok (), next) ∧
      Attributes file [.warned warning] work next :=
  ⟨_, rfl, rfl, fun _ _ _ hindex => (by cases hindex), .refl _, rfl, rfl⟩

/-- Members are given to the new object one after the other: induction on those that are left. -/
theorem runOn_fillMembers (work : Work) {locals : Variables} {origin : Option String} {base : Store}
    {done rest : List Member} (hbase : base.Sound locals)
    (h : Store.Filling origin base work.program.store done) (hrest : Located.Within base rest) :
    ∃ store, (rest.forM (fillMember ⟨base.types.size⟩)).runOn work =
        (.ok (), work.withStore store) ∧
      Store.Filling origin base store (done ++ rest) := by
  induction rest generalizing work done with
  | nil => exact ⟨work.program.store, rfl, by rwa [List.append_nil]⟩
  | cons member rest ih =>
    obtain ⟨name, type⟩ := member
    obtain ⟨place, named, hensure, hmember, hnamed⟩ := h.ensureMember name
    have hnext : ∃ store, (fillMember ⟨base.types.size⟩ (name, type)).runOn work =
        (.ok (), work.withStore store) ∧
        Store.Filling origin base store (done ++ [(name, type)]) := by
      have hplace : (Resolve.onStore (·.ensureMember ⟨base.types.size⟩ name)).runOn work =
          (.ok place, work.withStore named) := by
        rw [run_onStore, hensure]
      cases type with
      | none => exact ⟨named, runOn_bind hplace, hnamed⟩
      | some type =>
        have htype := (hrest _ List.mem_cons_self).2 type rfl
        obtain ⟨added, hadd, hfilled⟩ := hnamed.addType hbase hmember htype
        have hgiven : (Resolve.onStore (·.addType place type)).runOn (work.withStore named) =
            (.ok added, work.withStore (named.modifyValue place (Store.withType type))) := by
          rw [run_onStore, store_withStore, hadd]
          rfl
        exact ⟨_, (runOn_bind hplace).trans (runOn_bind hgiven), hfilled⟩
    obtain ⟨filled, hrun, hfilled⟩ := hnext
    obtain ⟨store, hlast, hall⟩ := ih (work.withStore filled) hfilled
      fun other hother => hrest other (List.mem_cons_of_mem _ hother)
    refine ⟨store, (runOn_bind hrun).trans hlast, ?_⟩
    rwa [List.append_assoc] at hall

theorem runOn_providerObject (file : String) (hvalid : work.Valid)
    (hmembers : Located.Within work.program.store members) :
    ∃ store, (providerObject file members).runOn work =
        (.ok ⟨work.program.store.types.size⟩, work.withStore store) ∧
      Store.Filling (some file) work.program.store store members := by
  have hnew : (Resolve.growing (·.newObject none (some file))).runOn work =
      (.ok ⟨work.program.store.types.size⟩,
        work.withStore (work.program.store.newObject none (some file)).2) := rfl
  obtain ⟨store, hrun, hfilled⟩ := runOn_fillMembers
    (work.withStore (work.program.store.newObject none (some file)).2)
    hvalid.program.sound (.newObject work.program.store (some file)) hmembers
  exact ⟨store, (runOn_bind hnew).trans (runOn_bind hrun), hfilled⟩

/-- A new object is provided under one name. -/
theorem attributes_whole {store : Store} {doc : Option String}
    (name : String) (hsize : store.types.size = work.program.store.types.size + 1)
    (hgains : work.program.store.Gains store)
    (hconsists : store.Consists ⟨work.program.store.types.size⟩ members doc (some file)) :
    ∃ next, (Resolve.remember (·.register name ⟨work.program.store.types.size⟩
        (some file))).runOn (work.withStore store) = (.ok (), next) ∧
      Attributes file [.whole name members doc] work next := by
  refine ⟨_, rfl, ?_, ?_, hgains, rfl, rfl⟩
  · change (_, store.types.size) = _
    rw [hsize]
    rfl
  · intro index list other hindex
    cases index with
    | zero =>
      cases hindex
      exact hconsists
    | succ index => cases hindex

theorem attributes_registerAt (file : String) (position : Nat) (hvalid : work.Valid)
    {literal : ObjectLiteral} (hmembers : Located.Within work.program.store members)
    (hkeyed : ¬isKeyed declared literal = true) :
    ∃ next, (registerAt file declared position members).runOn work = (.ok (), next) ∧
      Attributes file [attribution declared position literal members] work next := by
  unfold registerAt attribution
  rw [if_neg hkeyed]
  cases declared.bind (·[position]?) with
  | some name =>
    obtain ⟨store, hrun, hfilled⟩ := runOn_providerObject file hvalid hmembers
    dsimp only
    rw [runOn_bind hrun]
    exact attributes_whole name hfilled.types_size hfilled.gains hfilled.consists
  | none => exact attributes_warnFile file _ work

theorem attributions_cons (declared : Option (List String)) (read : ObjectLiteral → List Member)
    (position : Nat) (literal : ObjectLiteral) (rest : List ObjectLiteral) :
    attributions declared read position (literal :: rest) =
      attribution declared position literal (read literal) ::
        attributions declared read
          (if isKeyed declared literal then position else position + 1) rest := by
  unfold attributions
  rw [List.mapIdx_cons]
  refine congr (congrArg List.cons ?_) ?_
  · simp
  · refine List.ext_getElem? fun index => ?_
    simp only [List.getElem?_mapIdx, List.take_succ_cons, List.countP_cons]
    cases isKeyed declared literal <;> simp [Nat.add_assoc, Nat.add_comm 1]

/-- What is registered for one literal. -/
def registerOne (file : String) (declared : Option (List String)) (position : Nat)
    (literal : ObjectLiteral) (members : List Member) : Resolve Unit :=
  if isKeyed declared literal then registerMembers file members
  else registerAt file declared position members

theorem runOn_registerAll_cons (file : String) (declared : Option (List String)) (position : Nat)
    (literal : ObjectLiteral) (rest : List ObjectLiteral) (work : Work) :
    (registerAll file declared position (literal :: rest)).runOn work =
      (registerOne file declared position literal (work.membersOf file literal) >>= fun _ =>
        registerAll file declared (if isKeyed declared literal then position else position + 1)
          rest).runOn work := by
  have hread : (literalMembers file literal).runOn work =
      (.ok (work.membersOf file literal), work) := rfl
  rw [registerAll, runOn_bind hread]
  unfold registerOne
  split <;> rfl

theorem attributes_registerOne (file : String) (declared : Option (List String))
    (hvalid : work.Valid) (position : Nat) (literal : ObjectLiteral) :
    ∃ next, (registerOne file declared position literal (work.membersOf file literal)).runOn work =
        (.ok (), next) ∧
      Attributes file [attribution declared position literal (work.membersOf file literal)]
        work next ∧ next.Valid := by
  have hwithin := membersOf_within file hvalid literal
  unfold registerOne
  by_cases hkeyed : isKeyed declared literal = true
  · obtain ⟨_, next, hrun, hnext, -, -⟩ :=
      succeeds_registerMembers file hwithin work hvalid (.refl _)
    obtain ⟨_, hrun', hattributes⟩ := attributes_registerMembers file
      (work.membersOf file literal) work
    cases hrun.symm.trans hrun'
    unfold attribution
    rw [if_pos hkeyed, if_pos hkeyed]
    exact ⟨next, hrun, hattributes, hnext⟩
  · obtain ⟨_, next, hrun, hnext, -, -⟩ :=
      succeeds_registerAt file declared position hwithin work hvalid (.refl _)
    obtain ⟨_, hrun', hattributes⟩ := attributes_registerAt file position hvalid hwithin
      hkeyed
    cases hrun.symm.trans hrun'
    rw [if_neg hkeyed]
    exact ⟨next, hrun, hattributes, hnext⟩

/-- Registering comes to the effects of what is registered: induction on the literals. What is read
    for the later ones is what is read now, as the effects of the earlier ones only add. -/
theorem attributes_registerAll (file : String) (declared : Option (List String))
    (hvalid : work.Valid) (position : Nat) (literals : List ObjectLiteral) :
    ∃ next, (registerAll file declared position literals).runOn work = (.ok (), next) ∧
      Attributes file (attributions declared (work.membersOf file) position literals) work next ∧
      next.Valid := by
  induction literals generalizing position work with
  | nil => exact ⟨work, rfl, .refl file work, hvalid⟩
  | cons literal rest ih =>
    obtain ⟨middle, hrun, hfirst, hmiddle⟩ := attributes_registerOne file declared hvalid
      position literal
    obtain ⟨next, hrest, hsecond, hnext⟩ := ih hmiddle
      (if isKeyed declared literal then position else position + 1)
    have hreads : middle.membersOf file = work.membersOf file :=
      funext fun literal => hfirst.membersOf hvalid literal
    rw [hreads] at hsecond
    refine ⟨next, ?_, ?_, hnext⟩
    · rw [runOn_registerAll_cons, runOn_bind hrun]
      exact hrest
    · rw [attributions_cons]
      exact hfirst.append hmiddle hsecond

theorem attributes_registerFrozen (file : String) (declared : Option (List String))
    (hvalid : work.Valid) (freeze : FreezeCall) :
    ∃ next, (registerFrozen file declared freeze).runOn work = (.ok (), next) ∧
      Attributes file [freezing declared (work.membersOf file freeze.literal)
        (work.docBefore file freeze.start)] work next := by
  unfold registerFrozen freezing
  match declared with
  | none => exact attributes_warnFile file _ work
  | some [name] =>
    have hread : (literalMembers file freeze.literal).runOn work =
        (.ok (work.membersOf file freeze.literal), work) := rfl
    obtain ⟨store, hrun, hfilled⟩ :=
      runOn_providerObject file hvalid (membersOf_within file hvalid freeze.literal)
    have hdoc : (leadingDoc file freeze.start).runOn (work.withStore store) =
        (.ok (work.docBefore file freeze.start), work.withStore store) := rfl
    dsimp only
    rw [runOn_bind hread, runOn_bind hrun, runOn_bind hdoc]
    cases work.docBefore file freeze.start with
    | none =>
      exact attributes_whole name hfilled.types_size
        hfilled.gains hfilled.consists
    | some doc =>
      have hset : (Resolve.growing fun store =>
            ((), store.setDoc ⟨work.program.store.types.size⟩ doc)).runOn (work.withStore store) =
          (.ok (), work.withStore (store.setDoc ⟨work.program.store.types.size⟩ doc)) := rfl
      rw [runOn_bind hset]
      refine attributes_whole name ?_
        (hfilled.gains.setDoc (Nat.le_refl _) doc) (hfilled.consists.setDoc doc)
      rw [Store.types_size_setDoc]
      exact hfilled.types_size
  | some [] => exact attributes_warnFile file _ work
  | some (_ :: _ :: _) => exact attributes_warnFile file _ work

theorem attributes_freezes (file : String) (declared : Option (List String))
    (hvalid : work.Valid) (freezes : List FreezeCall) :
    ∃ next, (freezes.forM (registerFrozen file declared)).runOn work = (.ok (), next) ∧
      Attributes file (freezes.map fun freeze =>
        freezing declared (work.membersOf file freeze.literal)
          (work.docBefore file freeze.start)) work next := by
  induction freezes generalizing work with
  | nil => exact ⟨work, rfl, .refl file work⟩
  | cons freeze rest ih =>
    obtain ⟨next, hrun, hfirst⟩ := attributes_registerFrozen file declared hvalid freeze
    obtain ⟨_, _, hrun', hnext, -, -⟩ :=
      succeeds_registerFrozen file declared freeze work hvalid (.refl _)
    cases hrun.symm.trans hrun'
    obtain ⟨last, hlast, hrest⟩ := ih hnext
    refine ⟨last, (runOn_bind hrun).trans hlast, ?_⟩
    simp only [hfirst.membersOf hvalid, hfirst.docBefore] at hrest
    exact hfirst.append hnext hrest

/-- The calls that register come first, then those that freeze. -/
theorem runOn_synthesize (config : Config) {source : SourceFile}
    (hfile : work.program.file? file = some source) :
    (synthesize config file).runOn work =
      ((do
        registerAll file (declaration .provides config.entryNames source.root).names? 0
          ((providerCallsOf config source.root).filterMap registration?)
        ((providerCallsOf config source.root).filterMap freeze?).forM
          (registerFrozen file (declaration .provides config.entryNames source.root).names?)) :
        Resolve Unit).runOn work := by
  refine (runOn_bind (rfl : (MonadState.get : Resolve Work).runOn work = _)).trans ?_
  rw [hfile]
  rfl

/-- Registering what a file provides comes to the effects of its calls. -/
theorem attributes_synthesize (config : Config) (hvalid : work.Valid) {source : SourceFile}
    (hfile : work.program.file? file = some source) :
    ∃ next, (synthesize config file).runOn work = (.ok (), next) ∧
      Attributes file (work.effects config file source.root) work next := by
  obtain ⟨middle, hregister, hfirst, hmiddle⟩ := attributes_registerAll file
    (declaration .provides config.entryNames source.root).names? hvalid 0
    ((providerCallsOf config source.root).filterMap registration?)
  obtain ⟨next, hfreeze, hsecond⟩ := attributes_freezes file
    (declaration .provides config.entryNames source.root).names? hmiddle
    ((providerCallsOf config source.root).filterMap freeze?)
  refine ⟨next, (runOn_synthesize config hfile).trans ((runOn_bind hregister).trans hfreeze), ?_⟩
  simp only [hfirst.membersOf hvalid, hfirst.docBefore] at hsecond
  exact hfirst.append hmiddle hsecond

/-! ### Each call in its turn -/

/-- An effect changes what the registry says about its names only, and has the file as origin. -/
theorem provider?_apply (file name : String) (state : State) (free : Nat) (effect : Effect) :
    (effect.apply file (state, free)).1.registry.provider? name = state.registry.provider? name ∨
      name ∈ effect.names ∧ ∃ type, (effect.apply file (state, free)).1.registry.provider? name =
        some ⟨type, some file⟩ := by
  have hregister : ∀ (state : State) (other : String) (type : TypeId),
      (state.register other type (some file)).registry.provider? name =
        if name = other then some ⟨type, some file⟩ else state.registry.provider? name :=
    fun state other type => Registry.provider?_register state.registry other name type (some file)
  cases effect with
  | members list =>
    induction list generalizing state with
    | nil => exact Or.inl rfl
    | cons member rest ih =>
      obtain ⟨other, type⟩ := member
      cases type with
      | none =>
        rcases ih state with hsame | ⟨hname, hentry⟩
        · exact Or.inl hsame
        · exact Or.inr ⟨hname, hentry⟩
      | some type =>
        rcases ih (state.register other type (some file)) with hsame | ⟨hname, hentry⟩
        · rw [hregister] at hsame
          split at hsame
          · rename_i heq
            exact Or.inr ⟨heq ▸ List.mem_cons_self, type, hsame⟩
          · exact Or.inl hsame
        · exact Or.inr ⟨List.mem_cons_of_mem _ hname, hentry⟩
  | whole other list doc =>
    have hentry := hregister state other ⟨free⟩
    split at hentry
    · rename_i heq
      exact Or.inr ⟨List.mem_singleton.2 heq, ⟨free⟩, hentry⟩
    · exact Or.inl hentry
  | warned warning =>
    exact Or.inl (congrArg (·.provider? name) (reports_warnFile state file warning).registry)

theorem provider?_foldl_apply (file name : String) (effects : List Effect) (state : State)
    (free : Nat) :
    (effects.foldl (Effect.apply file) (state, free)).1.registry.provider? name =
        state.registry.provider? name ∨
      (∃ effect ∈ effects, name ∈ effect.names) ∧
        ∃ type, (effects.foldl (Effect.apply file) (state, free)).1.registry.provider? name =
          some ⟨type, some file⟩ := by
  induction effects generalizing state free with
  | nil => exact Or.inl rfl
  | cons effect rest ih =>
    rw [List.foldl_cons]
    rcases ih (effect.apply file (state, free)).1 (effect.apply file (state, free)).2 with
      hsame | ⟨⟨other, hother, hname⟩, hentry⟩
    · rcases provider?_apply file name state free effect with hfirst | ⟨hname, type, hfirst⟩
      · exact Or.inl (hsame.trans hfirst)
      · exact Or.inr ⟨⟨effect, List.mem_cons_self, hname⟩, type, hsame.trans hfirst⟩
    · exact Or.inr ⟨⟨other, List.mem_cons_of_mem _ hother, hname⟩, hentry⟩

/-- What registering makes of a file whose calls have one turn each. The nodes of its tree are
    listed in the order of the source. -/
structure Attributed (config : Config) (file : String) (root : Node) (before after : Work) :
    Prop where
  /-- Every call in the body of an entry function is collected, and no other call is. -/
  collected : ∀ call, call ∈ providerCallsOf config root ↔
    ∃ entry ∈ entries config.entryNames root, ∃ body, entry.body? = some body ∧
      call ∈ body.nodes ∧ call.kind = .callExpression
  /-- The calls are collected in the order of the source. -/
  ordered : (providerCallsOf config root).Sublist root.nodes
  /-- No call is collected twice. -/
  once : (providerCallsOf config root).Nodup
  /-- The effects of the calls, each by its own position, are all that is done. -/
  effects : Attributes file (before.effects config file root) before after
  /-- What the registry says about other names stays, and what it says now comes from the file. -/
  provided : ∀ name, after.state.registry.provider? name = before.state.registry.provider? name ∨
    (∃ effect ∈ before.effects config file root, name ∈ effect.names) ∧
      ∃ type, after.state.registry.provider? name = some ⟨type, some file⟩

/-- Where no entry function lies in another one, each call in one of them is attributed once and by
    its own position: registering what a file provides comes to the effects of the calls in the
    order of the source, those that register before those that freeze. -/
theorem calls_attributed (config : Config) {file : String} {source : SourceFile} {work : Work}
    (hvalid : work.Valid) (hfile : work.program.file? file = some source)
    (haside : Aside source.root) (hids : (source.root.nodes.map Node.id).Nodup)
    (hapart : Apart config.entryNames source.root) :
    ∃ next, (synthesize config file).runOn work = (.ok (), next) ∧
      Attributed config file source.root work next := by
  obtain ⟨next, hrun, hattributes⟩ := attributes_synthesize config hvalid hfile
  have hordered := sublist_providerCalls haside hapart
  refine ⟨next, hrun, fun call => mem_providerCalls, hordered, hordered.nodup (.of_map _ hids),
    hattributes, ?_⟩
  intro name
  have hstate : next.state = ((work.effects config file source.root).foldl (Effect.apply file)
      (work.state, work.program.store.types.size)).1 :=
    congrArg Prod.fst hattributes.memory
  rw [hstate]
  exact provider?_foldl_apply file name _ work.state _

/-- The work on a file that was inferred in a session with no other is valid. -/
theorem valid_alone [Parser] {file text : String} {inference : Inference.FileInference}
    {store : Store}
    (hinfer : Inference.inferFile file (parse text) .initial = (.ok inference, store)) :
    (Work.alone (.ofText file text) inference store).Valid := by
  obtain ⟨found, whole, hfound, hfiles⟩ := Program.Valid.initial.infer file (parse text)
  cases hinfer.symm.trans hfound
  refine ⟨(hfiles _ ?_).2, .initial store⟩
  intro other loaded hloaded
  obtain ⟨rfl, rfl⟩ : other = file ∧ loaded = ⟨.ofText file text, inference, none⟩ := by
    change ([(file, _)] : List _).lookup other = some loaded at hloaded
    rw [List.lookup_cons] at hloaded
    split at hloaded
    · rename_i heq
      cases hloaded
      exact ⟨eq_of_beq heq, rfl⟩
    · cases hloaded
  exact Or.inr ⟨rfl, rfl⟩

def Work.inferred [Parser] (file text : String) : Work :=
  let (answer, store) := Inference.inferFile file (parse text) .initial
  .alone (.ofText file text) (answer.toOption.getD .empty) store

theorem valid_inferred [Parser] (file text : String) : (Work.inferred file text).Valid ∧
    (Work.inferred file text).program.file? file = some (.ofText file text) := by
  obtain ⟨inference, store, -, hinfer, -⟩ :=
    Inference.inferFile_sound Store.Sound.initial file (parse text)
  have hwork : Work.inferred file text = .alone (.ofText file text) inference store := by
    unfold Work.inferred
    rw [hinfer]
    rfl
  rw [hwork]
  refine ⟨valid_alone hinfer, ?_⟩
  unfold Program.file?
  change Option.map _ (([(file, _)] : List (String × LoadedFile)).lookup file) = _
  rw [List.lookup_cons_self]
  rfl

/-- A keyed object stands between two unkeyed ones, and there is no name left for a third. -/
def mixedText : String :=
  "main.provides = [\"a\", \"b\"]; function main(options, imports, register) \x7b " ++
    "register(null, \x7bx: 1\x7d); register(null, \x7ba: \"s\"\x7d); " ++
    "register(null, \x7by: 2\x7d); register(null, \x7bz: 3\x7d); \x7d"

def mixedWork : Work :=
  let (answer, store) := Inference.inferFile "a.js" (parse mixedText) .initial
  .alone (.ofText "a.js" mixedText) (answer.toOption.getD .empty) store

theorem effects_mixedWork :
    Apart Config.default.entryNames (parse mixedText) ∧
    mixedWork.effects .default "a.js" (parse mixedText) =
      [.whole "a" [("x", some (Store.primitive .number))] none,
        .members [("a", some (Store.primitive .string))],
        .whole "b" [("y", some (Store.primitive .number))] none,
        .warned (.unattributedRegistration 2)] := by
  decide +kernel

theorem mixedWork_inferred : mixedWork.Valid ∧
    mixedWork.program.file? "a.js" = some (.ofText "a.js" mixedText) := by
  have hwork : mixedWork = .inferred "a.js" mixedText := by
    unfold mixedWork Work.inferred
    rfl
  rw [hwork]
  exact valid_inferred "a.js" mixedText

theorem calls_attributed_mixed :
    mixedWork.Valid ∧ mixedWork.program.file? "a.js" = some (.ofText "a.js" mixedText) ∧
    Aside (parse mixedText) ∧ ((parse mixedText).nodes.map Node.id).Nodup ∧
    Apart Config.default.entryNames (parse mixedText) ∧
    ∃ next, (synthesize .default "a.js").runOn mixedWork = (.ok (), next) ∧
      Attributed .default "a.js" (parse mixedText) mixedWork next ∧
      Attributes "a.js"
        [.whole "a" [("x", some (Store.primitive .number))] none,
          .members [("a", some (Store.primitive .string))],
          .whole "b" [("y", some (Store.primitive .number))] none,
          .warned (.unattributedRegistration 2)] mixedWork next := by
  obtain ⟨hvalid, hfile⟩ := mixedWork_inferred
  obtain ⟨hapart, heffects⟩ := effects_mixedWork
  have haside : Aside (parse mixedText) := (Grammar.tidy_parse mixedText).placed.aside
  have hids : ((parse mixedText).nodes.map Node.id).Nodup := Grammar.nodup_nodes_parse mixedText
  obtain ⟨next, hrun, hattributed⟩ := calls_attributed .default hvalid hfile haside hids hapart
  refine ⟨hvalid, hfile, haside, hids, hapart, next, hrun, hattributed, ?_⟩
  rw [← heffects]
  exact hattributed.effects

def nestedText : String :=
  "main.provides = [\"a\", \"b\"]; function main(options, imports, register) \x7b " ++
    "function main(options, imports, register) \x7b register(null, \x7bx: 1\x7d); \x7d \x7d"

/-- The one call is attributed twice, and the second time to the name of another. -/
theorem nested_call_attributed_twice :
    ((parse nestedText).nodes.filter fun node => (registration? node).isSome).length = 1 ∧
    ((provision .default "a.js" nestedText).registry.provider? "a").isSome = true ∧
    ((provision .default "a.js" nestedText).registry.provider? "b").isSome = true := by
  decide +kernel

end Capabilities.Resolver
