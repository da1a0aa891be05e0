import Capabilities.Proofs.Resolver.Attribution

/-!
# Frozen APIs

Objects are frozen after all others are registered, so where just one capability is declared, the
object that is frozen last is what the registry leads to, whatever was registered under that name
before. Where nothing is declared, or not just one capability, a frozen object is warned about and
nothing else comes of it.

Only the bodies of entry functions are searched for calls. A call in the default of a parameter is
inside the entry function too, and nothing comes of it.
-/

namespace Capabilities.Resolver

open Host Script Session Capabilities.Types Capabilities.Module

variable {file name : String} {work before after : Work} {effects front : List Effect}
  {members : List Member} {doc : Option String} {declared : Option (List String)}
  {call : Node} {freeze : FreezeCall}

/-! ### The object that is frozen last -/

/-- The last of several effects, if it provides a new object, leads its name to that object. -/
theorem Attributes.last_whole
    (h : Attributes file (front ++ [Effect.whole name members doc]) before after) :
    ∃ type : TypeId, before.program.store.types.size ≤ type.index ∧
      type.index < after.program.store.types.size ∧
      after.state.registry.provider? name = some ⟨type, some file⟩ ∧
      after.program.store.Consists type members doc (some file) := by
  have hsize := h.types_size
  have hobjects : (front ++ [Effect.whole name members doc]).filterMap Effect.object? =
      front.filterMap Effect.object? ++ [(members, doc)] := by
    rw [List.filterMap_append]
    rfl
  rw [hobjects, List.length_append, List.length_singleton] at hsize
  refine ⟨⟨before.program.store.types.size + (front.filterMap Effect.object?).length⟩,
    Nat.le_add_right _ _, ?_, ?_, ?_⟩
  · rw [hsize]
    exact Nat.lt_succ_self _
  · have hstate := congrArg Prod.fst h.memory
    rw [List.foldl_append] at hstate
    generalize hfront : front.foldl (Effect.apply file)
      (before.state, before.program.store.types.size) = reached at hstate
    have hfree := snd_foldl_apply file front before.state before.program.store.types.size
    rw [hfront] at hfree
    change after.state = reached.1.register name ⟨reached.2⟩ (some file) at hstate
    rw [hstate, hfree]
    exact (Registry.provider?_register _ _ _ _ _).trans (if_pos rfl)
  · apply h.objects
    rw [hobjects, List.getElem?_append_right (Nat.le_refl _), Nat.sub_self]
    rfl

/-- With one declared capability, freezing ends with the object that is frozen last. -/
theorem effects_of_single (work : Work) (config : Config) (file : String) (root : Node)
    (hdeclared : (declaration .provides config.entryNames root).names? = some [name])
    (hlast : ((providerCallsOf config root).filterMap freeze?).getLast? = some freeze) :
    ∃ front, work.effects config file root = front ++
      [Effect.whole name (work.membersOf file freeze.literal)
        (work.docBefore file freeze.start)] := by
  obtain ⟨others, hothers⟩ := List.getLast?_eq_some_iff.1 hlast
  unfold Work.effects
  dsimp only
  rw [hothers, hdeclared, List.map_append, ← List.append_assoc]
  exact ⟨_, rfl⟩

/-! ### Where there is not just one declared capability -/

/-- Only a warning comes of a frozen object then. -/
theorem runOn_registerFrozen (file : String) (hdeclared : ∀ name, declared ≠ some [name])
    (freeze : FreezeCall) (work : Work) :
    ∃ warning, (registerFrozen file declared freeze).runOn work =
      (.ok (), { work with state := work.state.warnFile file warning }) := by
  unfold registerFrozen
  match declared with
  | none => exact ⟨_, rfl⟩
  | some [] => exact ⟨_, rfl⟩
  | some [name] => exact absurd rfl (hdeclared name)
  | some (_ :: _ :: _) => exact ⟨_, rfl⟩

/-- Frozen objects change neither registry nor program then: induction on the calls. -/
theorem runOn_freezes (file : String) (hdeclared : ∀ name, declared ≠ some [name])
    (freezes : List FreezeCall) (work : Work) :
    ∃ next, (freezes.forM (registerFrozen file declared)).runOn work = (.ok (), next) ∧
      next.state.registry = work.state.registry ∧ next.program = work.program := by
  induction freezes generalizing work with
  | nil => exact ⟨work, rfl, rfl, rfl⟩
  | cons freeze rest ih =>
    obtain ⟨warning, hrun⟩ := runOn_registerFrozen file hdeclared freeze work
    obtain ⟨next, hrest, hregistry, hprogram⟩ :=
      ih { work with state := work.state.warnFile file warning }
    refine ⟨next, (runOn_bind hrun).trans hrest, ?_, hprogram⟩
    exact hregistry.trans (reports_warnFile work.state file warning).registry

/-! ### Which call is the last -/

/-- A call that freezes in the body of an entry function, none of which comes later in source
    pre-order. -/
structure FreezesLast (config : Config) (root call : Node) (freeze : FreezeCall) : Prop where
  collected : call ∈ providerCallsOf config root
  frozen : freeze? call = some freeze
  last : ∃ before behind, root.nodes = before ++ call :: behind ∧
    ∀ other ∈ behind, other ∈ providerCallsOf config root → freeze? other = none

/-- Where calls are collected in source order, the last one of the list is the last one. -/
theorem FreezesLast.getLast? {config : Config} {root : Node}
    (h : FreezesLast config root call freeze) (hnodup : root.nodes.Nodup)
    (hordered : (providerCallsOf config root).Sublist root.nodes) :
    ((providerCallsOf config root).filterMap freeze?).getLast? = some freeze := by
  obtain ⟨before, behind, hnodes, hlast⟩ := h.last
  have hcollected := h.collected
  rw [hnodes] at hnodup hordered
  obtain ⟨-, hbehind, hapart⟩ := List.nodup_append.1 hnodup
  obtain ⟨front, back, hcalls, hfront, hback⟩ := List.sublist_append_iff.1 hordered
  rw [hcalls] at hcollected
  have hmem : call ∈ back := (List.mem_append.1 hcollected).resolve_left fun hmem =>
    hapart call (hfront.subset hmem) call List.mem_cons_self rfl
  -- the call is not behind itself, so it is the first of those from it on
  rcases List.sublist_cons_iff.1 hback with hskipped | ⟨rest, rfl, hrest⟩
  · exact absurd (hskipped.subset hmem) (List.nodup_cons.1 hbehind).1
  · have hlater : rest.filterMap freeze? = [] := by
      rw [List.filterMap_eq_nil_iff]
      intro other hother
      refine hlast other (hrest.subset hother) ?_
      rw [hcalls]
      exact List.mem_append_right _ (List.mem_cons_of_mem _ hother)
    rw [hcalls, List.filterMap_append, List.filterMap_cons, h.frozen, hlater]
    simp

/-- Where there is a call that freezes, one of them is the last. -/
theorem exists_freezesLast {config : Config} {root : Node}
    (hordered : (providerCallsOf config root).Sublist root.nodes)
    (h : ∃ call ∈ providerCallsOf config root, (freeze? call).isSome = true) :
    ∃ call freeze, FreezesLast config root call freeze := by
  classical
  let wanted := fun node : Node =>
    decide (node ∈ providerCallsOf config root) && (freeze? node).isSome
  obtain ⟨first, hfirst, hfreezes⟩ := h
  have hsome : (root.nodes.reverse.find? wanted).isSome = true := by
    rw [List.find?_isSome]
    refine ⟨first, List.mem_reverse.2 (hordered.subset hfirst), ?_⟩
    simp [wanted, hfirst, hfreezes]
  obtain ⟨call, hcall⟩ := Option.isSome_iff_exists.1 hsome
  obtain ⟨hwanted, behind, before, hnodes, hnone⟩ := List.find?_eq_some_iff_append.1 hcall
  simp only [wanted, Bool.and_eq_true, decide_eq_true_eq] at hwanted
  obtain ⟨freeze, hfrozen⟩ := Option.isSome_iff_exists.1 hwanted.2
  refine ⟨call, freeze, hwanted.1, hfrozen, before.reverse, behind.reverse, ?_, ?_⟩
  · rw [← List.reverse_reverse root.nodes, hnodes]
    simp
  · intro other hother hcollected
    have hunwanted := hnone other (List.mem_reverse.1 hother)
    simpa [wanted, hcollected] using hunwanted

/-! ### What comes of freezing -/

/-- What registering makes of a file whose calls that freeze stand in bodies of entry functions:
    `registered` is the work when all but these calls are done. -/
structure Frozen (config : Config) (file : String) (root : Node) (before registered after : Work) :
    Prop where
  /-- Nothing that was there before has changed. -/
  gains : before.program.store.Gains after.program.store
  /-- With one declared capability there is a new object for it, which has the members of the
      literal that is frozen last and the documentation before that call. -/
  single : ∀ name, (declaration .provides config.entryNames root).names? = some [name] →
    (∃ call ∈ providerCallsOf config root, (freeze? call).isSome = true) →
    ∃ call freeze, FreezesLast config root call freeze ∧
      ∃ type : TypeId, before.program.store.types.size ≤ type.index ∧
        type.index < after.program.store.types.size ∧
        after.state.registry.provider? name = some ⟨type, some file⟩ ∧
        after.program.store.Consists type (before.membersOf file freeze.literal)
          (before.docBefore file freeze.start) (some file)
  /-- Otherwise the calls that freeze change neither registry nor store. -/
  other : (∀ name, (declaration .provides config.entryNames root).names? ≠ some [name]) →
    after.state.registry = registered.state.registry ∧
      after.program.store = registered.program.store

/-- Where no entry function lies in another one, the call that freezes last in their bodies decides
    what the one declared capability is, and if there is not just one, no call that freezes changes
    registry or store. -/
theorem freezes_provided (config : Config) {file : String} {source : SourceFile} {work : Work}
    (hvalid : work.Valid) (hfile : work.program.file? file = some source)
    (haside : Aside source.root) (hids : (source.root.nodes.map Node.id).Nodup)
    (hapart : Apart config.entryNames source.root) :
    ∃ registered next,
      (registerAll file (declaration .provides config.entryNames source.root).names? 0
        ((providerCallsOf config source.root).filterMap registration?)).runOn work =
          (.ok (), registered) ∧
      (synthesize config file).runOn work = (.ok (), next) ∧
      Frozen config file source.root work registered next := by
  obtain ⟨registered, hregistered, -, -⟩ := attributes_registerAll file
    (declaration .provides config.entryNames source.root).names? hvalid 0
    ((providerCallsOf config source.root).filterMap registration?)
  obtain ⟨next, hrun, hattributes⟩ := attributes_synthesize config hvalid hfile
  have hordered : (providerCallsOf config source.root).Sublist source.root.nodes :=
    sublist_providerCalls haside hapart
  refine ⟨registered, next, hregistered, hrun, hattributes.gains, ?_, ?_⟩
  · intro name hdeclared hsome
    obtain ⟨call, freeze, hlast⟩ := exists_freezesLast hordered hsome
    obtain ⟨front, heffects⟩ := effects_of_single work config file source.root hdeclared
      (hlast.getLast? (.of_map _ hids) hordered)
    rw [heffects] at hattributes
    exact ⟨call, freeze, hlast, hattributes.last_whole⟩
  · intro hdeclared
    obtain ⟨_, hfreezes, hregistry, hprogram⟩ := runOn_freezes file hdeclared
      ((providerCallsOf config source.root).filterMap freeze?) registered
    have hsynthesize := (runOn_synthesize config hfile).trans
      ((runOn_bind hregistered).trans hfreezes)
    cases hrun.symm.trans hsynthesize
    exact ⟨hregistry, congrArg Program.store hprogram⟩

/-- An object is registered before and after two are frozen, the last one with documentation. -/
def frozenText : String :=
  "main.provides = [\"log\"]; function main(options, imports, register) \x7b " ++
    "register(null, \x7blog: 1\x7d); plugin.freezePublicAPI(\x7ba: 1\x7d); " ++
    "/** Writes. */ plugin.freezePublicAPI(\x7bb: 2\x7d); register(null, \x7blog: \"s\"\x7d); \x7d"

theorem frozenText_freezes :
    Apart Config.default.entryNames (parse frozenText) ∧
    (declaration .provides Config.default.entryNames (parse frozenText)).names? = some ["log"] ∧
    (∃ call ∈ providerCallsOf .default (parse frozenText), (freeze? call).isSome = true) ∧
    ((providerCallsOf .default (parse frozenText)).filterMap freeze?).getLast?.map (fun freeze =>
      ((Work.inferred "a.js" frozenText).membersOf "a.js" freeze.literal,
        (Work.inferred "a.js" frozenText).docBefore "a.js" freeze.start)) =
      some ([("b", some (Store.primitive .number))], some "Writes.") := by
  decide +kernel

theorem freezes_provided_twice :
    (Work.inferred "a.js" frozenText).Valid ∧
    (Work.inferred "a.js" frozenText).program.file? "a.js" = some (.ofText "a.js" frozenText) ∧
    Aside (parse frozenText) ∧ ((parse frozenText).nodes.map Node.id).Nodup ∧
    Apart Config.default.entryNames (parse frozenText) ∧
    ∃ next,
      (synthesize .default "a.js").runOn (Work.inferred "a.js" frozenText) = (.ok (), next) ∧
      ∃ type : TypeId,
        (Work.inferred "a.js" frozenText).program.store.types.size ≤ type.index ∧
        next.state.registry.provider? "log" = some ⟨type, some "a.js"⟩ ∧
        next.program.store.Consists type [("b", some (Store.primitive .number))]
          (some "Writes.") (some "a.js") := by
  obtain ⟨hvalid, hfile⟩ := valid_inferred "a.js" frozenText
  obtain ⟨hapart, hdeclared, hfreezes, hread⟩ := frozenText_freezes
  have haside : Aside (parse frozenText) := (Grammar.tidy_parse frozenText).placed.aside
  have hids : ((parse frozenText).nodes.map Node.id).Nodup := Grammar.nodup_nodes_parse frozenText
  obtain ⟨registered, next, -, hrun, hfrozen⟩ :=
    freezes_provided .default hvalid hfile haside hids hapart
  obtain ⟨call, freeze, hlast, type, hnew, -, hprovider, hconsists⟩ :=
    hfrozen.single "log" hdeclared hfreezes
  rw [SourceFile.root_ofText] at hlast
  rw [hlast.getLast? (.of_map _ hids) (sublist_providerCalls haside hapart)] at hread
  obtain ⟨hmembers, hdoc⟩ := Prod.mk.inj (Option.some.inj hread)
  rw [hmembers, hdoc] at hconsists
  exact ⟨hvalid, hfile, haside, hids, hapart, next, hrun, type, hnew, hprovider, hconsists⟩

/-- The default of a parameter freezes an object. -/
def defaultText : String :=
  "main.provides = [\"n\"]; function main(options = plugin.freezePublicAPI(\x7ba: 1\x7d), " ++
    "imports, register) \x7b\x7d"

/-- The call lies in the one entry function, and nothing is registered. -/
theorem frozen_default_unregistered :
    (entries Config.default.entryNames (parse defaultText)).map (fun entry =>
      (entry.node.nodes.filter fun node => (freeze? node).isSome).length) = [1] ∧
    (declaration .provides Config.default.entryNames (parse defaultText)).names? = some ["n"] ∧
    (provision .default "a.js" defaultText).registry.provider? "n" = none := by
  decide +kernel

end Capabilities.Resolver
