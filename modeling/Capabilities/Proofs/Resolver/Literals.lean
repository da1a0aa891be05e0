import Capabilities.Proofs.Inference.Moment
import Capabilities.Proofs.Resolver.Attribution

/-!
# Literals as they are read and as they are inferred

An object literal that is registered or frozen is looked at twice. Inference walks its parts and
makes a type for it, with a member for each key it meets; synthesis reads the keys off the tree and
asks the literal's type for a member of each. Both find the same keys in the same order. So an
object that is provided as a whole has the members with which the literal's own type was made, and
each of them holds the first type that inference has left in the member of the same name.
-/

namespace Capabilities.Resolver

open Host Script Session Capabilities.Types Capabilities.Module

variable {file text name : String} {root call node : Node} {literal : ObjectLiteral}
  {doc : Option String} {effects : List Effect} {before after : Work} {index : Nat}

/-! ### The literals of calls -/

/-- A literal that a call registers or freezes. -/
def Hands (call : Node) (literal : ObjectLiteral) : Prop :=
  registration? call = some literal ∨
    ∃ freeze, freeze? call = some freeze ∧ freeze.literal = literal

theorem Hands.argument (h : Hands call literal) :
    ∃ position, argumentLiteral? call position = some literal := by
  rcases h with h | ⟨freeze, h, rfl⟩
  · unfold registration? at h
    split at h
    · exact ⟨1, h⟩
    · cases h
  · unfold freeze? at h
    split at h
    · obtain ⟨found, hfound, rfl⟩ := Option.map_eq_some_iff.1 h
      exact ⟨0, hfound⟩
    · cases h

/-- What a call hands over is read off an object literal of the script. -/
theorem Hands.exists_node (h : Hands call literal) (haside : Aside root)
    (hcall : call ∈ root.nodes) :
    ∃ node ∈ root.nodes, node.kind = .object ∧ literal = .ofNode node := by
  obtain ⟨position, h⟩ := h.argument
  obtain ⟨arguments, harguments, h⟩ := Option.bind_eq_some_iff.1 h
  obtain ⟨argument, hargument, h⟩ := Option.bind_eq_some_iff.1 h
  have hlist : arguments ∈ root.nodes :=
    Node.mem_nodes_of_mem_parts hcall
      (Node.mem_parts_of_part? (haside.of_mem_nodes _ hcall) harguments)
  refine ⟨argument, Node.mem_nodes_of_mem_parts hlist (List.mem_of_getElem? hargument), ?_⟩
  split at h
  · rename_i hkind
    cases h
    exact ⟨beq_iff_eq.1 hkind, rfl⟩
  · cases h

/-! ### Objects that mirror a literal -/

/-- The first type of a member of the object that inference has made for a literal. -/
def Work.memberType? (work : Work) (file : String) (literal : ObjectLiteral) (key : String) :
    Option TypeId :=
  ((work.program.expression? file literal.id).bind work.program.store.firstType?).bind
    (work.program.store.memberType? · key)

/-- An object type has the keys of a literal as its members, each once and in their order, and each
    member holds the first type of the member that the literal's own type had `before`, if that had
    one, and nothing else. -/
def Mirrors (file : String) (literal : ObjectLiteral) (before : Work) (store : Store)
    (object : TypeId) : Prop :=
  ∃ (members : Keyed ValueId) (doc : Option String),
    store.object? object = some ⟨none, members, doc, some file⟩ ∧
    members.keys = literal.keys.eraseDups ∧
    ∀ key value, members.get? key = some value →
      store.typesOf value = (before.memberType? file literal key).toList

theorem mirrors_of_consists {store : Store} {object : TypeId}
    (h : store.Consists object (before.membersOf file literal) doc (some file)) :
    Mirrors file literal before store object := by
  obtain ⟨members, hobject, hkeys, htypes⟩ := h
  have hnames : (before.membersOf file literal).map Prod.fst = literal.keys := by
    unfold Work.membersOf
    rw [List.map_map]
    exact List.map_id _
  rw [hnames] at hkeys
  refine ⟨members, doc, hobject, hkeys, fun key value hvalue => ?_⟩
  have hkey : key ∈ literal.keys := by
    rw [← List.mem_eraseDups, ← hkeys, members.mem_keys_iff, hvalue]
    rfl
  rw [htypes key value hvalue]
  exact (Store.given_map literal.keys (before.memberType? file literal) key).trans (if_pos hkey)

def objectAt (before : Work) (effects : List Effect) (index : Nat) : TypeId :=
  ⟨before.program.store.types.size + ((effects.take index).filterMap Effect.object?).length⟩

/-- An effect provides a literal as a whole: in its turn it registers a new object under a name,
    and this object mirrors the literal when all effects are done. -/
structure Builds (file : String) (effects : List Effect) (before after : Work) (index : Nat)
    (name : String) (literal : ObjectLiteral) (doc : Option String) : Prop where
  effect : effects[index]? = some (.whole name (before.membersOf file literal) doc)
  registered : ((effects.take (index + 1)).foldl (Effect.apply file)
      (before.state, before.program.store.types.size)).1.registry.provider? name =
    some ⟨objectAt before effects index, some file⟩
  object : Mirrors file literal before after.program.store (objectAt before effects index)

theorem Attributes.builds (h : Attributes file effects before after)
    (heffect : effects[index]? = some (.whole name (before.membersOf file literal) doc)) :
    Builds file effects before after index name literal doc := by
  have htake : effects.take (index + 1) =
      effects.take index ++ [.whole name (before.membersOf file literal) doc] := by
    rw [List.take_add_one, heffect]
    rfl
  refine ⟨heffect, ?_, mirrors_of_consists (h.objects _ _ doc ?_)⟩
  · rw [htake, List.foldl_append]
    generalize hfront : (effects.take index).foldl (Effect.apply file)
      (before.state, before.program.store.types.size) = reached
    have hfree := snd_foldl_apply file (effects.take index) before.state
      before.program.store.types.size
    rw [hfront] at hfree
    change (reached.1.register name ⟨reached.2⟩ (some file)).registry.provider? name = _
    rw [hfree]
    exact (Registry.provider?_register _ _ _ _ _).trans (if_pos rfl)
  · have hobjects : effects.filterMap Effect.object? =
        (effects.take index).filterMap Effect.object? ++
          (before.membersOf file literal, doc) ::
            (effects.drop (index + 1)).filterMap Effect.object? := by
      conv_lhs => rw [← List.take_append_drop (index + 1) effects, htake]
      rw [List.filterMap_append, List.filterMap_append, List.append_assoc]
      rfl
    rw [hobjects, List.getElem?_append_right (Nat.le_refl _), Nat.sub_self]
    rfl

/-! ### The effects of each call -/

section

variable {config : Config}

def providedNames (config : Config) (root : Node) : Option (List String) :=
  (declaration .provides config.entryNames root).names?

/-- The literals that the calls of a script register. -/
def registrationsOf (config : Config) (root : Node) : List ObjectLiteral :=
  (providerCallsOf config root).filterMap registration?

/-- The literals that the calls of a script freeze. -/
def freezesOf (config : Config) (root : Node) : List FreezeCall :=
  (providerCallsOf config root).filterMap freeze?

/-- The declared name for the registered literal with an index: the position is the number of
    unkeyed literals before it. -/
def positionalName? (config : Config) (root : Node) (index : Nat) : Option String :=
  (providedNames config root).bind
    (·[((registrationsOf config root).take index).countP (!isKeyed (providedNames config root) ·)]?)

/-- What registering makes of the literals that are provided as a whole: those that are registered
    by their position, and those that are frozen. -/
structure Mirrored (config : Config) (file : String) (root : Node) (before after : Work) :
    Prop where
  effects : Attributes file (before.effects config file root) before after
  registered : ∀ index literal name, (registrationsOf config root)[index]? = some literal →
    isKeyed (providedNames config root) literal = false →
    positionalName? config root index = some name →
    Builds file (before.effects config file root) before after index name literal none
  frozen : ∀ index freeze name, (freezesOf config root)[index]? = some freeze →
    providedNames config root = some [name] →
    Builds file (before.effects config file root) before after
      ((registrationsOf config root).length + index) name freeze.literal
      (before.docBefore file freeze.start)

theorem effects_eq (work : Work) (config : Config) (file : String) (root : Node) :
    work.effects config file root =
      attributions (providedNames config root) (work.membersOf file) 0
          (registrationsOf config root) ++
        (freezesOf config root).map fun freeze =>
          freezing (providedNames config root) (work.membersOf file freeze.literal)
            (work.docBefore file freeze.start) := rfl

/-- The effect of a literal that is registered by its position. -/
theorem getElem?_effects_registered
    (hliteral : (registrationsOf config root)[index]? = some literal)
    (hkeyed : isKeyed (providedNames config root) literal = false)
    (hname : positionalName? config root index = some name) :
    (before.effects config file root)[index]? =
      some (.whole name (before.membersOf file literal) none) := by
  have hattribution : (attributions (providedNames config root) (before.membersOf file) 0
      (registrationsOf config root))[index]? =
      some (.whole name (before.membersOf file literal) none) := by
    unfold positionalName? at hname
    unfold attributions
    rw [List.getElem?_mapIdx, hliteral, Nat.zero_add]
    unfold attribution
    rw [Option.map_some, hname, if_neg (by rw [hkeyed]; exact Bool.false_ne_true)]
  have hlt := (List.getElem?_eq_some_iff.1 hattribution).1
  rw [effects_eq, List.getElem?_append_left hlt]
  exact hattribution

/-- The effect of a literal that is frozen. -/
theorem getElem?_effects_frozen {freeze : FreezeCall}
    (hfreeze : (freezesOf config root)[index]? = some freeze)
    (hdeclared : providedNames config root = some [name]) :
    (before.effects config file root)[(registrationsOf config root).length + index]? =
      some (.whole name (before.membersOf file freeze.literal)
        (before.docBefore file freeze.start)) := by
  rw [effects_eq]
  unfold attributions
  rw [List.getElem?_append_right (by rw [List.length_mapIdx]; exact Nat.le_add_right _ _),
    List.length_mapIdx, Nat.add_sub_cancel_left, List.getElem?_map, hfreeze, hdeclared]
  rfl

theorem Attributes.mirrored (h : Attributes file (before.effects config file root) before after) :
    Mirrored config file root before after where
  effects := h
  registered _ _ _ hliteral hkeyed hname :=
    h.builds (getElem?_effects_registered hliteral hkeyed hname)
  frozen _ _ _ hfreeze hdeclared := h.builds (getElem?_effects_frozen hfreeze hdeclared)

end

/-! ### Both readings -/

/-- The members of a literal's type are still there, in front of those that came later. -/
theorem keys_of_built {base store : Store} {value : ValueId}
    (h : Inference.Built base node value store) :
    ∃ type object more, store.firstType? value = some type ∧ store.object? type = some object ∧
      object.members.keys = (ObjectLiteral.ofNode node).keys.eraseDups ++ more := by
  obtain ⟨place, _, made, -, -, ⟨hfirst, object, hobject, hkeys⟩, hadvances⟩ := h
  obtain ⟨new, hnew, more, hmore⟩ := hadvances.keys hobject
  exact ⟨_, new, more, hadvances.firstType? hfirst, hnew, hkeys ▸ hmore.symm⟩

theorem inferred_loaded [Parser] (file text : String) : ∃ inference,
    Inference.inferFile file (parse text) .initial =
      (.ok inference, (Work.inferred file text).program.store) ∧
    (Work.inferred file text).program.files.get? file =
      some ⟨.ofText file text, inference, none⟩ := by
  obtain ⟨_, store, -, hinfer, -⟩ :=
    Inference.inferFile_sound Store.Sound.initial file (parse text)
  unfold Work.inferred
  rw [hinfer]
  refine ⟨_, rfl, ?_⟩
  change ([(file, _)] : List (String × LoadedFile)).lookup file = _
  rw [List.lookup_cons_self]
  rfl

/-- When a file is inferred and what it provides is registered then, inference and synthesis agree
    on each literal that a call hands over: the literal's type was made with the members that
    synthesis reads, and what is provided as a whole has just these members, with the first types
    that inference has found for them. -/
theorem literals_agree (config : Config) {source : SourceFile} {origin : Option String}
    {base : Store} {locals : Variables} {inference : Inference.FileInference} {work : Work}
    (hvalid : work.Valid)
    (hloaded : work.program.files.get? file = some ⟨source, inference, origin⟩)
    (hplaced : Placed source.root) (hpaired : Paired source.root)
    (hids : (source.root.nodes.map Node.id).Nodup)
    (hroot : source.root.kind.holdsStatements = true) (hbase : base.Sound locals)
    (hinferred :
      Inference.inferFile file source.root base = (.ok inference, work.program.store)) :
    (∀ call ∈ source.root.nodes, ∀ literal, Hands call literal →
      ∃ node ∈ source.root.nodes, node.kind = .object ∧ literal = .ofNode node ∧
        ∀ value, work.program.expression? file literal.id = some value →
          Inference.Built base node value work.program.store ∧
          ∃ type object more, work.program.store.firstType? value = some type ∧
            work.program.store.object? type = some object ∧
            object.members.keys = literal.keys.eraseDups ++ more) ∧
    ∃ next, (synthesize config file).runOn work = (.ok (), next) ∧
      Mirrored config file source.root work next := by
  constructor
  · intro call hcall literal hhands
    obtain ⟨node, hnode, hkind, rfl⟩ := hhands.exists_node hplaced.aside hcall
    refine ⟨node, hnode, hkind, rfl, fun value hvalue => ?_⟩
    have hobject : source.root.kind ≠ .object := by
      intro hkind
      rw [hkind] at hroot
      cases hroot
    obtain ⟨world, hstore, -, hexpressions⟩ :=
      Inference.Moment.of_inferFile hplaced hids hobject hbase hinferred
    have hnoted : (node.id, value) ∈ world.run.expressions := by
      unfold Program.expression? at hvalue
      rw [hloaded] at hvalue
      rw [hexpressions]
      exact mem_of_lookup hvalue
    have hbuilt := world.literal _ hnoted node hnode hkind (hpaired.of_mem_nodes node hnode) rfl
    rw [hstore] at hbuilt
    exact ⟨hbuilt, keys_of_built hbuilt⟩
  · have hfile : work.program.file? file = some source := by
      unfold Program.file?
      rw [hloaded]
      rfl
    obtain ⟨next, hrun, hattributes⟩ := attributes_synthesize config hvalid hfile
    exact ⟨next, hrun, hattributes.mirrored⟩

/-- A literal with keys of all forms is registered by its position, and another one is frozen. -/
def mixtureText : String :=
  "main.provides = [\"kit\"]; function main(options, imports, register) \x7b var s = 1, t; " ++
    "register(null, \x7bp: 1, m() \x7b return 2 \x7d, s, 'q': t, 3: 4, [t]: 5, ...t, p: 'u'\x7d)" ++
    "; plugin.freezePublicAPI(\x7by: 1\x7d); \x7d"

theorem mixtureText_hands :
    (registrationsOf .default (parse mixtureText)).map (fun literal => literal.keys.eraseDups) =
      [["p", "m", "s", "q", "3"]] ∧
    (registrationsOf .default (parse mixtureText)).map
      (isKeyed (providedNames .default (parse mixtureText))) = [false] ∧
    positionalName? .default (parse mixtureText) 0 = some "kit" ∧
    (freezesOf .default (parse mixtureText)).map (·.literal.keys) = [["y"]] ∧
    providedNames .default (parse mixtureText) = some ["kit"] := by
  decide +kernel

theorem literals_agree_mixture : Placed (parse mixtureText) ∧ Paired (parse mixtureText) ∧
    ((parse mixtureText).nodes.map Node.id).Nodup ∧
    (parse mixtureText).kind.holdsStatements = true ∧ Store.initial.Sound (fun _ => none) ∧
    (Work.inferred "a.js" mixtureText).Valid ∧
    (∃ inference,
      Inference.inferFile "a.js" (parse mixtureText) .initial =
        (.ok inference, (Work.inferred "a.js" mixtureText).program.store) ∧
      (Work.inferred "a.js" mixtureText).program.files.get? "a.js" =
        some ⟨.ofText "a.js" mixtureText, inference, none⟩) ∧
    ∃ (next : Work) (literal : ObjectLiteral) (freeze : FreezeCall),
      (synthesize .default "a.js").runOn (Work.inferred "a.js" mixtureText) = (.ok (), next) ∧
      literal.keys.eraseDups = ["p", "m", "s", "q", "3"] ∧
      Builds "a.js" ((Work.inferred "a.js" mixtureText).effects .default "a.js"
        (parse mixtureText)) (Work.inferred "a.js" mixtureText) next 0 "kit" literal none ∧
      freeze.literal.keys = ["y"] ∧
      Builds "a.js" ((Work.inferred "a.js" mixtureText).effects .default "a.js"
        (parse mixtureText)) (Work.inferred "a.js" mixtureText) next 1 "kit" freeze.literal
        ((Work.inferred "a.js" mixtureText).docBefore "a.js" freeze.start) := by
  obtain ⟨inference, hinferred, hloaded⟩ := inferred_loaded "a.js" mixtureText
  obtain ⟨hvalid, -⟩ := valid_inferred "a.js" mixtureText
  have htidy : Tidy (parse mixtureText) := Grammar.tidy_parse mixtureText
  have hids : ((parse mixtureText).nodes.map Node.id).Nodup := Grammar.nodup_nodes_parse mixtureText
  have hroot : (parse mixtureText).kind.holdsStatements = true :=
    Grammar.holdsStatements_parse mixtureText
  obtain ⟨-, next, hrun, hmirrored⟩ := literals_agree .default hvalid hloaded htidy.placed
    htidy.paired hids hroot Store.Sound.initial hinferred
  rw [SourceFile.root_ofText] at hmirrored
  obtain ⟨hkeys, hkeyed, hname, hfrozen, hdeclared⟩ := mixtureText_hands
  obtain ⟨literal, hliterals, hkeys⟩ := List.map_eq_singleton_iff.1 hkeys
  obtain ⟨freeze, hfreezes, hfrozen⟩ := List.map_eq_singleton_iff.1 hfrozen
  rw [hliterals] at hkeyed
  have hregistered := hmirrored.registered 0 literal "kit" (by rw [hliterals]; rfl)
    (List.singleton_inj.1 hkeyed) hname
  have hlast := hmirrored.frozen 0 freeze "kit" (by rw [hfreezes]; rfl) hdeclared
  rw [hliterals, List.length_singleton, Nat.add_zero] at hlast
  exact ⟨htidy.placed, htidy.paired, hids, hroot, .initial, hvalid,
    ⟨inference, hinferred, hloaded⟩, next, literal, freeze, hrun, hkeys, hregistered, hfrozen,
    hlast⟩

end Capabilities.Resolver
