import Capabilities.Proofs.Inference.Underway
import Capabilities.Proofs.Script.Grammar.Statement

/-!
# Declared functions in their turn

The body of a function, like a program, is gone through statement by statement, after what it
announces has been declared ahead. A declared function is run when its declaration is reached. It
has then the type that was made ahead, of which whatever refers to the function by name has known
since, and no other. So what is returned in its body is held by the result of that type.
-/

namespace Capabilities.Inference

open Script Capabilities.Types

/-! ### Statements -/

/-- The kinds of statements that do what their parts do, and nothing else. -/
def isPlain (kind : Kind) : Bool :=
  !(kind.isFunctionDeclaration || kind == .variableDeclaration || kind == .lexicalDeclaration
    || kind == .returnStatement || isExpression kind)

/-- The statements of a body in the order in which they are done. One that does what its parts do
    gives way to these. -/
def statements (body : Node) : List Node :=
  body.fold fun _ children => (children.filter (!·.1.isComment)).flatMap fun child =>
    if isPlain child.1.kind then child.2 else [child.1]

variable {body statement declaration block answer : Node} {place : Place}
  {run start before after final next : Run} {type : TypeId} {result : ValueId}

theorem statements_eq (body : Node) :
    statements body = body.parts.flatMap fun part =>
      if isPlain part.kind then statements part else [part] := by
  rw [statements, Node.fold_eq]
  unfold Node.parts
  rw [List.filter_map, List.flatMap_map]
  rfl

theorem walk_of_plain (h : isPlain statement.kind = true) (place : Place) :
    (meaning statement).walk place = (meaning statement).walkParts place := by
  rw [meaning_eq]
  change Meaning.statement statement (Meaning.family statement) place =
    Meaning.doParts (Meaning.family statement) place
  unfold Meaning.statement
  split
  case h_1 hkind | h_2 hkind | h_3 hkind | h_4 hkind | h_5 hkind =>
    rw [hkind] at h
    cases h
  case h_6 =>
    rw [if_neg]
    intro hexpression
    rw [isPlain, hexpression, Bool.or_true] at h
    cases h

/-- Going through a body is doing its statements: induction on the tree. -/
theorem walkParts_eq (body : Node) (place : Place) :
    (meaning body).walkParts place =
      (statements body).forM fun statement => (meaning statement).walk place := by
  induction body using Node.induction with
  | step body ih =>
    rw [statements_eq, forM_flatMap, meaning_eq]
    change Meaning.doParts (Meaning.family body) place = _
    unfold Meaning.doParts
    rw [Meaning.parts_family, List.forM_eq_forM, List.forM_map]
    refine forM_congr fun part hpart => ?_
    dsimp only [Function.comp_apply]
    split
    · rename_i hplain
      rw [walk_of_plain hplain, ih part (Node.mem_children_of_mem_parts hpart)]
    · exact (bind_pure _).symm

theorem inside_of_mem_statements (h : statement ∈ statements body) : body.Inside statement := by
  induction body using Node.induction with
  | step body ih =>
    rw [statements_eq] at h
    obtain ⟨part, hpart, hmem⟩ := List.mem_flatMap.1 h
    split at hmem
    · exact ⟨part, hpart, (ih part (Node.mem_children_of_mem_parts hpart) hmem).mem_nodes⟩
    · rw [List.mem_singleton.1 hmem]
      exact ⟨part, hpart, part.self_mem_nodes⟩

/-- A body is gone through: first the statements before one of them, then this one, then those
    after it. -/
def Passes (body : Node) (place : Place) (start : Run) (statement : Node)
    (before after final : Run) : Prop :=
  ∃ front back, statements body = front ++ statement :: back ∧
    (front.forM fun statement => (meaning statement).walk place).run.run start =
      (.ok (), before) ∧
    ((meaning statement).walk place).run.run before = (.ok (), after) ∧
    (back.forM fun statement => (meaning statement).walk place).run.run after = (.ok (), final)

theorem exists_passes
    (hrun : ((meaning body).walkParts place).run.run start = (.ok (), final))
    (h : statement ∈ statements body) :
    ∃ before after, Passes body place start statement before after final := by
  obtain ⟨front, back, heq⟩ := List.append_of_mem h
  rw [walkParts_eq, heq, List.forM_eq_forM, List.forM_append] at hrun
  obtain ⟨_, before, hbefore, hrun⟩ := eq_ok_of_bind hrun
  obtain ⟨_, after, hafter, hfinal⟩ := eq_ok_of_bind hrun
  exact ⟨before, after, front, back, heq, hbefore, hafter, hfinal⟩

theorem Passes.retains {ids : Nat → Prop}
    (h : Passes body place start statement before after final)
    (hspares : ∀ statement ∈ statements body, Spares ids ((meaning statement).walk place)) :
    start.Retains ids before ∧ before.Retains ids after ∧ after.Retains ids final := by
  obtain ⟨front, back, heq, hbefore, hafter, hfinal⟩ := h
  rw [heq] at hspares
  refine ⟨(Spares.forM fun other hother => ?_).retains hbefore,
    (hspares statement (by simp)).retains hafter,
    (Spares.forM fun other hother => ?_).retains hfinal⟩
  · exact hspares other (List.mem_append_left _ hother)
  · exact hspares other (List.mem_append_right _ (List.mem_cons_of_mem _ hother))

/-! ### A declared function -/

/-- What is done for a declared function before its body: its scope is made, and its parameters are
    bound. -/
def enter (declaration : Node) (place : Place) : Infer Unit := do
  registerScope declaration.id (some place.scope)
  Meaning.bindParameters (Meaning.family declaration) (place.inside declaration)

theorem spares_binding (haside : Aside declaration) (place : Place) :
    Spares (fun _ => False) (Meaning.bindParameters (Meaning.family declaration) place) :=
  Meaning.spares_bindParameters (Meaning.spare_family haside fun _ hchild =>
    advancing_meaning (haside.of_mem (Node.mem_children_of_mem_parts hchild)))

theorem spares_enter (haside : Aside declaration) (place : Place) :
    Spares (fun _ => False) (enter declaration place) :=
  .bind (.registerScope _ _) fun _ => spares_binding haside _

/-- What the return statements of a block return is found and then held by a value. -/
def Returned (block : Node) (place : Place) (result : ValueId) (start final : Run)
    (later : Store) : Prop :=
  ∀ statement ∈ statements block, statement.kind = .returnStatement →
    ∀ answer, statement.parts.head? = some answer →
      ∃ before after value found, Passes block place start statement before after final ∧
        ((meaning answer).evaluate place).run.run before = (.ok value, found) ∧
        ∀ type ∈ found.store.typesOf value, type ∈ later.typesOf result

/-- A declared function is run: it has a type that was made before and no other, and its value holds
    this type. What its body returns is held by the result. -/
structure Walked (place : Place) (declaration : Node) (type : TypeId) (result : ValueId)
    (before after : Run) : Prop where
  known : (Meaning.knownType declaration place).run.run before = (.ok type, before)
  noted : ∃ value, after.expressions.head? = some (declaration.id, value) ∧
    after.store.typesOf value = [type]
  returned : ∀ block, declaration.part? .body = some block → block.kind = .statementBlock →
    ∃ bound started ended, (enter declaration place).run.run before = (.ok (), bound) ∧
      ((meaning block).hoist (place.body declaration result)).run.run bound =
        (.ok (), started) ∧
      ((meaning block).walkParts (place.body declaration result)).run.run started =
        (.ok (), ended) ∧
      Returned block (place.body declaration result) result started ended after.store
  answered : ∀ answer, declaration.part? .body = some answer → answer.kind ≠ .statementBlock →
    ∃ bound value found, (enter declaration place).run.run before = (.ok (), bound) ∧
      ((meaning answer).evaluate (place.body declaration result)).run.run bound =
        (.ok value, found) ∧
      ∀ type ∈ found.store.typesOf value, type ∈ after.store.typesOf result

/-- The types of what is returned flow into the result of the place. -/
theorem returned_of_walkParts (haside : Aside block) (hresult : place.result = some result)
    (hrun : ((meaning block).walkParts place).run.run start = (.ok (), final)) :
    Returned block place result start final final.store := by
  intro statement hstatement hkind answer hanswer
  obtain ⟨before, after, hpasses⟩ := exists_passes hrun hstatement
  have hspares : ∀ other ∈ statements block,
      Spares (fun _ => False) ((meaning other).walk place) := fun other hother =>
    (advancing_meaning (haside.of_mem_nodes _ (inside_of_mem_statements hother).mem_nodes)).walk
      place
  have hadvances := (hpasses.retains hspares).2.2.store
  obtain ⟨front, back, heq, hbefore, hafter, hfinal⟩ := id hpasses
  rw [meaning_eq] at hafter
  change (Meaning.statement statement (Meaning.family statement) place).run.run before = _ at hafter
  unfold Meaning.statement Meaning.returning at hafter
  rw [hkind] at hafter
  obtain ⟨rest, hparts⟩ := List.head?_eq_some_iff.1 hanswer
  dsimp only at hafter
  rw [Meaning.parts_family, hparts, List.map_cons] at hafter
  obtain ⟨value, found, hfound, hflow⟩ := eq_ok_of_bind hafter
  rw [hresult] at hflow
  have hpropagate : (propagate value result).run.run found = (.ok (), after) := hflow
  obtain ⟨store, hstore, rfl⟩ := eq_ok_of_onStore hpropagate
  exact ⟨before, _, value, found, hpasses, hfound, fun type htype =>
    hadvances.mem_typesOf (Store.mem_typesOf_of_propagate hstore type htype)⟩

theorem Returned.mono {later last : Store} (h : Returned block place result start final later)
    (hadvances : later.Advances last) : Returned block place result start final last := by
  intro statement hstatement hkind answer hanswer
  obtain ⟨before, after, value, found, hpasses, hfound, htypes⟩ :=
    h statement hstatement hkind answer hanswer
  exact ⟨before, after, value, found, hpasses, hfound, fun type htype =>
    hadvances.mem_typesOf (htypes type htype)⟩

/-- The type of a function is the one that is remembered for it, and nothing is made. -/
theorem run_knownType (h : before.functions.lookup declaration.id = some type) :
    (Meaning.knownType declaration place).run.run before = (.ok type, before) := by
  have hlook : (remembered? declaration.id).run.run before =
      (.ok (before.functions.lookup declaration.id), before) := rfl
  unfold Meaning.knownType
  rw [run_bind_ok hlook, h]
  rfl

/-- The result of a function is that of its type. -/
theorem run_resultOf (h : before.store.result? type = some result) :
    (Meaning.resultOf type).run.run before = (.ok result, before) := by
  have hlook : store.run.run before = (.ok before.store, before) := rfl
  unfold Meaning.resultOf
  rw [run_bind_ok hlook, h]
  rfl

theorem run_function_of_walk (hkind : declaration.kind.isFunctionDeclaration = true)
    (hrun : ((meaning declaration).walk place).run.run before = (.ok (), after)) :
    ∃ value, (Meaning.function declaration (Meaning.family declaration) place).run.run before =
      (.ok value, after) := by
  rw [meaning_eq] at hrun
  change (Meaning.statement declaration (Meaning.family declaration) place).run.run before = _
    at hrun
  have hcases : declaration.kind = .functionDeclaration ∨
      declaration.kind = .generatorFunctionDeclaration := by
    revert hkind
    cases declaration.kind <;> decide
  unfold Meaning.statement at hrun
  rcases hcases with hcase | hcase
  all_goals
    rw [hcase] at hrun
    obtain ⟨value, last, hvalue, hrest⟩ := eq_ok_of_bind hrun
    cases hrest
    exact ⟨value, hvalue⟩

/-- A declared function for which a type is remembered is run with this type: the steps of a
    function one after the other. -/
theorem walked_of_walk (haside : Aside declaration)
    (hkind : declaration.kind.isFunctionDeclaration = true)
    (hlookup : before.functions.lookup declaration.id = some type)
    (hresult : before.store.result? type = some result)
    (hrun : ((meaning declaration).walk place).run.run before = (.ok (), after)) :
    Walked place declaration type result before after := by
  have hknown : (Meaning.knownType declaration place).run.run before = (.ok type, before) :=
    run_knownType hlookup
  obtain ⟨value, hrun⟩ := run_function_of_walk hkind hrun
  obtain ⟨_, _, hfirst, hrun⟩ := eq_ok_of_bind hrun
  rw [hknown] at hfirst
  cases hfirst
  obtain ⟨_, opened, hopen, hrun⟩ := eq_ok_of_bind hrun
  obtain ⟨_, named, hname, hrun⟩ := eq_ok_of_bind hrun
  rw [Meaning.nameInside, if_pos hkind] at hname
  cases hname
  obtain ⟨_, bound, hbind, hrun⟩ := eq_ok_of_bind hrun
  have henter : (enter declaration place).run.run before = (.ok (), bound) := by
    unfold enter
    rw [run_bind_ok hopen]
    exact hbind
  -- the result of the type is still the same when the parameters are bound
  have hadvances := (spares_enter haside place).retains henter |>.store
  obtain ⟨found, looked, hlook, hrun⟩ := eq_ok_of_bind hrun
  rw [run_resultOf (hadvances.result? hresult)] at hlook
  cases hlook
  obtain ⟨_, ended, hbody, hrun⟩ := eq_ok_of_bind hrun
  obtain ⟨made, last, hmade, hrun⟩ := eq_ok_of_bind hrun
  obtain ⟨_, noted, hnote, hrun⟩ := eq_ok_of_bind hrun
  cases hrun
  have hvalue : Spares (fun _ => False) (valueOf type) := .valueOf type
  have hlast := (hvalue.retains hmade).store
  obtain ⟨store, rfl, -, -, htypes⟩ := eq_ok_of_valueOf hmade
  cases hnote
  refine ⟨hknown, ⟨_, rfl, htypes⟩, fun block hblock hstatements => ?_,
    fun answer hanswer hexpression => ?_⟩
  · unfold Meaning.runBody at hbody
    rw [Meaning.part?_family, hblock, Option.map_some] at hbody
    dsimp only at hbody
    rw [if_pos (beq_iff_eq.2 hstatements)] at hbody
    obtain ⟨_, started, hhoist, hwalk⟩ := eq_ok_of_bind hbody
    have hasideBlock := haside.of_mem (Node.mem_children_of_part? hblock)
    exact ⟨bound, started, ended, henter, hhoist, hwalk,
      (returned_of_walkParts hasideBlock rfl hwalk).mono hlast⟩
  · unfold Meaning.runBody at hbody
    rw [Meaning.part?_family, hanswer, Option.map_some] at hbody
    dsimp only at hbody
    rw [if_neg fun heq => hexpression (beq_iff_eq.1 heq)] at hbody
    obtain ⟨value, found, hfound, hpropagate⟩ := eq_ok_of_bind hbody
    obtain ⟨store, hstore, rfl⟩ := eq_ok_of_onStore hpropagate
    exact ⟨bound, value, found, henter, hfound, fun type htype =>
      hlast.mem_typesOf (Store.mem_typesOf_of_propagate hstore type htype)⟩

/-- A run is still under way when a statement of a body is reached. -/
theorem Underway.passes (h : Underway place start)
    (hpasses : Passes body place start statement before after final) : Underway place before := by
  obtain ⟨front, back, -, hbefore, -, -⟩ := hpasses
  have hstep : ∀ shift base start (inner : Place), Located.Within start inner →
      (runTwins shift base place.file).Agree start
        (front.forM fun statement => (meaning statement).walk inner)
        (front.forM fun statement => (meaning statement).walk (Located.move shift inner))
        fun _ _ => True :=
    fun shift base start inner hwithin => .forM fun statement _ later hlater =>
      (meaning_steady shift base place.file statement).walk later inner
        (Located.mono hlater hwithin)
  obtain ⟨next, hnext, hunderway⟩ := h.perform hstep
  rw [hbefore] at hnext
  cases hnext
  exact hunderway

/-- When the parameters of a declared function are bound, the run is under way in its body, and the
    function has its scope. -/
theorem Underway.enter (h : Underway place before) (haside : Aside declaration)
    (hlookup : before.functions.lookup declaration.id = some type)
    (hresult : before.store.result? type = some result) :
    ∃ bound, (Inference.enter declaration place).run.run before = (.ok (), bound) ∧
      Underway (place.body declaration result) bound ∧
      (bound.scopes.get? declaration.id).isSome = true := by
  obtain ⟨shift, base, own, inner, htwin, hwithin, rfl⟩ := h
  -- the type and its result are those of the run in its own store, moved
  rw [htwin.functions, lookup_map] at hlookup
  obtain ⟨ownType, hownType, rfl⟩ := Option.map_eq_some_iff.1 hlookup
  rw [htwin.inside.embeds.result?] at hresult
  obtain ⟨ownResult, hownResult, rfl⟩ := Option.map_eq_some_iff.1 hresult
  have hplaced := htwin.inside.sound.placed (.result ownType) ownResult hownResult
  have hagree : (runTwins shift base inner.file).Agree own.store (Inference.enter declaration inner)
      (Inference.enter declaration (Located.move shift inner)) fun _ _ => True := by
    refine .bind (agree_registerScope declaration.id (some inner.scope)) fun later _ hlater _ => ?_
    have hsteady : (Meaning.family declaration).Steady shift base inner.file := by
      intro child hchild
      obtain ⟨part, -, rfl⟩ := List.mem_map.1 hchild
      exact meaning_steady shift base inner.file part
    have hwithin' : Located.Within later (inner.inside declaration) := Located.mono hlater hwithin
    exact Meaning.agree_bindParameters hsteady hwithin'
  obtain ⟨_, next, bound, -, hbound, htwin', hgrows, -⟩ := hagree own before htwin (.refl _)
  refine ⟨bound, hbound, ⟨shift, base, next, inner.body declaration ownResult, htwin', ?_, rfl⟩, ?_⟩
  · rintro value ⟨⟩
    exact Nat.lt_of_lt_of_le hplaced hgrows.values_le
  · obtain ⟨_, opened, hopen, hbind⟩ := eq_ok_of_bind hbound
    cases hopen
    exact ((spares_binding haside _).retains hbind).scopes.isSome_get?
      (Scopes.isSome_get?_register _ _ _)

/-! ### Declarations known ahead -/

/-- A function that is announced is a statement of the body, or an expression is around it, or a
    declaration or a return that has it in a value: induction on the tree. -/
theorem mem_statements_or (h : .function declaration ∈ body.ahead) :
    declaration ∈ statements body ∨ ∃ node, body.Inside node ∧ body.Reached node ∧
      isPlain node.kind = false ∧ node.Inside declaration := by
  induction body using Node.induction with
  | step body ih =>
    rw [Node.ahead_eq] at h
    obtain ⟨part, hpart, hmem⟩ := List.mem_flatMap.1 h
    have hinside : body.Inside part := ⟨part, hpart, part.self_mem_nodes⟩
    have hstatements : ∀ {item}, (item ∈ if isPlain part.kind then statements part else [part]) →
        item ∈ statements body := by
      intro item hitem
      rw [statements_eq]
      exact List.mem_flatMap.2 ⟨part, hpart, hitem⟩
    by_cases hdeclaration : part.kind.isFunctionDeclaration = true
    · rw [Node.announced_of_declaration hdeclaration] at hmem
      cases List.mem_singleton.1 hmem
      refine Or.inl (hstatements ?_)
      rw [isPlain, hdeclaration]
      exact List.mem_singleton_self _
    by_cases hvariables : part.kind = .variableDeclaration
    · rw [Node.announced_of_variables hvariables] at hmem
      obtain ⟨_, -, heq⟩ := List.mem_map.1 hmem
      cases heq
    cases hcloses : part.kind.closes with
    | true =>
      rw [Node.announced_of_closed hcloses (Bool.eq_false_iff.2 hdeclaration) hvariables] at hmem
      cases hmem
    | false =>
      rw [Node.announced_of_open hcloses] at hmem
      have hreached : body.Reached part := .part .self hpart hcloses
      cases hplain : isPlain part.kind with
      | false => exact Or.inr ⟨part, hinside, hreached, hplain, Node.inside_of_mem_ahead hmem⟩
      | true =>
        rcases ih part (Node.mem_children_of_mem_parts hpart) hmem with hown |
          ⟨node, hnode, hbelow, hother, hin⟩
        · refine Or.inl (hstatements ?_)
          rw [hplain]
          exact hown
        · exact Or.inr ⟨node, ⟨part, hpart, hnode.mem_nodes⟩, hreached.trans hbelow, hother, hin⟩

def madeIds (made : List (Node × TypeId)) (id : Nat) : Prop := ∃ entry ∈ made, entry.1.id = id

/-- A type that was made ahead for a declaration is remembered, and whenever the declaration is
    walked later, at whatever place, it is the type of the function. When the body is gone through
    the declaration is so walked as one of its statements, if there is nothing around it that has a
    value. -/
structure Reused (body : Node) (place : Place) (made : List (Node × TypeId))
    (run hoisted final : Run) (declaration : Node) (type : TypeId) (result : ValueId) : Prop where
  ahead : MadeFor place declaration type result run hoisted
  remembered : hoisted.functions.lookup declaration.id = some type
  walked : ∀ elsewhere before after, hoisted.Retains (madeIds made) before →
    ((meaning declaration).walk elsewhere).run.run before = (.ok (), after) →
    Walked elsewhere declaration type result before after
  reached : (∃ before after, Passes body place hoisted declaration before after final ∧
      hoisted.Retains (madeIds made) before ∧ Walked place declaration type result before after ∧
      after.Retains (madeIds made) final) ∨
    ∃ node, body.Inside node ∧ body.Reached node ∧ isPlain node.kind = false ∧
      node.Inside declaration

theorem lookup_reverse_append {α : Type} {entries older : List (Nat × α)} {id : Nat} {value : α}
    (h : (entries.map Prod.fst).Nodup) (hmem : (id, value) ∈ entries) :
    (entries.reverse ++ older).lookup id = some value := by
  obtain ⟨front, back, heq⟩ := List.append_of_mem hmem
  rw [heq, List.map_append, List.map_cons, List.nodup_append] at h
  refine List.lookup_eq_some_iff.2
    ⟨back.reverse, front.reverse ++ older, ?_, fun entry hentry => ?_⟩
  · rw [heq]
    simp
  · have hback := (List.nodup_cons.1 h.2.1).1
    rw [bne_iff_ne]
    intro hsame
    exact hback (List.mem_map.2 ⟨entry, List.mem_reverse.1 hentry, hsame.symm⟩)

theorem mem_ahead_of_made {made : List (Node × TypeId)} {entry : Node × TypeId}
    (hmade : made.map Prod.fst = body.ahead.filterMap Announcement.function?)
    (hentry : entry ∈ made) : .function entry.1 ∈ body.ahead := by
  have hmem : entry.1 ∈ body.ahead.filterMap Announcement.function? :=
    hmade ▸ List.mem_map_of_mem hentry
  obtain ⟨item, hitem, hfunction⟩ := List.mem_filterMap.1 hmem
  cases item with
  | function node =>
    cases hfunction
    exact hitem
  | declarator node => cases hfunction

/-- What goes through a body spares what it announces: the nodes are told apart by their identities,
    and what is announced is in no function. -/
theorem outside_of_ahead {made : List (Node × TypeId)} (hids : (body.nodes.map Node.id).Nodup)
    (hmade : made.map Prod.fst = body.ahead.filterMap Announcement.function?)
    (hstatement : body.Inside statement) : Outside (madeIds made) statement := by
  rintro function hfunction hkind inner hinner ⟨entry, hentry, hid⟩
  have hnodup : body.nodes.Nodup := .of_map _ hids
  have hannounced := mem_ahead_of_made hmade hentry
  obtain ⟨part, hpart, hmem⟩ := hstatement
  have hin : body.Inside function := ⟨part, hpart, Node.mem_nodes_trans hmem hfunction⟩
  have hsame : entry.1 = inner := List.inj_on_of_nodup_map hids
    (Node.inside_of_mem_ahead hannounced).mem_nodes
    (Node.mem_nodes_trans hin.mem_nodes hinner.mem_nodes) hid
  exact Node.not_inside_of_mem_ahead hannounced hnodup hin hkind (hsame ▸ hinner)

theorem spares_statement {made : List (Node × TypeId)} (haside : Aside body)
    (hids : (body.nodes.map Node.id).Nodup)
    (hmade : made.map Prod.fst = body.ahead.filterMap Announcement.function?) (place : Place) :
    ∀ statement ∈ statements body, Spares (madeIds made) ((meaning statement).walk place) :=
  fun _ hstatement =>
    have hinside := inside_of_mem_statements hstatement
    (spares_meaning (haside.of_mem_nodes _ hinside.mem_nodes)
      (outside_of_ahead hids hmade hinside)).walk place

theorem retains_of_walkParts {made : List (Node × TypeId)} (haside : Aside body)
    (hids : (body.nodes.map Node.id).Nodup)
    (hmade : made.map Prod.fst = body.ahead.filterMap Announcement.function?)
    (hrun : ((meaning body).walkParts place).run.run start = (.ok (), final)) :
    start.Retains (madeIds made) final := by
  rw [walkParts_eq] at hrun
  exact (Spares.forM (spares_statement haside hids hmade place)).retains hrun

/-- The types made for the functions of a body are reused. -/
theorem reused {made : List (Node × TypeId)} {names : List String}
    {gains : List (String × TypeId)} {hoisted : Run} (haside : Aside body)
    (hids : (body.nodes.map Node.id).Nodup)
    (hmade : made.map Prod.fst = body.ahead.filterMap Announcement.function?)
    (h : Hoisted place names made gains run hoisted)
    (hrun : ((meaning body).walkParts place).run.run hoisted = (.ok (), final))
    {entry : Node × TypeId} (hentry : entry ∈ made) :
    ∃ result, Reused body place made run hoisted final entry.1 entry.2 result := by
  obtain ⟨result, hahead⟩ := h.made entry hentry
  have hannounced := mem_ahead_of_made hmade hentry
  have hinside := Node.inside_of_mem_ahead hannounced
  have hkind : entry.1.kind.isFunctionDeclaration = true := by
    cases Node.mem_ahead_iff.1 hannounced with
    | function _ _ hkind => exact hkind
  have hremembered : hoisted.functions.lookup entry.1.id = some entry.2 := by
    rw [h.functions]
    refine lookup_reverse_append ?_ (List.mem_map.2 ⟨entry, hentry, rfl⟩)
    have hnodup := ((Node.sublist_functions body).map Node.id).nodup hids
    rw [← hmade, List.map_map] at hnodup
    rwa [List.map_map]
  have hresult : hoisted.store.result? entry.2 = some result := by
    unfold Store.result?
    rw [hahead.type]
  have hwalked : ∀ elsewhere before after, hoisted.Retains (madeIds made) before →
      ((meaning entry.1).walk elsewhere).run.run before = (.ok (), after) →
      Walked elsewhere entry.1 entry.2 result before after :=
    fun elsewhere before after hretains hwalk =>
      walked_of_walk (haside.of_mem_nodes _ hinside.mem_nodes) hkind
        ((hretains.functions _ ⟨entry, hentry, rfl⟩).trans hremembered)
        (hretains.store.result? hresult) hwalk
  refine ⟨result, hahead, hremembered, hwalked,
    (mem_statements_or hannounced).imp_left fun hmem => ?_⟩
  obtain ⟨before, after, hpasses⟩ := exists_passes hrun hmem
  obtain ⟨hbefore, -, hafter⟩ := hpasses.retains (spares_statement haside hids hmade place)
  obtain ⟨front, back, -, -, hwalk, -⟩ := id hpasses
  exact ⟨before, after, hpasses, hbefore, hwalked place before after hbefore hwalk, hafter⟩

/-- What a body declares is declared ahead, and then the body is gone through. The scope has got the
    names that are announced, in the order of the source, and kept its variables; the variable of a
    function's name holds, behind what it held, the types of all declarations of the name, of which
    each has got one. This is remembered throughout, and reused when the declaration is walked. -/
structure DeclaredAhead (body : Node) (place : Place) (run : Run) (made : List (Node × TypeId))
    (hoisted final : Run) : Prop where
  hoist : ((meaning body).hoist place).run.run run = (.ok (), hoisted)
  walkParts : ((meaning body).walkParts place).run.run hoisted = (.ok (), final)
  announced : ∀ item, item ∈ body.ahead ↔ body.Announces item
  ordered : (body.ahead.map Announcement.node).Sublist body.nodes
  functions : made.map Prod.fst = body.ahead.filterMap Announcement.function?
  declared : Hoisted place (body.ahead.filterMap Announcement.name?) made
    (made.filterMap Hoisted.gain?) run hoisted
  held : ∀ name, hoisted.held place.scope name = run.held place.scope name ++
    (made.filter fun entry => entry.1.nameOf? .name = some name).map Prod.snd
  retained : hoisted.Retains (madeIds made) final
  reused : ∀ entry ∈ made, ∃ result, Reused body place made run hoisted final entry.1 entry.2 result

/-- Whatever body a run under way comes to, with whatever scope that is there, what the body
    declares is declared ahead in the scope, and the types made for its functions are reused. -/
theorem declared_ahead (haside : Aside body) (hids : (body.nodes.map Node.id).Nodup)
    (hunderway : Underway place run) (hscope : (run.scopes.get? place.scope).isSome = true) :
    ∃ made hoisted final, DeclaredAhead body place run made hoisted final := by
  obtain ⟨hoisted, hhoist, hnext⟩ := hunderway.hoist body
  obtain ⟨final, hwalk, -⟩ := hnext.walkParts body
  obtain ⟨made, hfunctions, hdeclared⟩ := Hoisted.of_hoist (hunderway.orderly hscope) hhoist
  exact ⟨made, hoisted, final, hhoist, hwalk, fun _ => Node.mem_ahead_iff, Node.sublist_ahead body,
    hfunctions, hdeclared, fun name => Hoisted.gains_of_name made name ▸ hdeclared.held name,
    retains_of_walkParts haside hids hfunctions hwalk,
    fun _ hentry => reused haside hids hfunctions hdeclared hwalk hentry⟩

/-- A name is declared twice, once inside a condition, and used before. What a function and a class
    declare is not announced. -/
def twiceText : String :=
  "f(); function f(a, [b]) \x7b return 1 \x7d if (c) \x7b function f() \x7b return 'x' \x7d " ++
    "var v \x7d let g = function () \x7b var h \x7d; class K \x7b m() \x7b var i \x7d \x7d"

def twicePlace : Place := ⟨"f.js", (parse twiceText).id, none⟩

def twiceStart : Run := ⟨.initial, Scopes.empty.register (parse twiceText).id none, [], []⟩

theorem underway_twiceStart : Underway twicePlace twiceStart := by
  obtain ⟨next, hrun, hunderway, -⟩ :=
    Underway.begin Store.Sound.initial.primitive "f.js" (parse twiceText)
  cases hrun
  exact hunderway

theorem twiceText_declares : (twiceStart.scopes.get? twicePlace.scope).isSome = true ∧
    (parse twiceText).ahead.filterMap Announcement.name? = ["f", "f", "v"] ∧
    ((statements (parse twiceText)).filter (·.kind.isFunctionDeclaration)).length = 2 ∧
    (let after := (inferFile "f.js" (parse twiceText) .initial).2
     [⟨3⟩, ⟨4⟩].map fun type => (after.result? type).map after.typesOf) =
      [some [Store.primitive .number], some [Store.primitive .string]] := by
  decide +kernel

theorem declared_ahead_twiceText : Aside (parse twiceText) ∧
    ((parse twiceText).nodes.map Node.id).Nodup ∧ Underway twicePlace twiceStart ∧
    (twiceStart.scopes.get? twicePlace.scope).isSome = true ∧
    (parse twiceText).ahead.filterMap Announcement.name? = ["f", "f", "v"] ∧
    ((statements (parse twiceText)).filter (·.kind.isFunctionDeclaration)).length = 2 ∧
    (let after := (inferFile "f.js" (parse twiceText) .initial).2
     [⟨3⟩, ⟨4⟩].map fun type => (after.result? type).map after.typesOf) =
      [some [Store.primitive .number], some [Store.primitive .string]] ∧
    ∃ made hoisted final, DeclaredAhead (parse twiceText) twicePlace twiceStart made hoisted
      final := by
  obtain ⟨hscope, hnames, hstatements, hresults⟩ := twiceText_declares
  have haside := (Grammar.tidy_parse twiceText).placed.aside
  have hids := Grammar.nodup_nodes_parse twiceText
  exact ⟨haside, hids, underway_twiceStart, hscope, hnames, hstatements, hresults,
    declared_ahead haside hids underway_twiceStart hscope⟩

end Capabilities.Inference
