import Capabilities.Proofs.Inference.File
import Capabilities.Proofs.Inference.Frames
import Capabilities.Proofs.Script.Grammar.Statement

/-!
# What an assignment to a name reaches

An assignment to a name flows into the variable of the nearest scope on its chain in which the name
has been declared by then, and into that of the root if there is none; the root gets a variable for
it only in that case. The names that a function has ahead of the code in which the assignment
stands have been declared by then, wherever they stand; all others have only if they were met
before. So if the nearest function around that ends up with the name has it by then, it is reached
and the root is left alone.
-/

namespace Capabilities.Inference

open Script Capabilities.Types

/-- The nearest scope of a chain in which acts have declared a name, or the root if there is
    none. -/
def reached (root : ScopeId) (chain : List ScopeId) (acts : List Act) (name : String) : ScopeId :=
  (chain.find? fun outer => decide (name ∈ namesIn outer acts)).getD root

/-- The nearest scope around an id, before the root, that has a variable of a name. -/
def owner? (root : ScopeId) (scopes : Scopes) (id : ScopeId) (name : String) : Option ScopeId :=
  (scopes.chain id).find? fun outer => outer != root && (scopes.own? outer name).isSome

/-- In the course of a script an assignment is done from one run to the next, after some acts and
    before others, and the types of its right side flow into a variable. -/
structure Flows (root : Node) (base : Store) (inference : FileInference) (after : Store)
    (before behind : List Act) (source : Option Node) (left : Node) (spot : Spot)
    (right value : ValueId) (run next : Run) : Prop where
  begun : Performed (.begun base root) before run
  received : ∃ place : Place, place.scope = spot.scope ∧
    ((meaning left).receive right place).run.run run = (.ok (), next)
  ended : ∃ last, Performed next behind last ∧ last.Ends inference after
  source : ∀ node ∈ source, run.expressions.head? = some (node.id, right)
  noted : (left.id, value) ∈ inference.expressions
  types : ∀ type ∈ run.store.typesOf right, type ∈ after.typesOf value

/-- The variable that an assignment flows into, after some acts of a file, is that of the scope its
    name reaches. What the functions around have ahead is declared by then; so if the nearest of
    them that ends up with the name has it by then, its variable is the one, and none of the root
    is made or changed. -/
structure Resolves (root : ScopeId) (inference : FileInference) (before : List Act) (name : String)
    (spot : Spot) (value : ValueId) (run next : Run) : Prop where
  around : inference.scopes.chain spot.scope = spot.frames.map Frame.scope
  target : inference.scopes.own?
    (reached root (inference.scopes.chain spot.scope) before name) name = some value
  ahead : ∀ frame ∈ spot.frames, frame.scope ≠ root → name ∈ frame.ahead →
    name ∈ namesIn frame.scope before
  nearest : ∀ outer, owner? root inference.scopes spot.scope name = some outer →
    name ∈ namesIn outer before → inference.scopes.own? outer name = some value ∧
      next.scopes = run.scopes ∧ ∀ held, inference.scopes.own? root name = some held →
        next.store.typesOf held = run.store.typesOf held
  created : next.scopes ≠ run.scopes → ∀ outer ∈ inference.scopes.chain spot.scope,
    outer ≠ root → name ∉ namesIn outer before

/-- What becomes of the assignments to names in a script: each that the course comes to flows into
    the variable that its name reaches, the values noted for their targets are these variables, and
    the root has no variables but those that are declared in it and those of names that no function
    around had when they were assigned to. -/
structure Resolved (root : Node) (base : Store) (inference : FileInference) (after : Store) :
    Prop where
  walked : ∀ before source left spot behind,
    scriptCourse root = before ++ .assigns source left spot :: behind →
    ∃ right value run next,
      Flows root base inference after before behind source left spot right value run next ∧
      Resolves root.id inference before left.lexeme spot value run next
  noted : ∀ assignment left value, root.Below assignment left →
    assignment.kind = .assignmentExpression → left.role = some .left → left.kind = .identifier →
    (left.id, value) ∈ inference.expressions →
    ∃ before spot behind right run next,
      scriptCourse root = before ++ .assigns (assignment.part? .right) left spot :: behind ∧
      Flows root base inference after before behind (assignment.part? .right) left spot right value
        run next ∧
      Resolves root.id inference before left.lexeme spot value run next
  globals : ∀ name value, inference.scopes.own? root.id name = some value →
    name ∈ namesIn root.id (scriptCourse root) ∨ ∃ before source left spot behind,
      scriptCourse root = before ++ .assigns source left spot :: behind ∧ left.lexeme = name ∧
      ∀ outer ∈ inference.scopes.chain spot.scope, outer ≠ root.id →
        name ∉ namesIn outer before

/-! ### Runs from the beginning -/

section

variable {root left : Node} {base : Store} {before behind acts : List Act} {spot : Spot}
  {run next last : Run} {scope : ScopeId} {name : String} {value right : ValueId}

theorem Performed.nested_of_begun (h : Performed (.begun base root) acts next) :
    next.scopes.Nested ∧ next.scopes.root = some root.id :=
  ⟨h.lasts.nested (Scopes.nested_register_empty root.id), h.lasts.scopes.root⟩

/-- A function's scope has the names that are declared in it, and no others. -/
theorem Performed.isSome_own?_iff (h : Performed (.begun base root) acts next)
    (hscope : scope ≠ root.id) :
    (next.scopes.own? scope name).isSome = true ↔ name ∈ namesIn scope acts := by
  rw [mem_namesIn_iff]
  refine ⟨fun hown => ?_, h.isSome_own?⟩
  rcases h.own?_before hown with hnone | hdeclared | ⟨hroot, -⟩
  · have hbegun : (Run.begun base root).scopes.own? scope name = none := Scopes.own?_register ..
    rw [hbegun] at hnone
    cases hnone
  · exact hdeclared
  · exact absurd (Option.some.inj hroot).symm hscope

/-- A name stands for the variable of the scope it reaches. -/
theorem Performed.lookup?_eq (h : Performed (.begun base root) acts next)
    (hscope : (next.scopes.get? scope).isSome = true) :
    next.scopes.lookup? scope name =
      next.scopes.own? (reached root.id (next.scopes.chain scope) acts name) name := by
  obtain ⟨hnested, hroot⟩ := h.nested_of_begun
  rw [Scopes.lookup?_eq_findSome?]
  refine (hnested.chain hscope).findSome?_eq hnested hroot fun outer houter => ?_
  rw [h.isSome_own?_iff houter, decide_eq_true_iff]

/-- A name that stands for nothing is declared in no function around. -/
theorem Performed.not_mem_namesIn (h : Performed (.begun base root) acts next)
    (hnone : next.scopes.lookup? scope name = none) {outer : ScopeId}
    (houter : outer ∈ next.scopes.chain scope) (hroot : outer ≠ root.id) :
    name ∉ namesIn outer acts := by
  intro hname
  rw [Scopes.lookup?_eq_findSome?, List.findSome?_eq_none_iff] at hnone
  have hown := (h.isSome_own?_iff hroot).2 hname
  rw [hnone outer houter] at hown
  cases hown

/-- The names of the scopes around a spot that they have ahead are declared before. -/
theorem Performed.mem_namesIn_of_frame (h : Performed (.begun base root) acts next)
    (hknown : spot.Known next.scopes) {frame : Frame} (hframe : frame ∈ spot.frames)
    (hroot : frame.scope ≠ root.id) (hname : name ∈ frame.ahead) :
    name ∈ namesIn frame.scope acts :=
  (h.isSome_own?_iff hroot).1 (hknown.ahead frame hframe name hname)

/-- An assignment flows into the variable that its name reaches. -/
theorem Performed.own?_of_receives (h : Performed (.begun base root) acts run)
    (hscope : (run.scopes.get? spot.scope).isSome = true)
    (hreceives : Receives left spot.scope right value run next) :
    next.scopes.own? (reached root.id (run.scopes.chain spot.scope) acts left.lexeme) left.lexeme =
        some value ∧
      (next.scopes ≠ run.scopes → ∀ outer ∈ run.scopes.chain spot.scope, outer ≠ root.id →
        left.lexeme ∉ namesIn outer acts) := by
  obtain ⟨middle, store, hfinds, rfl, -⟩ := hreceives.found
  cases hfinds with
  | present hfound =>
    rw [h.lookup?_eq hscope] at hfound
    exact ⟨hfound, fun hne => absurd rfl hne⟩
  | made hnone hroot hdeclare =>
    cases h.nested_of_begun.2.symm.trans hroot
    have hfree : ∀ outer ∈ run.scopes.chain spot.scope, outer ≠ root.id →
        left.lexeme ∉ namesIn outer acts := fun _ => h.not_mem_namesIn hnone
    refine ⟨?_, fun _ => hfree⟩
    have hreached : reached root.id (run.scopes.chain spot.scope) acts left.lexeme = root.id := by
      unfold reached
      cases hfind : (run.scopes.chain spot.scope).find?
          fun outer => decide (left.lexeme ∈ namesIn outer acts) with
      | none => rfl
      | some outer =>
        have hname : left.lexeme ∈ namesIn outer acts := by simpa using List.find?_some hfind
        by_contra hne
        exact hfree outer (List.mem_of_find?_eq_some hfind) hne hname
    have hmade := own?_of_declare hdeclare
    rw [hreached]
    exact hmade

/-- An assignment to a name that stands for something fills its variable, and that is all. -/
theorem Receives.eq_of_found (h : Receives left scope right value run next)
    (hfound : (run.scopes.lookup? scope left.lexeme).isSome = true) :
    ∃ store, Store.Filled value (run.store.typesOf right) run.store store ∧
      next = { run with store := store, expressions := (left.id, value) :: run.expressions } := by
  obtain ⟨middle, store, hfinds, rfl, hfilled⟩ := h.found
  cases hfinds with
  | present _ => exact ⟨store, hfilled, rfl⟩
  | made hnone _ _ =>
    rw [hnone] at hfound
    cases hfound

end

/-- The end of a run on a script, of which all variables have values of their own. -/
structure Finished (root : Node) (base : Store) (inference : FileInference) (after : Store)
    (last : Run) : Prop extends last.Ends inference after where
  performed : Performed (.begun base root) (scriptCourse root) last
  distinct : ∀ scope other name value, inference.scopes.own? scope name = some value →
    inference.scopes.own? other name = some value → scope = other

namespace Finished

variable {root left : Node} {base after : Store} {inference : FileInference} {source : Option Node}
  {before behind : List Act} {spot : Spot} {run next last : Run} {value right : ValueId}

/-- The chain that a scope has at the end it has as soon as it is there. -/
theorem chain_eq (h : Finished root base inference after last) {scope : ScopeId} {acts : List Act}
    (hbefore : Performed (.begun base root) acts run) (hlasts : run.Lasts last)
    (hscope : (run.scopes.get? scope).isSome = true) :
    inference.scopes.chain scope = run.scopes.chain scope := by
  rw [← h.scopes]
  exact hlasts.scopes.chain_eq hbefore.nested_of_begun.1 h.performed.nested_of_begun.1 hscope

/-- If the nearest function around that ends up with a name has it by then, the name reaches it. -/
theorem reached_eq (h : Finished root base inference after last) {scope outer : ScopeId}
    {acts : List Act} {name : String} (hbefore : Performed (.begun base root) acts run)
    (hlasts : run.Lasts last) (hscope : (run.scopes.get? scope).isSome = true)
    (howner : owner? root.id inference.scopes scope name = some outer)
    (hname : name ∈ namesIn outer acts) :
    reached root.id (inference.scopes.chain scope) acts name = outer := by
  obtain ⟨hnested, hroot⟩ := hbefore.nested_of_begun
  unfold owner? at howner
  rw [h.chain_eq hbefore hlasts hscope] at howner ⊢
  unfold reached
  rw [(hnested.chain hscope).find?_eq hnested hroot howner (decide_eq_true hname) ?_]
  · rfl
  · intro other hother hdeclared
    have hown := (hbefore.isSome_own?_iff hother).2 (of_decide_eq_true hdeclared)
    have hlast := hlasts.scopes.isSome_own? hown
    rw [h.scopes] at hlast
    rw [Bool.and_eq_true, bne_iff_ne]
    exact ⟨hother, hlast⟩

/-- An assignment of a finished run flows into the variable that its name reaches. -/
theorem resolves (h : Finished root base inference after last) (haside : Aside root)
    (hids : (root.nodes.map Node.id).Nodup)
    (hcourse : scriptCourse root = before ++ .assigns source left spot :: behind)
    (hbefore : Performed (.begun base root) before run)
    (hstep : (Act.assigns source left spot).Steps run next) (hbehind : Performed next behind last) :
    ∃ right value, next.expressions = (left.id, value) :: run.expressions ∧
      Flows root base inference after before behind source left spot right value run next ∧
      Resolves root.id inference before left.lexeme spot value run next := by
  cases hstep with
  | @assigns _ _ _ right place _ _ hkind hknown hsource hplace hreceive =>
    obtain ⟨value, hreceives⟩ := receives_of_receive hkind hknown hplace hreceive
    have hlasts := hreceives.lasts.trans hbehind.lasts
    have hchain := h.chain_eq hbefore hlasts hknown.scope
    obtain ⟨htarget, hcreated⟩ := hbefore.own?_of_receives hknown.scope hreceives
    have hfinal : ∀ scope name held, next.scopes.own? scope name = some held →
        inference.scopes.own? scope name = some held := by
      intro scope name held hown
      rw [← h.scopes]
      exact hbehind.lasts.scopes.own scope name held hown
    have hexpressions := hreceives.expressions_eq
    refine ⟨right, value, hexpressions, ⟨hbefore, ⟨place, hplace, hreceive⟩,
      ⟨last, hbehind, h.toEnds⟩, hsource, ?_, ?_⟩, ⟨?_, ?_, ?_, ?_, ?_⟩⟩
    · rw [← h.expressions]
      exact hbehind.lasts.expressions.mem (hexpressions ▸ List.mem_cons_self)
    · intro type htype
      rw [← h.store]
      exact hbehind.lasts.store.mem_typesOf (hreceives.held type htype)
    · rw [← h.scopes]
      have hassigns : .assigns source left spot ∈ scriptCourse root := by
        rw [hcourse]
        exact List.mem_append_right _ List.mem_cons_self
      exact h.performed.chain_eq_frames haside hids hassigns
    · rw [hchain]
      exact hfinal _ _ _ htarget
    · intro frame hframe hroot hname
      exact hbefore.mem_namesIn_of_frame hknown hframe hroot hname
    · intro outer howner hname
      have hreached := h.reached_eq hbefore hlasts hknown.scope howner hname
      rw [← hchain, hreached] at htarget
      have houter : outer ≠ root.id := by
        have hfound := List.find?_some howner
        rw [Bool.and_eq_true, bne_iff_ne] at hfound
        exact hfound.1
      have hfound : (run.scopes.lookup? spot.scope left.lexeme).isSome = true := by
        rw [hbefore.lookup?_eq hknown.scope, ← hchain, hreached]
        exact (hbefore.isSome_own?_iff houter).2 hname
      obtain ⟨store, hfilled, rfl⟩ := hreceives.eq_of_found hfound
      refine ⟨hfinal _ _ _ htarget, rfl, fun held hheld => hfilled.others held ?_⟩
      rintro rfl
      exact houter (h.distinct _ _ _ _ (hfinal _ _ _ htarget) hheld)
    · rw [hchain]
      exact hcreated

/-- Which assignments are done, and what comes of them, in a finished run. -/
theorem resolved (h : Finished root base inference after last) (hplaced : Placed root)
    (hids : (root.nodes.map Node.id).Nodup) (hroot : root.kind ≠ .assignmentExpression) :
    Resolved root base inference after where
  walked before source left spot behind hcourse := by
    have hperformed := h.performed
    rw [hcourse] at hperformed
    obtain ⟨middle, hbefore, hrest⟩ := hperformed.of_append
    cases hrest with
    | cons hquiet hstep hbehind =>
      obtain ⟨right, value, -, hflows, hresolves⟩ :=
        h.resolves hplaced.aside hids hcourse (hbefore.quiet_right hquiet) hstep hbehind
      exact ⟨right, value, _, _, hflows, hresolves⟩
  noted assignment left value hbelow hassignment hrole hidentifier hnoted := by
    rw [← h.expressions] at hnoted
    rcases h.performed.exists_steps_of_mem hnoted with hnone | ⟨before, act, behind, run, next,
      hcourse, hid, hbefore, hstep, hexpressions, hbehind⟩
    · cases hnone
    · have hact : act ∈ scriptCourse root := by
        rw [hcourse]
        exact List.mem_append_right _ List.mem_cons_self
      obtain ⟨spot, rfl⟩ :=
        eq_assigns_of_noted hplaced hids hroot hbelow hassignment hrole hidentifier hact hid
      obtain ⟨right, found, hsame, hflows, hresolves⟩ :=
        h.resolves hplaced.aside hids hcourse hbefore hstep hbehind
      cases hexpressions.symm.trans hsame
      exact ⟨before, spot, behind, right, run, next, hcourse, hflows, hresolves⟩
  globals name value hown := by
    rw [← h.scopes] at hown
    have hsome := Option.isSome_of_eq_some hown
    rcases h.performed.own?_before hsome with hnone | hdeclared | ⟨-, before, source, left,
      spot, behind, run, next, hcourse, hname, hfree, hbefore, hstep, hbehind⟩
    · have hbegun : (Run.begun base root).scopes.own? root.id name = none :=
        Scopes.own?_register ..
      rw [hbegun] at hnone
      cases hnone
    · exact Or.inl (mem_namesIn_iff.2 hdeclared)
    · refine Or.inr ⟨before, source, left, spot, behind, hcourse, hname, fun outer houter hne => ?_⟩
      have hlasts := hstep.lasts.trans hbehind.lasts
      cases hstep with
      | assigns _ hknown _ _ _ =>
        rw [h.chain_eq hbefore hlasts hknown.scope] at houter
        exact hbefore.not_mem_namesIn hfree houter hne

end Finished

/-- Every tree below which statements may stand is inferred, and then its assignments have flowed
    where their names reach. -/
theorem inferFile_resolved {root : Node} {base : Store} {locals : Variables} (file : String)
    (hplaced : Placed root) (hids : (root.nodes.map Node.id).Nodup)
    (hroot : root.kind.holdsStatements = true) (h : base.Sound locals) :
    ∃ inference after, inferFile file root base = (.ok inference, after) ∧
      Resolved root base inference after := by
  obtain ⟨inference, -, after, -, hrun, -⟩ := inferFile_sound h file root
  have hkinds : root.kind ≠ .object ∧ root.kind ≠ .assignmentExpression := by
    constructor <;> intro hkind <;> rw [hkind] at hroot <;> cases hroot
  obtain ⟨world, -, hscopes, -⟩ := Moment.of_inferFile hplaced hids hkinds.1 h hrun
  obtain ⟨last, hperformed, hends⟩ := performed_inferFile hrun
  have hdistinct : ∀ scope other name value,
      world.run.scopes.own? scope name = some value →
      world.run.scopes.own? other name = some value → scope = other := by
    intro scope other name value hscope hother
    have hplace : ∀ scope, world.run.scopes.own? scope name = some value →
        world.run.store.place? (world.run.locals file) (.ofVariable ⟨file, scope, name⟩) =
          some value := fun scope hown => (if_pos rfl).trans hown
    have hsame := world.sound.distinct _ _ value (hplace scope hscope) (hplace other hother)
    cases hsame
    rfl
  rw [hscopes] at hdistinct
  have hfinished : Finished root base _ after last := ⟨hends, hperformed, hdistinct⟩
  exact ⟨_, after, hrun, hfinished.resolved hplaced hids hkinds.2⟩

/-- The targets of the assignments to names in a script, with the names that the scopes around have
    ahead. -/
def targets (root : Node) : List (String × List (List String)) :=
  (scriptCourse root).filterMap fun
    | .assigns _ left spot => some (left.lexeme, spot.frames.map Frame.ahead)
    | _ => none

/-- A function assigns to the one around it, to its parameter and to its variable, which is declared
    behind, and then it is assigned itself to a name that nobody declares. -/
def behindText : String :=
  "(function h(p) \x7b if (p) \x7b k = function () \x7b n = p = h = 1 \x7d \x7d var n \x7d)"

theorem inferFile_resolved_behindText : Placed (parse behindText) ∧
    ((parse behindText).nodes.map Node.id).Nodup ∧
    (parse behindText).kind.holdsStatements = true ∧ Store.initial.Sound (fun _ => none) ∧
    targets (parse behindText) = [("h", [[], ["h", "p", "n"], []]),
      ("p", [[], ["h", "p", "n"], []]), ("n", [[], ["h", "p", "n"], []]),
      ("k", [["h", "p", "n"], []])] ∧
    ∃ inference after, inferFile "behind.js" (parse behindText) .initial = (.ok inference, after) ∧
      Resolved (parse behindText) .initial inference after := by
  have hplaced := (Grammar.tidy_parse behindText).placed
  have hids := Grammar.nodup_nodes_parse behindText
  have hroot := Grammar.holdsStatements_parse behindText
  exact ⟨hplaced, hids, hroot, .initial, by decide +kernel,
    inferFile_resolved "behind.js" hplaced hids hroot .initial⟩

/-- A function assigns to a variable that is declared behind it and not seen ahead. -/
def unseenText : String := "function f() \x7b function g() \x7b n = 1 \x7d let n \x7d"

/-- A number that is assigned to a name has flowed into a variable of the root, past the nearest
    scope around that ends up with the name. -/
def Escapes (root : Node) (scope around : ScopeId) (left : Node) (inference : FileInference)
    (store : Store) : Prop :=
  owner? root.id inference.scopes scope left.lexeme = some around ∧
    (inference.scopes.own? around left.lexeme).map store.typesOf = some [] ∧
    inference.expression? left.id = inference.scopes.own? root.id left.lexeme ∧
    (inference.expression? left.id).map store.typesOf = some [Store.primitive .number]

instance (root : Node) (scope around : ScopeId) (left : Node) (inference : FileInference)
    (store : Store) : Decidable (Escapes root scope around left inference store) :=
  inferInstanceAs (Decidable (_ ∧ _ ∧ _ ∧ _))

/-- The function around ends up with the variable, and it is the nearest that does. Yet the
    assignment has made one for the program and flowed there. -/
theorem unseenText_escapes :
    ∃ around ∈ (parse unseenText).parts, ∃ inner ∈ around.nodes,
      inner.kind = .functionDeclaration ∧ inner.id ≠ around.id ∧
      ∃ assignment ∈ inner.nodes, assignment.kind = .assignmentExpression ∧
      ∃ left ∈ assignment.part? .left, left.kind = .identifier ∧ left.lexeme = "n" ∧
        ∃ inference ∈ (inferFile "unseen.js" (parse unseenText) .initial).1.toOption,
          inference.scopes.chain inner.id = [inner.id, around.id, (parse unseenText).id] ∧
          Escapes (parse unseenText) inner.id around.id left inference
            (inferFile "unseen.js" (parse unseenText) .initial).2 := by
  decide +kernel

end Capabilities.Inference
