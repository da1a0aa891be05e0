import Capabilities.Proofs.Inference.Moment
import Capabilities.Proofs.Inference.File
import Capabilities.Proofs.Script.Grammar.Statement

/-!
# Functions keep their own

What is declared inside a function becomes a variable of the function's scope or of a function
inside it, and what is returned in its body goes to its result or to that of a function inside.
All forms of functions keep their own so, apart from the methods of classes: a class has no scope,
nothing is made for its methods, and so what they declare and return goes to the function around
the class.
-/

namespace Capabilities.Inference

open Script Capabilities.Types

/-- Each variable of a file belongs to the scope whose owner declares it, and the result of each
    function that keeps its own holds only what is found for the expressions it returns. -/
structure Bounded (root : Node) (inference : FileInference) (store : Store) : Prop where
  declared : ∀ scope name value, inference.scopes.own? scope name = some value →
    root.Rightful scope name
  answered : ∀ parent function value, root.Below parent function → parent.keeps function = true →
    (function.id, value) ∈ inference.expressions →
    ∃ type result, store.firstType? value = some type ∧ store.result? type = some result ∧
      ∀ held ∈ store.typesOf result, ∃ answer found, function.Answers answer ∧
        (answer.id, found) ∈ inference.expressions ∧ held ∈ store.typesOf found

/-- Whatever stands outside a function declares nothing inside it, and returns nothing of what
    stands in its body. -/
structure Enclosed (root function : Node) : Prop where
  declared : ∀ owner node name, root.Scoped owner → owner ∉ function.nodes →
    owner.Declares node name → ¬function.Inside node
  returned : ∀ owner body parent node, root.Scoped owner → owner ∉ function.nodes →
    function.part? .body = some body → owner.Returns parent node → node ∉ body.nodes

/-- A function that keeps its own is closed to what is around it. -/
theorem enclosed_of_keeps {root parent function : Node} (hplaced : Placed root)
    (hids : (root.nodes.map Node.id).Nodup) (h : root.Below parent function)
    (hkeeps : parent.keeps function = true) : Enclosed root function where
  declared _ _ _ hscoped houtside hdeclares hinside :=
    houtside (hdeclares.inside hplaced hscoped.mem_nodes (.of_map _ hids) h hkeeps hinside)
  returned _ _ _ _ hscoped houtside hbody hreturns hnode :=
    houtside (hreturns.inside hplaced hscoped.mem_nodes (.of_map _ hids) h hkeeps hbody hnode)

theorem Moment.bounded {root : Node} {file : String} {base : Store} {inference : FileInference}
    (world : Moment root file base) (hscopes : world.run.scopes = inference.scopes)
    (hexpressions : world.run.expressions = inference.expressions) :
    Bounded root inference world.run.store where
  declared := hscopes ▸ world.rightful
  answered parent function value hbelow hkeeps hnoted := by
    rw [← hexpressions] at hnoted ⊢
    obtain ⟨type, hfirst, howner⟩ := world.noted _ hnoted parent function hbelow hkeeps rfl
    obtain ⟨result, hresult, hheld⟩ := world.owned type function howner
    exact ⟨type, result, hfirst, hresult, hheld⟩

/-- Every tree below which statements may stand is inferred, and then its variables are where they
    are declared, and its functions that keep their own have their results from what they return
    themselves. -/
theorem inferFile_bounded {root : Node} {base : Store} {locals : Variables} (file : String)
    (hplaced : Placed root) (hids : (root.nodes.map Node.id).Nodup)
    (hroot : root.kind.holdsStatements = true) (h : base.Sound locals) :
    ∃ inference after, inferFile file root base = (.ok inference, after) ∧
      Bounded root inference after ∧
      ∀ parent function, root.Below parent function → parent.keeps function = true →
        Enclosed root function := by
  obtain ⟨inference, -, after, -, hrun, -⟩ := inferFile_sound h file root
  have hobject : root.kind ≠ .object := by
    intro hkind
    rw [hkind] at hroot
    cases hroot
  obtain ⟨world, hstore, hscopes, hexpressions⟩ :=
    Moment.of_inferFile hplaced hids hobject h hrun
  refine ⟨_, after, hrun, ?_, ?_⟩
  · rw [← hstore]
    exact world.bounded hscopes hexpressions
  · intro parent function hbelow hkeeps
    exact enclosed_of_keeps hplaced hids hbelow hkeeps

/-- Functions of several forms inside each other; each has a variable of its own and returns it. -/
def nestText : String :=
  "function outer(a) \x7b const o = \x7b get(b) \x7b var c = 1; return c \x7d \x7d; " ++
    "return (d) => \x7b let e = a; return e \x7d \x7d"

theorem inferFile_bounded_nestText : Placed (parse nestText) ∧
    ((parse nestText).nodes.map Node.id).Nodup ∧
    (parse nestText).kind.holdsStatements = true ∧ Store.initial.Sound (fun _ => none) ∧
    ((parse nestText).nodes.flatMap fun parent =>
      (parent.parts.filter parent.keeps).map Node.kind) =
      [.functionDeclaration, .methodDefinition, .arrowFunction] ∧
    ∃ inference after, inferFile "nest.js" (parse nestText) .initial = (.ok inference, after) ∧
      Bounded (parse nestText) inference after ∧
      ∀ parent function, (parse nestText).Below parent function →
        parent.keeps function = true → Enclosed (parse nestText) function := by
  have hplaced := (Grammar.tidy_parse nestText).placed
  have hids := Grammar.nodup_nodes_parse nestText
  have hroot := Grammar.holdsStatements_parse nestText
  exact ⟨hplaced, hids, hroot, .initial, by decide +kernel,
    inferFile_bounded "nest.js" hplaced hids hroot .initial⟩

/-- A method of a class inside a function declares and returns a variable. -/
def boxText : String :=
  "function around() \x7b class Box \x7b fill() \x7b var x = 1; return x \x7d \x7d \x7d"

/-- All that the script declares and returns is in the method, and yet the function around the class
    has the variable, and its result the type that is returned. -/
theorem boxText_spilled :
    ∃ around ∈ (parse boxText).parts, around.kind = .functionDeclaration ∧
      ∃ fill ∈ around.nodes, fill.kind = .methodDefinition ∧ fill.kind.isFunction = true ∧
        (∀ node ∈ (parse boxText).nodes,
          node.kind = .variableDeclarator ∨ node.kind = .returnStatement →
            ∃ part ∈ fill.parts, ∃ inner ∈ part.nodes, inner.id = node.id) ∧
        ∃ inference ∈ (inferFile "box.js" (parse boxText) .initial).1.toOption,
          (inference.scopes.own? around.id "x").isSome ∧
          ∃ value ∈ inference.expression? around.id,
            let store := (inferFile "box.js" (parse boxText) .initial).2
            ∃ type ∈ store.firstType? value, ∃ result ∈ store.result? type,
              store.typesOf result = [Store.primitive .number] := by
  decide +kernel

end Capabilities.Inference
