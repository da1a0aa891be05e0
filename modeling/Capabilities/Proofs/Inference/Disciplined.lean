import Capabilities.Proofs.Inference.Discipline

/-!
# Every construct is disciplined

What a construct does, in whatever position it stands, keeps to a discipline, provided the
constructs below it do. By induction on the tree every node does.

In each position a node is known to stand where it may: what is evaluated is neither a function
that stands as a statement nor a method, and a method that is passed like a statement stands in no
object. This is what the nodes have to be placed well for.
-/

namespace Capabilities.Inference

open Script Capabilities.Types

variable {World : Type} [Preorder World] {state : World → Run} {d : Discipline World state}
  {world : World} {parent node child : Node} {place : Place} {role : Role} {value : ValueId}

def Discipline.inside (d : Discipline World state) (world : World) (node : Node) (place : Place) :
    Prop :=
  ∀ child ∈ node.parts, d.stands world node child place

namespace Discipline

theorem inside_mono {later : World} (h : d.inside world node place) (hlater : world ≤ later) :
    d.inside later node place :=
  fun child hchild => d.stands_mono hlater (h child hchild)

theorem inside_of_stands (h : d.stands world parent node place)
    (hkeeps : parent.keeps node = false) :
    d.inside world node place :=
  fun _ hchild => d.inner h hkeeps hchild

theorem placed_of_stands (h : d.stands world parent node place) : Placed node :=
  (d.below h).1.of_mem (Node.mem_children_of_mem_parts (d.below h).2)

end Discipline

theorem keeps_false_of_not_function (h : node.kind.isFunction = false) :
    parent.keeps node = false := by
  unfold Node.keeps
  rw [h]
  rfl

theorem keeps_of_declaration (h : node.kind.isFunctionDeclaration = true) :
    parent.keeps node = true := by
  unfold Node.keeps
  revert h
  cases node.kind <;> simp [Kind.isFunctionDeclaration, Kind.isFunction]

/-- The kinds below which everything is evaluated: neither statements nor methods stand there. -/
def holdsOperands (kind : Kind) : Bool := !kind.holdsStatements && !kind.holdsMethods

theorem standing_of_mem (h : Placed node) (hkind : holdsOperands node.kind = true)
    (hchild : child ∈ node.parts) : isStanding child.kind = false := by
  unfold holdsOperands at hkind
  simp only [Bool.and_eq_true, Bool.not_eq_true'] at hkind
  unfold isStanding
  rw [Node.not_declaration_of_mem h hchild hkind.1,
    beq_eq_false_iff_ne.2 (Node.not_method_of_mem h hchild hkind.2)]
  rfl

/-- What one meaning does keeps to a discipline, in every position. -/
structure Meaning.Disciplined (d : Discipline World state) (node : Node) (meaning : Meaning) :
    Prop where
  hoist : ∀ world place, d.inside world node place →
    Keeps state world (meaning.hoist place) fun _ _ => True
  walkParts : ∀ world place, d.inside world node place → node.kind ≠ .object →
    Keeps state world (meaning.walkParts place) fun _ _ => True
  walk : ∀ world parent place, d.stands world parent node place →
    (node.kind = .methodDefinition → parent.kind ≠ .object) →
    Keeps state world (meaning.walk place) fun _ _ => True
  evaluate : ∀ world parent place, d.stands world parent node place →
    isStanding node.kind = false →
    Keeps state world (meaning.evaluate place) fun later value => d.noted later node value
  declare : ∀ world parent place, d.stands world parent node place →
    Keeps state world (meaning.declare place) fun _ _ => True
  addTo : ∀ world parent place object, d.stands world parent node place →
    parent.kind = .object → d.usable world object →
    Keeps state world (meaning.addTo object place) fun _ _ => True
  bind : ∀ world parent place, d.stands world parent node place →
    (∀ name, node.parameterName? = some name → d.declarable place.scope name) →
    Keeps state world (meaning.bind place) fun _ _ => True
  bindParts : ∀ world place, d.inside world node place →
    (∀ child ∈ node.parts, ∀ name, child.parameterName? = some name →
      d.declarable place.scope name) →
    Keeps state world (meaning.bindParts place) fun _ _ => True
  receive : ∀ world parent place value, d.stands world parent node place →
    parent.kind = .assignmentExpression → node.role = some .left →
    Keeps state world (meaning.receive value place) fun _ _ => True

namespace Meaning

abbrev family (node : Node) : Children := node.children.map fun child => (child, meaning child)

theorem part?_family (node : Node) (role : Role) :
    (family node).part? role = (node.part? role).map fun child => (child, meaning child) := by
  unfold Children.part? family Node.part?
  rw [List.find?_map]
  rfl

theorem parts_family (node : Node) :
    (family node).parts = node.parts.map fun child => (child, meaning child) := by
  unfold Children.parts family Node.parts
  rw [List.filter_map]
  rfl

/-- All children of a node have disciplined meanings. -/
def Settled (d : Discipline World state) (node : Node) : Prop :=
  ∀ child ∈ node.children, (meaning child).Disciplined d child

theorem Settled.of_mem (h : Settled d node) (hchild : child ∈ node.parts) :
    (meaning child).Disciplined d child :=
  h child (Node.mem_children_of_mem_parts hchild)

theorem Settled.of_part? (h : Settled d node) (hchild : node.part? role = some child) :
    (meaning child).Disciplined d child :=
  h child (Node.mem_children_of_part? hchild)

/-! ### Declaring ahead -/

theorem keeps_hoistFunction (h : d.stands world parent node place)
    (hkind : node.kind.isFunctionDeclaration = true) :
    Keeps state world (hoistFunction place node) fun _ _ => True := by
  refine .bind (d.functionType h (keeps_of_declaration hkind)) fun typed type _ htype => ?_
  refine .bind (d.remember htype) fun noted _ hnoted _ => ?_
  cases hname : node.nameOf? .name with
  | none => exact .done
  | some name =>
    refine .bind (d.declare (d.functionName h hkind hname)) fun later found hlater hfound => ?_
    cases found with
    | none => exact .done
    | some value =>
      exact d.addType (hfound value rfl)
        (d.usable_mono (le_trans hnoted hlater) (d.usable_of_made htype))

theorem keeps_hoistVariables (h : d.stands world parent node place)
    (hkind : node.kind = .variableDeclaration) :
    Keeps state world (hoistVariables place node) fun _ _ => True := by
  have hinside : d.inside world node place :=
    d.inside_of_stands h (keeps_false_of_not_function (by rw [hkind]; rfl))
  refine .forM fun declarator hdeclarator later hlater => ?_
  cases hname : declarator.nameOf? .name with
  | none => exact .done
  | some name =>
    exact .discard (d.declare
      (d.variableName (hinside declarator hdeclarator) (Or.inr hkind) hname))

theorem keeps_hoistParts (hall : Settled d node) (h : d.inside world node place) :
    Keeps state world (hoistParts (family node) place) fun _ _ => True := by
  unfold hoistParts
  rw [parts_family]
  refine .forM fun item hitem later hlater => ?_
  obtain ⟨child, hchild, rfl⟩ := List.mem_map.1 hitem
  have hstands := d.stands_mono hlater (h child hchild)
  dsimp only
  split
  · exact keeps_hoistFunction hstands (by simp [*, Kind.isFunctionDeclaration])
  · exact keeps_hoistFunction hstands (by simp [*, Kind.isFunctionDeclaration])
  · exact keeps_hoistVariables hstands ‹_›
  · exact .done
  · exact .done
  · split
    · exact .done
    · rename_i hfunction
      exact (hall.of_mem hchild).hoist later place
        (d.inside_of_stands hstands (keeps_false_of_not_function (Bool.eq_false_iff.2 hfunction)))

/-! ### Functions -/

theorem keeps_doParts (hall : Settled d node) (h : d.inside world node place)
    (hkind : node.kind ≠ .object) :
    Keeps state world (doParts (family node) place) fun _ _ => True := by
  unfold doParts
  rw [parts_family]
  refine .forM fun item hitem later hlater => ?_
  obtain ⟨child, hchild, rfl⟩ := List.mem_map.1 hitem
  exact (hall.of_mem hchild).walk later node place (d.stands_mono hlater (h child hchild))
    fun _ => hkind

theorem keeps_bindEach (hall : Settled d node) (h : d.inside world node place)
    (hnames : ∀ child ∈ node.parts, ∀ name, child.parameterName? = some name →
      d.declarable place.scope name) :
    Keeps state world (bindEach (family node) place) fun _ _ => True := by
  unfold bindEach
  rw [parts_family]
  refine .forM fun item hitem later hlater => ?_
  obtain ⟨child, hchild, rfl⟩ := List.mem_map.1 hitem
  exact (hall.of_mem hchild).bind later node place (d.stands_mono hlater (h child hchild))
    (hnames child hchild)

theorem keeps_bindParameters (hall : Settled d node) (h : d.stands world parent node place)
    (hkeeps : parent.keeps node = true) :
    Keeps state world (bindParameters (family node) (place.inside node)) fun _ _ => True := by
  unfold bindParameters
  rw [part?_family, part?_family]
  cases hsingle : node.part? .parameter with
  | some single =>
    have hsame : node.parameterNodes = [single] := by
      unfold Node.parameterNodes
      rw [hsingle]
    refine (hall.of_part? hsingle).bind world node _ (d.parameter h hkeeps (Or.inl rfl) hsingle) ?_
    intro name hname
    exact d.boundName h hkeeps (hsame ▸ List.mem_singleton_self single) hname
  | none =>
    cases hlist : node.part? .parameters with
    | none => exact .done
    | some list =>
      have hsame : node.parameterNodes = list.parts := by
        unfold Node.parameterNodes
        rw [hsingle, hlist]
      have hkind := Node.kind_of_parameters (d.placed_of_stands h) hlist
      refine (hall.of_part? hlist).bindParts world _
        (d.inside_of_stands (d.parameter h hkeeps (Or.inr rfl) hlist)
          (keeps_false_of_not_function (by rw [hkind]; rfl))) ?_
      intro child hchild name hname
      exact d.boundName h hkeeps (hsame ▸ hchild) hname

theorem keeps_runBody (hall : Settled d node) (h : d.stands world parent node place)
    (hkeeps : parent.keeps node = true) (hresult : d.result world node value) :
    Keeps state world (runBody (family node) (place.body node value) value) fun _ _ => True := by
  have hplaced := d.placed_of_stands h
  unfold runBody
  rw [part?_family]
  cases hbody : node.part? .body with
  | none => exact .done
  | some body =>
    have hstands := d.body h hkeeps hresult hbody
    have hchild := hall.of_part? hbody
    dsimp only [Option.map_some]
    split
    · rename_i hblock
      have hkind : body.kind = .statementBlock := beq_iff_eq.1 hblock
      have hinside := d.inside_of_stands hstands
        (keeps_false_of_not_function (by rw [hkind]; rfl))
      refine .bind (hchild.hoist world _ hinside) fun later _ hlater _ => ?_
      refine hchild.walkParts later _ (d.inside_mono hinside hlater) ?_
      rw [hkind]
      decide
    · rename_i hblock
      have hkind : holdsOperands node.kind = true := by
        unfold Node.keeps at hkeeps
        revert hkeeps
        cases node.kind <;> simp [Kind.isFunction, holdsOperands, Kind.holdsStatements,
          Kind.holdsMethods]
      refine .bind (hchild.evaluate world node _ hstands
        (standing_of_mem hplaced hkind (Node.mem_parts_of_part? hplaced.aside hbody)))
        fun later answered hlater hnoted => ?_
      exact d.answer (d.stands_mono hlater h) hkeeps hbody
        (fun hkind => hblock (beq_iff_eq.2 hkind))
        hnoted (d.result_mono hlater hresult)

theorem keeps_knownType (h : d.stands world parent node place) (hkeeps : parent.keeps node = true) :
    Keeps state world (knownType node place) fun later type => d.made later node type := by
  refine .look (fun _ => rfl) fun later hlater => ?_
  have hstands := d.stands_mono hlater h
  cases htype : (state later).functions.lookup node.id with
  | none => exact d.functionType hstands hkeeps
  | some type => exact .pure fun world hworld => d.made_mono hworld (d.remembered hstands htype)

theorem keeps_nameInside {type : TypeId} (h : d.stands world parent node place)
    (hkeeps : parent.keeps node = true) (htype : d.made world node type) :
    Keeps state world (nameInside node type) fun _ _ => True := by
  unfold nameInside
  split
  · exact .done
  · rename_i hdeclared
    split
    · rename_i name hname
      refine .bind (d.declare (d.ownName h hkeeps (Bool.eq_false_iff.2 hdeclared) hname))
        fun later found hlater hfound => ?_
      cases found with
      | none => exact .done
      | some value =>
        exact d.addType (hfound value rfl) (d.usable_mono hlater (d.usable_of_made htype))
    · exact .done

theorem keeps_function (hall : Settled d node) (h : d.stands world parent node place)
    (hkeeps : parent.keeps node = true) :
    Keeps state world (function node (family node) place)
      fun later value => d.noted later node value := by
  refine .bind (keeps_knownType h hkeeps) fun known type hknown htype => ?_
  have h := d.stands_mono hknown h
  refine .bind (d.registerScope h) fun registered _ hregistered _ => ?_
  have h := d.stands_mono hregistered h
  have htype := d.made_mono hregistered htype
  refine .bind (keeps_nameInside h hkeeps htype) fun named _ hnamed _ => ?_
  have h := d.stands_mono hnamed h
  have htype := d.made_mono hnamed htype
  refine .bind (keeps_bindParameters hall h hkeeps) fun bound _ hbound _ => ?_
  have h := d.stands_mono hbound h
  have htype := d.made_mono hbound htype
  refine .bind (d.resultOf htype) fun returned result hreturned hresult => ?_
  have h := d.stands_mono hreturned h
  refine .bind (keeps_runBody hall h hkeeps hresult) fun run _ hrun _ => ?_
  exact d.noteFunction (d.stands_mono hrun h) hkeeps
    (d.made_mono (le_trans hreturned hrun) htype)

/-- A node whose parts are to be evaluated at a place. -/
structure Operates (d : Discipline World state) (world : World) (node : Node) (place : Place) :
    Prop where
  settled : Settled d node
  placed : Placed node
  inside : d.inside world node place
  kind : holdsOperands node.kind = true

namespace Operates

theorem of_stands (hall : Settled d node) (h : d.stands world parent node place)
    (hfunction : node.kind.isFunction = false) (hkind : holdsOperands node.kind = true) :
    Operates d world node place :=
  ⟨hall, d.placed_of_stands h, d.inside_of_stands h (keeps_false_of_not_function hfunction), hkind⟩

theorem mono {later : World} (h : Operates d world node place) (hlater : world ≤ later) :
    Operates d later node place :=
  ⟨h.settled, h.placed, d.inside_mono h.inside hlater, h.kind⟩

theorem evaluate (h : Operates d world node place) (hchild : child ∈ node.parts) :
    Keeps state world ((meaning child).evaluate place)
      fun later value => d.noted later child value :=
  (h.settled.of_mem hchild).evaluate world node place (h.inside child hchild)
    (standing_of_mem h.placed h.kind hchild)

theorem part (h : Operates d world node place) (hchild : node.part? role = some child) :
    child ∈ node.parts :=
  Node.mem_parts_of_part? h.placed.aside hchild

theorem ne_object (h : Operates d world node place) : node.kind ≠ .object := by
  intro hkind
  have hoperands := h.kind
  rw [hkind] at hoperands
  cases hoperands

theorem doParts (h : Operates d world node place) :
    Keeps state world (doParts (family node) place) fun _ _ => True :=
  keeps_doParts h.settled h.inside h.ne_object

theorem partValue (h : Operates d world node place) (role : Role) :
    Keeps state world (partValue (family node) place role) fun _ _ => True := by
  unfold Meaning.partValue
  rw [part?_family]
  cases hchild : node.part? role with
  | none => exact d.newValue.trivial
  | some child => exact (h.evaluate (h.part hchild)).trivial

theorem lookAt (h : Operates d world node place) (role : Role) :
    Keeps state world (lookAt (family node) place role) fun _ _ => True := by
  unfold Meaning.lookAt
  rw [part?_family]
  cases hchild : node.part? role with
  | none => exact .done
  | some child => exact .discard (h.evaluate (h.part hchild))

theorem doArguments (h : Operates d world node place) :
    Keeps state world (doArguments (family node) place) fun _ _ => True := by
  unfold Meaning.doArguments
  rw [part?_family]
  cases hchild : node.part? .arguments with
  | none => exact .done
  | some child =>
    have hkind := Node.kind_of_arguments h.placed hchild
    refine (h.settled.of_part? hchild).walkParts world place ?_ ?_
    · refine d.inside_of_stands (h.inside child (h.part hchild)) (keeps_false_of_not_function ?_)
      rcases hkind with hkind | hkind <;> rw [hkind] <;> rfl
    · rcases hkind with hkind | hkind <;> rw [hkind] <;> decide

end Operates

/-! ### Expressions -/

theorem keeps_bindParameter (hall : Settled d node) (h : d.stands world parent node place)
    (hname : ∀ name, node.parameterName? = some name → d.declarable place.scope name) :
    Keeps state world (bindParameter node (family node) place) fun _ _ => True := by
  unfold bindParameter
  split
  · exact .done
  · rename_i name hbound
    refine .bind (d.declare (hname name hbound)) fun declared found hdeclared hfound => ?_
    split
    · rename_i hdefault
      have hkind : node.kind = .assignmentPattern := beq_iff_eq.1 hdefault
      have hoperates : Operates d declared node place :=
        (Operates.of_stands hall h (by rw [hkind]; rfl) (by rw [hkind]; rfl)).mono hdeclared
      rw [part?_family]
      cases hchild : node.part? .right with
      | none => exact .done
      | some child =>
        refine .bind (hoperates.evaluate (hoperates.part hchild)) fun later value hlater _ => ?_
        cases found with
        | none => exact .done
        | some found => exact d.propagate (d.target_mono hlater (hfound found rfl))
    · exact .done

theorem keeps_valueOf {type : TypeId} (htype : d.usable world type) :
    Keeps state world (valueOf type) fun _ _ => True := by
  refine .bind d.newValue fun later value hlater hvalue => ?_
  refine .bind (d.addType hvalue (d.usable_mono hlater htype)) fun _ _ _ _ => ?_
  exact .pure fun _ _ => trivial

theorem keeps_literal (d : Discipline World state) (primitive : Primitive) :
    Keeps state world (literal primitive) fun _ _ => True :=
  keeps_valueOf (d.primitive primitive)

theorem keeps_nameValue (d : Discipline World state) :
    Keeps state world (nameValue node place) fun _ _ => True := by
  refine .look (fun _ => rfl) fun later hlater => ?_
  cases (state later).scopes.lookup? place.scope node.lexeme with
  | none => exact d.newValue.trivial
  | some value => exact .pure fun _ _ => trivial

theorem keeps_lastValue (h : Operates d world node place) :
    Keeps state world (lastValue (family node) place) fun _ _ => True := by
  unfold lastValue
  rw [parts_family]
  refine .bind (.mapM fun item hitem later hlater => ?_) fun _ values _ _ => ?_
  · obtain ⟨child, hchild, rfl⟩ := List.mem_map.1 hitem
    exact ((h.mono hlater).evaluate hchild).trivial
  · cases values.getLast? with
    | none => exact d.newValue.trivial
    | some value => exact .pure fun _ _ => trivial

theorem keeps_newInstance (d : Discipline World state) (name origin : Option String) :
    Keeps state world (growing (·.newObject name origin) >>= valueOf) fun _ _ => True :=
  .bind (d.newObject name origin) fun _ _ _ htype => keeps_valueOf htype

theorem keeps_objectValue (hall : Settled d node) (h : d.inside world node place)
    (hkind : node.kind = .object) :
    Keeps state world (objectValue (family node) place) fun _ _ => True := by
  unfold objectValue
  rw [parts_family]
  refine .bind (d.newObject none (some place.file)) fun made type hmade htype => ?_
  refine .bind (.forM fun item hitem later hlater => ?_) fun filled _ hfilled _ => ?_
  · obtain ⟨child, hchild, rfl⟩ := List.mem_map.1 hitem
    exact (hall.of_mem hchild).addTo later node place type
      (d.stands_mono (le_trans hmade hlater) (h child hchild)) hkind (d.usable_mono hlater htype)
  · exact keeps_valueOf (d.usable_mono hfilled htype)

theorem keeps_arrayValue (h : Operates d world node place) :
    Keeps state world (arrayValue (family node) place) fun _ _ => True :=
  .bind h.doParts fun _ _ _ _ => keeps_newInstance d (some "Array") (some place.file)

/-- The types read through a member are held by values. -/
theorem usable_of_mem_lookupMember {type : TypeId} {name : String}
    (h : type ∈ (state world).store.lookupMember value name) : d.usable world type := by
  have hof : ∀ member : Option ValueId, type ∈ (member.map (state world).store.typesOf).getD [] →
      d.usable world type := by
    intro member hmember
    cases member with
    | none => cases hmember
    | some member => exact d.held hmember
  unfold Store.lookupMember at h
  cases hheld : (state world).store.value? value with
  | none => simp [hheld] at h
  | some held =>
    simp only [hheld, Store.mem_foldl_insertNew, List.not_mem_nil, false_or, List.mem_append,
      List.mem_flatMap] at h
    rcases h with h | ⟨owner, _, h⟩
    · exact hof _ h
    · exact hof _ h

theorem keeps_memberValue (h : Operates d world node place) :
    Keeps state world (memberValue node (family node) place) fun _ _ => True := by
  refine .bind (h.partValue .object) fun evaluated object _ _ => ?_
  refine .bind d.newValue fun made value _ hvalue => ?_
  dsimp only
  split
  · rename_i name _
    refine .look (fun _ => rfl) fun later hlater => ?_
    refine .bind (.forM fun type htype next hnext => ?_) fun _ _ _ _ => .pure fun _ _ => trivial
    exact d.addType (d.target_mono (le_trans hlater hnext) hvalue)
      (d.usable_mono hnext (usable_of_mem_lookupMember htype))
  · exact .pure fun _ _ => trivial

theorem keeps_callValue (h : Operates d world node place) :
    Keeps state world (callValue (family node) place) fun _ _ => True := by
  refine .bind (h.partValue .callee) fun evaluated callee hevaluated _ => ?_
  refine .bind (h.mono hevaluated).doArguments fun passed _ _ _ => ?_
  refine .bind d.newValue fun made value _ hvalue => ?_
  refine .look (fun _ => rfl) fun later hlater => ?_
  refine .bind (.forM fun type _ next hnext => ?_) fun _ _ _ _ => .pure fun _ _ => trivial
  refine .look (fun _ => rfl) fun last hlast => ?_
  cases (state last).store.result? type with
  | none => exact .done
  | some result => exact d.propagate (d.target_mono (le_trans (le_trans hlater hnext) hlast) hvalue)

theorem keeps_instanceValue (h : Operates d world node place) :
    Keeps state world (instanceValue node (family node) place) fun _ _ => True := by
  refine .bind (h.lookAt .constructor) fun evaluated _ hevaluated _ => ?_
  exact .bind (h.mono hevaluated).doArguments fun _ _ _ _ => keeps_newInstance d _ (some place.file)

theorem keeps_assignmentValue (h : Operates d world node place)
    (hkind : node.kind = .assignmentExpression) :
    Keeps state world (assignmentValue (family node) place) fun _ _ => True := by
  refine .bind (h.partValue .right) fun later right hlater _ => ?_
  rw [part?_family]
  cases hleft : node.part? .left with
  | none => exact .pure fun _ _ => trivial
  | some left =>
    refine .bind ((h.settled.of_part? hleft).receive later node place right
      (d.stands_mono hlater (h.inside left (h.part hleft))) hkind (Node.role_of_part? hleft)) ?_
    exact fun _ _ _ _ => .pure fun _ _ => trivial

theorem keeps_choiceValue (h : Operates d world node place) :
    Keeps state world (choiceValue (family node) place) fun _ _ => True := by
  refine .bind (h.lookAt .condition) fun evaluated _ hevaluated _ => ?_
  refine .bind d.newValue fun made value hmade hvalue => ?_
  refine .bind (.forM fun role _ later hlater => ?_) fun _ _ _ _ => .pure fun _ _ => trivial
  have h := h.mono (le_trans hevaluated (le_trans hmade hlater))
  rw [part?_family]
  cases hchild : node.part? role with
  | none => exact .done
  | some child =>
    refine .bind (h.evaluate (h.part hchild)) fun last branch hlast _ => ?_
    exact d.propagate (d.target_mono (le_trans hlater hlast) hvalue)

theorem keeps_plainValue (hall : Settled d node) (h : d.stands world parent node place)
    (hkind : node.kind.isFunction = false) :
    Keeps state world (valueByKind node (family node) place) fun _ _ => True := by
  have hinside := d.inside_of_stands h (keeps_false_of_not_function hkind)
  have hoperates : holdsOperands node.kind = true → Operates d world node place :=
    .of_stands hall h hkind
  have hfunction : ∀ {kind : Kind}, node.kind = kind → kind.isFunction = true → False := by
    rintro kind rfl hfunction
    rw [hkind] at hfunction
    cases hfunction
  unfold valueByKind
  split
  case h_1 => exact keeps_literal d _
  case h_2 => exact keeps_literal d _
  case h_3 => exact keeps_literal d _
  case h_4 => exact keeps_literal d _
  case h_5 => exact keeps_literal d _
  case h_6 => exact keeps_nameValue d
  case h_7 hcase => exact keeps_lastValue (hoperates (by rw [hcase]; rfl))
  case h_8 hcase => exact keeps_lastValue (hoperates (by rw [hcase]; rfl))
  case h_9 hcase => exact keeps_objectValue hall hinside hcase
  case h_10 hcase => exact keeps_arrayValue (hoperates (by rw [hcase]; rfl))
  case h_11 hcase => exact (hfunction hcase rfl).elim
  case h_12 hcase => exact (hfunction hcase rfl).elim
  case h_13 hcase => exact (hfunction hcase rfl).elim
  case h_14 hcase => exact keeps_memberValue (hoperates (by rw [hcase]; rfl))
  case h_15 hcase => exact keeps_callValue (hoperates (by rw [hcase]; rfl))
  case h_16 hcase => exact keeps_instanceValue (hoperates (by rw [hcase]; rfl))
  case h_17 hcase => exact keeps_assignmentValue (hoperates (by rw [hcase]; rfl)) hcase
  case h_18 hcase => exact keeps_choiceValue (hoperates (by rw [hcase]; rfl))
  case h_19 =>
    exact .bind (keeps_doParts hall hinside ‹_›) fun _ _ _ _ => d.newValue.trivial

/-- The value of an expression. A function notes its own. -/
theorem keeps_valueByKind (hall : Settled d node) (h : d.stands world parent node place)
    (hstanding : isStanding node.kind = false) :
    Keeps state world (valueByKind node (family node) place)
      fun later value => node.kind.isFunction = true → d.noted later node value := by
  cases hkind : node.kind.isFunction with
  | false =>
    refine (keeps_plainValue hall h hkind).mono fun _ _ _ _ hfunction => ?_
    cases hfunction
  | true =>
    -- declarations and methods are not evaluated, so it is a function that stands as an expression
    have hexpression : node.kind = .functionExpression ∨ node.kind = .generatorFunction ∨
        node.kind = .arrowFunction := by
      revert hkind hstanding
      cases node.kind <;> decide
    have hkeeps : parent.keeps node = true := by
      unfold Node.keeps
      rcases hexpression with hcase | hcase | hcase <;> rw [hcase] <;> rfl
    have hsame : valueByKind node (family node) place = function node (family node) place := by
      unfold valueByKind
      rcases hexpression with hcase | hcase | hcase <;> rw [hcase]
    rw [hsame]
    exact (keeps_function hall h hkeeps).mono fun _ _ _ hnoted _ => hnoted

/-! ### Statements -/

theorem keeps_declarator (hall : Settled d node) (h : d.stands world parent node place) :
    Keeps state world (declarator node (family node) place) fun _ _ => True := by
  unfold declarator
  split
  · rename_i hdeclarator
    have hkind : node.kind = .variableDeclarator := beq_iff_eq.1 hdeclarator
    have hdeclare : Keeps state world (declareName node place) fun later found =>
        ∀ value, found = some value → d.target later value := by
      unfold declareName
      cases hname : node.nameOf? .name with
      | none =>
        refine .pure fun _ _ => ?_
        rintro value ⟨⟩
      | some name => exact d.declare (d.variableName h (Or.inl hkind) hname)
    refine .bind hdeclare fun declared found hdeclared hfound => ?_
    have hoperates : Operates d declared node place :=
      (Operates.of_stands hall h (by rw [hkind]; rfl) (by rw [hkind]; rfl)).mono hdeclared
    rw [part?_family]
    cases hchild : node.part? .value with
    | none => exact .done
    | some child =>
      refine .bind (hoperates.evaluate (hoperates.part hchild)) fun later value hlater _ => ?_
      cases found with
      | none => exact .done
      | some found => exact d.propagate (d.target_mono hlater (hfound found rfl))
  · exact .done

theorem keeps_returning (hall : Settled d node) (h : d.stands world parent node place)
    (hkind : node.kind = .returnStatement) :
    Keeps state world (returning (family node) place) fun _ _ => True := by
  have hoperates : Operates d world node place :=
    .of_stands hall h (by rw [hkind]; rfl) (by rw [hkind]; rfl)
  unfold returning
  rw [parts_family]
  cases hparts : node.parts with
  | nil => exact .done
  | cons child rest =>
    have hchild : child ∈ node.parts := hparts ▸ List.mem_cons_self
    refine .bind (hoperates.evaluate hchild) fun later value hlater hnoted => ?_
    exact d.return' (d.stands_mono hlater h) hkind (by rw [hparts]; rfl) hnoted

theorem keeps_value (hall : Settled d node) (h : d.stands world parent node place)
    (hstanding : isStanding node.kind = false) :
    Keeps state world (Meaning.value node (family node) place)
      fun later value => d.noted later node value := by
  have hkept := d.noteValue h (keeps_valueByKind hall h hstanding)
  rw [meaning_eq] at hkept
  exact hkept

theorem keeps_statement (hall : Settled d node) (h : d.stands world parent node place)
    (hmethod : node.kind = .methodDefinition → parent.kind ≠ .object) :
    Keeps state world (statement node (family node) place) fun _ _ => True := by
  have hdeclare : node.kind.isFunction = false →
      Keeps state world ((family node).parts.forM fun child => child.2.declare place)
        fun _ _ => True := by
    intro hkind
    rw [parts_family]
    refine .forM fun item hitem later hlater => ?_
    obtain ⟨child, hchild, rfl⟩ := List.mem_map.1 hitem
    exact (hall.of_mem hchild).declare later node place
      (d.stands_mono hlater (d.inner h (keeps_false_of_not_function hkind) hchild))
  have hfunction : node.kind.isFunctionDeclaration = true →
      Keeps state world (do let _ ← function node (family node) place) fun _ _ => True :=
    fun hkind => .discard (keeps_function hall h (keeps_of_declaration hkind))
  unfold statement
  split
  case h_1 hkind => exact hdeclare (by rw [hkind]; rfl)
  case h_2 hkind => exact hdeclare (by rw [hkind]; rfl)
  case h_3 hkind => exact hfunction (by rw [hkind]; rfl)
  case h_4 hkind => exact hfunction (by rw [hkind]; rfl)
  case h_5 hkind => exact keeps_returning hall h hkind
  case h_6 _ _ hdeclaration hgenerator _ =>
    split
    · rename_i hexpression
      refine .discard (keeps_value hall h ?_)
      revert hexpression
      cases node.kind <;> decide
    · rename_i hexpression
      -- a method that comes here stands in a class, and what is inside belongs to what is around
      have hkeeps : parent.keeps node = false := by
        unfold Node.keeps
        revert hexpression hdeclaration hgenerator hmethod
        cases node.kind <;> simp [isExpression, Kind.isFunction]
      refine keeps_doParts hall (d.inside_of_stands h hkeeps) ?_
      intro hobject
      rw [hobject] at hexpression
      exact hexpression rfl

/-! ### Members and targets -/

theorem keeps_fillMember {object : TypeId} (name : String) (hobject : d.usable world object) :
    Keeps state world (fillMember object name value) fun _ _ => True :=
  .bind (d.ensureMember name hobject) fun _ _ _ hmember => d.propagate hmember

theorem keeps_objectMember {object : TypeId} (hall : Settled d node)
    (h : d.stands world parent node place) (hparent : parent.kind = .object)
    (hobject : d.usable world object) :
    Keeps state world (objectMember node (family node) place object) fun _ _ => True := by
  unfold objectMember
  split
  case h_1 hkind =>
    have hoperates : Operates d world node place :=
      .of_stands hall h (by rw [hkind]; rfl) (by rw [hkind]; rfl)
    rw [part?_family]
    cases hchild : node.part? .value with
    | none => exact .done
    | some child =>
      refine .bind (hoperates.evaluate (hoperates.part hchild)) fun later value hlater _ => ?_
      split
      · exact keeps_fillMember _ (d.usable_mono hlater hobject)
      · exact .done
  case h_2 =>
    refine .bind (d.ensureMember node.lexeme hobject) fun ensured member _ hmember => ?_
    refine .look (fun _ => rfl) fun later hlater => ?_
    cases (state later).scopes.lookup? place.scope node.lexeme with
    | none => exact .done
    | some found => exact d.propagate (d.target_mono hlater hmember)
  case h_3 hkind =>
    have hkeeps : parent.keeps node = true := by
      unfold Node.keeps
      rw [hkind, hparent]
      rfl
    refine .bind (keeps_function hall h hkeeps) fun later value hlater _ => ?_
    split
    · exact keeps_fillMember _ (d.usable_mono hlater hobject)
    · exact .done
  case h_4 hmethod => exact keeps_statement hall h fun hkind => absurd hkind hmethod

theorem keeps_assignedVariable (h : d.stands world parent node place)
    (hparent : parent.kind = .assignmentExpression) (hrole : node.role = some .left)
    (hkind : node.kind = .identifier) :
    Keeps state world (assignedVariable place node.lexeme) fun later found =>
      ∀ value, found = some value → d.target later value := by
  refine .look (fun _ => rfl) fun later hlater => ?_
  cases hfound : (state later).scopes.lookup? place.scope node.lexeme with
  | some found =>
    refine .pure fun last hlast => ?_
    rintro value ⟨⟩
    exact d.target_mono hlast (d.lookup hfound)
  | none =>
    refine .look (fun _ => rfl) fun last hlast => ?_
    cases hroot : (state last).scopes.root with
    | none =>
      refine .pure fun _ _ => ?_
      rintro value ⟨⟩
    | some root =>
      exact d.declare (d.assignedName (d.stands_mono (le_trans hlater hlast) h) hparent hrole hkind
        hroot)

theorem keeps_target (hall : Settled d node) (h : d.stands world parent node place)
    (hparent : parent.kind = .assignmentExpression) (hrole : node.role = some .left) :
    Keeps state world (target node (family node) place value) fun _ _ => True := by
  unfold target
  split
  case h_1 hkind =>
    refine .bind (keeps_assignedVariable h hparent hrole hkind) fun later found hlater hfound => ?_
    cases found with
    | none => exact .done
    | some found =>
      refine .bind (d.propagate (hfound found rfl)) fun last _ hlast _ => ?_
      exact d.noteTarget found (d.stands_mono (le_trans hlater hlast) h) hkind
  case h_2 hkind =>
    have hoperates : Operates d world node place :=
      .of_stands hall h (by rw [hkind]; rfl) (by rw [hkind]; rfl)
    rw [part?_family]
    cases hchild : node.part? .object with
    | none => exact .done
    | some child =>
      refine .bind (hoperates.evaluate (hoperates.part hchild)) fun evaluated object _ _ => ?_
      cases node.nameOf? .property with
      | none => exact .done
      | some name =>
        refine .look (fun _ => rfl) fun later _ => ?_
        refine .forM fun type htype next hnext => ?_
        refine .look (fun _ => rfl) fun last hlast => ?_
        split
        · exact keeps_fillMember name (d.usable_mono (le_trans hnext hlast) (d.held htype))
        · exact .done
  case h_3 =>
    refine keeps_statement hall h fun _ hobject => ?_
    rw [hparent] at hobject
    cases hobject

/-! ### All together -/

theorem disciplined_make (hall : Settled d node) :
    (make node (family node)).Disciplined d node where
  hoist _ _ hinside := keeps_hoistParts hall hinside
  walkParts _ _ hinside hkind := keeps_doParts hall hinside hkind
  walk _ _ _ hstands hmethod := keeps_statement hall hstands hmethod
  evaluate _ _ _ hstands hstanding := keeps_value hall hstands hstanding
  declare _ _ _ hstands := keeps_declarator hall hstands
  addTo _ _ _ _ hstands hparent hobject := keeps_objectMember hall hstands hparent hobject
  bind _ _ _ hstands hname := keeps_bindParameter hall hstands hname
  bindParts _ _ hinside hnames := keeps_bindEach hall hinside hnames
  receive _ _ _ _ hstands hparent hrole := keeps_target hall hstands hparent hrole

end Meaning

/-- The meaning of every node keeps to a discipline. -/
theorem meaning_disciplined (d : Discipline World state) (node : Node) :
    (meaning node).Disciplined d node := by
  induction node using Node.induction with
  | step node ih =>
    rw [meaning_eq]
    exact Meaning.disciplined_make ih

end Capabilities.Inference
