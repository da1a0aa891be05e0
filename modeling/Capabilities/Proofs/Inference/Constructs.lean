import Capabilities.Inference.Meaning
import Capabilities.Proofs.Inference.Twins

/-!
# Constructs in a larger store

What a construct does, in whatever position it stands, keeps a run and its twin together, provided
the constructs below it do: a meaning is *steady* if each of its nine parts does so, and
`Meaning.make` makes steady meanings from steady ones. By induction on the tree every node has a
steady meaning.
-/

namespace Capabilities.Inference

open Script Capabilities.Types

/-- A meaning that keeps twins together, in every position. -/
structure Meaning.Steady (shift : Shift) (base : Store) (file : String) (meaning : Meaning) :
    Prop where
  hoist : ∀ start place, Located.Within start place → (runTwins shift base file).Agree start
    (meaning.hoist place) (meaning.hoist (Located.move shift place)) fun _ _ => True
  walkParts : ∀ start place, Located.Within start place → (runTwins shift base file).Agree start
    (meaning.walkParts place) (meaning.walkParts (Located.move shift place)) fun _ _ => True
  walk : ∀ start place, Located.Within start place → (runTwins shift base file).Agree start
    (meaning.walk place) (meaning.walk (Located.move shift place)) fun _ _ => True
  evaluate : ∀ start place, Located.Within start place → (runTwins shift base file).Agree start
    (meaning.evaluate place) (meaning.evaluate (Located.move shift place)) Located.Within
  declare : ∀ start place, Located.Within start place → (runTwins shift base file).Agree start
    (meaning.declare place) (meaning.declare (Located.move shift place)) fun _ _ => True
  addTo : ∀ start object place, (start.object? object).isSome = true →
    Located.Within start place → (runTwins shift base file).Agree start
      (meaning.addTo object place)
      (meaning.addTo (object.move shift) (Located.move shift place)) fun _ _ => True
  bind : ∀ start place, Located.Within start place → (runTwins shift base file).Agree start
    (meaning.bind place) (meaning.bind (Located.move shift place)) fun _ _ => True
  bindParts : ∀ start place, Located.Within start place → (runTwins shift base file).Agree start
    (meaning.bindParts place) (meaning.bindParts (Located.move shift place)) fun _ _ => True
  receive : ∀ start value place, Located.Within start value → Located.Within start place →
    (runTwins shift base file).Agree start (meaning.receive value place)
      (meaning.receive (value.move shift) (Located.move shift place)) fun _ _ => True

namespace Meaning

variable {shift : Shift} {base start : Store} {file : String} {node : Node}
  {children : Children} {place : Place}

def Children.Steady (shift : Shift) (base : Store) (file : String) (children : Children) : Prop :=
  ∀ child ∈ children, child.2.Steady shift base file

theorem Children.Steady.part? (h : children.Steady shift base file) {role : Role}
    {child : Node × Meaning} (hpart : children.part? role = some child) :
    child.2.Steady shift base file :=
  h child (List.mem_of_find?_eq_some hpart)

theorem Children.Steady.parts (h : children.Steady shift base file) {child : Node × Meaning}
    (hchild : child ∈ children.parts) : child.2.Steady shift base file :=
  h child (List.mem_filter.1 hchild).1

/-! ### Declaring ahead -/

theorem agree_hoistFunction (child : Node) :
    (runTwins shift base file).Agree start (hoistFunction place child)
      (hoistFunction (Located.move shift place) child) fun _ _ => True := by
  refine Twins.Agree.bind (agree_functionType place child) ?_
  intro made type hmade htype
  refine Twins.Agree.bind (agree_remember child.id htype) ?_
  intro noted _ hnoted _
  cases child.nameOf? .name with
  | none => exact .done
  | some name =>
    refine Twins.Agree.bind (agree_declare place.scope name) ?_
    intro declared value hdeclared hvalue
    cases value with
    | none => exact .done
    | some value =>
      exact agree_addType (hvalue value rfl) (Located.mono (hnoted.trans hdeclared) htype)

theorem agree_hoistVariables (child : Node) :
    (runTwins shift base file).Agree start (hoistVariables place child)
      (hoistVariables (Located.move shift place) child) fun _ _ => True := by
  refine Twins.Agree.forM ?_
  intro declarator _ later _
  cases declarator.nameOf? .name with
  | none => exact .done
  | some name =>
    refine Twins.Agree.bind (agree_declare place.scope name) ?_
    intro _ _ _ _
    exact .done

theorem agree_hoistParts (h : children.Steady shift base file)
    (hplace : Located.Within start place) :
    (runTwins shift base file).Agree start (hoistParts children place)
      (hoistParts children (Located.move shift place)) fun _ _ => True := by
  refine Twins.Agree.forM ?_
  rintro ⟨child, meaning⟩ hchild later hlater
  simp only
  split
  · exact agree_hoistFunction child
  · exact agree_hoistFunction child
  · exact agree_hoistVariables child
  · exact .done
  · exact .done
  · split
    · exact .done
    · exact (h.parts hchild).hoist later place (Located.mono hlater hplace)

/-! ### Functions -/

theorem agree_doParts (h : children.Steady shift base file)
    (hplace : Located.Within start place) :
    (runTwins shift base file).Agree start (doParts children place)
      (doParts children (Located.move shift place)) fun _ _ => True := by
  refine Twins.Agree.forM ?_
  rintro ⟨child, meaning⟩ hchild later hlater
  exact (h.parts hchild).walk later place (Located.mono hlater hplace)

theorem agree_bindEach (h : children.Steady shift base file)
    (hplace : Located.Within start place) :
    (runTwins shift base file).Agree start (bindEach children place)
      (bindEach children (Located.move shift place)) fun _ _ => True := by
  refine Twins.Agree.forM ?_
  rintro ⟨child, meaning⟩ hchild later hlater
  exact (h.parts hchild).bind later place (Located.mono hlater hplace)

theorem agree_bindParameters (h : children.Steady shift base file)
    (hplace : Located.Within start place) :
    (runTwins shift base file).Agree start (bindParameters children place)
      (bindParameters children (Located.move shift place)) fun _ _ => True := by
  unfold bindParameters
  split
  · rename_i child meaning hpart
    exact (h.part? hpart).bind start place hplace
  · split
    · rename_i child meaning hpart
      exact (h.part? hpart).bindParts start place hplace
    · exact .done

theorem agree_runBody {result : ValueId} (h : children.Steady shift base file)
    (hplace : Located.Within start place) (hresult : Located.Within start result) :
    (runTwins shift base file).Agree start (runBody children place result)
      (runBody children (Located.move shift place) (result.move shift)) fun _ _ => True := by
  unfold runBody
  split
  · rename_i body meaning hpart
    have hsteady := h.part? hpart
    split
    · refine Twins.Agree.bind (hsteady.hoist start place hplace) ?_
      intro later _ hlater _
      exact hsteady.walkParts later place (Located.mono hlater hplace)
    · refine Twins.Agree.bind (hsteady.evaluate start place hplace) ?_
      intro later value hlater hvalue
      exact agree_propagate hvalue (Located.mono hlater hresult)
  · exact .done

theorem agree_knownType :
    (runTwins shift base file).Agree start (knownType node place)
      (knownType node (Located.move shift place)) Located.Within := by
  refine Twins.Agree.bind (agree_remembered? node.id) ?_
  intro later type hlater htype
  cases type with
  | none => exact agree_functionType place node
  | some type => exact .pure _ fun next hnext => Located.mono hnext (htype type rfl)

theorem agree_nameInside {type : TypeId} (ht : Located.Within start type) :
    (runTwins shift base file).Agree start (nameInside node type)
      (nameInside node (type.move shift)) fun _ _ => True := by
  unfold nameInside
  split
  · exact .done
  · split
    · rename_i name _
      refine Twins.Agree.bind (agree_declare node.id name) ?_
      intro later value hlater hvalue
      cases value with
      | none => exact .done
      | some value => exact agree_addType (hvalue value rfl) (Located.mono hlater ht)
    · exact .done

theorem agree_resultOf (type : TypeId) :
    (runTwins shift base file).Agree start (resultOf type) (resultOf (type.move shift))
      Located.Within := by
  refine agree_store ?_
  intro locals own whole hinside _
  rw [hinside.embeds.result?]
  cases hresult : own.result? type with
  | none => exact agree_newValue
  | some result =>
    refine .pure _ fun next hnext => Located.mono hnext ?_
    exact hinside.sound.placed (.result type) result hresult

theorem agree_function (h : children.Steady shift base file)
    (hplace : Located.Within start place) :
    (runTwins shift base file).Agree start (function node children place)
      (function node children (Located.move shift place)) Located.Within := by
  refine Twins.Agree.bind agree_knownType ?_
  intro known type hknown htype
  refine Twins.Agree.bind (agree_registerScope node.id (some place.scope)) ?_
  intro registered _ hregistered _
  have htype := Located.mono hregistered htype
  refine Twins.Agree.bind (agree_nameInside htype) ?_
  intro named _ hnamed _
  have hplace := Located.mono ((hknown.trans hregistered).trans hnamed) hplace
  refine Twins.Agree.bind (agree_bindParameters h hplace) ?_
  intro bound _ hbound _
  refine Twins.Agree.bind (agree_resultOf type) ?_
  intro returned result hreturned hresult
  have hinside : Located.Within returned
      ({ place with scope := node.id, result := some result } : Place) := by
    rintro inner ⟨⟩
    exact hresult
  refine Twins.Agree.bind (agree_runBody h hinside hresult) ?_
  intro run _ hrun _
  have htype := Located.mono (((hnamed.trans hbound).trans hreturned).trans hrun) htype
  refine Twins.Agree.bind (agree_valueOf htype) ?_
  intro made value hmade hvalue
  refine Twins.Agree.bind (agree_note node.id hvalue) ?_
  intro last _ hlast _
  exact .pure _ fun next hnext => Located.mono (hlast.trans hnext) hvalue

theorem agree_bindParameter (h : children.Steady shift base file)
    (hplace : Located.Within start place) :
    (runTwins shift base file).Agree start (bindParameter node children place)
      (bindParameter node children (Located.move shift place)) fun _ _ => True := by
  unfold bindParameter
  split
  · exact .done
  · rename_i name _
    refine Twins.Agree.bind (agree_declare place.scope name) ?_
    intro declared target hdeclared htarget
    split
    · split
      · rename_i child meaning hpart
        have hplace := Located.mono hdeclared hplace
        refine Twins.Agree.bind ((h.part? hpart).evaluate declared place hplace) ?_
        intro evaluated value hevaluated hvalue
        exact agree_flow hvalue (Located.mono hevaluated htarget)
      · exact .done
    · exact .done

/-! ### Expressions -/

theorem agree_literal (primitive : Primitive) :
    (runTwins shift base file).Agree start (literal primitive) (literal primitive)
      Located.Within := by
  intro own whole hrelated hgrows
  have hwithin : Located.Within own.store (Store.primitive primitive) :=
    Store.lt_of_type? (hrelated.inside.sound.primitive primitive)
  have hagree : (runTwins shift base file).Agree own.store (valueOf (Store.primitive primitive))
      (valueOf ((Store.primitive primitive).move shift)) Located.Within := agree_valueOf hwithin
  rw [TypeId.move_primitive] at hagree
  exact hagree own whole hrelated (.refl _)

theorem agree_nameValue :
    (runTwins shift base file).Agree start (nameValue node place)
      (nameValue node (Located.move shift place)) Located.Within := by
  refine Twins.Agree.bind (agree_lookup? place node.lexeme) ?_
  intro later value hlater hvalue
  cases value with
  | none => exact agree_newValue
  | some value => exact .pure _ fun next hnext => Located.mono hnext (hvalue value rfl)

theorem agree_lastValue (h : children.Steady shift base file)
    (hplace : Located.Within start place) :
    (runTwins shift base file).Agree start (lastValue children place)
      (lastValue children (Located.move shift place)) Located.Within := by
  refine Twins.Agree.bind (Twins.Agree.mapM ?_) ?_
  · rintro ⟨child, meaning⟩ hchild later hlater
    exact (h.parts hchild).evaluate later place (Located.mono hlater hplace)
  · intro later values _ hvalues
    have hlast : (Located.move shift values).getLast? = Located.move shift values.getLast? :=
      List.getLast?_map
    rw [hlast]
    cases hlast : values.getLast? with
    | none => exact agree_newValue
    | some value =>
      refine .pure _ fun next hnext => Located.mono hnext ?_
      exact hvalues value (List.mem_of_getLast? hlast)

theorem agree_objectValue (h : children.Steady shift base file)
    (hplace : Located.Within start place) :
    (runTwins shift base file).Agree start (objectValue children place)
      (objectValue children (Located.move shift place)) Located.Within := by
  refine Twins.Agree.bind (agree_newObject none (some place.file)) ?_
  intro made type hmade htype
  have hmembers : (runTwins shift base file).Agree made
      (children.parts.forM fun child => child.2.addTo type place)
      (children.parts.forM fun child =>
        child.2.addTo (type.move shift) (Located.move shift place)) fun _ _ => True := by
    refine Twins.Agree.forM ?_
    rintro ⟨child, meaning⟩ hchild later hlater
    exact (h.parts hchild).addTo later type place (hlater.object type htype)
      (Located.mono (hmade.trans hlater) hplace)
  refine Twins.Agree.bind hmembers ?_
  intro filled _ hfilled _
  obtain ⟨object, hobject⟩ := Option.isSome_iff_exists.1 (hfilled.object type htype)
  exact agree_valueOf (Store.lt_of_type? (Store.type?_of_object? _ hobject))

theorem agree_newInstance (name origin : Option String) :
    (runTwins shift base file).Agree start (growing (·.newObject name origin) >>= valueOf)
      (growing (·.newObject name origin) >>= valueOf) Located.Within := by
  refine Twins.Agree.bind (agree_newObject name origin) ?_
  intro made type _ htype
  obtain ⟨object, hobject⟩ := Option.isSome_iff_exists.1 htype
  exact agree_valueOf (Store.lt_of_type? (Store.type?_of_object? _ hobject))

theorem agree_arrayValue (h : children.Steady shift base file)
    (hplace : Located.Within start place) :
    (runTwins shift base file).Agree start (arrayValue children place)
      (arrayValue children (Located.move shift place)) Located.Within := by
  refine Twins.Agree.bind (agree_doParts h hplace) ?_
  intro later _ _ _
  exact agree_newInstance (some "Array") (some place.file)

theorem agree_partValue (h : children.Steady shift base file)
    (hplace : Located.Within start place) (role : Role) :
    (runTwins shift base file).Agree start (partValue children place role)
      (partValue children (Located.move shift place) role) Located.Within := by
  unfold partValue
  split
  · rename_i child meaning hpart
    exact (h.part? hpart).evaluate start place hplace
  · exact agree_newValue

theorem agree_lookAt (h : children.Steady shift base file)
    (hplace : Located.Within start place) (role : Role) :
    (runTwins shift base file).Agree start (lookAt children place role)
      (lookAt children (Located.move shift place) role) fun _ _ => True := by
  unfold lookAt
  split
  · rename_i child meaning hpart
    refine Twins.Agree.bind ((h.part? hpart).evaluate start place hplace) ?_
    intro _ _ _ _
    exact .done
  · exact .done

theorem agree_doArguments (h : children.Steady shift base file)
    (hplace : Located.Within start place) :
    (runTwins shift base file).Agree start (doArguments children place)
      (doArguments children (Located.move shift place)) fun _ _ => True := by
  unfold doArguments
  split
  · rename_i child meaning hpart
    exact (h.part? hpart).walkParts start place hplace
  · exact .done

theorem agree_memberValue (h : children.Steady shift base file)
    (hplace : Located.Within start place) :
    (runTwins shift base file).Agree start (memberValue node children place)
      (memberValue node children (Located.move shift place)) Located.Within := by
  refine Twins.Agree.bind (agree_partValue h hplace .object) ?_
  intro evaluated object _ _
  refine Twins.Agree.bind agree_newValue ?_
  intro made value _ hvalue
  dsimp only
  split
  · rename_i name _
    refine agree_store ?_
    intro locals own whole hinside hgrows
    rw [show whole.lookupMember (Located.move shift object) name =
      (own.lookupMember object name).map (·.move shift) from
        hinside.embeds.lookupMember object name]
    have hadd : (runTwins shift base file).Agree own
        ((own.lookupMember object name).forM (addType value ·))
        (((own.lookupMember object name).map (·.move shift)).forM (addType (value.move shift) ·))
        fun _ _ => True := by
      refine Twins.Agree.forM_move ?_
      intro type htype later hlater
      refine agree_addType (Located.mono (hgrows.trans hlater) hvalue) (Located.mono hlater ?_)
      exact hinside.sound.lt_of_mem_lookupMember htype
    refine Twins.Agree.bind hadd ?_
    intro last _ hlast _
    exact .pure _ fun next hnext => Located.mono ((hgrows.trans hlast).trans hnext) hvalue
  · exact .pure _ fun next hnext => Located.mono hnext hvalue

theorem agree_callValue (h : children.Steady shift base file)
    (hplace : Located.Within start place) :
    (runTwins shift base file).Agree start (callValue children place)
      (callValue children (Located.move shift place)) Located.Within := by
  refine Twins.Agree.bind (agree_partValue h hplace .callee) ?_
  intro evaluated callee hevaluated _
  refine Twins.Agree.bind (agree_doArguments h (Located.mono hevaluated hplace)) ?_
  intro passed _ _ _
  refine Twins.Agree.bind agree_newValue ?_
  intro made value _ hvalue
  refine agree_store ?_
  intro locals own whole hinside hgrows
  rw [show whole.typesOf (Located.move shift callee) =
    (own.typesOf callee).map (·.move shift) from hinside.embeds.typesOf callee]
  refine Twins.Agree.bind (Twins.Agree.forM_move ?_) ?_
  · intro type _ later hlater
    refine agree_store ?_
    intro locals' own' whole' hinside' hgrows'
    rw [show whole'.result? (Located.move shift type) = (own'.result? type).map (·.move shift)
      from hinside'.embeds.result? type]
    cases hresult : own'.result? type with
    | none => exact .done
    | some result =>
      have hwithin := hinside'.sound.placed (.result type) result hresult
      exact agree_propagate hwithin (Located.mono ((hgrows.trans hlater).trans hgrows') hvalue)
  · intro last _ hlast _
    exact .pure _ fun next hnext => Located.mono ((hgrows.trans hlast).trans hnext) hvalue

theorem agree_instanceValue (h : children.Steady shift base file)
    (hplace : Located.Within start place) :
    (runTwins shift base file).Agree start (instanceValue node children place)
      (instanceValue node children (Located.move shift place)) Located.Within := by
  refine Twins.Agree.bind (agree_lookAt h hplace .constructor) ?_
  intro evaluated _ hevaluated _
  refine Twins.Agree.bind (agree_doArguments h (Located.mono hevaluated hplace)) ?_
  intro passed _ _ _
  exact agree_newInstance _ (some place.file)

theorem agree_assignmentValue (h : children.Steady shift base file)
    (hplace : Located.Within start place) :
    (runTwins shift base file).Agree start (assignmentValue children place)
      (assignmentValue children (Located.move shift place)) Located.Within := by
  refine Twins.Agree.bind (agree_partValue h hplace .right) ?_
  intro evaluated right hevaluated hright
  dsimp only
  split
  · rename_i child meaning hpart
    have hplace := Located.mono hevaluated hplace
    refine Twins.Agree.bind ((h.part? hpart).receive evaluated right place hright hplace) ?_
    intro last _ hlast _
    exact .pure _ fun next hnext => Located.mono (hlast.trans hnext) hright
  · exact .pure _ fun next hnext => Located.mono hnext hright

theorem agree_choiceValue (h : children.Steady shift base file)
    (hplace : Located.Within start place) :
    (runTwins shift base file).Agree start (choiceValue children place)
      (choiceValue children (Located.move shift place)) Located.Within := by
  refine Twins.Agree.bind (agree_lookAt h hplace .condition) ?_
  intro evaluated _ hevaluated _
  refine Twins.Agree.bind agree_newValue ?_
  intro made value hmade hvalue
  refine Twins.Agree.bind (Twins.Agree.forM ?_) ?_
  · intro role _ later hlater
    dsimp only
    split
    · rename_i child meaning hpart
      have hplace := Located.mono ((hevaluated.trans hmade).trans hlater) hplace
      refine Twins.Agree.bind ((h.part? hpart).evaluate later place hplace) ?_
      intro branched branch hbranched hbranch
      exact agree_propagate hbranch (Located.mono (hlater.trans hbranched) hvalue)
    · exact .done
  · intro last _ hlast _
    exact .pure _ fun next hnext => Located.mono (hlast.trans hnext) hvalue

theorem agree_valueByKind (h : children.Steady shift base file)
    (hplace : Located.Within start place) :
    (runTwins shift base file).Agree start (valueByKind node children place)
      (valueByKind node children (Located.move shift place)) Located.Within := by
  unfold valueByKind
  split
  case h_1 => exact agree_literal _
  case h_2 => exact agree_literal _
  case h_3 => exact agree_literal _
  case h_4 => exact agree_literal _
  case h_5 => exact agree_literal _
  case h_6 => exact agree_nameValue
  case h_7 => exact agree_lastValue h hplace
  case h_8 => exact agree_lastValue h hplace
  case h_9 => exact agree_objectValue h hplace
  case h_10 => exact agree_arrayValue h hplace
  case h_11 => exact agree_function h hplace
  case h_12 => exact agree_function h hplace
  case h_13 => exact agree_function h hplace
  case h_14 => exact agree_memberValue h hplace
  case h_15 => exact agree_callValue h hplace
  case h_16 => exact agree_instanceValue h hplace
  case h_17 => exact agree_assignmentValue h hplace
  case h_18 => exact agree_choiceValue h hplace
  case h_19 =>
    refine Twins.Agree.bind (agree_doParts h hplace) ?_
    intro _ _ _ _
    exact agree_newValue

theorem agree_value (h : children.Steady shift base file)
    (hplace : Located.Within start place) :
    (runTwins shift base file).Agree start (value node children place)
      (value node children (Located.move shift place)) Located.Within := by
  refine Twins.Agree.bind (agree_valueByKind h hplace) ?_
  intro later value _ hvalue
  refine Twins.Agree.bind (agree_note node.id hvalue) ?_
  intro last _ hlast _
  exact .pure _ fun next hnext => Located.mono (hlast.trans hnext) hvalue

/-! ### Statements -/

theorem agree_declareName :
    (runTwins shift base file).Agree start (declareName node place)
      (declareName node (Located.move shift place)) Located.Within := by
  unfold declareName
  split
  · exact agree_declare _ _
  · refine .pure none ?_
    intro next _ value hvalue
    cases hvalue

theorem agree_declarator (h : children.Steady shift base file)
    (hplace : Located.Within start place) :
    (runTwins shift base file).Agree start (declarator node children place)
      (declarator node children (Located.move shift place)) fun _ _ => True := by
  unfold declarator
  split
  · refine Twins.Agree.bind agree_declareName ?_
    intro declared target hdeclared htarget
    split
    · rename_i child meaning hpart
      have hplace := Located.mono hdeclared hplace
      refine Twins.Agree.bind ((h.part? hpart).evaluate declared place hplace) ?_
      intro evaluated value hevaluated hvalue
      exact agree_flow hvalue (Located.mono hevaluated htarget)
    · exact .done
  · exact .done

theorem agree_returning (h : children.Steady shift base file)
    (hplace : Located.Within start place) :
    (runTwins shift base file).Agree start (returning children place)
      (returning children (Located.move shift place)) fun _ _ => True := by
  unfold returning
  split
  · exact .done
  · rename_i child meaning rest hparts
    have hsteady : meaning.Steady shift base file :=
      h.parts (hparts ▸ List.mem_cons_self)
    refine Twins.Agree.bind (hsteady.evaluate start place hplace) ?_
    intro evaluated value hevaluated hvalue
    exact agree_flow hvalue (Located.mono hevaluated hplace)

theorem agree_statement (h : children.Steady shift base file)
    (hplace : Located.Within start place) :
    (runTwins shift base file).Agree start (statement node children place)
      (statement node children (Located.move shift place)) fun _ _ => True := by
  have hdeclare : (runTwins shift base file).Agree start
      (children.parts.forM fun child => child.2.declare place)
      (children.parts.forM fun child => child.2.declare (Located.move shift place))
      fun _ _ => True := by
    refine Twins.Agree.forM ?_
    rintro ⟨child, meaning⟩ hchild later hlater
    exact (h.parts hchild).declare later place (Located.mono hlater hplace)
  have hfunction : (runTwins shift base file).Agree start
      (do let _ ← function node children place)
      (do let _ ← function node children (Located.move shift place)) fun _ _ => True := by
    refine Twins.Agree.bind (agree_function h hplace) ?_
    intro _ _ _ _
    exact .done
  unfold statement
  split
  · exact hdeclare
  · exact hdeclare
  · exact hfunction
  · exact hfunction
  · exact agree_returning h hplace
  · split
    · refine Twins.Agree.bind (agree_value h hplace) ?_
      intro _ _ _ _
      exact .done
    · exact agree_doParts h hplace

/-! ### Members and targets -/

theorem agree_fillMember {object : TypeId} {source : ValueId} (name : String)
    (hobject : (start.object? object).isSome = true) (hsource : Located.Within start source) :
    (runTwins shift base file).Agree start (fillMember object name source)
      (fillMember (object.move shift) name (source.move shift)) fun _ _ => True := by
  refine Twins.Agree.bind (agree_ensureMember name hobject) ?_
  intro later member hlater hmember
  exact agree_propagate (Located.mono hlater hsource) hmember

theorem agree_objectMember {object : TypeId} (h : children.Steady shift base file)
    (hobject : (start.object? object).isSome = true) (hplace : Located.Within start place) :
    (runTwins shift base file).Agree start (objectMember node children place object)
      (objectMember node children (Located.move shift place) (object.move shift))
      fun _ _ => True := by
  unfold objectMember
  split
  · split
    · rename_i child meaning hpart
      refine Twins.Agree.bind ((h.part? hpart).evaluate start place hplace) ?_
      intro later value hlater hvalue
      split
      · exact agree_fillMember _ (hlater.object object hobject) hvalue
      · exact .done
    · exact .done
  · refine Twins.Agree.bind (agree_ensureMember node.lexeme hobject) ?_
    intro ensured member _ hmember
    refine Twins.Agree.bind (agree_lookup? place node.lexeme) ?_
    intro later found hlater hfound
    cases found with
    | none => exact .done
    | some found => exact agree_propagate (hfound found rfl) (Located.mono hlater hmember)
  · refine Twins.Agree.bind (agree_function h hplace) ?_
    intro later value hlater hvalue
    split
    · exact agree_fillMember _ (hlater.object object hobject) hvalue
    · exact .done
  · exact agree_statement h hplace

theorem agree_assignedVariable (name : String) :
    (runTwins shift base file).Agree start (assignedVariable place name)
      (assignedVariable (Located.move shift place) name) Located.Within := by
  refine Twins.Agree.bind (agree_lookup? place name) ?_
  intro later found _ hfound
  cases found with
  | some found =>
    refine .pure (some found) ?_
    intro next hnext value hvalue
    exact Located.mono hnext (hfound value hvalue)
  | none =>
    refine Twins.Agree.look ?_
    intro own whole hrelated _
    have hroot : whole.scopes.root = own.scopes.root := by
      rw [hrelated.scopes]
      rfl
    rw [hroot]
    cases own.scopes.root with
    | some root => exact agree_declare root name
    | none =>
      refine .pure none ?_
      intro next _ value hvalue
      cases hvalue

theorem agree_target {right : ValueId} (h : children.Steady shift base file)
    (hright : Located.Within start right) (hplace : Located.Within start place) :
    (runTwins shift base file).Agree start (target node children place right)
      (target node children (Located.move shift place) (right.move shift)) fun _ _ => True := by
  unfold target
  split
  · refine Twins.Agree.bind (agree_assignedVariable node.lexeme) ?_
    intro later found hlater hfound
    cases found with
    | none => exact .done
    | some found =>
      have hfound := hfound found rfl
      refine Twins.Agree.bind (agree_propagate (Located.mono hlater hright) hfound) ?_
      intro last _ hlast _
      exact agree_note node.id (Located.mono hlast hfound)
  · split
    · exact .done
    · rename_i child meaning hpart
      refine Twins.Agree.bind ((h.part? hpart).evaluate start place hplace) ?_
      intro later object hlater _
      split
      · exact .done
      · rename_i name _
        refine agree_store ?_
        intro locals own whole hinside hgrows
        rw [show whole.typesOf (Located.move shift object) =
          (own.typesOf object).map (·.move shift) from hinside.embeds.typesOf object]
        refine Twins.Agree.forM_move ?_
        intro type _ next hnext
        refine agree_store ?_
        intro locals' own' whole' hinside' hgrows'
        rw [show whole'.object? (Located.move shift type) =
          (own'.object? type).map (·.move shift) from hinside'.embeds.object? type,
          Option.isSome_map]
        split
        · rename_i hobject
          refine agree_fillMember name hobject (Located.mono ?_ hright)
          exact ((hlater.trans hgrows).trans hnext).trans hgrows'
        · exact .done
  · exact agree_statement h hplace

/-! ### All together -/

theorem steady_make (h : children.Steady shift base file) :
    (make node children).Steady shift base file where
  hoist _ _ hplace := agree_hoistParts h hplace
  walkParts _ _ hplace := agree_doParts h hplace
  walk _ _ hplace := agree_statement h hplace
  evaluate _ _ hplace := agree_value h hplace
  declare _ _ hplace := agree_declarator h hplace
  addTo _ _ _ hobject hplace := agree_objectMember h hobject hplace
  bind _ _ hplace := agree_bindParameter h hplace
  bindParts _ _ hplace := agree_bindEach h hplace
  receive _ _ _ hvalue hplace := agree_target h hvalue hplace

end Meaning

/-- The meaning of every node keeps twins together. -/
theorem meaning_steady (shift : Shift) (base : Store) (file : String) (node : Node) :
    (meaning node).Steady shift base file := by
  induction node using Node.induction with
  | step node ih =>
    rw [meaning_eq]
    refine Meaning.steady_make ?_
    intro child hchild
    obtain ⟨part, hpart, rfl⟩ := List.mem_map.1 hchild
    exact ih part hpart

end Capabilities.Inference
