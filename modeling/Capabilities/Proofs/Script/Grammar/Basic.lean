import Capabilities.Proofs.Script.Tidy

/-!
# What the rules of the grammar make

Each rule of the grammar is described by what is known of the nodes it reads: that they are tidy,
have no role yet, and are of certain kinds. `Makes` says so of a rule whatever the cursor; it is
kept by all ways of putting rules together.

Most kinds may stand below any parent; the rules for them make *free* nodes, and only those for
functions, members and statements need more care.
-/

namespace Capabilities.Script

/-! ### Rules -/

/-- What a rule reads is as `good` says, wherever it starts. -/
def Makes {α : Type} (good : α → Prop) (rule : Rule α) : Prop :=
  ∀ cursor answer next, rule.run cursor = some (answer, next) → good answer

namespace Makes

variable {α β : Type} {good : α → Prop} {result : β → Prop} {rule : Rule α}

theorem pure {answer : α} (h : good answer) : Makes good (Pure.pure answer) := by
  intro cursor found next hrun
  cases hrun
  exact h

theorem failure : Makes good failure := by
  intro cursor found next hrun
  cases hrun

theorem bind {next : α → Rule β} (h : Makes good rule)
    (hnext : ∀ answer, good answer → Makes result (next answer)) :
    Makes result (rule >>= next) := by
  intro cursor found last hrun
  rw [StateT.run_bind] at hrun
  obtain ⟨⟨answer, middle⟩, hfirst, hrest⟩ := Option.bind_eq_some_iff.1 hrun
  exact hnext answer (h cursor answer middle hfirst) middle found last hrest

/-- A rule about which nothing needs to be known. -/
theorem skip {next : α → Rule β} (h : ∀ answer, Makes result (next answer)) :
    Makes result (rule >>= next) := by
  have htrue : Makes (fun _ => True) rule := fun _ _ _ _ => trivial
  exact htrue.bind fun answer _ => h answer

theorem map {change : α → β} (h : Makes good rule)
    (hchange : ∀ answer, good answer → result (change answer)) :
    Makes result (change <$> rule) := by
  rw [map_eq_pure_bind]
  exact h.bind fun answer hanswer => .pure (hchange answer hanswer)

theorem mono {weaker : α → Prop} (h : Makes good rule)
    (himp : ∀ answer, good answer → weaker answer) : Makes weaker rule :=
  fun cursor answer next hrun => himp answer (h cursor answer next hrun)

theorem upTo (h : Makes good rule) (bound : Nat) (done : Token → Bool) :
    Makes (fun items => ∀ item ∈ items, good item) (Rule.upTo bound done rule) := by
  induction bound with
  | zero => exact .failure
  | succ bound ih =>
    refine .skip fun token => ?_
    split
    · refine .pure ?_
      intro item hitem
      cases hitem
    · refine .bind h fun head hhead => .bind ih fun tail htail => .pure ?_
      intro item hitem
      rcases List.mem_cons.1 hitem with rfl | hitem
      · exact hhead
      · exact htail item hitem

theorem many (h : Makes good rule) (done : Token → Bool) :
    Makes (fun items => ∀ item ∈ items, good item) (Rule.many done rule) :=
  .skip fun cursor => h.upTo (cursor.front.length + 1) done

/-- Of optional items those that are there. -/
theorem forall_filterMap_id {items : List (Option α)}
    (h : ∀ item ∈ items, ∀ found, item = some found → good found) :
    ∀ item ∈ items.filterMap id, good item := by
  intro item hitem
  obtain ⟨found, hfound, heq⟩ := List.mem_filterMap.1 hitem
  exact h found hfound item heq

theorem listed (h : Makes good rule) (closing : String) :
    Makes (fun items => ∀ item ∈ items, good item) (Rule.listed closing rule) := by
  have hitem : Makes (fun item : Option α => ∀ found, item = some found → good found) (do
      if ← Rule.tryMark "," then return none
      let value ← rule
      let _ ← Rule.tryMark ","
      return some value) := by
    refine .skip fun comma => ?_
    split
    · refine .pure ?_
      rintro found ⟨⟩
    · refine .bind h fun value hvalue => .skip fun _ => .pure ?_
      rintro found ⟨⟩
      exact hvalue
  refine .bind (hitem.many _) fun items hitems => .skip fun _ => .pure ?_
  exact forall_filterMap_id hitems

end Makes

/-! ### Nodes -/

/-- A tidy node without a role, of one of certain kinds. -/
structure Made (kinds : Kind → Bool) (node : Node) : Prop where
  tidy : Tidy node
  role : node.role = none
  kind : kinds node.kind = true

/-- A tidy node that may stand below a parent of a kind. -/
structure Part (parent : Kind) (node : Node) : Prop where
  tidy : Tidy node
  holds : parent.holds node.kind node.role = true

/-- Tidy nodes that may stand below a parent of a kind. -/
def Parts (parent : Kind) (nodes : List Node) : Prop := ∀ node ∈ nodes, Part parent node

namespace Kind

/-- The kinds that may stand below any parent. -/
def isFree (kind : Kind) : Bool :=
  !kind.isFunctionDeclaration && kind != .methodDefinition && kind != .comment

/-- The kinds that may stand in an object or in the body of a class. -/
def isMember (kind : Kind) : Bool := !kind.isFunctionDeclaration && kind != .comment

/-- The kinds that may stand as a statement. -/
def isStatement (kind : Kind) : Bool := kind != .methodDefinition && kind != .comment

theorem isMember_of_isFree {kind : Kind} (h : kind.isFree = true) : kind.isMember = true := by
  unfold isFree at h
  unfold isMember
  simp_all

theorem isStatement_of_isFree {kind : Kind} (h : kind.isFree = true) :
    kind.isStatement = true := by
  unfold isFree at h
  unfold isStatement
  simp_all

end Kind

variable {parent kind : Kind} {node first : Node} {nodes more : List Node} {start : Nat}
  {kinds : Kind → Bool} {role : Role}

theorem Parts.nil : Parts parent [] := by
  intro node hnode
  cases hnode

theorem Parts.cons (h : Part parent node) (hmore : Parts parent more) :
    Parts parent (node :: more) := by
  intro other hother
  rcases List.mem_cons.1 hother with rfl | hother
  · exact h
  · exact hmore other hother

theorem Parts.append (h : Parts parent nodes) (hmore : Parts parent more) :
    Parts parent (nodes ++ more) := by
  intro other hother
  exact (List.mem_append.1 hother).elim (h other) (hmore other)

theorem Parts.map {change : Node → Node} (h : ∀ node ∈ nodes, Part parent (change node)) :
    Parts parent (nodes.map change) := by
  intro other hother
  obtain ⟨node, hnode, rfl⟩ := List.mem_map.1 hother
  exact h node hnode

theorem Parts.toList {found : Option Node} {change : Node → Node}
    (h : ∀ node, found = some node → Part parent (change node)) :
    Parts parent (found.toList.map change) :=
  .map fun node hnode => h node (Option.mem_toList.1 hnode)

/-- A tidy node of parts. -/
theorem tidy_of_parts (kind : Kind) (hkind : node.kind = kind) (h : Parts kind node.children)
    (hpair : kind ≠ .pair) : Tidy node := by
  subst hkind
  exact .intro ⟨fun child hchild => (h child hchild).holds, fun hkind => absurd hkind hpair⟩
    fun child hchild => (h child hchild).tidy

theorem Made.mono {more : Kind → Bool} (h : Made kinds node)
    (himp : ∀ kind, kinds kind = true → more kind = true) : Made more node :=
  ⟨h.tidy, h.role, himp _ h.kind⟩

/-- A node of the one kind is of any kinds this one is among. -/
theorem Made.of_kind {more : Kind → Bool} (h : Made (· == kind) node) (hkind : more kind = true) :
    Made more node :=
  h.mono fun _ hsame => beq_iff_eq.1 hsame ▸ hkind

namespace Made

theorem open_role (h : role ≠ .arguments ∧ role ≠ .parameters) :
    some role ≠ some .arguments ∧ some role ≠ some .parameters :=
  ⟨fun hsame => h.1 (Option.some.inj hsame), fun hsame => h.2 (Option.some.inj hsame)⟩

/-- A free node may stand in any role but as the arguments of a call or the parameters of a
    function. -/
theorem holds (h : Made Kind.isFree node) {role : Option Role}
    (hrole : role ≠ some .arguments ∧ role ≠ some .parameters) :
    parent.holds node.kind role = true := by
  have hkind := h.kind
  unfold Kind.isFree at hkind
  simp only [Bool.and_eq_true] at hkind
  obtain ⟨⟨hdeclaration, hmethod⟩, hcomment⟩ := hkind
  unfold Kind.holds
  rw [hdeclaration, hmethod, hcomment, bne_iff_ne.2 hrole.1, bne_iff_ne.2 hrole.2]
  rfl

theorem part (h : Made Kind.isFree node) : Part parent node := by
  refine ⟨h.tidy, ?_⟩
  rw [h.role]
  exact h.holds (by decide)

theorem partAs (h : Made Kind.isFree node) (hrole : role ≠ .arguments ∧ role ≠ .parameters) :
    Part parent (node.as role) :=
  ⟨h.tidy.as role, h.holds (open_role hrole)⟩

/-- A statement may stand wherever statements may. -/
theorem statementHolds (h : Made Kind.isStatement node) (hparent : parent.holdsStatements = true)
    {role : Option Role} (hrole : role ≠ some .arguments ∧ role ≠ some .parameters) :
    parent.holds node.kind role = true := by
  have hkind := h.kind
  unfold Kind.isStatement at hkind
  simp only [Bool.and_eq_true] at hkind
  unfold Kind.holds
  rw [hparent, hkind.1, hkind.2, bne_iff_ne.2 hrole.1, bne_iff_ne.2 hrole.2]
  simp

theorem statement (h : Made Kind.isStatement node) (hparent : parent.holdsStatements = true) :
    Part parent node := by
  refine ⟨h.tidy, ?_⟩
  rw [h.role]
  exact h.statementHolds hparent (by decide)

theorem statementAs (h : Made Kind.isStatement node) (hparent : parent.holdsStatements = true)
    (hrole : role ≠ .arguments ∧ role ≠ .parameters) : Part parent (node.as role) :=
  ⟨h.tidy.as role, h.statementHolds hparent (open_role hrole)⟩

/-- A member may stand wherever methods may. -/
theorem member (h : Made Kind.isMember node) (hparent : parent.holdsMethods = true) :
    Part parent node := by
  refine ⟨h.tidy, ?_⟩
  have hkind := h.kind
  unfold Kind.isMember at hkind
  simp only [Bool.and_eq_true] at hkind
  unfold Kind.holds
  rw [h.role, hparent, hkind.1, hkind.2]
  simp

/-- The arguments of a call. -/
theorem arguments (h : Made (fun kind => kind == .arguments || kind == .templateString) node) :
    Part parent (node.as .arguments) := by
  refine ⟨h.tidy.as _, ?_⟩
  have hkind := h.kind
  simp only [Bool.or_eq_true, beq_iff_eq] at hkind
  change parent.holds node.kind (some .arguments) = true
  unfold Kind.holds
  rcases hkind with hkind | hkind <;> rw [hkind] <;> rfl

/-- The parameters of a function. -/
theorem parameters (h : Made (· == .formalParameters) node) :
    Part parent (node.as .parameters) := by
  refine ⟨h.tidy.as _, ?_⟩
  change parent.holds node.kind (some .parameters) = true
  unfold Kind.holds
  rw [beq_iff_eq.1 h.kind]
  rfl

/-- The pattern that a free node spells is free. -/
theorem toPattern (h : Made Kind.isFree node) : Made Kind.isFree node.toPattern := by
  refine ⟨Node.tidy_toPattern h.tidy, ?_, ?_⟩
  · rw [Node.role_toPattern]
    exact h.role
  · have hkind := h.kind
    rw [Node.kind_toPattern]
    revert hkind
    cases node.kind <;> decide

end Made

/-! ### Nodes that rules make -/

theorem makes_close (h : Parts kind nodes) (hpair : kind ≠ .pair) (hkinds : kinds kind = true) :
    Makes (Made kinds) (Rule.close kind start nodes) :=
  .skip fun _ => .pure ⟨tidy_of_parts kind rfl h hpair, rfl, hkinds⟩

theorem makes_leaf (hpair : kind ≠ .pair) (hkinds : kinds kind = true) :
    Makes (Made kinds) (Rule.leaf kind) :=
  .skip fun _ => .pure ⟨tidy_of_parts kind rfl .nil hpair, rfl, hkinds⟩

/-- What is known of a node that need not be there. -/
def Optional (kinds : Kind → Bool) (found : Option Node) : Prop :=
  ∀ node, found = some node → Made kinds node

theorem makes_some {rule : Rule Node} (h : Makes (Made kinds) rule) :
    Makes (Optional kinds) (some <$> rule) := by
  refine h.map fun node hnode => ?_
  rintro _ ⟨⟩
  exact hnode

theorem makes_none : Makes (Optional kinds) (pure none) := by
  refine .pure ?_
  rintro _ ⟨⟩

theorem makes_free_close (h : Parts kind nodes) (hpair : kind ≠ .pair)
    (hfree : kind.isFree = true) : Makes (Made Kind.isFree) (Rule.close kind start nodes) :=
  makes_close h hpair hfree

theorem makes_free_leaf (hpair : kind ≠ .pair) (hfree : kind.isFree = true) :
    Makes (Made Kind.isFree) (Rule.leaf kind) :=
  makes_leaf hpair hfree

namespace Grammar

/-- A grammar that reads tidy nodes: expressions are free, and statements are statements. -/
structure Tidies (g : Grammar) : Prop where
  assignment : ∀ inAllowed, Makes (Made Kind.isFree) (g.assignment inAllowed)
  member : ∀ calls, Makes (Made Kind.isFree) (g.member calls)
  statement : Makes (Made Kind.isStatement) g.statement

variable {g : Grammar}

/-! ### What expressions and statements share -/

theorem made_spanning (h : Made Kind.isFree first) (hmore : ∀ node ∈ more, Made Kind.isFree node) :
    Made Kind.isFree (spanning .sequenceExpression first more) := by
  refine ⟨tidy_of_parts .sequenceExpression rfl ?_ (by decide), rfl, rfl⟩
  exact .cons h.part fun node hnode => (hmore node hnode).part

theorem makes_expression (h : g.Tidies) (inAllowed : Bool) :
    Makes (Made Kind.isFree) (g.expression inAllowed) := by
  refine .bind (h.assignment inAllowed) fun first hfirst => .skip fun token => ?_
  split
  · have hrest : Makes (Made Kind.isFree) (do
        let _ ← Rule.shift
        g.assignment inAllowed) := .skip fun _ => h.assignment inAllowed
    exact .bind (hrest.many _) fun more hmore => .pure (made_spanning hfirst hmore)
  · exact .pure hfirst

theorem makes_condition (h : g.Tidies) : Makes (Made Kind.isFree) g.condition := by
  refine .skip fun first => .bind (makes_expression h true) fun inner hinner => .skip fun _ => ?_
  exact makes_close (.cons hinner.part .nil) (by decide) rfl

theorem makes_element (h : g.Tidies) : Makes (Made Kind.isFree) g.element := by
  refine .skip fun first => .skip fun spread => ?_
  split
  · refine .bind (h.assignment true) fun inner hinner => ?_
    exact makes_close (.cons hinner.part .nil) (by decide) rfl
  · exact h.assignment true

/-- A list of arguments, the items of which may become something else yet. -/
structure Arguments (node : Node) : Prop where
  made : Made (· == .arguments) node
  items : ∀ item ∈ node.children, Made Kind.isFree item

theorem makes_arguments (h : g.Tidies) : Makes Arguments g.arguments := by
  refine .skip fun first => .bind ((makes_element h).listed ")") fun items hitems =>
    .skip fun cursor => .pure ⟨⟨tidy_of_parts .arguments rfl ?_ (by decide), rfl, rfl⟩, hitems⟩
  exact fun item hitem => (hitems item hitem).part

/-- Arguments as the parameters of a function. -/
theorem Arguments.parameters (h : Arguments node) : Made (· == .formalParameters)
    { node with kind := .formalParameters, children := node.children.map Node.toPattern } := by
  refine ⟨tidy_of_parts .formalParameters rfl ?_ (by decide), h.made.role, rfl⟩
  exact .map fun item hitem => (h.items item hitem).toPattern.part

theorem makes_parameters (h : g.Tidies) : Makes (Made (· == .formalParameters)) g.parameters :=
  .bind (makes_arguments h) fun _ harguments => .pure harguments.parameters

theorem makes_block (h : g.Tidies) (operatorMayFollow : Bool) :
    Makes (Made Kind.isFree) (g.block operatorMayFollow) := by
  refine .skip fun first => .bind (h.statement.many _) fun statements hstatements =>
    .skip fun _ => .skip fun _ => makes_close ?_ (by decide) rfl
  exact fun statement hstatement => (hstatements statement hstatement).statement rfl

theorem makes_functionFrom (h : g.Tidies) {name : Option Node} (operatorMayFollow : Bool)
    (hkind : kind.isFunction = true) (hkinds : kinds kind = true)
    (hname : Optional Kind.isFree name) :
    Makes (Made kinds) (g.functionFrom kind start name operatorMayFollow) := by
  have hpair : kind ≠ .pair := by
    rintro rfl
    cases hkind
  refine .bind (makes_parameters h) fun parameters hparameters =>
    .bind (makes_block h operatorMayFollow) fun body hbody => makes_close ?_ hpair hkinds
  refine .append (.toList fun node hnode => (hname node hnode).partAs (by decide)) ?_
  exact .cons hparameters.parameters (.cons (hbody.partAs (by decide)) .nil)

/-- A key, which may turn out to be a bare name. -/
structure Key (node : Node) : Prop where
  made : Made Kind.isFree node
  below : ∀ child ∈ node.children, Made Kind.isFree child

theorem Key.ofKind (h : Key node) (hpair : kind ≠ .pair) (hkinds : kinds kind = true) :
    Made kinds (node.ofKind kind) :=
  ⟨tidy_of_parts kind rfl (fun child hchild => (h.below child hchild).part) hpair, h.made.role,
    hkinds⟩

theorem makes_key (hkind : kind ≠ .pair) (hfree : kind.isFree = true) :
    Makes Key (Rule.leaf kind) := by
  refine .skip fun token => .pure ⟨⟨tidy_of_parts kind rfl .nil hkind, rfl, hfree⟩, ?_⟩
  intro child hchild
  cases hchild

theorem makes_propertyName (h : g.Tidies) : Makes Key g.propertyName := by
  refine .skip fun token => ?_
  split
  · exact makes_key (by decide) rfl
  · exact makes_key (by decide) rfl
  · exact makes_key (by decide) rfl
  · exact makes_key (by decide) rfl
  · refine .skip fun first => .bind (h.assignment true) fun key hkey => .skip fun _ =>
      .skip fun cursor => .pure
        ⟨⟨tidy_of_parts .computedPropertyName rfl ?_ (by decide), rfl, rfl⟩, ?_⟩
    · exact .cons hkey.part .nil
    · intro child hchild
      exact List.mem_singleton.1 hchild ▸ hkey

end Grammar

end Capabilities.Script
