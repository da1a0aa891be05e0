import Capabilities.Proofs.Script.Grammar.Basic

/-!
# Expressions are tidy

What is read as an expression is a free node: it is neither the declaration of a function nor a
method. A member of an object may be a method, and a pair has a value.
-/

namespace Capabilities.Script.Grammar

variable {g : Grammar} {kind : Kind} {node first : Node} {start : Nat} {kinds : Kind → Bool}

/-! ### Literals, objects and classes -/

theorem makes_regex : Makes (Made Kind.isFree) regex :=
  .skip fun _ => .skip fun _ => .pure ⟨tidy_of_parts .regex rfl .nil (by decide), rfl, rfl⟩

theorem makes_substitutions (h : g.Tidies) (bound : Nat) :
    Makes (fun nodes => ∀ node ∈ nodes, Made Kind.isFree node) (g.substitutions bound) := by
  induction bound with
  | zero => exact .failure
  | succ bound ih =>
    refine .skip fun cursor => .skip fun _ => ?_
    dsimp only
    split
    · refine .pure ?_
      intro node hnode
      cases hnode
    · refine .bind (makes_expression h true) fun inner hinner => .skip fun closing => ?_
      split
      · exact .failure
      refine .bind ih fun more hmore => .pure ?_
      intro node hnode
      rcases List.mem_cons.1 hnode with rfl | hnode
      · exact ⟨tidy_of_parts .templateSubstitution rfl (.cons hinner.part .nil)
          (by decide), rfl, rfl⟩
      · exact hmore node hnode

theorem makes_template (h : g.Tidies) : Makes (Made (· == .templateString)) g.template := by
  refine .skip fun cursor => .bind (makes_substitutions h _) fun inner hinner => ?_
  exact makes_close (fun node hnode => (hinner node hnode).part) (by decide) rfl

theorem makes_array (h : g.Tidies) : Makes (Made Kind.isFree) g.array := by
  refine .skip fun first => .bind ((makes_element h).listed "]") fun items hitems => ?_
  exact makes_close (fun item hitem => (hitems item hitem).part) (by decide) rfl

/-- The one kind of node that needs a part: a pair has a value. -/
theorem makes_pair (hkey : Made Kind.isFree first) (hvalue : Made Kind.isFree node) :
    Makes (Made Kind.isMember) (Rule.close .pair start [first.as .key, node.as .value]) := by
  have hparts : Parts .pair [first.as .key, node.as .value] :=
    .cons (hkey.partAs (by decide)) (.cons (hvalue.partAs (by decide)) .nil)
  exact .skip fun _ => .pure ⟨.intro ⟨fun child hchild => (hparts child hchild).holds,
    fun _ => rfl⟩ fun child hchild => (hparts child hchild).tidy, rfl, rfl⟩

theorem makes_objectMember (h : g.Tidies) : Makes (Made Kind.isMember) g.objectMember := by
  refine .skip fun first => ?_
  split
  · exact (makes_element h).mono fun _ helement => helement.mono fun _ => Kind.isMember_of_isFree
  refine .skip fun _ => .bind (makes_propertyName h) fun key hkey => .skip fun token => ?_
  split
  · refine makes_functionFrom h false rfl rfl ?_
    rintro _ ⟨⟩
    exact hkey.made
  refine .skip fun colon => ?_
  split
  · exact .bind (h.assignment true) fun value hvalue => makes_pair hkey.made hvalue
  refine .skip fun equals => ?_
  split
  · refine .bind (h.assignment true) fun right hright => makes_close ?_ (by decide) rfl
    have hname : Made Kind.isFree (key.ofKind .shorthandPropertyIdentifierPattern) :=
      hkey.ofKind (by decide) rfl
    exact .cons (hname.partAs (by decide)) (.cons (hright.partAs (by decide)) .nil)
  · exact .pure (hkey.ofKind (by decide) rfl)

theorem makes_object (h : g.Tidies) : Makes (Made Kind.isFree) g.object := by
  refine .skip fun first => .bind ((makes_objectMember h).listed "\x7d") fun members hmembers => ?_
  exact makes_close (fun member hmember => (hmembers member hmember).member rfl) (by decide) rfl

/-- A function that stands as a statement may be a declaration, any other is free. -/
theorem makes_function (h : g.Tidies) (start : Nat) (asStatement operatorMayFollow : Bool)
    (hkinds : ∀ kind, kind.isFunction = true → kind ≠ .methodDefinition →
      (asStatement = false → kind.isFunctionDeclaration = false) → kinds kind = true) :
    Makes (Made kinds) (g.function start asStatement operatorMayFollow) := by
  have hrest : ∀ kind name, kind.isFunction = true → kind ≠ .methodDefinition →
      (asStatement = false → kind.isFunctionDeclaration = false) → Optional Kind.isFree name →
      Makes (Made kinds) (g.functionFrom kind start name operatorMayFollow) :=
    fun kind _ hfunction hmethod hdeclaration hname =>
      makes_functionFrom h _ hfunction (hkinds kind hfunction hmethod hdeclaration) hname
  have hunnamed : Makes (Optional Kind.isFree) (pure none) := makes_none
  have hnamed : Makes (Optional Kind.isFree) (some <$> Rule.leaf .identifier) :=
    makes_some (makes_free_leaf (by decide) rfl)
  refine .skip fun _ => .skip fun generator => .skip fun token => ?_
  dsimp only
  split
  case' isTrue => refine hunnamed.bind fun name hname => ?_
  case' isFalse => refine hnamed.bind fun name hname => ?_
  all_goals
    generalize hdeclared : (asStatement && name.isSome) = declared
    have hplain : asStatement = false → declared = false := by
      rintro rfl
      exact hdeclared.symm
    cases declared <;> cases generator
    · exact hrest .functionExpression name rfl (by decide) (fun _ => rfl) hname
    · exact hrest .generatorFunction name rfl (by decide) (fun _ => rfl) hname
    · exact hrest .functionDeclaration name rfl (by decide) (fun h => by cases hplain h) hname
    · exact hrest .generatorFunctionDeclaration name rfl (by decide)
        (fun h => by cases hplain h) hname

/-- A function that does not stand as a statement is free. -/
theorem makes_functionExpression (h : g.Tidies) (start : Nat) (operatorMayFollow : Bool) :
    Makes (Made Kind.isFree) (g.function start false operatorMayFollow) := by
  refine makes_function h start false operatorMayFollow ?_
  intro kind hfunction hmethod hdeclaration
  have hexpression := hdeclaration rfl
  revert hfunction hmethod hexpression
  cases kind <;> decide

theorem makes_functionStatement (h : g.Tidies) (start : Nat) (operatorMayFollow : Bool) :
    Makes (Made Kind.isStatement) (g.function start true operatorMayFollow) := by
  refine makes_function h start true operatorMayFollow ?_
  intro kind hfunction hmethod _
  revert hfunction hmethod
  cases kind <;> decide

theorem makes_classMember (h : g.Tidies) : Makes (Made Kind.isMember) g.classMember := by
  have hfield : ∀ start key, Key key → ∀ value, Optional Kind.isFree value →
      Makes (Made Kind.isMember) (do
        let field ← Rule.close .fieldDefinition start
          (key.as .property :: value.toList.map (·.as .value))
        Rule.semicolon true
        return field) := by
    intro start key hkey value hvalue
    have hmade : Makes (Made Kind.isMember) (Rule.close .fieldDefinition start
        (key.as .property :: value.toList.map (·.as .value))) :=
      makes_close (.cons (hkey.made.partAs (by decide))
        (.toList fun node hnode => (hvalue node hnode).partAs (by decide)))
        (by decide) rfl
    exact .bind hmade fun field hfield => .skip fun _ => .pure hfield
  refine .skip fun first => .skip fun second => ?_
  split
  · refine .skip fun _ => .bind (makes_block h false) fun body hbody => ?_
    exact makes_close (.cons (hbody.partAs (by decide)) .nil) (by decide) rfl
  refine .skip fun _ => .bind (makes_propertyName h) fun key hkey => .skip fun token => ?_
  split
  · refine makes_functionFrom h false rfl rfl ?_
    rintro _ ⟨⟩
    exact hkey.made
  refine .skip fun equals => ?_
  dsimp only
  split
  · exact .bind (makes_some (h.assignment true)) (hfield _ key hkey)
  · exact .bind makes_none (hfield _ key hkey)

theorem makes_classBody (h : g.Tidies) : Makes (Made Kind.isFree) g.classBody := by
  have hmember : Makes (Optional Kind.isMember) (do
      if ← Rule.tryMark ";" then return none
      some <$> g.classMember) := by
    refine .skip fun empty => ?_
    split
    · exact makes_none
    · exact makes_some (makes_classMember h)
  refine .skip fun first => .bind (hmember.many _) fun members hmembers => .skip fun _ => ?_
  refine makes_close (fun member hmem => ?_) (by decide) rfl
  exact (Makes.forall_filterMap_id hmembers member hmem).member rfl

theorem makes_class (h : g.Tidies) (asStatement : Bool) :
    Makes (Made Kind.isFree) (g.class' asStatement) := by
  have hrest : ∀ start name heritage, Optional Kind.isFree name → Optional Kind.isFree heritage →
      Makes (Made Kind.isFree) (do
        let body ← g.classBody
        let kind := if asStatement && name.isSome then .classDeclaration else .classExpression
        Rule.close kind start
          (name.toList.map (·.as .name) ++ heritage.toList ++ [body.as .body])) := by
    intro start name heritage hname hheritage
    refine .bind (makes_classBody h) fun body hbody => ?_
    have hparts : ∀ kind, Parts kind
        (name.toList.map (·.as .name) ++ heritage.toList ++ [body.as .body]) := by
      intro kind
      have hnames : Parts kind (name.toList.map (·.as .name)) :=
        .toList fun node hnode => (hname node hnode).partAs (by decide)
      refine .append (.append hnames ?_) (.cons (hbody.partAs (by decide)) .nil)
      exact fun node hnode => (hheritage node (Option.mem_toList.1 hnode)).part
    dsimp only
    split
    · exact makes_close (hparts _) (by decide) rfl
    · exact makes_close (hparts _) (by decide) rfl
  have hparent : ∀ start name, Optional Kind.isFree name → ∀ token : Token,
      Makes (Made Kind.isFree) (do
      let heritage ← if ← Rule.tryWord "extends" then
          let parent ← g.member true
          some <$> Rule.close .classHeritage token.start [parent]
        else pure none
      let body ← g.classBody
      let kind := if asStatement && name.isSome then .classDeclaration else .classExpression
      Rule.close kind start
        (name.toList.map (·.as .name) ++ heritage.toList ++ [body.as .body])) := by
    intro start name hname token
    refine .skip fun extending => ?_
    dsimp only
    split
    · refine .bind (h.member true) fun parent hparent =>
        .bind (makes_some (makes_close ?_ (by decide) rfl))
          fun heritage hheritage => hrest start name heritage hname hheritage
      exact .cons hparent.part .nil
    · exact .bind makes_none fun heritage hheritage => hrest start name heritage hname hheritage
  refine .skip fun first => .skip fun token => ?_
  dsimp only
  split
  · refine .bind (makes_some (makes_free_leaf (by decide) rfl)) fun name hname =>
      .skip fun token => ?_
    exact hparent first.start name hname token
  · exact .bind makes_none fun name hname => .skip fun token => hparent first.start name hname token

/-! ### Arrows and operands -/

theorem makes_arrowFrom (h : g.Tidies) (inAllowed : Bool) {parameters : Node}
    (hparameters : Part .arrowFunction parameters) :
    Makes (Made Kind.isFree) (g.arrowFrom inAllowed start parameters) := by
  have hrest : ∀ body, Made Kind.isFree body →
      Makes (Made Kind.isFree) (Rule.close .arrowFunction start [parameters, body.as .body]) := by
    intro body hbody
    exact makes_close (.cons hparameters (.cons (hbody.partAs (by decide)) .nil))
      (by decide) rfl
  refine .skip fun _ => .skip fun token => ?_
  dsimp only
  split
  · exact .bind (makes_block h true) hrest
  · exact .bind (h.assignment inAllowed) hrest

theorem makes_parenthesized (h : g.Tidies) (inAllowed : Bool) :
    Makes (Made Kind.isFree) (g.parenthesized inAllowed) := by
  refine .bind (makes_arguments h) fun list hlist => .skip fun token => ?_
  split
  · exact makes_arrowFrom h inAllowed (hlist.parameters.parameters)
  have hitems := hlist.items
  split
  · exact .failure
  · rename_i inner heq
    rw [heq] at hitems
    have hinner := hitems inner List.mem_cons_self
    exact .pure ⟨tidy_of_parts .parenthesizedExpression rfl (.cons hinner.part .nil)
      (by decide), hlist.made.role, rfl⟩
  · rename_i first more _ heq
    rw [heq] at hitems
    have hsequence := made_spanning (hitems first List.mem_cons_self)
      fun node hnode => hitems node (List.mem_cons_of_mem _ hnode)
    exact .pure ⟨tidy_of_parts .parenthesizedExpression rfl
      (.cons hsequence.part .nil) (by decide), hlist.made.role, rfl⟩

/-- A call of something with arguments. -/
theorem makes_call {callee list : Node} {optional : List Node} (hcallee : Made Kind.isFree callee)
    (hoptional : Parts .callExpression optional)
    (hlist : Made (fun kind => kind == .arguments || kind == .templateString) list) :
    Makes (Made Kind.isFree)
      (Rule.close .callExpression start
        (callee.as .callee :: (optional ++ [list.as .arguments]))) :=
  makes_close (.cons (hcallee.partAs (by decide))
    (.append hoptional (.cons hlist.arguments .nil))) (by decide) rfl

theorem makes_asyncConstruct (h : g.Tidies) (inAllowed : Bool) :
    Makes (Made Kind.isFree) (g.asyncConstruct inAllowed) := by
  refine .skip fun cursor => ?_
  dsimp only
  split
  · exact .skip fun _ => makes_functionExpression h _ true
  split
  · refine .skip fun _ => .bind (makes_free_leaf (by decide) rfl) fun parameter hparameter => ?_
    exact makes_arrowFrom h inAllowed (hparameter.partAs (by decide))
  refine .bind (makes_free_leaf (by decide) rfl) fun name hname => ?_
  split
  · exact makes_arrowFrom h inAllowed (hname.partAs (by decide))
  split
  · refine .bind (makes_arguments h) fun list hlist => .skip fun token => ?_
    split
    · exact makes_arrowFrom h inAllowed (hlist.parameters.parameters)
    · exact makes_call hname .nil (hlist.made.of_kind rfl)
  · exact .pure hname

theorem makes_newConstruct (h : g.Tidies) : Makes (Made Kind.isFree) g.newConstruct := by
  refine .skip fun first => .skip fun dotted => ?_
  split
  · exact .skip fun _ => makes_close .nil (by decide) rfl
  refine .bind (h.member false) fun callee hcallee => .skip fun token => ?_
  have hrest : ∀ list : Option Node, (∀ node, list = some node → Arguments node) →
      Makes (Made Kind.isFree) (Rule.close .newExpression first.start
        (callee.as .constructor :: list.toList.map (·.as .arguments))) := by
    intro list hlist
    refine makes_close (.cons (hcallee.partAs (by decide)) ?_) (by decide) rfl
    exact .toList fun node hnode => ((hlist node hnode).made.of_kind rfl).arguments
  dsimp only
  split
  · refine .bind ((makes_arguments h).map fun list hlist => ?_) hrest
    rintro _ ⟨⟩
    exact hlist
  · refine .bind (.pure ?_) hrest
    rintro _ ⟨⟩

theorem makes_wordOperand (h : g.Tidies) (inAllowed : Bool) (token : Token) :
    Makes (Made Kind.isFree) (g.wordOperand inAllowed token) := by
  unfold wordOperand
  split
  · exact makes_free_leaf (by decide) rfl
  · exact makes_free_leaf (by decide) rfl
  · exact makes_free_leaf (by decide) rfl
  · exact makes_free_leaf (by decide) rfl
  · exact makes_free_leaf (by decide) rfl
  · exact makes_free_leaf (by decide) rfl
  · exact makes_functionExpression h _ true
  · exact makes_class h false
  · exact makes_newConstruct h
  · exact makes_asyncConstruct h inAllowed
  · refine .skip fun second => ?_
    split
    · exact .skip fun _ => .skip fun _ => .skip fun _ => makes_close .nil (by decide) rfl
    · exact makes_free_leaf (by decide) rfl
  · split
    · exact .failure
    refine .bind (makes_free_leaf (by decide) rfl) fun name hname => .skip fun next => ?_
    split
    · exact makes_arrowFrom h inAllowed (hname.partAs (by decide))
    · exact .pure hname

theorem makes_primary (h : g.Tidies) (inAllowed : Bool) :
    Makes (Made Kind.isFree) (g.primary inAllowed) := by
  refine .skip fun token => ?_
  split
  · exact makes_free_leaf (by decide) rfl
  · exact makes_free_leaf (by decide) rfl
  · exact makes_free_leaf (by decide) rfl
  · exact .failure
  · exact makes_wordOperand h inAllowed token
  · split
    · exact makes_parenthesized h inAllowed
    · exact makes_array h
    · exact makes_object h
    · exact (makes_template h).mono fun _ htemplate => htemplate.of_kind rfl
    · exact makes_regex
    · exact makes_regex
    · exact .failure

theorem makes_memberName : Makes (Made Kind.isFree) memberName := by
  refine .skip fun token => ?_
  split
  · exact makes_free_leaf (by decide) rfl
  · exact makes_free_leaf (by decide) rfl
  · exact .failure

/-- An operand keeps being one, whatever binds to it: induction on how often something does. -/
theorem makes_trail (h : g.Tidies) (calls : Bool) (bound : Nat) (hnode : Made Kind.isFree node) :
    Makes (Made Kind.isFree) (g.trail calls bound node) := by
  induction bound generalizing node with
  | zero => exact .pure hnode
  | succ bound ih =>
    have hmember : ∀ optional name, Parts .memberExpression optional → Made Kind.isFree name →
        Makes (Made Kind.isFree) (Rule.close .memberExpression node.start
          (node.as .object :: (optional ++ [name.as .property])) >>= g.trail calls bound) := by
      intro optional name hoptional hname
      refine .bind (makes_close ?_ (by decide) rfl) fun member hmember => ih hmember
      exact .cons (hnode.partAs (by decide))
        (.append hoptional (.cons (hname.partAs (by decide)) .nil))
    have hindex : ∀ optional index, Parts .subscriptExpression optional → Made Kind.isFree index →
        Makes (Made Kind.isFree) (Rule.close .subscriptExpression node.start
          (node.as .object :: (optional ++ [index.as .index])) >>= g.trail calls bound) := by
      intro optional index hoptional hindex
      refine .bind (makes_close ?_ (by decide) rfl) fun member hmember => ih hmember
      exact .cons (hnode.partAs (by decide))
        (.append hoptional (.cons (hindex.partAs (by decide)) .nil))
    refine .skip fun token => ?_
    split
    · exact .pure hnode
    split
    · exact .skip fun _ => .bind makes_memberName fun name hname => hmember [] name .nil hname
    · refine .bind (makes_free_leaf (by decide) rfl) fun optional hoptional => .skip fun next => ?_
      split
      · refine .bind (makes_arguments h) fun list hlist => ?_
        exact .bind (makes_call hnode (.cons hoptional.part .nil)
          (hlist.made.of_kind rfl)) fun call hcall => ih hcall
      refine .skip fun opened => ?_
      split
      · exact .bind (makes_expression h true) fun index hindex' => .skip fun _ =>
          hindex [optional] index (.cons hoptional.part .nil) hindex'
      · exact .bind makes_memberName fun name hname =>
          hmember [optional] name (.cons hoptional.part .nil) hname
    · exact .skip fun _ => .bind (makes_expression h true) fun index hindex' => .skip fun _ =>
        hindex [] index .nil hindex'
    · split
      · exact .bind (makes_arguments h) fun list hlist =>
          .bind (makes_call hnode .nil (hlist.made.of_kind rfl)) fun call hcall => ih hcall
      · exact .pure hnode
    · exact .bind (makes_template h) fun text htext =>
        .bind (makes_call hnode .nil (htext.of_kind rfl)) fun call hcall => ih hcall
    · exact .pure hnode

theorem makes_memberWith (h : g.Tidies) (inAllowed calls : Bool) :
    Makes (Made Kind.isFree) (g.memberWith inAllowed calls) :=
  .bind (makes_primary h inAllowed) fun _ hnode => .skip fun _ => makes_trail h calls _ hnode

/-! ### Operators -/

theorem made_lead (operator : Token) (h : Made Kind.isFree node) :
    Made Kind.isFree (lead operator node) := by
  have hlead : ∀ kind child, Part kind child → kind ≠ .pair → kind.isFree = true →
      Made Kind.isFree ⟨0, kind, none, operator.start, node.stop, "", [child]⟩ :=
    fun kind child hchild hpair hfree =>
      ⟨tidy_of_parts kind rfl (.cons hchild .nil) hpair, rfl, hfree⟩
  have hpart : ∀ kind, Part kind (node.as .operand) := fun _ => h.partAs (by decide)
  unfold lead
  split
  · exact hlead .awaitExpression _ h.part (by decide) rfl
  · exact hlead .updateExpression _ (hpart _) (by decide) rfl
  · exact hlead .updateExpression _ (hpart _) (by decide) rfl
  · exact hlead .unaryExpression _ (hpart _) (by decide) rfl

theorem made_leads (operators : List Token) (h : Made Kind.isFree node) :
    Made Kind.isFree (operators.foldr lead node) := by
  induction operators with
  | nil => exact h
  | cons operator rest ih => exact made_lead operator ih

theorem made_binary {left right : Node} (hleft : Made Kind.isFree left)
    (hright : Made Kind.isFree right) : Made Kind.isFree (Node.binary left right) :=
  ⟨tidy_of_parts .binaryExpression rfl (.cons (hleft.partAs (by decide))
    (.cons (hright.partAs (by decide)) .nil)) (by decide), rfl, rfl⟩

theorem made_settle (level : Nat) {before : List (Node × Nat)} {operand : Node}
    (hbefore : ∀ waiting ∈ before, Made Kind.isFree waiting.1) (h : Made Kind.isFree operand) :
    (∀ waiting ∈ (Node.settle level before operand).1, Made Kind.isFree waiting.1) ∧
      Made Kind.isFree (Node.settle level before operand).2 := by
  induction before generalizing operand with
  | nil => exact ⟨hbefore, h⟩
  | cons first rest ih =>
    unfold Node.settle
    split
    · exact ih (fun waiting hwaiting => hbefore waiting (List.mem_cons_of_mem _ hwaiting))
        (made_binary (hbefore first List.mem_cons_self) h)
    · exact ⟨hbefore, h⟩

theorem made_chainFrom {rest : List (Nat × Node)} {before : List (Node × Nat)} {operand : Node}
    (hbefore : ∀ waiting ∈ before, Made Kind.isFree waiting.1) (h : Made Kind.isFree operand)
    (hrest : ∀ next ∈ rest, Made Kind.isFree next.2) :
    Made Kind.isFree (Node.chainFrom before operand rest) := by
  induction rest generalizing before operand with
  | nil =>
    unfold Node.chainFrom
    induction before generalizing operand with
    | nil => exact h
    | cons first before ih =>
      exact ih (fun waiting hwaiting => hbefore waiting (List.mem_cons_of_mem _ hwaiting))
        (made_binary (hbefore first List.mem_cons_self) h)
  | cons next rest ih =>
    obtain ⟨level, right⟩ := next
    obtain ⟨hsettled, hoperand⟩ := made_settle level hbefore h
    refine ih ?_ (hrest _ List.mem_cons_self)
      fun later hlater => hrest later (List.mem_cons_of_mem _ hlater)
    intro waiting hwaiting
    rcases List.mem_cons.1 hwaiting with rfl | hwaiting
    · exact hoperand
    · exact hsettled waiting hwaiting

theorem makes_yieldConstruct (h : g.Tidies) (inAllowed : Bool) :
    Makes (Made Kind.isFree) (g.yieldConstruct inAllowed) := by
  refine .skip fun first => .skip fun delegates => .skip fun token => ?_
  dsimp only
  split
  · exact makes_close .nil (by decide) rfl
  · exact .bind (h.assignment inAllowed) fun value hvalue =>
      makes_close (.cons hvalue.part .nil) (by decide) rfl

theorem makes_operand (h : g.Tidies) (inAllowed : Bool) :
    Makes (Made Kind.isFree) (g.operand inAllowed) := by
  refine .skip fun leading => .skip fun token => ?_
  have hrest : ∀ core, Made Kind.isFree core →
      Makes (Made Kind.isFree) (pure (leading.foldr lead core)) :=
    fun core hcore => .pure (made_leads leading hcore)
  dsimp only
  split
  · exact .bind (makes_yieldConstruct h inAllowed) hrest
  refine .bind (makes_memberWith h inAllowed true) fun node hnode => .skip fun token => ?_
  split
  · refine .skip fun _ => .bind (h.assignment inAllowed) fun right hright =>
      .bind (makes_close ?_ (by decide) rfl) hrest
    exact .cons (hnode.toPattern.partAs (by decide))
      (.cons (hright.partAs (by decide)) .nil)
  split
  · refine .skip fun _ => .bind (h.assignment inAllowed) fun right hright =>
      .bind (makes_close ?_ (by decide) rfl) hrest
    exact .cons (hnode.partAs (by decide))
      (.cons (hright.partAs (by decide)) .nil)
  split
  · refine .skip fun _ => .bind (makes_close ?_ (by decide) rfl) fun update hupdate =>
      .skip fun _ => .bind (makes_trail h true _ hupdate) hrest
    exact .cons (hnode.partAs (by decide)) .nil
  · exact hrest node hnode

theorem makes_assignmentRule (h : g.Tidies) (inAllowed : Bool) :
    Makes (Made Kind.isFree) (g.assignmentRule inAllowed) := by
  have hnext : Makes (fun next : Nat × Node => Made Kind.isFree next.2) (do
      let token ← Rule.shift
      let right ← g.operand inAllowed
      return (token.operatorLevel?.getD 0, right)) :=
    .skip fun _ => .bind (makes_operand h inAllowed) fun right hright => .pure hright
  refine .bind (makes_operand h inAllowed) fun first hfirst =>
    .bind (hnext.many _) fun rest hrest => ?_
  have hwhole : Made Kind.isFree (Node.chain first rest) :=
    made_chainFrom (fun _ hwaiting => nomatch hwaiting) hfirst hrest
  refine .skip fun choice => ?_
  split
  · refine .bind (h.assignment true) fun consequence hconsequence => .skip fun _ =>
      .bind (h.assignment inAllowed) fun alternative halternative => makes_close ?_ (by decide) rfl
    exact .cons (hwhole.partAs (by decide))
      (.cons (hconsequence.partAs (by decide))
        (.cons (halternative.partAs (by decide)) .nil))
  · exact .pure hwhole

end Capabilities.Script.Grammar
