import Capabilities.Proofs.Script.Grammar.Expression

/-!
# Scripts are tidy

A statement is anything but a method, and it is read only where statements may stand. So, by
induction on the depth, the whole grammar reads tidy nodes, and the tree of every script is tidy.
-/

namespace Capabilities.Script

namespace Grammar

variable {g : Grammar} {kind : Kind} {node first : Node} {start : Nat} {kinds : Kind → Bool}
  {rule : Rule Node}

/-- A free node may stand as a statement. -/
theorem makes_statement_of_free {rule : Rule Node} (h : Makes (Made Kind.isFree) rule) :
    Makes (Made Kind.isStatement) rule :=
  h.mono fun _ hnode => hnode.mono fun _ => Kind.isStatement_of_isFree

/-! ### Variables -/

theorem makes_bindingTarget (h : g.Tidies) : Makes (Made Kind.isFree) g.bindingTarget := by
  refine .skip fun token => ?_
  split
  · exact makes_free_leaf (by decide) rfl
  split
  · exact .bind (makes_array h) fun array harray => .pure harray.toPattern
  · exact .bind (makes_object h) fun object hobject => .pure hobject.toPattern

theorem makes_declaratorOf {target : Node} {value : Option Node} (htarget : Made Kind.isFree target)
    (hvalue : Optional Kind.isFree value) :
    Makes (Made (· == .variableDeclarator)) (declaratorOf target value) :=
  makes_close (.cons (htarget.partAs (by decide))
    (.toList fun node hnode => (hvalue node hnode).partAs (by decide))) (by decide) rfl

theorem makes_initial (h : g.Tidies) (inAllowed : Bool) :
    Makes (Optional Kind.isFree) (g.initial inAllowed) := by
  refine .skip fun equals => ?_
  split
  · exact makes_some (h.assignment inAllowed)
  · exact makes_none

theorem makes_declarator (h : g.Tidies) (inAllowed : Bool) :
    Makes (Made (· == .variableDeclarator)) (g.declarator inAllowed) :=
  .bind (makes_bindingTarget h) fun _ htarget => .bind (makes_initial h inAllowed)
    fun _ hvalue => makes_declaratorOf htarget hvalue

theorem makes_moreDeclarators (h : g.Tidies) (inAllowed : Bool) :
    Makes (fun nodes => ∀ node ∈ nodes, Made (· == .variableDeclarator) node)
      (g.moreDeclarators inAllowed) := by
  have hnext : Makes (Made (· == .variableDeclarator)) (do
      let _ ← Rule.shift
      g.declarator inAllowed) := .skip fun _ => makes_declarator h inAllowed
  exact hnext.many _

theorem declaratorPart (h : Made (· == .variableDeclarator) node) (parent : Kind) :
    Part parent node := by
  refine ⟨h.tidy, ?_⟩
  rw [h.role, beq_iff_eq.1 h.kind]
  cases parent <;> rfl

theorem makes_declaration (word : Token) (hfirst : Made (· == .variableDeclarator) first)
    {more : List Node} (hmore : ∀ node ∈ more, Made (· == .variableDeclarator) node) :
    Makes (Made Kind.isFree) (Rule.close (declarationKind word) start (first :: more)) := by
  have hparts : ∀ kind, Parts kind (first :: more) := fun kind =>
    .cons (declaratorPart hfirst kind) fun node hnode => declaratorPart (hmore node hnode) kind
  unfold declarationKind
  split
  · exact makes_close (hparts _) (by decide) rfl
  · exact makes_close (hparts _) (by decide) rfl

theorem makes_variableStatement (h : g.Tidies) : Makes (Made Kind.isFree) g.variableStatement :=
  .skip fun first => .bind (makes_declarator h true) fun _ hhead =>
    .bind (makes_moreDeclarators h true) fun _ hmore => .skip fun _ =>
      makes_declaration first hhead hmore

/-! ### Loops -/

theorem makes_forInFrom (h : g.Tidies) {head : List Node} (hhead : Parts .forInStatement head) :
    Makes (Made Kind.isFree) (g.forInFrom start head) := by
  refine .skip fun _ => .bind (makes_expression h true) fun right hright => .skip fun _ =>
    .bind h.statement fun body hbody => makes_close (.append hhead ?_) (by decide) rfl
  exact .cons (hright.partAs (by decide))
    (.cons (hbody.statementAs rfl (by decide)) .nil)

theorem makes_forFrom (h : g.Tidies) {initializer : Node}
    (hinitializer : Made Kind.isFree initializer) :
    Makes (Made Kind.isFree) (g.forFrom start initializer) := by
  have hclose : ∀ condition increment, Made Kind.isFree condition → Optional Kind.isFree increment →
      Makes (Made Kind.isFree) (do
        let _ ← Rule.mark ")"
        let body ← g.statement
        Rule.close .forStatement start
          ([initializer.as .initializer, condition.as .condition]
            ++ increment.toList.map (·.as .increment) ++ [body.as .body])) := by
    intro condition increment hcondition hincrement
    refine .skip fun _ => .bind h.statement fun body hbody => makes_close ?_ (by decide) rfl
    exact .append (.append (.cons (hinitializer.partAs (by decide))
        (.cons (hcondition.partAs (by decide)) .nil))
        (.toList fun node hnode => (hincrement node hnode).partAs (by decide)))
      (.cons (hbody.statementAs rfl (by decide)) .nil)
  have hincrement : ∀ condition, Made Kind.isFree condition → Makes (Made Kind.isFree) (do
      let increment ← if (← Rule.peek).isMark ")" then pure none else some <$> g.expression true
      let _ ← Rule.mark ")"
      let body ← g.statement
      Rule.close .forStatement start
        ([initializer.as .initializer, condition.as .condition]
          ++ increment.toList.map (·.as .increment) ++ [body.as .body])) := by
    intro condition hcondition
    refine .skip fun token => ?_
    dsimp only
    split
    · exact .bind makes_none fun increment => hclose condition increment hcondition
    · exact .bind (makes_some (makes_expression h true)) fun increment =>
        hclose condition increment hcondition
  refine .skip fun token => ?_
  dsimp only
  split
  · exact .bind (makes_free_leaf (by decide) rfl) hincrement
  · refine .bind (makes_expression h true) fun condition hcondition => .skip fun _ => ?_
    exact hincrement condition hcondition

theorem makes_forConstruct (h : g.Tidies) : Makes (Made Kind.isFree) g.forConstruct := by
  refine .skip fun first => .skip fun _ => .skip fun _ => .skip fun declares => ?_
  split
  · refine .skip fun word => .bind (makes_bindingTarget h) fun target htarget =>
      .skip fun token => ?_
    have hleft : Part .forInStatement (target.as .left) := htarget.partAs (by decide)
    split
    · exact makes_forInFrom h (.cons hleft .nil)
    refine .bind (makes_initial h false) fun value hvalue => .skip fun token => ?_
    split
    · exact makes_forInFrom h (.cons hleft
        (.toList fun node hnode => (hvalue node hnode).partAs (by decide)))
    · exact .bind (makes_declaratorOf htarget hvalue) fun head hhead =>
        .bind (makes_moreDeclarators h false) fun more hmore => .skip fun _ =>
          .bind (makes_declaration word hhead hmore) fun declaration hdeclaration =>
            makes_forFrom h hdeclaration
  refine .skip fun token => ?_
  split
  · exact .bind (makes_free_leaf (by decide) rfl) fun empty hempty => makes_forFrom h hempty
  refine .bind (makes_expression h false) fun initializer hinitializer => .skip fun token => ?_
  split
  · exact makes_forInFrom h (.cons (hinitializer.toPattern.partAs (by decide)) .nil)
  · exact .skip fun _ => makes_forFrom h hinitializer

/-! ### Branches -/

theorem makes_ifConstruct (h : g.Tidies) : Makes (Made Kind.isFree) g.ifConstruct := by
  refine .skip fun first => .bind (makes_condition h) fun condition hcondition =>
    .bind h.statement fun consequence hconsequence => .skip fun token => .skip fun otherwise => ?_
  have hcondition' : Part .ifStatement (condition.as .condition) :=
    hcondition.partAs (by decide)
  have hconsequence' : Part .ifStatement (consequence.as .consequence) :=
    hconsequence.statementAs rfl (by decide)
  split
  · refine .bind h.statement fun body hbody =>
      .bind (makes_free_close (.cons (hbody.statement rfl) .nil) (by decide) rfl)
        fun alternative halternative => makes_close ?_ (by decide) rfl
    exact .cons hcondition' (.cons hconsequence'
      (.cons (halternative.partAs (by decide)) .nil))
  · exact makes_close (.cons hcondition' (.cons hconsequence' .nil)) (by decide) rfl

/-- The statements of a case. -/
theorem bodyParts {body : List Node} (hparent : kind.holdsStatements = true)
    (h : ∀ node ∈ body, Made Kind.isStatement node) : Parts kind (body.map (·.as .body)) :=
  .map fun node hnode => (h node hnode).statementAs hparent (by decide)

theorem makes_switchBranch (h : g.Tidies) : Makes (Made Kind.isFree) g.switchBranch := by
  refine .skip fun first => .skip fun default => ?_
  split
  · exact .skip fun _ => .bind (h.statement.many _) fun body hbody =>
      makes_close (bodyParts rfl hbody) (by decide) rfl
  · exact .skip fun _ => .bind (makes_expression h true) fun value hvalue => .skip fun _ =>
      .bind (h.statement.many _) fun body hbody =>
        makes_close (.cons (hvalue.partAs (by decide)) (bodyParts rfl hbody))
          (by decide) rfl

theorem makes_switchConstruct (h : g.Tidies) : Makes (Made Kind.isFree) g.switchConstruct := by
  refine .skip fun first => .bind (makes_condition h) fun value hvalue => .skip fun opened =>
    .bind ((makes_switchBranch h).many _) fun branches hbranches => .skip fun _ =>
    .bind (makes_free_close
      (fun branch hbranch => (hbranches branch hbranch).part) (by decide) rfl)
    fun body hbody => makes_close ?_ (by decide) rfl
  exact .cons (hvalue.partAs (by decide))
    (.cons (hbody.partAs (by decide)) .nil)

theorem makes_tryConstruct (h : g.Tidies) : Makes (Made Kind.isFree) g.tryConstruct := by
  have hclose : ∀ (start : Nat) (body : Node) (handler finalizer : Option Node),
      Made Kind.isFree body → Optional Kind.isFree handler → Optional Kind.isFree finalizer →
      Makes (Made Kind.isFree) (Rule.close .tryStatement start (body.as .body ::
        handler.toList.map (·.as .handler) ++ finalizer.toList.map (·.as .finalizer))) := by
    intro start body handler finalizer hbody hhandler hfinalizer
    refine makes_close (.append (.cons (hbody.partAs (by decide)) ?_) ?_)
      (by decide) rfl
    · exact .toList fun node hnode => (hhandler node hnode).partAs (by decide)
    · exact .toList fun node hnode => (hfinalizer node hnode).partAs (by decide)
  have hfinally : ∀ (start : Nat) (body : Node) (handler : Option Node), Made Kind.isFree body →
      Optional Kind.isFree handler → Makes (Made Kind.isFree) (do
        let token ← Rule.peek
        let finalizer ← if ← Rule.tryWord "finally" then
            let body ← g.block false
            some <$> Rule.close .finallyClause token.start [body.as .body]
          else pure none
        Rule.close .tryStatement start (body.as .body ::
          handler.toList.map (·.as .handler) ++ finalizer.toList.map (·.as .finalizer))) := by
    intro start body handler hbody hhandler
    refine .skip fun token => .skip fun finishes => ?_
    dsimp only
    split
    · refine .bind (makes_block h false) fun last hlast =>
        .bind (makes_some (makes_free_close ?_ (by decide) rfl)) fun finalizer =>
          hclose start body handler finalizer hbody hhandler
      exact .cons (hlast.partAs (by decide)) .nil
    · exact .bind makes_none fun finalizer => hclose start body handler finalizer hbody hhandler
  have hcatch : ∀ (start : Nat) (parameter : Option Node), Optional Kind.isFree parameter →
      ∀ rest : Option Node → Rule Node,
        (∀ handler, Optional Kind.isFree handler → Makes (Made Kind.isFree) (rest handler)) →
        Makes (Made Kind.isFree) (do
          let body ← g.block false
          let handler ← some <$> Rule.close .catchClause start
            (parameter.toList.map (·.as .parameter) ++ [body.as .body])
          rest handler) := by
    intro start parameter hparameter rest hrest
    refine .bind (makes_block h false) fun body hbody =>
      .bind (makes_some
        (makes_free_close (.append (.toList fun node hnode => ?_) ?_) (by decide) rfl)) hrest
    · exact (hparameter node hnode).partAs (by decide)
    · exact .cons (hbody.partAs (by decide)) .nil
  refine .skip fun first => .bind (makes_block h false) fun body hbody => .skip fun token =>
    .skip fun catches => ?_
  have hrest := fun handler => hfinally first.start body handler hbody
  dsimp only
  split
  · refine .skip fun opened => ?_
    split
    · refine .bind (makes_bindingTarget h) fun target htarget => .skip fun _ =>
        .bind (.pure ?_) fun parameter hparameter => hcatch token.start parameter hparameter _ hrest
      rintro _ ⟨⟩
      exact htarget
    · exact .bind makes_none fun parameter hparameter =>
        hcatch token.start parameter hparameter _ hrest
  · exact .bind makes_none hrest

/-! ### Jumps -/

theorem makes_jump (hkind : kind = .breakStatement ∨ kind = .continueStatement) :
    Makes (Made Kind.isFree) (jump kind) := by
  have hclose : ∀ (start : Nat) (label : Option Node), Optional Kind.isFree label →
      Makes (Made Kind.isFree) (Rule.close kind start (label.toList.map (·.as .label))) := by
    intro start label hlabel
    rcases hkind with rfl | rfl
    · exact makes_close (.toList fun node hnode =>
        (hlabel node hnode).partAs (by decide)) (by decide) rfl
    · exact makes_close (.toList fun node hnode =>
        (hlabel node hnode).partAs (by decide)) (by decide) rfl
  refine .skip fun first => .skip fun understood => ?_
  split
  · refine hclose first.start none ?_
    rintro _ ⟨⟩
  refine .skip fun token => ?_
  dsimp only
  split
  · exact .bind (makes_some (makes_free_leaf (by decide) rfl)) fun label hlabel =>
      .skip fun _ => hclose first.start label hlabel
  · exact .bind makes_none fun label hlabel => .skip fun _ => hclose first.start label hlabel

theorem makes_returnConstruct (h : g.Tidies) : Makes (Made Kind.isFree) g.returnConstruct := by
  refine .skip fun first => .skip fun understood => ?_
  split
  · exact makes_close .nil (by decide) rfl
  refine .skip fun written => ?_
  split
  · exact makes_close .nil (by decide) rfl
  · exact .bind (makes_expression h true) fun value hvalue => .skip fun _ =>
      makes_close (.cons hvalue.part .nil) (by decide) rfl

/-! ### Modules -/

theorem makes_moduleName : Makes (Made Kind.isFree) moduleName := by
  refine .skip fun token => ?_
  split
  · exact makes_free_leaf (by decide) rfl
  · exact makes_free_leaf (by decide) rfl
  · exact .failure

theorem makes_specifier (hkind : kind = .importSpecifier ∨ kind = .exportSpecifier) :
    Makes (Made Kind.isFree) (specifier kind) := by
  have hclose : ∀ (start : Nat) (names : List Node), Parts .importSpecifier names →
      Parts .exportSpecifier names → Makes (Made Kind.isFree) (Rule.close kind start names) := by
    intro start names himport hexport
    rcases hkind with rfl | rfl
    · exact makes_close himport (by decide) rfl
    · exact makes_close hexport (by decide) rfl
  refine .bind makes_moduleName fun name hname => .skip fun renamed => ?_
  have hpart : ∀ parent, Part parent (name.as .name) := fun _ => hname.partAs (by decide)
  split
  · refine .bind makes_moduleName fun other hother => ?_
    exact hclose name.start _
      (.cons (hpart _) (.cons (hother.partAs (by decide)) .nil))
      (.cons (hpart _) (.cons (hother.partAs (by decide)) .nil))
  · exact hclose name.start _ (.cons (hpart _) .nil) (.cons (hpart _) .nil)

theorem makes_fromSource : Makes (Made Kind.isFree) fromSource :=
  .skip fun _ => makes_free_leaf (by decide) rfl

theorem makes_importAttributes (h : g.Tidies) :
    Makes (fun nodes => ∀ node ∈ nodes, Made Kind.isFree node) g.importAttributes := by
  refine .skip fun first => ?_
  split
  · refine .skip fun _ => .bind (makes_object h) fun object hobject =>
      .bind (makes_free_close (.cons hobject.part .nil) (by decide) rfl)
        fun added hadded => .pure ?_
    intro node hnode
    exact List.mem_singleton.1 hnode ▸ hadded
  · refine .pure ?_
    intro node hnode
    cases hnode

theorem makes_importedNames : Makes (Made Kind.isFree) importedNames := by
  refine .skip fun token => ?_
  split
  · exact .skip fun first => .skip fun _ =>
      .bind (makes_free_leaf (by decide) rfl) fun name hname =>
        makes_close (.cons hname.part .nil) (by decide) rfl
  · exact .skip fun first =>
      .bind ((makes_specifier (Or.inl rfl)).listed "\x7d") fun names hnames =>
        makes_close (fun name hname => (hnames name hname).part) (by decide) rfl

theorem makes_importStatement (h : g.Tidies) {clause : List Node}
    (hclause : ∀ node ∈ clause, Made Kind.isFree node) :
    Makes (Made Kind.isFree) (do
      let source ← Rule.leaf .string
      let attributes ← g.importAttributes
      Rule.semicolon false
      Rule.close .importStatement start (clause ++ source.as .source :: attributes)) := by
  refine .bind (makes_free_leaf (by decide) rfl) fun source hsource =>
    .bind (makes_importAttributes h) fun added hadded => .skip fun _ =>
      makes_close (.append ?_ (.cons (hsource.partAs (by decide)) ?_)) (by decide) rfl
  · exact fun node hnode => (hclause node hnode).part
  · exact fun node hnode => (hadded node hnode).part

theorem makes_importConstruct (h : g.Tidies) : Makes (Made Kind.isFree) g.importConstruct := by
  have hclause : ∀ (start first : Nat) (names : List Node),
      (∀ node ∈ names, Made Kind.isFree node) → Makes (Made Kind.isFree) (do
        let clause ← Rule.close .importClause start names
        let _ ← Rule.word "from"
        let clause ← pure [clause]
        let source ← Rule.leaf .string
        let attributes ← g.importAttributes
        Rule.semicolon false
        Rule.close .importStatement first (clause ++ source.as .source :: attributes)) := by
    intro start first names hnames
    refine .bind (makes_free_close (fun node hnode => (hnames node hnode).part)
      (by decide) rfl) fun clause hclause => .skip fun _ => makes_importStatement h ?_
    exact fun node hnode => List.mem_singleton.1 hnode ▸ hclause
  refine .skip fun first => .skip fun token => ?_
  dsimp only
  split
  · refine makes_importStatement h ?_
    intro node hnode
    cases hnode
  split
  · refine .bind (makes_free_leaf (by decide) rfl) fun name hname => .skip fun more => ?_
    split
    · refine .bind makes_importedNames fun others hothers => hclause _ _ [name, others] ?_
      intro node hnode
      rcases List.mem_cons.1 hnode with rfl | hnode
      · exact hname
      · exact List.mem_singleton.1 hnode ▸ hothers
    · refine hclause _ _ [name] ?_
      exact fun node hnode => List.mem_singleton.1 hnode ▸ hname
  · refine .bind makes_importedNames fun names hnames => hclause _ _ [names] ?_
    exact fun node hnode => List.mem_singleton.1 hnode ▸ hnames

theorem makes_functionOrClass (h : g.Tidies) (operatorMayFollow : Bool) :
    Makes (Made Kind.isStatement) (g.functionOrClass operatorMayFollow) := by
  refine .skip fun token => ?_
  split
  · exact makes_statement_of_free (makes_class h true)
  · exact .skip fun _ => makes_functionStatement h token.start operatorMayFollow

/-- An exported declaration. -/
theorem makes_exported (hrule : Makes (Made Kind.isStatement) rule) :
    Makes (Made Kind.isFree) (do
      let declaration ← rule
      Rule.close .exportStatement start [declaration.as .declaration]) :=
  .bind hrule fun _ hdeclaration =>
    makes_close (.cons (hdeclaration.statementAs rfl (by decide)) .nil) (by decide) rfl

theorem makes_exportConstruct (h : g.Tidies) : Makes (Made Kind.isFree) g.exportConstruct := by
  have hfrom : ∀ (start : Nat) (name : Option Node), Optional Kind.isFree name →
      Makes (Made Kind.isFree) (do
        let source ← fromSource
        let attributes ← g.importAttributes
        Rule.semicolon false
        Rule.close .exportStatement start (name.toList ++ source.as .source :: attributes)) := by
    intro start name hname
    refine .bind makes_fromSource fun source hsource => .bind (makes_importAttributes h)
      fun added hadded => .skip fun _ => makes_close (.append ?_ (.cons
        (hsource.partAs (by decide)) fun node hnode =>
          (hadded node hnode).part)) (by decide) rfl
    exact fun node hnode => (hname node (Option.mem_toList.1 hnode)).part
  have hnamed : ∀ (start : Nat) (clause : Node) (source : Option Node), Made Kind.isFree clause →
      Optional Kind.isFree source → Makes (Made Kind.isFree) (do
        let attributes ← g.importAttributes
        Rule.semicolon false
        Rule.close .exportStatement start
          (clause :: source.toList.map (·.as .source) ++ attributes)) := by
    intro start clause source hclause hsource
    refine .bind (makes_importAttributes h) fun added hadded => .skip fun _ =>
      makes_close (.append (.cons hclause.part (.toList fun node hnode => ?_))
        fun node hnode => (hadded node hnode).part) (by decide) rfl
    exact (hsource node hnode).partAs (by decide)
  refine .skip fun first => .skip fun token => .skip fun all => ?_
  split
  · refine .skip fun renamed => ?_
    dsimp only
    split
    · exact .bind makes_moduleName fun name hname =>
        .bind (makes_some (makes_free_close (.cons hname.part .nil) (by decide) rfl))
          fun found hfound => hfrom _ found hfound
    · exact .bind makes_none fun found hfound => hfrom _ found hfound
  refine .skip fun braced => ?_
  split
  · refine .bind ((makes_specifier (Or.inr rfl)).listed "\x7d") fun names hnames =>
      .bind (makes_free_close (fun node hnode => (hnames node hnode).part)
        (by decide) rfl) fun clause hclause => .skip fun token => ?_
    dsimp only
    split
    · exact .bind (makes_some makes_fromSource) fun source hsource =>
        hnamed _ clause source hclause hsource
    · exact .bind makes_none fun source hsource => hnamed _ clause source hclause hsource
  refine .skip fun default => ?_
  split
  · refine .skip fun declares => ?_
    have hvalue : Makes (Made Kind.isFree) (do
        let value ← g.assignment true
        Rule.semicolon true
        Rule.close .exportStatement first.start [value.as .value]) :=
      .bind (h.assignment true) fun value hvalue => .skip fun _ =>
        makes_close (.cons (hvalue.partAs (by decide)) .nil) (by decide) rfl
    refine .skip fun named => ?_
    split
    · exact makes_exported (makes_functionOrClass h true)
    · exact hvalue
  refine .skip fun declares => ?_
  split
  · exact makes_exported (makes_functionOrClass h false)
  · exact makes_exported (makes_statement_of_free (makes_variableStatement h))

/-! ### All statements -/

theorem makes_expressionConstruct (h : g.Tidies) :
    Makes (Made Kind.isFree) g.expressionConstruct :=
  .bind (makes_expression h true) fun _ hvalue => .skip fun _ =>
    makes_close (.cons hvalue.part .nil) (by decide) rfl

theorem makes_guarded (h : g.Tidies) (hkind : kind = .whileStatement ∨ kind = .withStatement)
    {role : Role} (hrole : role ≠ .arguments ∧ role ≠ .parameters) :
    Makes (Made Kind.isFree) (g.guarded kind role) := by
  refine .skip fun first => .bind (makes_condition h) fun condition hcondition =>
    .bind h.statement fun body hbody => ?_
  rcases hkind with rfl | rfl
  · exact makes_close (.cons (hcondition.partAs hrole)
      (.cons (hbody.statementAs rfl (by decide)) .nil)) (by decide) rfl
  · exact makes_close (.cons (hcondition.partAs hrole)
      (.cons (hbody.statementAs rfl (by decide)) .nil)) (by decide) rfl

theorem makes_doConstruct (h : g.Tidies) : Makes (Made Kind.isFree) g.doConstruct := by
  refine .skip fun first => .bind h.statement fun body hbody => .skip fun _ =>
    .bind (makes_condition h) fun condition hcondition => .skip fun understood => ?_
  have hclose : Makes (Made Kind.isFree)
      (Rule.close .doStatement first.start [body.as .body, condition.as .condition]) :=
    makes_close (.cons (hbody.statementAs rfl (by decide))
      (.cons (hcondition.partAs (by decide)) .nil)) (by decide) rfl
  dsimp only
  split
  · exact .skip fun _ => hclose
  · exact hclose

theorem makes_otherStatement (h : g.Tidies) (token : Token) :
    Makes (Made Kind.isStatement) (g.otherStatement token) := by
  have hrest : Makes (Made Kind.isStatement) (do
      if ← atVariables ["in", "instanceof"] then g.variableStatement
      else if token.isWord "class" then
        let declaration ← g.class' true
        let _ ← Rule.tryUnderstood false
        return declaration
      else if ← atFunctionOrClass then g.functionOrClass true
      else if ← atExport then g.exportConstruct
      else g.expressionConstruct) := by
    refine .skip fun declares => ?_
    split
    · exact makes_statement_of_free (makes_variableStatement h)
    split
    · exact makes_statement_of_free
        (.bind (makes_class h true) fun declaration hdeclaration =>
          .skip fun _ => .pure hdeclaration)
    refine .skip fun declares => ?_
    split
    · exact makes_functionOrClass h true
    refine .skip fun exports => ?_
    split
    · exact makes_statement_of_free (makes_exportConstruct h)
    · exact makes_statement_of_free (makes_expressionConstruct h)
  refine .skip fun second => ?_
  split
  · refine .bind (makes_free_leaf (by decide) rfl) fun label hlabel => .skip fun _ =>
      .bind h.statement fun body hbody => makes_close ?_ (by decide) rfl
    exact .cons (hlabel.partAs (by decide))
      (.cons (hbody.statementAs rfl (by decide)) .nil)
  · exact hrest

theorem makes_statementRule (h : g.Tidies) : Makes (Made Kind.isStatement) g.statementRule := by
  have hexpression := makes_statement_of_free (makes_expressionConstruct h)
  refine .skip fun token => ?_
  split
  · split
    · exact makes_statement_of_free (makes_block h false)
    · exact makes_leaf (by decide) rfl
    · exact hexpression
  · split
    · exact makes_statement_of_free (makes_ifConstruct h)
    · exact makes_statement_of_free (makes_forConstruct h)
    · exact makes_statement_of_free (makes_guarded h (Or.inl rfl) (by decide))
    · exact makes_statement_of_free (makes_guarded h (Or.inr rfl) (by decide))
    · exact makes_statement_of_free (makes_doConstruct h)
    · exact makes_statement_of_free (makes_switchConstruct h)
    · exact makes_statement_of_free (makes_tryConstruct h)
    · exact makes_statement_of_free (makes_jump (Or.inl rfl))
    · exact makes_statement_of_free (makes_jump (Or.inr rfl))
    · exact makes_statement_of_free (makes_returnConstruct h)
    · exact .skip fun _ => .bind (makes_expression h true) fun value hvalue => .skip fun _ =>
        makes_close (.cons hvalue.part .nil) (by decide) rfl
    · exact .skip fun _ => .skip fun _ => makes_close .nil (by decide) rfl
    · refine .skip fun second => ?_
      split
      · exact hexpression
      · exact makes_statement_of_free (makes_importConstruct h)
    · exact makes_otherStatement h token
  · exact hexpression

theorem makes_program (h : g.Tidies) : Makes (Made (· == .program)) g.program :=
  .bind (h.statement.many _) fun statements hstatements =>
    makes_close (fun node hnode => (hstatements node hnode).statement rfl) (by decide) rfl

/-- The grammar reads tidy nodes, however deep they nest. -/
theorem tidies_ofDepth (depth : Nat) : (ofDepth depth).Tidies := by
  induction depth with
  | zero => exact ⟨fun _ => .failure, fun _ => .failure, .failure⟩
  | succ depth ih =>
    exact ⟨fun inAllowed => makes_assignmentRule ih inAllowed,
      fun calls => makes_memberWith ih true calls, makes_statementRule ih⟩

end Grammar

/-! ### Scripts -/

theorem tidy_leaf {node : Node} (hchildren : node.children = []) (hpair : node.kind ≠ .pair) :
    Tidy node := by
  refine tidy_of_parts node.kind rfl ?_ hpair
  rw [hchildren]
  exact .nil

/-- The line that names an interpreter may stand in a program. -/
theorem part_hashBang (text : List Char) :
    ∀ line ∈ (splitHashBang text).1.toList, Part .program line := by
  unfold splitHashBang
  split
  · intro line hline
    obtain rfl := List.mem_singleton.1 hline
    exact ⟨tidy_leaf rfl (by simp), rfl⟩
  · intro line hline
    cases hline

theorem tidy_comments (comments : List Comment) {root : Node} (h : Tidy root) :
    Tidy (comments.foldr (fun comment tree => Node.insert comment.toNode tree) root) := by
  induction comments with
  | nil => exact h
  | cons comment rest ih =>
    exact Node.tidy_insert (tidy_leaf rfl (by simp [Comment.toNode])) rfl rfl ih

theorem kind_comments (comments : List Comment) (root : Node) :
    (comments.foldr (fun comment tree => Node.insert comment.toNode tree) root).kind =
      root.kind := by
  induction comments with
  | nil => rfl
  | cons comment rest ih => exact (Node.children_insert _ _).2.1.trans ih

theorem Grammar.kind_parse (text : String) : (parse text).kind = .program := by
  unfold parse
  obtain ⟨line, rest, offset⟩ := splitHashBang text.toList
  dsimp only
  split
  · rename_i root cursor hrun
    have hroot := makes_program (tidies_ofDepth (rest.length + 1)) _ _ _ hrun
    exact (Node.children_numberFrom _ _).2.1.trans
      ((kind_comments _ _).trans (beq_iff_eq.1 hroot.kind))
  · rfl

theorem Grammar.holdsStatements_parse (text : String) :
    (parse text).kind.holdsStatements = true := by
  rw [kind_parse]
  rfl

/-- The tree of every script is tidy. -/
theorem Grammar.tidy_parse (text : String) : Tidy (parse text) := by
  have hline := part_hashBang text.toList
  unfold parse
  generalize splitHashBang text.toList = divided at hline ⊢
  obtain ⟨line, rest, offset⟩ := divided
  dsimp only at hline ⊢
  split
  · rename_i root cursor hrun
    have hroot := makes_program (tidies_ofDepth (rest.length + 1)) _ _ _ hrun
    have hkind := beq_iff_eq.1 hroot.kind
    have hwhole : Tidy { root with children := line.toList ++ root.children } :=
      tidy_of_parts .program hkind (.append hline fun node hnode =>
        ⟨hroot.tidy.of_mem hnode, hkind ▸ hroot.tidy.holds hnode⟩) (by decide)
    exact Node.tidy_numberFrom (tidy_comments cursor.comments hwhole) _
  · exact tidy_leaf rfl (by simp)

end Capabilities.Script
