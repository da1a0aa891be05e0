import Capabilities.Script.Grammar.Expression

/-!
# Statements

Rules for declarations, control flow, imports and exports. A statement's node covers its
semicolon, written or understood.
-/

namespace Capabilities.Script.Grammar

open Rule

variable (g : Grammar)

/-! ### Variables -/

def bindingTarget : Rule Node := do
  let token ← peek
  if token.sort == .word then leaf .identifier
  else if token.isMark "[" then return (← g.array).toPattern
  else return (← g.object).toPattern

def declaratorOf (target : Node) (value : Option Node) : Rule Node :=
  close .variableDeclarator target.start
    (target.as .name :: value.toList.map (·.as .value))

def initial (inAllowed : Bool) : Rule (Option Node) := do
  if ← tryMark "=" then some <$> g.assignment inAllowed else return none

def declarator (inAllowed : Bool) : Rule Node := do
  let target ← g.bindingTarget
  declaratorOf target (← g.initial inAllowed)

def moreDeclarators (inAllowed : Bool) : Rule (List Node) :=
  many (!·.isMark ",") do
    let _ ← shift
    g.declarator inAllowed

def declarationKind (word : Token) : Kind :=
  if word.text == "var" then .variableDeclaration else .lexicalDeclaration

/-- Whether a declaration of variables begins here. `let` begins one only if a target follows and
    no semicolon is understood between them; a word in `operators` is no target. -/
def atVariables (operators : List String) : Rule Bool := do
  let cursor ← get
  let token := cursor.token
  let second := cursor.next.token
  return token.isWord "var" || token.isWord "const"
    || (token.isWord "let" && !omitted true cursor.rest
      && (second.isMark "[" || second.isMark "\x7b"
        || (second.sort == .word && !operators.contains second.text)))

def variableStatement : Rule Node := do
  let first ← shift
  let head ← g.declarator true
  let more ← g.moreDeclarators true
  semicolon true
  close (declarationKind first) first.start (head :: more)

/-! ### Loops -/

/-- The rest of a loop over the members of something, from `in` or `of` on. -/
def forInFrom (start : Nat) (head : List Node) : Rule Node := do
  let _ ← shift
  let right ← g.expression true
  let _ ← mark ")"
  let body ← g.statement
  close .forInStatement start (head ++ [right.as .right, body.as .body])

def forFrom (start : Nat) (initializer : Node) : Rule Node := do
  let condition ← if (← peek).isMark ";" then leaf .emptyStatement
    else do
      let condition ← g.expression true
      let _ ← mark ";"
      pure condition
  let increment ← if (← peek).isMark ")" then pure none else some <$> g.expression true
  let _ ← mark ")"
  let body ← g.statement
  close .forStatement start
    ([initializer.as .initializer, condition.as .condition]
      ++ increment.toList.map (·.as .increment) ++ [body.as .body])

def separatesSides (token : Token) : Bool := token.isWord "in" || token.isWord "of"

def forConstruct : Rule Node := do
  let first ← word "for"
  let _ ← tryWord "await"
  let _ ← mark "("
  if ← atVariables ["in", "instanceof", "of"] then
    let word ← shift
    let target ← g.bindingTarget
    if separatesSides (← peek) then g.forInFrom first.start [target.as .left]
    else
      let value ← g.initial false
      if separatesSides (← peek) then
        g.forInFrom first.start (target.as .left :: value.toList.map (·.as .value))
      else
        let head ← declaratorOf target value
        let more ← g.moreDeclarators false
        semicolon true
        let declaration ← close (declarationKind word) word.start (head :: more)
        g.forFrom first.start declaration
  else if (← peek).isMark ";" then
    let empty ← leaf .emptyStatement
    g.forFrom first.start empty
  else
    let initializer ← g.expression false
    if separatesSides (← peek) then
      g.forInFrom first.start [initializer.toPattern.as .left]
    else
      let _ ← mark ";"
      g.forFrom first.start initializer

/-! ### Branches -/

def ifConstruct : Rule Node := do
  let first ← word "if"
  let condition ← g.condition
  let consequence ← g.statement
  let token ← peek
  if ← tryWord "else" then
    let body ← g.statement
    let alternative ← close .elseClause token.start [body]
    close .ifStatement first.start
      [condition.as .condition, consequence.as .consequence, alternative.as .alternative]
  else
    close .ifStatement first.start [condition.as .condition, consequence.as .consequence]

def endsCase (token : Token) : Bool :=
  token.isWord "case" || token.isWord "default" || token.isMark "\x7d"

def switchBranch : Rule Node := do
  let first ← peek
  if ← tryWord "default" then
    let _ ← mark ":"
    let body ← many endsCase g.statement
    close .switchDefault first.start (body.map (·.as .body))
  else
    let _ ← word "case"
    let value ← g.expression true
    let _ ← mark ":"
    let body ← many endsCase g.statement
    close .switchCase first.start (value.as .value :: body.map (·.as .body))

def switchConstruct : Rule Node := do
  let first ← word "switch"
  let value ← g.condition
  let open' ← mark "\x7b"
  let branches ← many (·.isMark "\x7d") g.switchBranch
  let _ ← mark "\x7d"
  let body ← close .switchBody open'.start branches
  close .switchStatement first.start [value.as .value, body.as .body]

def tryConstruct : Rule Node := do
  let first ← word "try"
  let body ← g.block false
  let token ← peek
  let handler ← if ← tryWord "catch" then
      let parameter ← if ← tryMark "(" then
          let target ← g.bindingTarget
          let _ ← mark ")"
          pure (some target)
        else pure none
      let body ← g.block false
      some <$> close .catchClause token.start
        (parameter.toList.map (·.as .parameter) ++ [body.as .body])
    else pure none
  let token ← peek
  let finalizer ← if ← tryWord "finally" then
      let body ← g.block false
      some <$> close .finallyClause token.start [body.as .body]
    else pure none
  close .tryStatement first.start
    (body.as .body :: handler.toList.map (·.as .handler) ++ finalizer.toList.map (·.as .finalizer))

/-! ### Jumps -/

def jump (kind : Kind) : Rule Node := do
  let first ← shift
  if ← tryUnderstood false then close kind first.start []
  else
    let label ← if (← peek).sort == .word then some <$> leaf .statementIdentifier else pure none
    semicolon false
    close kind first.start (label.toList.map (·.as .label))

def returnConstruct : Rule Node := do
  let first ← word "return"
  if ← tryUnderstood false then close .returnStatement first.start []
  else if ← tryMark ";" then close .returnStatement first.start []
  else
    let value ← g.expression true
    semicolon true
    close .returnStatement first.start [value]

/-! ### Modules -/

def moduleName : Rule Node := do
  match (← peek).sort with
  | .word => leaf .identifier
  | .quoted => leaf .string
  | _ => failure

/-- A name of a module under which the importing or exporting side may know it differently. -/
def specifier (kind : Kind) : Rule Node := do
  let name ← moduleName
  if ← tryWord "as" then
    let other ← moduleName
    close kind name.start [name.as .name, other.as .otherName]
  else close kind name.start [name.as .name]

def fromSource : Rule Node := do
  let _ ← word "from"
  leaf .string

def importAttributes : Rule (List Node) := do
  let first ← peek
  if first.isWord "with" then
    let _ ← shift
    let object ← g.object
    return [← close .importAttribute first.start [object]]
  return []

def namespaceImport : Rule Node := do
  let first ← mark "*"
  let _ ← word "as"
  let name ← leaf .identifier
  close .namespaceImport first.start [name]

def namedImports : Rule Node := do
  let first ← mark "\x7b"
  let names ← listed "\x7d" (specifier .importSpecifier)
  close .namedImports first.start names

def importedNames : Rule Node := do
  if (← peek).isMark "*" then namespaceImport else namedImports

def importConstruct : Rule Node := do
  let first ← word "import"
  let token ← peek
  let clause ← if token.sort == .quoted then pure []
    else do
      let names ← if token.sort == .word then do
          let name ← leaf .identifier
          if ← tryMark "," then
            let more ← importedNames
            pure [name, more]
          else pure [name]
        else do
          let names ← importedNames
          pure [names]
      let clause ← close .importClause token.start names
      let _ ← word "from"
      pure [clause]
  let source ← leaf .string
  let attributes ← g.importAttributes
  semicolon false
  close .importStatement first.start (clause ++ source.as .source :: attributes)

/-- Whether a token can be the name of a function or a class. -/
def isDeclarationName (token : Token) : Bool := token.sort == .word && token.text != "extends"

def atNamed : Rule Bool := do
  let cursor ← get
  let behind := if cursor.token.isWord "async" then cursor.next.next else cursor.next
  return isDeclarationName behind.token
    || (behind.token.isMark "*" && isDeclarationName behind.next.token)

def functionOrClass (operatorMayFollow : Bool) : Rule Node := do
  let token ← peek
  if token.isWord "class" then g.class' true
  else
    let _ ← tryWord "async"
    g.function token.start true operatorMayFollow

def atFunctionOrClass : Rule Bool := do
  let token ← peek
  let second ← peekSecond
  return token.isWord "function" || token.isWord "class"
    || (token.isWord "async" && second.isWord "function" && !second.lineEnd)

def exportConstruct : Rule Node := do
  let first ← word "export"
  let token ← peek
  if ← tryMark "*" then
    let name ← if ← tryWord "as" then
        let name ← moduleName
        some <$> close .namespaceExport token.start [name]
      else pure none
    let source ← fromSource
    let attributes ← g.importAttributes
    semicolon false
    close .exportStatement first.start (name.toList ++ source.as .source :: attributes)
  else if ← tryMark "\x7b" then
    let names ← listed "\x7d" (specifier .exportSpecifier)
    let clause ← close .exportClause token.start names
    let source ← if (← peek).isWord "from" then some <$> fromSource else pure none
    let attributes ← g.importAttributes
    semicolon false
    close .exportStatement first.start
      (clause :: source.toList.map (·.as .source) ++ attributes)
  else if ← tryWord "default" then
    if (← atFunctionOrClass) && (← atNamed) then
      let declaration ← g.functionOrClass true
      close .exportStatement first.start [declaration.as .declaration]
    else
      let value ← g.assignment true
      semicolon true
      close .exportStatement first.start [value.as .value]
  else if ← atFunctionOrClass then
    let declaration ← g.functionOrClass false
    close .exportStatement first.start [declaration.as .declaration]
  else
    let declaration ← g.variableStatement
    close .exportStatement first.start [declaration.as .declaration]

/-- Whether an `export` statement begins here: the word may also be a plain name. -/
def atExport : Rule Bool := do
  let cursor ← get
  let second := cursor.next.token
  return cursor.token.isWord "export" && !omitted true cursor.rest
    && (second.isMark "*" || second.isMark "\x7b"
      || (second.sort == .word && !(["in", "instanceof"].contains second.text)))

/-! ### All statements -/

def expressionConstruct : Rule Node := do
  let value ← g.expression true
  semicolon true
  close .expressionStatement value.start [value]

def guarded (kind : Kind) (role : Role) : Rule Node := do
  let first ← shift
  let condition ← g.condition
  let body ← g.statement
  close kind first.start [condition.as role, body.as .body]

def doConstruct : Rule Node := do
  let first ← word "do"
  let body ← g.statement
  let _ ← word "while"
  let condition ← g.condition
  if !(← tryUnderstood false) then
    let _ ← tryMark ";"
  close .doStatement first.start [body.as .body, condition.as .condition]

/-- A statement that its first word does not tell apart: one with a label, a declaration, or an
    expression. -/
def otherStatement (token : Token) : Rule Node := do
  if token.sort == .word && (← peekSecond).isMark ":" then
    let label ← leaf .statementIdentifier
    let _ ← shift
    let body ← g.statement
    close .labeledStatement token.start [label.as .label, body.as .body]
  else if ← atVariables ["in", "instanceof"] then g.variableStatement
  else if token.isWord "class" then
    let declaration ← g.class' true
    let _ ← tryUnderstood false
    return declaration
  else if ← atFunctionOrClass then g.functionOrClass true
  else if ← atExport then g.exportConstruct
  else g.expressionConstruct

def statementRule : Rule Node := do
  let token ← peek
  match token.sort with
  | .mark =>
    match token.text with
    | "\x7b" => g.block false
    | ";" => leaf .emptyStatement
    | _ => g.expressionConstruct
  | .word =>
    match token.text with
    | "if" => g.ifConstruct
    | "for" => g.forConstruct
    | "while" => g.guarded .whileStatement .condition
    | "with" => g.guarded .withStatement .object
    | "do" => g.doConstruct
    | "switch" => g.switchConstruct
    | "try" => g.tryConstruct
    | "break" => jump .breakStatement
    | "continue" => jump .continueStatement
    | "return" => g.returnConstruct
    | "throw" =>
      let _ ← shift
      let value ← g.expression true
      semicolon true
      close .throwStatement token.start [value]
    | "debugger" =>
      let _ ← shift
      semicolon false
      close .debuggerStatement token.start []
    | "import" =>
      let second ← peekSecond
      if second.isMark "(" || second.isMark "." then g.expressionConstruct
      else g.importConstruct
    | _ => g.otherStatement token
  | _ => g.expressionConstruct

def program : Rule Node := do
  let statements ← many (·.sort == .ending) g.statement
  close .program 0 statements

end Capabilities.Script.Grammar
