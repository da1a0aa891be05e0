import Capabilities.Script.Grammar.Basic

/-!
# Expressions

Rules for operands (literals, objects, functions, classes, template text), for what binds to
them from the right (members, calls), and for operators, assignments and arrows.

Parentheses, objects and arrays are read the same way whether they turn out to be expressions or
patterns; what follows them decides, and `Node.toPattern` does the rest.
-/

namespace Capabilities.Script.Grammar

open Rule

variable (g : Grammar)

/-! ### Literals -/

/-- A regular expression. The slash that opens it was read as a mark. -/
def regex : Rule Node := do
  let cursor ← get
  let (chars, rest) := splitRegex cursor.front
  let start := cursor.token.start
  let stop := start + byteWidth chars
  set (Cursor.place stop rest cursor.comments)
  return ⟨0, .regex, none, start, stop, String.ofList chars, []⟩

/-- The substitutions of a template, read from behind its opening quote or from behind a
    substitution's closing brace, which is the next token. -/
def substitutions : Nat → Rule (List Node)
  | 0 => failure
  | bound + 1 => do
    let cursor ← get
    let (text, ending, rest) := splitTemplate cursor.rest
    let offset := cursor.token.stop + byteWidth text
    set (Cursor.place offset rest cursor.comments)
    match ending with
    | .closed => return []
    | .substitution =>
      let inner ← g.expression true
      let closing ← peek
      if !closing.isMark "\x7d" then failure
      let more ← substitutions bound
      return ⟨0, .templateSubstitution, none, offset - 2, closing.stop, "", [inner]⟩ :: more

def template : Rule Node := do
  let cursor ← get
  let inner ← g.substitutions (cursor.rest.length + 1)
  close .templateString cursor.token.start inner

def array : Rule Node := do
  let first ← mark "["
  let items ← listed "]" g.element
  close .array first.start items

/-! ### Objects -/

/-- A member of an object: a spread, a method, a pair, a bare name, or a bare name with a default
    (which only a pattern may hold). -/
def objectMember : Rule Node := do
  let first ← peek
  if first.isMark "..." then g.element
  else
    modifiers ["get", "set", "async"] false 3
    let key ← g.propertyName
    let token ← peek
    if token.isMark "(" then
      g.functionFrom .methodDefinition first.start (some key) false
    else if ← tryMark ":" then
      let value ← g.assignment true
      close .pair first.start [key.as .key, value.as .value]
    else if ← tryMark "=" then
      let right ← g.assignment true
      close .objectAssignmentPattern first.start
        [(key.ofKind .shorthandPropertyIdentifierPattern).as .left, right.as .right]
    else return key.ofKind .shorthandPropertyIdentifier

def object : Rule Node := do
  let first ← mark "\x7b"
  let members ← listed "\x7d" g.objectMember
  close .object first.start members

/-! ### Functions and classes -/

/-- A function, from the word `function` on; its head began at `start`. A function that stands
    as a statement and has a name is a declaration. -/
def function (start : Nat) (asStatement : Bool) (operatorMayFollow : Bool) : Rule Node := do
  let _ ← word "function"
  let generator ← tryMark "*"
  let name ← if (← peek).isMark "(" then pure none else some <$> leaf .identifier
  let kind := match asStatement && name.isSome, generator with
    | true, true => .generatorFunctionDeclaration
    | true, false => .functionDeclaration
    | false, true => .generatorFunction
    | false, false => .functionExpression
  g.functionFrom kind start name operatorMayFollow

/-- A member of a class: a static block, a method or a field. -/
def classMember : Rule Node := do
  let first ← peek
  if first.isWord "static" && (← peekSecond).isMark "\x7b" then
    let _ ← shift
    let body ← g.block false
    close .classStaticBlock first.start [body.as .body]
  else
    modifiers ["static", "get", "set", "async"] true 4
    let key ← g.propertyName
    if (← peek).isMark "(" then
      g.functionFrom .methodDefinition first.start (some key) false
    else
      let value ← if ← tryMark "=" then some <$> g.assignment true else pure none
      let field ← close .fieldDefinition first.start
        (key.as .property :: value.toList.map (·.as .value))
      semicolon true
      return field

def classBody : Rule Node := do
  let first ← mark "\x7b"
  let members ← many (·.isMark "\x7d") do
    if ← tryMark ";" then return none
    some <$> g.classMember
  let _ ← mark "\x7d"
  close .classBody first.start (members.filterMap id)

/-- A class. One that stands as a statement and has a name is a declaration. -/
def class' (asStatement : Bool) : Rule Node := do
  let first ← word "class"
  let token ← peek
  let name ← if token.sort == .word && token.text != "extends" then some <$> leaf .identifier
    else pure none
  let token ← peek
  let heritage ← if ← tryWord "extends" then
      let parent ← g.member true
      some <$> close .classHeritage token.start [parent]
    else pure none
  let body ← g.classBody
  let kind := if asStatement && name.isSome then .classDeclaration else .classExpression
  close kind first.start (name.toList.map (·.as .name) ++ heritage.toList ++ [body.as .body])

/-! ### Arrows and parentheses -/

def arrowFrom (inAllowed : Bool) (start : Nat) (parameters : Node) : Rule Node := do
  let _ ← mark "=>"
  let body ← if (← peek).isMark "\x7b" then g.block true else g.assignment inAllowed
  close .arrowFunction start [parameters, body.as .body]

/-- An expression in parentheses, or the arrow function whose parameters the parentheses hold. -/
def parenthesized (inAllowed : Bool) : Rule Node := do
  let list ← g.arguments
  if (← peek).isMark "=>" then
    let parameters :=
      { list with kind := .formalParameters, children := list.children.map Node.toPattern }
    g.arrowFrom inAllowed list.start (parameters.as .parameters)
  else
    match list.children with
    | [] => failure
    | [inner] => return { list with kind := .parenthesizedExpression, children := [inner] }
    | first :: more =>
      return { list with
        kind := .parenthesizedExpression
        children := [spanning .sequenceExpression first more] }

def asyncConstruct (inAllowed : Bool) : Rule Node := do
  let cursor ← get
  let start := cursor.token.start
  let second := cursor.next.token
  if second.isWord "function" && !second.lineEnd then
    let _ ← shift
    g.function start false true
  else if second.sort == .word && !second.lineEnd && cursor.next.next.token.isMark "=>" then
    let _ ← shift
    let parameter ← leaf .identifier
    g.arrowFrom inAllowed start (parameter.as .parameter)
  else
    let name ← leaf .identifier
    if second.isMark "=>" then g.arrowFrom inAllowed start (name.as .parameter)
    else if second.isMark "(" && !second.lineEnd then
      let list ← g.arguments
      if (← peek).isMark "=>" then
        let parameters :=
          { list with kind := .formalParameters, children := list.children.map Node.toPattern }
        g.arrowFrom inAllowed start (parameters.as .parameters)
      else close .callExpression start [name.as .callee, list.as .arguments]
    else return name

/-! ### Operands -/

/-- Words that are no names where an operand may stand. -/
def reservedWords : List String :=
  ["break", "case", "catch", "const", "continue", "debugger", "default", "delete", "do", "else",
   "extends", "finally", "for", "if", "in", "instanceof", "return", "switch", "throw", "try",
   "typeof", "var", "void", "while", "with"]

def newConstruct : Rule Node := do
  let first ← word "new"
  if ← tryMark "." then
    let _ ← shift
    close .metaProperty first.start []
  else
    let callee ← g.member false
    let list ← if (← peek).isMark "(" then some <$> g.arguments else pure none
    close .newExpression first.start
      (callee.as .constructor :: list.toList.map (·.as .arguments))

def wordOperand (inAllowed : Bool) (token : Token) : Rule Node := do
  match token.text with
  | "this" => leaf .selfReference
  | "super" => leaf .superReference
  | "null" => leaf .nullLiteral
  | "undefined" => leaf .undefinedLiteral
  | "true" => leaf .trueLiteral
  | "false" => leaf .falseLiteral
  | "function" => g.function token.start false true
  | "class" => g.class' false
  | "new" => g.newConstruct
  | "async" => g.asyncConstruct inAllowed
  | "import" =>
    if (← peekSecond).isMark "." then
      let _ ← shift
      let _ ← shift
      let _ ← shift
      close .metaProperty token.start []
    else leaf .importReference
  | text =>
    if reservedWords.contains text then failure
    let name ← leaf .identifier
    if (← peek).isMark "=>" then g.arrowFrom inAllowed token.start (name.as .parameter)
    else return name

def primary (inAllowed : Bool) : Rule Node := do
  let token ← peek
  match token.sort with
  | .number => leaf .number
  | .quoted => leaf .string
  | .privateWord => leaf .privatePropertyIdentifier
  | .ending => failure
  | .word => g.wordOperand inAllowed token
  | .mark =>
    match token.text with
    | "(" => g.parenthesized inAllowed
    | "[" => g.array
    | "\x7b" => g.object
    | "\x60" => g.template
    | "/" | "/=" => regex
    | _ => failure

def memberName : Rule Node := do
  match (← peek).sort with
  | .word => leaf .propertyIdentifier
  | .privateWord => leaf .privatePropertyIdentifier
  | _ => failure

/-- What binds to an operand from the right: members, subscripts, template calls and, if
    `calls` allows them, calls. -/
def trail (calls : Bool) : Nat → Node → Rule Node
  | 0, node => return node
  | bound + 1, node => do
    let token ← peek
    if token.sort != .mark then return node
    match token.text with
    | "." =>
      let _ ← shift
      let name ← memberName
      let member ← close .memberExpression node.start [node.as .object, name.as .property]
      trail calls bound member
    | "?." =>
      let optional ← leaf .optionalChain
      let next ← peek
      if next.isMark "(" then
        let list ← g.arguments
        let call ← close .callExpression node.start
          [node.as .callee, optional, list.as .arguments]
        trail calls bound call
      else if ← tryMark "[" then
        let index ← g.expression true
        let _ ← mark "]"
        let member ← close .subscriptExpression node.start
          [node.as .object, optional, index.as .index]
        trail calls bound member
      else
        let name ← memberName
        let member ← close .memberExpression node.start
          [node.as .object, optional, name.as .property]
        trail calls bound member
    | "[" =>
      let _ ← shift
      let index ← g.expression true
      let _ ← mark "]"
      let member ← close .subscriptExpression node.start [node.as .object, index.as .index]
      trail calls bound member
    | "(" =>
      if calls then
        let list ← g.arguments
        let call ← close .callExpression node.start [node.as .callee, list.as .arguments]
        trail calls bound call
      else return node
    | "\x60" =>
      let text ← g.template
      let call ← close .callExpression node.start [node.as .callee, text.as .arguments]
      trail calls bound call
    | _ => return node

def memberWith (inAllowed calls : Bool) : Rule Node := do
  let node ← g.primary inAllowed
  g.trail calls (← get).front.length node

/-! ### Operators -/

def isLeading (token : Token) : Bool :=
  match token.sort with
  | .mark => ["!", "~", "-", "+", "++", "--"].contains token.text
  | .word => ["typeof", "void", "delete", "await"].contains token.text
  | _ => false

def lead (operator : Token) (operand : Node) : Node :=
  let node (kind : Kind) (child : Node) : Node :=
    ⟨0, kind, none, operator.start, operand.stop, "", [child]⟩
  match operator.text with
  | "await" => node .awaitExpression operand
  | "++" | "--" => node .updateExpression (operand.as .operand)
  | _ => node .unaryExpression (operand.as .operand)

def combiningOperators : List String :=
  ["+=", "-=", "*=", "/=", "%=", "**=", "<<=", ">>=", ">>>=", "&=", "|=", "^=",
   "&&=", "||=", "??="]

def yieldConstruct (inAllowed : Bool) : Rule Node := do
  let first ← word "yield"
  let delegates ← tryMark "*"
  let token ← peek
  let bare := token.sort == .ending || token.lineEnd || token.isWord "in" || token.isWord "of"
    || (token.sort == .mark && [")", "]", "\x7d", ",", ";", ":"].contains token.text)
  if bare && !delegates then close .yieldExpression first.start []
  else
    let value ← g.assignment inAllowed
    close .yieldExpression first.start [value]

def operand (inAllowed : Bool) : Rule Node := do
  let leading ← many (!isLeading ·) shift
  let core ← if (← peek).isWord "yield" then g.yieldConstruct inAllowed
    else do
      let node ← g.memberWith inAllowed true
      let token ← peek
      if token.isMark "=" then
        let _ ← shift
        let right ← g.assignment inAllowed
        close .assignmentExpression node.start [node.toPattern.as .left, right.as .right]
      else if token.sort == .mark && combiningOperators.contains token.text then
        let _ ← shift
        let right ← g.assignment inAllowed
        close .augmentedAssignmentExpression node.start [node.as .left, right.as .right]
      else if (token.isMark "++" || token.isMark "--") && !token.lineEnd then
        let _ ← shift
        let update ← close .updateExpression node.start [node.as .operand]
        g.trail true (← get).front.length update
      else pure node
  return leading.foldr lead core

/-- Whether a token is a binary operator here. -/
def isOperator (inAllowed : Bool) (token : Token) : Bool :=
  token.operatorLevel?.isSome && (inAllowed || !token.isWord "in")

def assignmentRule (inAllowed : Bool) : Rule Node := do
  let first ← g.operand inAllowed
  let rest ← many (!isOperator inAllowed ·) do
    let token ← shift
    let right ← g.operand inAllowed
    return (token.operatorLevel?.getD 0, right)
  let whole := Node.chain first rest
  if ← tryMark "?" then
    let consequence ← g.assignment true
    let _ ← mark ":"
    let alternative ← g.assignment inAllowed
    close .ternaryExpression whole.start
      [whole.as .condition, consequence.as .consequence, alternative.as .alternative]
  else return whole

end Capabilities.Script.Grammar
