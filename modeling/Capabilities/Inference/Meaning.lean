import Capabilities.Inference.Run

/-!
# What the constructs of a script mean to inference

Types flow forward: a value receives the types that its source holds when the assignment is
reached. A construct means the steps it contributes: what it declares ahead of its body, what it
does as a statement, which value it has as an expression, and what it does in the special
positions of a declarator, a member of an object, a parameter or the target of an assignment.
`Meaning` collects these, and `Meaning.make` gives a node its meaning from the meanings of its
children, without recursion of its own.

Functions make scopes; a class does not, so what the bodies of its methods declare belongs to the
scope around it.
-/

namespace Capabilities.Inference

open Script Capabilities.Types

/-- What a construct contributes, by the position it stands in. -/
structure Meaning where
  /-- Declare ahead the functions and variables that the parts declare for the whole body. -/
  hoist : Place → Infer Unit
  /-- Do what each part does as a statement. -/
  walkParts : Place → Infer Unit
  /-- Do what a statement does. -/
  walk : Place → Infer Unit
  /-- Find the value of an expression. -/
  evaluate : Place → Infer ValueId
  /-- Declare and fill the variable of a declarator. -/
  declare : Place → Infer Unit
  /-- Add a member to an object type. -/
  addTo : TypeId → Place → Infer Unit
  /-- Bind a parameter. -/
  bind : Place → Infer Unit
  /-- Bind each part as a parameter. -/
  bindParts : Place → Infer Unit
  /-- Receive a value as the target of an assignment. -/
  receive : ValueId → Place → Infer Unit

/-- The kinds of nodes that have a value. -/
def isExpression : Kind → Bool
  | .identifier | .selfReference | .number | .string | .templateString | .regex
  | .trueLiteral | .falseLiteral | .nullLiteral | .undefinedLiteral | .object | .array
  | .functionExpression | .generatorFunction | .arrowFunction | .classExpression
  | .callExpression | .newExpression | .memberExpression | .subscriptExpression
  | .assignmentExpression | .augmentedAssignmentExpression | .binaryExpression
  | .unaryExpression | .updateExpression | .ternaryExpression | .parenthesizedExpression
  | .sequenceExpression | .awaitExpression => true
  | _ => false

namespace Meaning

abbrev Children := List (Node × Meaning)

def Children.part? (children : Children) (role : Role) : Option (Node × Meaning) :=
  children.find? (·.1.role == some role)

def Children.parts (children : Children) : Children := children.filter (!·.1.isComment)

variable (node : Node) (children : Children) (place : Place)

/-! ### Declaring ahead -/

/-- Make the type of a function declaration and let its name hold it. -/
def hoistFunction (child : Node) : Infer Unit := do
  let type ← functionType place child
  remember child.id type
  match child.nameOf? .name with
  | some name =>
    match ← Inference.declare place.scope name with
    | some value => addType value type
    | none => return ()
  | none => return ()

def hoistVariables (child : Node) : Infer Unit :=
  child.parts.forM fun declarator => do
    match declarator.nameOf? .name with
    | some name =>
      let _ ← Inference.declare place.scope name
    | none => return ()

/-- Declare ahead what the parts declare for the whole body. Functions and classes keep what they
    declare to themselves. -/
def hoistParts : Infer Unit :=
  children.parts.forM fun (child, meaning) => do
    match child.kind with
    | .functionDeclaration | .generatorFunctionDeclaration => hoistFunction place child
    | .variableDeclaration => hoistVariables place child
    | .classDeclaration | .classExpression => return ()
    | kind => if kind.isFunction then return () else meaning.hoist place

/-! ### Functions -/

def doParts : Infer Unit := children.parts.forM fun (_, meaning) => meaning.walk place

def bindEach : Infer Unit := children.parts.forM fun (_, meaning) => meaning.bind place

def bindParameters : Infer Unit :=
  match children.part? .parameter with
  | some (_, meaning) => meaning.bind place
  | none =>
    match children.part? .parameters with
    | some (_, meaning) => meaning.bindParts place
    | none => return ()

/-- Do what the body of a function does. The value of a body that is an expression is returned. -/
def runBody (result : ValueId) : Infer Unit :=
  match children.part? .body with
  | some (body, meaning) =>
    if body.kind == .statementBlock then do
      meaning.hoist place
      meaning.walkParts place
    else do
      let value ← meaning.evaluate place
      propagate value result
  | none => return ()

/-- The type of a function: the one made ahead for a declaration, or a new one. -/
def knownType : Infer TypeId := do
  match ← remembered? node.id with
  | some type => return type
  | none => functionType place node

/-- Let the name of a function hold its type inside the function. The name of a declaration
    belongs to the scope around it. -/
def nameInside (type : TypeId) : Infer Unit :=
  if node.kind.isFunctionDeclaration then return ()
  else
    match node.nameOf? .name with
    | some name => do
      match ← Inference.declare node.id name with
      | some value => addType value type
      | none => return ()
    | none => return ()

def resultOf (type : TypeId) : Infer ValueId := do
  match (← store).result? type with
  | some result => return result
  | none => newValue

/-- A function: a type, a scope with its name (unless it is a declaration) and its parameters, and
    its body. Its value holds its type. -/
def function : Infer ValueId := do
  let type ← knownType node place
  registerScope node.id (some place.scope)
  nameInside node type
  bindParameters children { place with scope := node.id }
  let result ← resultOf type
  runBody children { place with scope := node.id, result := some result } result
  let value ← valueOf type
  note node.id value
  return value

def bindParameter : Infer Unit :=
  match node.parameterName? with
  | none => return ()
  | some name => do
    let variable' ← Inference.declare place.scope name
    if node.kind == .assignmentPattern then
      match children.part? .right with
      | some (_, meaning) =>
        let value ← meaning.evaluate place
        flow value variable'
      | none => return ()

/-! ### Expressions -/

def literal (primitive : Primitive) : Infer ValueId := valueOf (Store.primitive primitive)

/-- The value of a name: its variable, or a new value if there is none. -/
def nameValue : Infer ValueId := do
  match ← lookup? place node.lexeme with
  | some value => return value
  | none => newValue

/-- The value of the last part; every part is evaluated. -/
def lastValue : Infer ValueId := do
  let values ← children.parts.mapM fun (_, meaning) => meaning.evaluate place
  match values.getLast? with
  | some value => return value
  | none => newValue

/-- An object type with the members that the parts add. -/
def objectValue : Infer ValueId := do
  let type ← growing (·.newObject none (some place.file))
  children.parts.forM fun (_, meaning) => meaning.addTo type place
  valueOf type

/-- An array is an object named so; its elements are looked at for what they do. -/
def arrayValue : Infer ValueId := do
  doParts children place
  let type ← growing (·.newObject (some "Array") (some place.file))
  valueOf type

/-- The value of a part, or a new value if there is no such part. -/
def partValue (role : Role) : Infer ValueId :=
  match children.part? role with
  | some (_, meaning) => meaning.evaluate place
  | none => newValue

def lookAt (role : Role) : Infer Unit :=
  match children.part? role with
  | some (_, meaning) => do
    let _ ← meaning.evaluate place
  | none => return ()

def doArguments : Infer Unit :=
  match children.part? .arguments with
  | some (_, meaning) => meaning.walkParts place
  | none => return ()

/-- A member read: the types that the member holds now. -/
def memberValue : Infer ValueId := do
  let object ← partValue children place .object
  let value ← newValue
  match node.nameOf? .property with
  | some name => ((← store).lookupMember object name).forM (addType value ·)
  | none => pure ()
  return value

/-- A call: the types that the results of the callee's function types hold now. -/
def callValue : Infer ValueId := do
  let callee ← partValue children place .callee
  doArguments children place
  let value ← newValue
  ((← store).typesOf callee).forM fun type => do
    match (← store).result? type with
    | some result => propagate result value
    | none => pure ()
  return value

def constructorName? (constructor : Node) : Option String :=
  if constructor.kind == .memberExpression then constructor.nameOf? .property
  else constructor.identifierName?

def instanceValue : Infer ValueId := do
  lookAt children place .constructor
  doArguments children place
  let type ← growing
    (·.newObject ((node.part? .constructor).bind constructorName?) (some place.file))
  valueOf type

def assignmentValue : Infer ValueId := do
  let right ← partValue children place .right
  match children.part? .left with
  | some (_, meaning) => meaning.receive right place
  | none => pure ()
  return right

/-- A choice holds the types of both branches. -/
def choiceValue : Infer ValueId := do
  lookAt children place .condition
  let value ← newValue
  [Role.consequence, Role.alternative].forM fun role => do
    match children.part? role with
    | some (_, meaning) =>
      let branch ← meaning.evaluate place
      propagate branch value
    | none => pure ()
  return value

def valueByKind : Infer ValueId :=
  match node.kind with
  | .number => literal .number
  | .string | .templateString => literal .string
  | .trueLiteral | .falseLiteral => literal .bool
  | .identifier => nameValue node place
  | .parenthesizedExpression | .sequenceExpression => lastValue children place
  | .object => objectValue children place
  | .array => arrayValue children place
  | .functionExpression | .generatorFunction | .arrowFunction => function node children place
  | .memberExpression => memberValue node children place
  | .callExpression => callValue children place
  | .newExpression => instanceValue node children place
  | .assignmentExpression => assignmentValue children place
  | .ternaryExpression => choiceValue children place
  | _ => do
    doParts children place
    newValue

def value : Infer ValueId := do
  let value ← valueByKind node children place
  note node.id value
  return value

/-! ### Statements -/

def declareName : Infer (Option ValueId) :=
  match node.nameOf? .name with
  | some name => Inference.declare place.scope name
  | none => return none

/-- The variable of a declarator, with what its value holds. Only a plain name declares one. -/
def declarator : Infer Unit := do
  if node.kind == .variableDeclarator then
    let variable' ← declareName node place
    match children.part? .value with
    | some (_, meaning) =>
      let value ← meaning.evaluate place
      flow value variable'
    | none => return ()

/-- A return: the types of its value flow into the result of the innermost function. -/
def returning : Infer Unit :=
  match children.parts with
  | [] => return ()
  | (_, meaning) :: _ => do
    let value ← meaning.evaluate place
    flow value place.result

def statement : Infer Unit :=
  match node.kind with
  | .variableDeclaration | .lexicalDeclaration =>
    children.parts.forM fun (_, meaning) => meaning.declare place
  | .functionDeclaration | .generatorFunctionDeclaration => do
    let _ ← function node children place
  | .returnStatement => returning children place
  | kind =>
    if isExpression kind then do
      let _ ← value node children place
    else doParts children place

/-! ### Members and targets -/

def fillMember (object : TypeId) (name : String) (source : ValueId) : Infer Unit := do
  let member ← ensureMember object name
  propagate source member

/-- Add a member to an object type. A pair or method without a readable key adds none, but is
    looked at; a bare name takes the types of its variable. -/
def objectMember (object : TypeId) : Infer Unit :=
  match node.kind with
  | .pair =>
    match children.part? .value with
    | some (_, meaning) => do
      let value ← meaning.evaluate place
      match (node.part? .key).bind Node.keyName? with
      | some key => fillMember object key value
      | none => return ()
    | none => return ()
  | .shorthandPropertyIdentifier => do
    let member ← ensureMember object node.lexeme
    match ← lookup? place node.lexeme with
    | some variable' => propagate variable' member
    | none => return ()
  | .methodDefinition => do
    let value ← function node children place
    match (node.part? .name).bind Node.keyName? with
    | some key => fillMember object key value
    | none => return ()
  | _ => statement node children place

/-- The variable that an assignment to a name reaches. A name that no scope declares becomes a
    variable of the program. -/
def assignedVariable (name : String) : Infer (Option ValueId) := do
  match ← lookup? place name with
  | some value => return some value
  | none =>
    match (← get).scopes.root with
    | some root => Inference.declare root name
    | none => return none

/-- Receive a value as the target of an assignment: a name takes its types, a member read adds
    them to that member of every object type the object holds. -/
def target (right : ValueId) : Infer Unit :=
  match node.kind with
  | .identifier => do
    match ← assignedVariable place node.lexeme with
    | some value =>
      propagate right value
      note node.id value
    | none => return ()
  | .memberExpression =>
    match children.part? .object with
    | none => return ()
    | some (_, meaning) => do
      let object ← meaning.evaluate place
      match node.nameOf? .property with
      | none => return ()
      | some name =>
        ((← store).typesOf object).forM fun type => do
          if ((← store).object? type).isSome then fillMember type name right
          else return ()
  | _ => statement node children place

/-! ### All together -/

def make : Meaning where
  hoist := hoistParts children
  walkParts := doParts children
  walk := statement node children
  evaluate := value node children
  declare := declarator node children
  addTo := fun object place => objectMember node children place object
  bind := bindParameter node children
  bindParts := bindEach children
  receive := fun right place => target node children place right

end Meaning

def meaning (node : Node) : Meaning := node.fold Meaning.make

theorem meaning_eq (node : Node) :
    meaning node = Meaning.make node (node.children.map fun child => (child, meaning child)) :=
  Node.fold_eq Meaning.make node

end Capabilities.Inference
