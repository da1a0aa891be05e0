import Capabilities.Script.Node
import Capabilities.Script.Semicolon

/-!
# Reading a script token by token

A `Cursor` stands before the next token of a script. A `Rule` moves it: it reads what it
describes and leaves the cursor behind it, or it fails. The few places where the next token
depends on what the grammar expects (regular expressions, template text, understood semicolons)
put the cursor where they need it with `Cursor.behind`.
-/

namespace Capabilities.Script

/-- A place between two tokens: where the token before ended with the text behind it, the
    comments passed so far (latest first), and the next token with the text from it on and
    behind it. -/
structure Cursor where
  last : Nat
  behind : List Char
  comments : List Comment
  token : Token
  front : List Char
  rest : List Char

/-- The cursor at the front of a text, before the first token there. -/
def Cursor.place (offset : Nat) (text : List Char) (comments : List Comment) : Cursor :=
  let gap := readGap .blank offset comments false text
  let (sort, chars, rest) := splitToken gap.rest
  { last := offset
    behind := text
    comments := gap.comments
    token := ⟨sort, String.ofList chars, gap.offset, gap.offset + byteWidth chars, gap.lineEnd⟩
    front := gap.rest
    rest := rest }

def Cursor.next (cursor : Cursor) : Cursor :=
  .place cursor.token.stop cursor.rest cursor.comments

/-- A part of the grammar. -/
abbrev Rule := StateT Cursor Option

namespace Rule

/-! ### Tokens -/

def peek : Rule Token := do return (← get).token

def peekSecond : Rule Token := do return (← get).next.token

def shift : Rule Token := do
  let cursor ← get
  set cursor.next
  return cursor.token

end Rule

def Token.isMark (token : Token) (mark : String) : Bool :=
  token.sort == .mark && token.text == mark

def Token.isWord (token : Token) (word : String) : Bool :=
  token.sort == .word && token.text == word

namespace Rule

def mark (text : String) : Rule Token := do
  if (← peek).isMark text then shift else failure

def word (text : String) : Rule Token := do
  if (← peek).isWord text then shift else failure

def tryMark (text : String) : Rule Bool := do
  if (← peek).isMark text then
    let _ ← shift
    return true
  return false

def tryWord (text : String) : Rule Bool := do
  if (← peek).isWord text then
    let _ ← shift
    return true
  return false

/-! ### Nodes -/

/-- A node that begins at `start` and ends with the last token read. -/
def close (kind : Kind) (start : Nat) (children : List Node) : Rule Node := do
  return ⟨0, kind, none, start, (← get).last, "", children⟩

def leaf (kind : Kind) : Rule Node := do
  let token ← shift
  return ⟨0, kind, none, token.start, token.stop, token.text, []⟩

/-! ### Repetition -/

/-- As many of a rule as come before `done` holds; at most `bound` of them. -/
def upTo {α : Type} (bound : Nat) (done : Token → Bool) (rule : Rule α) : Rule (List α) :=
  match bound with
  | 0 => failure
  | bound + 1 => do
    if done (← peek) then return []
    let head ← rule
    let tail ← upTo bound done rule
    return head :: tail

/-- As many of a rule as come before `done` holds. Each reads at least one character, so there
    are no more of them than characters left. -/
def many {α : Type} (done : Token → Bool) (rule : Rule α) : Rule (List α) := do
  upTo ((← get).front.length + 1) done rule

/-- Items with commas between them up to a closing mark, which is read. A comma may stand
    without an item before it. -/
def listed {α : Type} (closing : String) (item : Rule α) : Rule (List α) := do
  let items ← many (·.isMark closing) do
    if ← tryMark "," then return none
    let value ← item
    let _ ← tryMark ","
    return some value
  let _ ← mark closing
  return items.filterMap id

/-! ### Semicolons -/

/-- Put the cursor behind an understood semicolon, if there is one. -/
def tryUnderstood (operatorMayFollow : Bool) : Rule Bool := do
  let cursor ← get
  match understood operatorMayFollow cursor.last cursor.behind with
  | some (offset, text) =>
    set { cursor with last := offset, behind := text }
    return true
  | none => return false

def semicolon (operatorMayFollow : Bool) : Rule Unit := do
  if ← tryUnderstood operatorMayFollow then return ()
  let _ ← mark ";"

end Rule

def Node.as (node : Node) (role : Role) : Node := { node with role := some role }

def Node.ofKind (node : Node) (kind : Kind) : Node := { node with kind := kind }

end Capabilities.Script
