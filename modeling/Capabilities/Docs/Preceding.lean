import Capabilities.Script.Node
import Capabilities.Text.Blank
import Capabilities.Text.Slice

/-!
# Comments before a place

`commentsBefore` returns the comment blocks that end right before a place in a script, with
nothing but blank space between them and it. Consecutive `//` comments on lines of their own make
one block; a `//` comment behind code belongs to that code and ends the search.
-/

namespace Capabilities.Docs

open Script Text

mutual
/-- The comments below a node that end at or before an offset, in order. -/
def commentsUpTo (offset : Nat) : Node → List Node
  | ⟨_, _, _, _, _, _, children⟩ => commentsAmong offset children
/-- The comments among siblings and below them that end at or before an offset. Siblings that
    begin behind it are not looked at. -/
def commentsAmong (offset : Nat) : List Node → List Node
  | [] => []
  | child :: rest =>
    if child.start ≥ offset then []
    else if child.isComment then
      if child.stop ≤ offset then child :: commentsAmong offset rest else commentsAmong offset rest
    else commentsUpTo offset child ++ commentsAmong offset rest
end

def isLineComment (comment : Node) : Bool := ['/', '/'].isPrefixOf comment.lexeme.toList

/-- Whether only blanks stand between the start of the line and a comment. -/
def startsLine (text : List Char) (comment : Node) : Bool :=
  match takeBytes? comment.start text with
  | some before => allBlank (before.reverse.takeWhile (· != '\n'))
  | none => false

/-- Collect comments, nearest to the place first, into the blocks that follow them in the text,
    which come in source order. `stop` is where what follows begins. -/
def gatherBlocks (text : List Char) (stop : Nat) (blocks : List (List Node)) :
    List Node → List (List Node)
  | [] => blocks
  | comment :: before =>
    match slice? text comment.stop stop with
    | none => blocks
    | some gap =>
      if !allBlank gap then blocks
      else if isLineComment comment && !startsLine text comment then blocks
      else
        match blocks with
        | (next :: block) :: rest =>
          if isLineComment comment && gap.count '\n' == 1 && isLineComment next then
            gatherBlocks text comment.start ((comment :: next :: block) :: rest) before
          else gatherBlocks text comment.start ([comment] :: blocks) before
        | _ => gatherBlocks text comment.start ([comment] :: blocks) before

/-- The text of a block: its comments without blanks at their ends, one below the other. -/
def blockText (block : List Node) : String :=
  String.ofList (joinLines (block.map fun comment => trimEnd comment.lexeme.toList))

/-- The comment blocks right before a byte offset, in source order. -/
def commentsBefore (root : Node) (text : String) (offset : Nat) : List String :=
  let comments := commentsUpTo offset root
  let stop := min offset text.utf8ByteSize
  (gatherBlocks text.toList stop [] comments.reverse).map blockText

end Capabilities.Docs
