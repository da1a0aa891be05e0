import Capabilities.Script.Grammar.Statement
import Capabilities.Script.Numbering
import Capabilities.Script.Parser

/-!
# Reading a script by the grammar

`Grammar.parse` turns the text of a script into its tree. It ties the grammar's recursion by depth:
every rule reads at least one character before it uses the grammar on a part, so no script nests
deeper than it has characters.

Comments are passed over while reading and set into the finished tree afterwards, each into the
innermost node that has something on both sides of it. A text that the grammar does not read has
the tree of an empty program. The program itself reads scripts by the grammar.
-/

namespace Capabilities.Script

/-- The grammar for constructs nested at most `depth` deep. -/
def Grammar.ofDepth : Nat → Grammar
  | 0 => ⟨fun _ => failure, fun _ => failure, failure⟩
  | depth + 1 =>
    { assignment := fun inAllowed => (ofDepth depth).assignmentRule inAllowed
      member := fun calls => (ofDepth depth).memberWith true calls
      statement := fun cursor => (ofDepth depth).statementRule cursor }

/-! ### Comments -/

def Comment.toNode (comment : Comment) : Node :=
  ⟨0, .comment, none, comment.start, comment.stop, comment.text, []⟩

namespace Node

mutual
def insert (added : Node) : Node → Node
  | ⟨id, kind, role, start, stop, lexeme, children⟩ =>
    ⟨id, kind, role, start, stop, lexeme, insertAmong added children⟩
def insertAmong (added : Node) : List Node → List Node
  | [] => [added]
  | child :: rest =>
    if added.stop ≤ child.start then added :: child :: rest
    else if child.start < added.start && added.stop ≤ child.stop then insert added child :: rest
    else child :: insertAmong added rest
end

end Node

/-! ### Scripts -/

/-- Split off the line that names an interpreter, if the text begins with one. -/
def splitHashBang (text : List Char) : Option Node × List Char × Nat :=
  match text with
  | '#' :: '!' :: _ =>
    let (line, rest) := text.span (· != '\n')
    let width := byteWidth line
    (some ⟨0, .hashBangLine, none, 0, width, String.ofList line, []⟩, rest, width)
  | _ => (none, text, 0)

def Grammar.parse (text : String) : Node :=
  let (hashBang, rest, offset) := splitHashBang text.toList
  match (Grammar.ofDepth (rest.length + 1)).program.run (Cursor.place offset rest []) with
  | some (root, cursor) =>
    let root := { root with children := hashBang.toList ++ root.children }
    (cursor.comments.foldr (fun comment tree => Node.insert comment.toNode tree) root).number
  | none => ⟨0, .program, none, 0, text.utf8ByteSize, "", []⟩

theorem Grammar.nodup_nodes_parse (text : String) : ((parse text).nodes.map Node.id).Nodup := by
  unfold parse
  dsimp only
  split
  · exact Node.nodup_nodes_number _
  · simp [Node.nodes, Node.nodesOfAll]

instance Grammar.parser : Parser := ⟨Grammar.parse, Grammar.nodup_nodes_parse⟩

end Capabilities.Script
