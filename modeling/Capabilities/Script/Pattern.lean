import Capabilities.Script.Node

/-!
# Patterns

What stands left of an assignment, or between the parentheses before an arrow, is read as an
expression first. `Node.toPattern` turns such an expression into the pattern it spells: an object
into an object pattern, an array into an array pattern, an assignment into a pattern with a
default, a spread into a rest pattern. Names, members and subscripts stand for themselves.
-/

namespace Capabilities.Script.Node

mutual
/-- The pattern an expression spells. -/
def toPattern : Node → Node
  | ⟨id, kind, role, start, stop, lexeme, children⟩ =>
    match kind with
    | .object => ⟨id, .objectPattern, role, start, stop, lexeme, toPatterns children⟩
    | .array => ⟨id, .arrayPattern, role, start, stop, lexeme, toPatterns children⟩
    | .pair => ⟨id, .pairPattern, role, start, stop, lexeme, toPatterns children⟩
    | .spreadElement => ⟨id, .restPattern, role, start, stop, lexeme, toPatterns children⟩
    | .assignmentExpression => ⟨id, .assignmentPattern, role, start, stop, lexeme, children⟩
    | .shorthandPropertyIdentifier =>
      ⟨id, .shorthandPropertyIdentifierPattern, role, start, stop, lexeme, children⟩
    | kind => ⟨id, kind, role, start, stop, lexeme, children⟩
def toPatterns : List Node → List Node
  | [] => []
  | child :: rest => toPattern child :: toPatterns rest
end

theorem toPatterns_eq (nodes : List Node) : toPatterns nodes = nodes.map toPattern := by
  induction nodes with
  | nil => rfl
  | cons node rest ih => simp [toPatterns, ih]

end Capabilities.Script.Node
