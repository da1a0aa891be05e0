import Capabilities.Script.Node
import Capabilities.Script.Token

/-!
# Binary operators

A run of operands with binary operators between them is read flat; `Node.chain` builds its tree.
A higher level binds tighter; operators of one level group from the left, the power operator from
the right.
-/

namespace Capabilities.Script

def powerLevel : Nat := 12

def operatorLevel (text : String) : Option Nat :=
  match text with
  | "??" => some 1
  | "||" => some 2
  | "&&" => some 3
  | "|" => some 4
  | "^" => some 5
  | "&" => some 6
  | "==" | "!=" | "===" | "!==" => some 7
  | "<" | ">" | "<=" | ">=" | "instanceof" | "in" => some 8
  | "<<" | ">>" | ">>>" => some 9
  | "+" | "-" => some 10
  | "*" | "/" | "%" => some 11
  | "**" => some powerLevel
  | _ => none

def Token.operatorLevel? (token : Token) : Option Nat :=
  match token.sort with
  | .mark => operatorLevel token.text
  | .word =>
    if token.text == "in" || token.text == "instanceof" then operatorLevel token.text else none
  | _ => none

namespace Node

def binary (left right : Node) : Node :=
  ⟨0, .binaryExpression, none, left.start, right.stop, "",
    [{ left with role := some .left }, { right with role := some .right }]⟩

/-- Join the operand just read to those waiting before it, as far as their operators bind at
    least as tightly as one of `level` that comes next. -/
def settle (level : Nat) : List (Node × Nat) → Node → List (Node × Nat) × Node
  | [], operand => ([], operand)
  | (left, waiting) :: before, operand =>
    if waiting > level || (waiting == level && level != powerLevel) then
      settle level before (binary left operand)
    else ((left, waiting) :: before, operand)

/-- The tree of a flat run: operands waiting for their right side (latest first), the operand
    read last, and the operators to come with their right operands. -/
def chainFrom (before : List (Node × Nat)) (operand : Node) : List (Nat × Node) → Node
  | [] => before.foldl (fun right (left, _) => binary left right) operand
  | (level, next) :: rest =>
    let (before, operand) := settle level before operand
    chainFrom ((operand, level) :: before) next rest

def chain (first : Node) (rest : List (Nat × Node)) : Node := chainFrom [] first rest

end Node

end Capabilities.Script
