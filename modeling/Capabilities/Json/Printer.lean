import Capabilities.Json.Value

/-!
# Writing JSON

`Value.compact` writes a value without blank space; `Value.pretty` puts every item and member on
a line of its own, two spaces further in than what holds it, and writes empty arrays and objects
without a line end. A string is written with the shortest escape of each character that needs one.
-/

namespace Capabilities.Json

def hexDigit (n : Nat) : Char := if n < 10 then Char.ofNat (48 + n) else Char.ofNat (87 + n)

def escapeChar (c : Char) : List Char :=
  match c with
  | '"' => ['\\', '"']
  | '\\' => ['\\', '\\']
  | '\n' => ['\\', 'n']
  | '\r' => ['\\', 'r']
  | '\t' => ['\\', 't']
  | '\x08' => ['\\', 'b']
  | '\x0c' => ['\\', 'f']
  | c =>
    if c.toNat < 0x20 then ['\\', 'u', '0', '0', hexDigit (c.toNat / 16), hexDigit (c.toNat % 16)]
    else [c]

def quote (text : String) : String :=
  "\"" ++ String.ofList (text.toList.flatMap escapeChar) ++ "\""

namespace Value

mutual
def compact : Value → String
  | .null => "null"
  | .bool value => if value then "true" else "false"
  | .number text => text
  | .string text => quote (text.getD "")
  | .array items => "[" ++ String.intercalate "," (compactItems items) ++ "]"
  | .object members => "\x7b" ++ String.intercalate "," (compactMembers members) ++ "\x7d"
def compactItems : List Value → List String
  | [] => []
  | item :: rest => compact item :: compactItems rest
def compactMembers : List (Option String × Value) → List String
  | [] => []
  | (key, value) :: rest => (quote (key.getD "") ++ ":" ++ compact value) :: compactMembers rest
end

def indent (depth : Nat) : String := "\n" ++ String.ofList (List.replicate (2 * depth) ' ')

/-- Items between brackets, each on a line of its own; what is empty stays on its line. -/
def enclose (opening closing : String) (depth : Nat) (items : List String) : String :=
  if items.isEmpty then opening ++ closing
  else
    opening ++ indent (depth + 1) ++ String.intercalate ("," ++ indent (depth + 1)) items
      ++ indent depth ++ closing

mutual
/-- A value with its parts on lines of their own, at a depth. -/
def prettyAt (depth : Nat) : Value → String
  | .null => "null"
  | .bool value => if value then "true" else "false"
  | .number text => text
  | .string text => quote (text.getD "")
  | .array items => enclose "[" "]" depth (prettyItems (depth + 1) items)
  | .object members => enclose "\x7b" "\x7d" depth (prettyMembers (depth + 1) members)
def prettyItems (depth : Nat) : List Value → List String
  | [] => []
  | item :: rest => prettyAt depth item :: prettyItems depth rest
def prettyMembers (depth : Nat) : List (Option String × Value) → List String
  | [] => []
  | (key, value) :: rest =>
    (quote (key.getD "") ++ ": " ++ prettyAt depth value) :: prettyMembers depth rest
end

def pretty (value : Value) : String := prettyAt 0 value

end Value

end Capabilities.Json
