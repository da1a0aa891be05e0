/-!
# Blank characters and lines

Trimming and cutting into lines, on lists of characters. A character is blank if it has the
Unicode property White_Space; a line ends at a line feed, and a carriage return right before it
belongs to the end of the line.
-/

namespace Capabilities.Text

/-! ### Blank characters -/

/-- The code points with the property White_Space. -/
def isBlank (c : Char) : Bool :=
  let n := c.toNat
  (9 ≤ n && n ≤ 13) || n == 0x20 || n == 0x85 || n == 0xA0 || n == 0x1680
    || (0x2000 ≤ n && n ≤ 0x200A) || n == 0x2028 || n == 0x2029 || n == 0x202F || n == 0x205F
    || n == 0x3000

def trimStart (text : List Char) : List Char := text.dropWhile isBlank

def trimEnd (text : List Char) : List Char := (text.reverse.dropWhile isBlank).reverse

def trim (text : List Char) : List Char := trimEnd (trimStart text)

def allBlank (text : List Char) : Bool := text.all isBlank

/-! ### Affixes -/

def dropLeading? (lead text : List Char) : Option (List Char) :=
  if lead.isPrefixOf text then some (text.drop lead.length) else none

def dropTrailing? (ending text : List Char) : Option (List Char) :=
  if ending.isSuffixOf text then some (text.take (text.length - ending.length)) else none

def holds (stretch : List Char) : List Char → Bool
  | [] => stretch.isEmpty
  | c :: rest => stretch.isPrefixOf (c :: rest) || holds stretch rest

/-! ### Lines -/

/-- The stretches between the marks in a text; one more than there are marks. -/
def split (mark : Char) : List Char → List (List Char)
  | [] => [[]]
  | c :: rest =>
    if c == mark then [] :: split mark rest
    else
      match split mark rest with
      | stretch :: others => (c :: stretch) :: others
      | [] => [[c]]

/-- The lines of a text. A line feed at the very end begins no further line. -/
def lines (text : List Char) : List (List Char) :=
  let stretches := split '\n' text
  let ended := stretches.dropLast.map fun line => (dropTrailing? ['\r'] line).getD line
  match stretches.getLast? with
  | some (c :: line) => ended ++ [c :: line]
  | _ => ended

def joinLines : List (List Char) → List Char
  | [] => []
  | [line] => line
  | line :: next :: rest => line ++ '\n' :: joinLines (next :: rest)

end Capabilities.Text
