import Capabilities.Json.Value

/-!
# Reading JSON

`Value.parse?` reads a whole text as one JSON value with nothing but blank space around it. A
comma may not end an array or an object, a number may not begin with a spare zero, and a string
may not hold a control character.
-/

namespace Capabilities.Json

/-! ### Strings -/

def hex4? (a b c d : Char) : Option Nat := do
  let digits ← [a, b, c, d].mapM digit?
  return digits.foldl (fun n digit => n * 16 + digit) 0
where
  digit? (c : Char) : Option Nat :=
    if c.isDigit then some (c.toNat - '0'.toNat)
    else if 'a' ≤ c && c ≤ 'f' then some (c.toNat - 'a'.toNat + 10)
    else if 'A' ≤ c && c ≤ 'F' then some (c.toNat - 'A'.toNat + 10)
    else none

/-- A unit of a string: a character, or half of a surrogate pair. -/
inductive StringUnit where
  | char (c : Char)
  | half (unit : Nat)
deriving Repr

def StringUnit.ofNat (n : Nat) : StringUnit :=
  if 0xD800 ≤ n && n < 0xE000 then .half n else .char (Char.ofNat n)

/-- The units of a string behind its opening quote, up to the closing one. -/
def readUnits : List Char → Option (List StringUnit × List Char)
  | '"' :: rest => some ([], rest)
  | '\\' :: 'u' :: a :: b :: c :: d :: rest => do
    let unit ← hex4? a b c d
    let (units, rest) ← readUnits rest
    return (.ofNat unit :: units, rest)
  | '\\' :: c :: rest => do
    let meant ← match c with
      | '"' => some '"'
      | '\\' => some '\\'
      | '/' => some '/'
      | 'b' => some '\x08'
      | 'f' => some '\x0c'
      | 'n' => some '\n'
      | 'r' => some '\r'
      | 't' => some '\t'
      | _ => none
    let (units, rest) ← readUnits rest
    return (.char meant :: units, rest)
  | c :: rest =>
    if c.toNat < 0x20 then none
    else do
      let (units, rest) ← readUnits rest
      return (.char c :: units, rest)
  | [] => none

/-- The text that units spell, with surrogate pairs joined; none if half of a pair is left over. -/
def joinUnits : List StringUnit → Option (List Char)
  | [] => some []
  | .char c :: rest => (joinUnits rest).map (c :: ·)
  | .half high :: .half low :: rest =>
    if high < 0xDC00 && 0xDC00 ≤ low then
      (joinUnits rest).map (Char.ofNat (0x10000 + (high - 0xD800) * 0x400 + (low - 0xDC00)) :: ·)
    else none
  | .half _ :: _ => none

def readString (text : List Char) : Option (Option String × List Char) := do
  let (units, rest) ← readUnits text
  return ((joinUnits units).map String.ofList, rest)

/-! ### Numbers -/

def readDigits (text : List Char) : Option (List Char × List Char) :=
  let (digits, rest) := text.span Char.isDigit
  if digits.isEmpty then none else some (digits, rest)

def readFraction : List Char → Option (List Char × List Char)
  | '.' :: rest => do
    let (digits, rest) ← readDigits rest
    return ('.' :: digits, rest)
  | rest => some ([], rest)

def readExponent : List Char → Option (List Char × List Char)
  | e :: rest =>
    if e == 'e' || e == 'E' then do
      let signed := rest.head? == some '+' || rest.head? == some '-'
      let (sign, rest) := rest.splitAt (if signed then 1 else 0)
      let (digits, rest) ← readDigits rest
      return (e :: sign ++ digits, rest)
    else some ([], e :: rest)
  | [] => some ([], [])

def readNumber (text : List Char) : Option (String × List Char) := do
  let (sign, rest) := text.splitAt (if text.head? == some '-' then 1 else 0)
  let (whole, rest) ← readDigits rest
  if whole.length > 1 && whole.head? == some '0' then failure
  let (fraction, rest) ← readFraction rest
  let (exponent, rest) ← readExponent rest
  return (String.ofList (sign ++ whole ++ fraction ++ exponent), rest)

/-! ### Values -/

def skipBlanks (text : List Char) : List Char :=
  text.dropWhile fun c => c == ' ' || c == '\n' || c == '\t' || c == '\r'

def readWord (word : String) (value : Value) (text : List Char) : Option (Value × List Char) :=
  if word.toList.isPrefixOf text then some (value, text.drop word.length) else none

mutual
/-- A value that nests less than `depth` deep. -/
def readValue (depth : Nat) (text : List Char) : Option (Value × List Char) :=
  match depth with
  | 0 => none
  | depth + 1 =>
    match skipBlanks text with
    | '"' :: rest => do
      let (text, rest) ← readString rest
      return (.string text, rest)
    | '[' :: rest =>
      match skipBlanks rest with
      | ']' :: rest => some (.array [], rest)
      | rest => do
        let (items, rest) ← readItems depth rest
        return (.array items, rest)
    | '{' :: rest =>
      match skipBlanks rest with
      | '}' :: rest => some (.object [], rest)
      | rest => do
        let (members, rest) ← readMembers depth rest
        return (.object members, rest)
    | 'n' :: rest => readWord "ull" .null rest
    | 't' :: rest => readWord "rue" (.bool true) rest
    | 'f' :: rest => readWord "alse" (.bool false) rest
    | rest => do
      let (text, rest) ← readNumber rest
      return (.number text, rest)
/-- The items of an array, at least one, up to its closing bracket. -/
def readItems (depth : Nat) (text : List Char) : Option (List Value × List Char) :=
  match depth with
  | 0 => none
  | depth + 1 => do
    let (item, rest) ← readValue depth text
    match skipBlanks rest with
    | ']' :: rest => return ([item], rest)
    | ',' :: rest =>
      let (items, rest) ← readItems depth rest
      return (item :: items, rest)
    | _ => none
/-- The members of an object, at least one, up to its closing brace. -/
def readMembers (depth : Nat) (text : List Char) :
    Option (List (Option String × Value) × List Char) :=
  match depth with
  | 0 => none
  | depth + 1 =>
    match skipBlanks text with
    | '"' :: rest => do
      let (key, rest) ← readString rest
      match skipBlanks rest with
      | ':' :: rest =>
        let (value, rest) ← readValue depth rest
        match skipBlanks rest with
        | '}' :: rest => return ([(key, value)], rest)
        | ',' :: rest =>
          let (members, rest) ← readMembers depth rest
          return ((key, value) :: members, rest)
        | _ => none
      | _ => none
    | _ => none
end

/-- Read a whole text as one value. Every step reads a character, so no value nests deeper, and
    no list is longer, than the text. -/
def Value.parse? (text : String) : Option Value :=
  let chars := text.toList
  match readValue (2 * chars.length + 2) chars with
  | some (value, rest) => if (skipBlanks rest).isEmpty then some value else none
  | none => none

end Capabilities.Json
