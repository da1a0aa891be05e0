import Capabilities.Script.Token

/-!
# Semicolons left out

A statement may end without a written semicolon. `omitted` decides, from the text that follows
the statement, whether one is understood right there: before the end of the text, before a
closing brace, or behind a line that the next one cannot continue. `understood` finds the place:
a comment on the statement's own line may have to be passed first, and then belongs to it.

Whether a comment on the same line may itself end the statement depends on the statement:
where a binary operator could still follow (`operatorMayFollow`) it may not.
-/

namespace Capabilities.Script

/-- What comments and blank space say about an omitted semicolon behind them. -/
inductive Verdict where
  | rejected | unclear | accepted
deriving DecidableEq, Repr

inductive SweepState where
  | between | line | block

/-- The blank characters that a sweep passes. -/
def isPlainBlank (c : Char) : Bool :=
  c == ' ' || (9 ≤ c.toNat && c.toNat ≤ 13)

/-- The line ends that count for omitted semicolons. -/
def endsStatementLine (c : Char) : Bool := c == '\n' || c == '\u2028' || c == '\u2029'

/-- Pass blank space and comments. Unless `whole`, stop behind a block comment that no slash
    follows; it accepts if a line ended in it. -/
def sweep (whole : Bool) : SweepState → Bool → List Char → Verdict × List Char
  | .between, broken, '/' :: '/' :: rest => sweep whole .line broken rest
  | .between, broken, '/' :: '*' :: rest => sweep whole .block broken rest
  | .between, broken, c :: rest =>
    if c == '/' then (.rejected, rest)
    else if isPlainBlank c then sweep whole .between broken rest
    else (.accepted, c :: rest)
  | .line, broken, c :: rest =>
    if c == '\n' then sweep whole .between broken rest
    else if endsStatementLine c then (.accepted, c :: rest)
    else sweep whole .line broken rest
  | .block, broken, '*' :: '/' :: rest =>
    if !whole && rest.head? != some '/' then
      (if broken then .accepted else .unclear, rest)
    else sweep whole .between broken rest
  | .block, broken, c :: rest => sweep whole .block (broken || endsStatementLine c) rest
  | _, _, [] => (.accepted, [])

/-- Whether a line that begins like this cannot continue the line before. -/
def beginsStatement : List Char → Bool
  | '.' :: rest => (rest.head?.map Char.isDigit).getD false
  | '+' :: rest => rest.head? == some '+'
  | '-' :: rest => rest.head? == some '-'
  | '!' :: rest => rest.head? != some '='
  | 'i' :: 'n' :: rest =>
    if !(rest.head?.map Char.isAlpha).getD false then false
    else if "stanceof".toList.isPrefixOf rest then
      ((rest.drop 8).head?.map Char.isAlpha).getD false
    else true
  | c :: _ => !("\x60,:;*%><=[(?^|&/".toList.contains c)
  | [] => true

/-- Whether a semicolon is understood at the front of a text that begins with no comment. Behind a
    blank that ends no line `again` decides. -/
def endsStatement (again : List Char → Bool) : List Char → Bool
  | [] => false
  | '}' :: _ => true
  | c :: rest =>
    if endsStatementLine c then
      match sweep true .between false rest with
      | (.rejected, _) => false
      | (_, rest) => beginsStatement rest
    else if isPlainBlank c then again rest
    else false

/-- Whether a semicolon is understood at the front of the text. Each round passes at least one
    character, so as many rounds as there are characters suffice. -/
def omittedWithin (operatorMayFollow : Bool) : Nat → List Char → Bool
  | 0, _ => false
  | _ + 1, [] => true
  | rounds + 1, c :: rest =>
    if c == '/' then
      match sweep false .between false (c :: rest) with
      | (.rejected, _) => false
      | (verdict, rest) =>
        if verdict == .accepted && !operatorMayFollow
            && rest.head? != some ',' && rest.head? != some '=' then true
        else endsStatement (omittedWithin operatorMayFollow rounds) rest
    else endsStatement (omittedWithin operatorMayFollow rounds) (c :: rest)

/-- Whether a semicolon is understood at the front of the text. -/
def omitted (operatorMayFollow : Bool) (text : List Char) : Bool :=
  omittedWithin operatorMayFollow (text.length + 1) text

/-- The text behind the next comment, if nothing but blank space stands before it. -/
def behindComment (offset : Nat) : List Char → Option (Nat × List Char)
  | '/' :: '/' :: rest => some (line (offset + 2) rest)
  | '/' :: '*' :: rest => some (block (offset + 2) rest)
  | c :: rest => if isBlank c then behindComment (offset + c.utf8Size) rest else none
  | [] => none
where
  line (offset : Nat) : List Char → Nat × List Char
    | c :: rest => if isLineEnd c then (offset, c :: rest) else line (offset + c.utf8Size) rest
    | [] => (offset, [])
  block (offset : Nat) : List Char → Nat × List Char
    | '*' :: '/' :: rest => (offset + 2, rest)
    | c :: rest => block (offset + c.utf8Size) rest
    | [] => (offset, [])

/-- The place of an understood semicolon and the text behind it, if there is one before the next
    token. Each round passes a comment. -/
def understoodWithin (operatorMayFollow : Bool) : Nat → Nat → List Char → Option (Nat × List Char)
  | 0, _, _ => none
  | rounds + 1, offset, text =>
    if omitted operatorMayFollow text then some (offset, text)
    else
      match behindComment offset text with
      | some (offset, rest) => understoodWithin operatorMayFollow rounds offset rest
      | none => none

/-- The place of an understood semicolon and the text behind it, if there is one before the next
    token. -/
def understood (operatorMayFollow : Bool) (offset : Nat) (text : List Char) :
    Option (Nat × List Char) :=
  understoodWithin operatorMayFollow (text.length + 1) offset text

end Capabilities.Script
