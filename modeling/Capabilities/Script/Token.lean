/-!
# Tokens

The words, literals and marks a script is written in, and the blank space and comments between
them. Everything here reads a `List Char` from its front and says what was read and what is left;
offsets count the bytes of the UTF-8 text.

A slash may begin a comment, a regular expression or a division; only the first is decided here.
A slash that is not a comment is a mark, and a grammar that expects an operand there reads a
regular expression with `regexBody` instead.
-/

namespace Capabilities.Script

/-! ### Characters -/

def byteWidth (chars : List Char) : Nat := chars.foldl (fun width c => width + c.utf8Size) 0

def isLineEnd (c : Char) : Bool :=
  c == '\n' || c == '\r' || c == '\u2028' || c == '\u2029'

def isBlank (c : Char) : Bool :=
  let n := c.toNat
  (9 ≤ n && n ≤ 13) || n == 0x20 || n == 0x85 || n == 0xA0 || n == 0x1680
    || (0x2000 ≤ n && n ≤ 0x200B) || n == 0x2028 || n == 0x2029 || n == 0x202F || n == 0x205F
    || n == 0x2060 || n == 0x3000 || n == 0xFEFF

/-- The ASCII punctuation that no word contains. -/
def isPunctuation (c : Char) : Bool :=
  ":;\x60\"\x27@#.,|^&<=>+-*/\\%?!~()[]\x7b\x7d".toList.contains c

def isWordPart (c : Char) : Bool :=
  c.toNat > 0x1F && !isBlank c && !isPunctuation c

/-- Characters a word may begin with. -/
def isWordStart (c : Char) : Bool := isWordPart c && !c.isDigit

/-! ### Blank space and comments -/

structure Comment where
  start : Nat
  stop : Nat
  text : String
deriving DecidableEq, Repr

/-- What stands between two tokens: the comments, latest first, whether a line ends in it, and
    where the next token begins. -/
structure Gap where
  comments : List Comment
  lineEnd : Bool
  offset : Nat
  rest : List Char

/-- Inside what a gap is being read. An open comment is known by where it began and by its
    characters so far, latest first. -/
inductive GapState where
  | blank
  | line (start : Nat) (text : List Char)
  | block (start : Nat) (text : List Char)

/-- Read a gap. A `//` comment ends before the end of its line, a block comment at the first
    `*` that a slash follows. -/
def readGap : GapState → Nat → List Comment → Bool → List Char → Gap
  | .blank, offset, seen, lineEnd, '/' :: '/' :: rest =>
    readGap (.line offset ['/', '/']) (offset + 2) seen lineEnd rest
  | .blank, offset, seen, lineEnd, '/' :: '*' :: rest =>
    readGap (.block offset ['*', '/']) (offset + 2) seen lineEnd rest
  | .blank, offset, seen, lineEnd, c :: rest =>
    if isBlank c then readGap .blank (offset + c.utf8Size) seen (lineEnd || isLineEnd c) rest
    else ⟨seen, lineEnd, offset, c :: rest⟩
  | .blank, offset, seen, lineEnd, [] => ⟨seen, lineEnd, offset, []⟩
  | .line start text, offset, seen, lineEnd, c :: rest =>
    if isLineEnd c then
      readGap .blank (offset + c.utf8Size) (⟨start, offset, String.ofList text.reverse⟩ :: seen)
        true rest
    else readGap (.line start (c :: text)) (offset + c.utf8Size) seen lineEnd rest
  | .line start text, offset, seen, lineEnd, [] =>
    ⟨⟨start, offset, String.ofList text.reverse⟩ :: seen, lineEnd, offset, []⟩
  | .block start text, offset, seen, lineEnd, '*' :: '/' :: rest =>
    readGap .blank (offset + 2)
      (⟨start, offset + 2, String.ofList ('/' :: '*' :: text).reverse⟩ :: seen) lineEnd rest
  | .block start text, offset, seen, lineEnd, c :: rest =>
    readGap (.block start (c :: text)) (offset + c.utf8Size) seen (lineEnd || isLineEnd c) rest
  | .block start text, offset, seen, lineEnd, [] =>
    ⟨⟨start, offset, String.ofList text.reverse⟩ :: seen, lineEnd, offset, []⟩

/-! ### Words -/

/-- Split off a word. Escapes of the forms `\uXXXX` and `\u` with a code point in braces are
    part of a word; `inBraces` holds while such a code point is being read. -/
def splitWord : Bool → List Char → List Char × List Char
  | true, c :: rest =>
    let (word, rest) := splitWord (c != '}') rest
    (c :: word, rest)
  | false, '\\' :: 'u' :: '{' :: rest =>
    let (word, rest) := splitWord true rest
    ('\\' :: 'u' :: '{' :: word, rest)
  | false, '\\' :: 'u' :: a :: b :: c :: d :: rest =>
    let (word, rest) := splitWord false rest
    ('\\' :: 'u' :: a :: b :: c :: d :: word, rest)
  | false, c :: rest =>
    if isWordPart c then
      let (word, rest) := splitWord false rest
      (c :: word, rest)
    else ([], c :: rest)
  | _, [] => ([], [])

def startsWord : List Char → Bool
  | '\\' :: 'u' :: _ => true
  | c :: _ => isWordStart c
  | [] => false

/-! ### Numbers -/

def splitDigits (chars : List Char) : List Char × List Char :=
  chars.span fun c => c.isDigit || c == '_'

def splitExponent : List Char → List Char × List Char
  | e :: sign :: digit :: rest =>
    if (e == 'e' || e == 'E') && (sign == '+' || sign == '-') && digit.isDigit then
      let (digits, rest) := splitDigits (digit :: rest)
      (e :: sign :: digits, rest)
    else if (e == 'e' || e == 'E') && sign.isDigit then
      let (digits, rest) := splitDigits (sign :: digit :: rest)
      (e :: digits, rest)
    else ([], e :: sign :: digit :: rest)
  | [e, digit] =>
    if (e == 'e' || e == 'E') && digit.isDigit then ([e, digit], []) else ([], [e, digit])
  | rest => ([], rest)

/-- Split off a number: digits in base sixteen, eight or two behind their mark, or a decimal
    number with optional fraction and exponent, or an integer with the suffix `n`. -/
def splitNumber (chars : List Char) : List Char × List Char :=
  match chars with
  | '0' :: base :: rest =>
    if "xXoObB".toList.contains base then
      let (digits, rest) := rest.span fun c => c.isAlphanum || c == '_'
      ('0' :: base :: digits, rest)
    else decimal chars
  | _ => decimal chars
where
  decimal (chars : List Char) : List Char × List Char :=
    let (whole, rest) := splitDigits chars
    match rest with
    | 'n' :: rest => (whole ++ ['n'], rest)
    | '.' :: rest =>
      let (fraction, rest) := splitDigits rest
      let (exponent, rest) := splitExponent rest
      (whole ++ '.' :: fraction ++ exponent, rest)
    | rest =>
      let (exponent, rest) := splitExponent rest
      (whole ++ exponent, rest)

/-! ### Quoted text -/

/-- What stands behind an opening quote up to and including the closing one. A character behind
    a backslash never closes. -/
def splitQuoted (quote : Char) : List Char → List Char × List Char
  | '\\' :: c :: rest =>
    let (text, rest) := splitQuoted quote rest
    ('\\' :: c :: text, rest)
  | c :: rest =>
    if c == quote then ([c], rest)
    else
      let (text, rest) := splitQuoted quote rest
      (c :: text, rest)
  | [] => ([], [])

/-- What stands behind the slash that opens a regular expression, with the closing slash. A slash
    inside brackets or behind a backslash does not close. -/
def regexBody (inBrackets : Bool) : List Char → List Char × List Char
  | '\\' :: c :: rest =>
    let (text, rest) := regexBody inBrackets rest
    ('\\' :: c :: text, rest)
  | c :: rest =>
    if c == '/' && !inBrackets then ([c], rest)
    else
      let (text, rest) := regexBody (c == '[' || (inBrackets && c != ']')) rest
      (c :: text, rest)
  | [] => ([], [])

/-- Split off a regular expression with its flags, from its opening slash on. -/
def splitRegex (chars : List Char) : List Char × List Char :=
  let (body, rest) := regexBody false (chars.drop 1)
  let (flags, rest) := rest.span Char.isLower
  (chars.take 1 ++ body ++ flags, rest)

/-- How a stretch of template text ends. -/
inductive TemplateEnd where
  | closed
  | substitution
deriving DecidableEq, Repr

/-- The stretch of template text up to and including the closing quote or the opening of the
    next substitution. -/
def splitTemplate : List Char → List Char × TemplateEnd × List Char
  | '\\' :: c :: rest =>
    let (text, ending, rest) := splitTemplate rest
    ('\\' :: c :: text, ending, rest)
  | '$' :: '{' :: rest => (['$', '{'], .substitution, rest)
  | c :: rest =>
    if c == '\x60' then ([c], .closed, rest)
    else
      let (text, ending, rest) := splitTemplate rest
      (c :: text, ending, rest)
  | [] => ([], .closed, [])

/-! ### Tokens -/

inductive TokenSort where
  | word | privateWord | number | quoted | mark | ending
deriving DecidableEq, Repr

/-- A token with its place. `lineEnd` holds if a line ends between it and the token before. -/
structure Token where
  sort : TokenSort
  text : String
  start : Nat
  stop : Nat
  lineEnd : Bool
deriving DecidableEq, Repr

/-- The marks, longer ones before those they begin with. -/
def marks : List (List Char) :=
  [">>>=", "...", "===", "!==", "**=", "<<=", ">>=", ">>>", "&&=", "||=", "??=",
   "=>", "==", "!=", "<=", ">=", "&&", "||", "??", "?.", "++", "--", "**", "<<", ">>",
   "+=", "-=", "*=", "/=", "%=", "&=", "|=", "^="].map String.toList

/-- The first mark that begins the text; a mark of one character if no longer one does. `?.`
    before a digit is a lone question mark. -/
def splitMark (chars : List Char) : List Char × List Char :=
  match chars with
  | '?' :: '.' :: c :: rest =>
    if c.isDigit then (['?'], '.' :: c :: rest) else (['?', '.'], c :: rest)
  | _ =>
    match marks.find? (·.isPrefixOf chars) with
    | some mark => (mark, chars.drop mark.length)
    | none => (chars.take 1, chars.drop 1)

def splitToken (chars : List Char) : TokenSort × List Char × List Char :=
  match chars with
  | [] => (.ending, [], [])
  | c :: rest =>
    if c == '"' || c == '\x27' then
      let (text, rest) := splitQuoted c rest
      (.quoted, c :: text, rest)
    else if c.isDigit || (c == '.' && (rest.head?.map Char.isDigit).getD false) then
      let (text, rest) := splitNumber chars
      (.number, text, rest)
    else if c == '#' && startsWord rest then
      let (text, rest) := splitWord false rest
      (.privateWord, c :: text, rest)
    else if startsWord chars then
      let (text, rest) := splitWord false chars
      (.word, text, rest)
    else
      let (text, rest) := splitMark chars
      (.mark, text, rest)

end Capabilities.Script
