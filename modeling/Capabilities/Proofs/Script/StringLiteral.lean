import Capabilities.Script.Grammar.Expression
import Capabilities.Script.Name

/-!
# What string literals denote

A string literal stands for a sequence of UTF-16 units. Its body is written in pieces: characters
that stand for themselves, escapes of several forms, and line ends that are passed over. `Piece` is
such a piece, with its spelling, its units, and what may stand behind it; a `StringLiteral` is a
quote and pieces that fit together.

Every literal is read as one token, and the value of its node is the text that it denotes just when
the literal is simple: when each piece of it is a character, an escape that is a single letter other
than `b`, `f` and `v`, or the escape of the character zero. Of any other piece more units are read
than it stands for, or another one, and no other piece can make up for that.
-/

namespace Capabilities.Script

/-! ### UTF-16 -/

def unitsOf (codePoint : Nat) : List Nat :=
  if codePoint < 0x10000 then [codePoint]
  else [0xD800 + (codePoint - 0x10000) / 0x400, 0xDC00 + (codePoint - 0x10000) % 0x400]

def textUnits (text : List Char) : List Nat := text.flatMap fun c => unitsOf c.toNat

theorem textUnits_append (first second : List Char) :
    textUnits (first ++ second) = textUnits first ++ textUnits second :=
  List.flatMap_append

theorem length_unitsOf (codePoint : Nat) :
    1 ≤ (unitsOf codePoint).length ∧ (unitsOf codePoint).length ≤ 2 := by
  unfold unitsOf
  split <;> simp

theorem length_le_textUnits (text : List Char) : text.length ≤ (textUnits text).length := by
  induction text with
  | nil => exact Nat.le_refl 0
  | cons c rest ih =>
    have hc := (length_unitsOf c.toNat).1
    rw [textUnits, List.flatMap_cons, List.length_append, List.length_cons]
    exact Nat.add_comm 1 _ ▸ Nat.add_le_add hc ih

/-- No character is a half of a surrogate pair, so the units tell the first character. -/
theorem unitsOf_append_inj {c d : Char} {units units' : List Nat}
    (h : unitsOf c.toNat ++ units = unitsOf d.toNat ++ units') : c = d ∧ units = units' := by
  have hc : c.toNat < 0xD800 ∨ 0xDFFF < c.toNat ∧ c.toNat < 0x110000 := c.valid
  have hd : d.toNat < 0xD800 ∨ 0xDFFF < d.toNat ∧ d.toNat < 0x110000 := d.valid
  suffices hsame : c.toNat = d.toNat ∧ units = units' from ⟨Char.toNat_inj.1 hsame.1, hsame.2⟩
  unfold unitsOf at h
  split at h <;> split at h <;> simp only [List.cons_append, List.nil_append, List.cons.injEq] at h
  · exact h
  · omega
  · omega
  · exact ⟨by omega, h.2.2⟩

theorem textUnits_injective {text other : List Char} (h : textUnits text = textUnits other) :
    text = other := by
  induction text generalizing other with
  | nil =>
    have hlength := length_le_textUnits other
    rw [← h] at hlength
    exact (List.eq_nil_of_length_eq_zero (Nat.le_zero.1 hlength)).symm
  | cons c rest ih =>
    cases other with
    | nil =>
      have hlength := length_le_textUnits (c :: rest)
      rw [h] at hlength
      cases hlength
    | cons d rest' =>
      obtain ⟨rfl, hrest⟩ := unitsOf_append_inj h
      rw [ih hrest]

/-! ### Digits -/

def isOctal (c : Char) : Bool := "01234567".toList.contains c

def isHex (c : Char) : Bool := "0123456789abcdefABCDEF".toList.contains c

def digitValue (c : Char) : Nat :=
  if c.isDigit then c.toNat - 48 else if c.isLower then c.toNat - 87 else c.toNat - 55

def digitsValue (base : Nat) (digits : List Char) : Nat :=
  digits.foldl (fun value digit => value * base + digitValue digit) 0

/-- The digits of an octal escape: at most three, for a number below 256. -/
def isOctalEscape (digits : List Char) : Bool :=
  digits != [] && digits.length ≤ 3 && digits.all isOctal && digitsValue 8 digits < 256

/-! ### Pieces -/

/-- A piece of the body of a string literal. -/
inductive Piece where
  /-- A character that stands for itself. -/
  | plain (c : Char)
  /-- A backslash and a character that is not a digit of an octal number, `x`, `u` or a line end. -/
  | escaped (c : Char)
  /-- A backslash and a number in base eight. -/
  | octal (digits : List Char)
  /-- The escape of a unit by two digits behind `x`. -/
  | hex (digits : List Char)
  /-- The escape of a unit by four digits behind `u`. -/
  | unit (digits : List Char)
  /-- The escape of a code point by its number in braces behind `u`. -/
  | codePoint (digits : List Char)
  /-- A line end that is passed over. -/
  | continued (lineEnd : List Char)
deriving DecidableEq, Repr

namespace Piece

/-- How a piece is written. -/
def spelling : Piece → List Char
  | .plain c => [c]
  | .escaped c => ['\\', c]
  | .octal digits => '\\' :: digits
  | .hex digits => '\\' :: 'x' :: digits
  | .unit digits => '\\' :: 'u' :: digits
  | .codePoint digits => '\\' :: 'u' :: '{' :: (digits ++ ['}'])
  | .continued lineEnd => '\\' :: lineEnd

/-- The units that an escaped character stands for. -/
def escapedUnits (c : Char) : List Nat :=
  match c with
  | 'b' => [0x08]
  | 't' => [0x09]
  | 'n' => [0x0A]
  | 'v' => [0x0B]
  | 'f' => [0x0C]
  | 'r' => [0x0D]
  | c => unitsOf c.toNat

/-- The units that a piece stands for. -/
def units : Piece → List Nat
  | .plain c => unitsOf c.toNat
  | .escaped c => escapedUnits c
  | .octal digits => [digitsValue 8 digits]
  | .hex digits => [digitsValue 16 digits]
  | .unit digits => [digitsValue 16 digits]
  | .codePoint digits => unitsOf (digitsValue 16 digits)
  | .continued _ => []

/-- Whether a piece may stand between these quotes with this text behind it. A number in base eight
    takes as many digits as it can, and a line end takes both its characters. -/
def fits (quote : Char) (rest : List Char) : Piece → Bool
  | .plain c => c != quote && c != '\\' && c != '\n' && c != '\r'
  | .escaped c => !isOctal c && c != 'x' && c != 'u' && !isLineEnd c
  | .octal digits =>
    isOctalEscape digits && rest.head?.all fun next => !isOctalEscape (digits ++ [next])
  | .hex digits => digits.length == 2 && digits.all isHex
  | .unit digits => digits.length == 4 && digits.all isHex
  | .codePoint digits => digits != [] && digits.all isHex && digitsValue 16 digits ≤ 0x10FFFF
  | .continued lineEnd =>
    [['\n'], ['\u2028'], ['\u2029'], ['\r', '\n']].contains lineEnd ||
      lineEnd == ['\r'] && rest.head? != some '\n'

/-- A character, an escape that is a single letter other than `b`, `f` and `v`, or the escape of the
    character zero. -/
def isSimple : Piece → Bool
  | .plain _ => true
  | .escaped c => c != 'b' && c != 'f' && c != 'v'
  | .octal digits => digits == ['0']
  | _ => false

end Piece

/-- Whether pieces may stand one behind the other between these quotes. -/
def fitTogether (quote : Char) : List Piece → Bool
  | [] => true
  | piece :: rest =>
    piece.fits quote (rest.flatMap Piece.spelling ++ [quote]) && fitTogether quote rest

structure StringLiteral where
  quote : Char
  pieces : List Piece
  isQuote : quote = '"' ∨ quote = '\x27'
  fits : fitTogether quote pieces = true

namespace StringLiteral

def body (literal : StringLiteral) : List Char := literal.pieces.flatMap Piece.spelling

def text (literal : StringLiteral) : List Char :=
  literal.quote :: (literal.body ++ [literal.quote])

def units (literal : StringLiteral) : List Nat := literal.pieces.flatMap Piece.units

/-- The literal stands for a text. -/
def Denotes (literal : StringLiteral) (text : String) : Prop :=
  literal.units = textUnits text.toList

instance (literal : StringLiteral) (text : String) : Decidable (literal.Denotes text) :=
  inferInstanceAs (Decidable (literal.units = textUnits text.toList))

def isSimple (literal : StringLiteral) : Bool := literal.pieces.all Piece.isSimple

end StringLiteral

/-- A node is a string literal. -/
structure Node.Writes (node : Node) (literal : StringLiteral) : Prop where
  kind : node.kind = .string
  lexeme : node.lexeme = String.ofList literal.text

/-! ### How pieces are read -/

/-- What a backslash makes of the character behind it when a literal is read. -/
def escapeMeaning (c : Char) : Char :=
  match c with
  | 'n' => '\n'
  | 't' => '\t'
  | 'r' => '\r'
  | '0' => '\x00'
  | c => c

theorem unescape_escape (c : Char) (rest : List Char) :
    unescape ('\\' :: c :: rest) = escapeMeaning c :: unescape rest := rfl

theorem unescape_cons {c : Char} (h : c ≠ '\\') (rest : List Char) :
    unescape (c :: rest) = c :: unescape rest := by
  cases rest <;> simp [unescape, h]

theorem unescape_plain_append {chars : List Char} (h : '\\' ∉ chars) (rest : List Char) :
    unescape (chars ++ rest) = chars ++ unescape rest := by
  induction chars with
  | nil => rfl
  | cons c chars ih =>
    rw [List.mem_cons, not_or] at h
    rw [List.cons_append, unescape_cons (Ne.symm h.1), ih h.2, List.cons_append]

/-- What a scanner meets in a piece between these quotes: a lone character, or a backslash, any
    character, and characters that mean nothing to it. -/
def Scans (quote : Char) (chars : List Char) : Prop :=
  (∃ c, chars = [c] ∧ c ≠ quote ∧ c ≠ '\\') ∨
    ∃ c tail, chars = '\\' :: c :: tail ∧ quote ∉ tail ∧ '\\' ∉ tail

section Scanning

variable {quote : Char} {chars : List Char}

theorem Scans.unescape_append (h : Scans quote chars) (rest : List Char) :
    unescape (chars ++ rest) = unescape chars ++ unescape rest := by
  rcases h with ⟨c, rfl, -, hc⟩ | ⟨c, tail, rfl, -, htail⟩
  · rw [List.singleton_append, unescape_cons hc, unescape_cons hc]
    rfl
  · have hread := unescape_plain_append htail []
    rw [List.append_nil] at hread
    rw [List.cons_append, List.cons_append, unescape_escape, unescape_escape,
      unescape_plain_append htail, hread]
    simp [unescape]

theorem splitQuoted_cons {c : Char} (hquote : c ≠ quote) (hc : c ≠ '\\') (rest : List Char) :
    splitQuoted quote (c :: rest) =
      (c :: (splitQuoted quote rest).1, (splitQuoted quote rest).2) := by
  cases rest <;> simp [splitQuoted, hquote, hc]

theorem splitQuoted_plain_append (hquote : quote ∉ chars) (hchars : '\\' ∉ chars)
    (rest : List Char) :
    splitQuoted quote (chars ++ rest) =
      (chars ++ (splitQuoted quote rest).1, (splitQuoted quote rest).2) := by
  induction chars with
  | nil => rfl
  | cons c chars ih =>
    rw [List.mem_cons, not_or] at hquote hchars
    rw [List.cons_append, splitQuoted_cons (Ne.symm hquote.1) (Ne.symm hchars.1),
      ih hquote.2 hchars.2, List.cons_append]

theorem Scans.splitQuoted_append (h : Scans quote chars) (rest : List Char) :
    splitQuoted quote (chars ++ rest) =
      (chars ++ (splitQuoted quote rest).1, (splitQuoted quote rest).2) := by
  rcases h with ⟨c, rfl, hquote, hc⟩ | ⟨c, tail, rfl, hquote, htail⟩
  · exact splitQuoted_cons hquote hc rest
  · have hescape : splitQuoted quote ('\\' :: c :: (tail ++ rest)) =
        ('\\' :: c :: (splitQuoted quote (tail ++ rest)).1,
          (splitQuoted quote (tail ++ rest)).2) := rfl
    rw [List.cons_append, List.cons_append, hescape, splitQuoted_plain_append hquote htail]
    rfl

end Scanning

/-! ### One piece -/

namespace Piece

variable {quote : Char} {piece : Piece} {rest : List Char}

/-- Characters of a kind that quotes and backslashes are not of. -/
theorem quiet_of_all {isOfKind : Char → Bool} {chars : List Char}
    (hquote : quote = '"' ∨ quote = '\x27') (hchars : chars.all isOfKind = true)
    (hkind : isOfKind '"' = false ∧ isOfKind '\x27' = false ∧ isOfKind '\\' = false) :
    quote ∉ chars ∧ '\\' ∉ chars := by
  have habsent {c : Char} (hc : isOfKind c = false) : c ∉ chars := by
    intro hmem
    rw [List.all_eq_true.1 hchars c hmem] at hc
    cases hc
  constructor
  · rcases hquote with rfl | rfl
    · exact habsent hkind.1
    · exact habsent hkind.2.1
  · exact habsent hkind.2.2

theorem quiet_of_all_hex {digits : List Char} (hquote : quote = '"' ∨ quote = '\x27')
    (h : digits.all isHex = true) : quote ∉ digits ∧ '\\' ∉ digits :=
  quiet_of_all hquote h (by decide +kernel)

theorem isOctalEscape_cases {digits : List Char} (h : isOctalEscape digits = true) :
    ∃ digit tail, digits = digit :: tail ∧ isOctal digit = true ∧ tail.all isOctal = true := by
  simp only [isOctalEscape, Bool.and_eq_true, bne_iff_ne] at h
  cases digits with
  | nil => exact absurd rfl h.1.1.1
  | cons digit tail =>
    have hall := h.1.2
    rw [List.all_cons, Bool.and_eq_true] at hall
    exact ⟨digit, tail, rfl, hall.1, hall.2⟩

/-- The ends of lines that are passed over. -/
theorem lineEnd_cases {lineEnd : List Char} (h : (continued lineEnd).fits quote rest = true) :
    ∃ c tail, lineEnd = c :: tail ∧ (tail = [] ∨ tail = ['\n']) := by
  simp only [fits, Bool.or_eq_true, List.contains_eq_mem, decide_eq_true_eq, Bool.and_eq_true,
    beq_iff_eq, List.mem_cons, List.not_mem_nil, or_false] at h
  rcases h with (rfl | rfl | rfl | rfl) | ⟨rfl, -⟩
  · exact ⟨_, _, rfl, Or.inl rfl⟩
  · exact ⟨_, _, rfl, Or.inl rfl⟩
  · exact ⟨_, _, rfl, Or.inl rfl⟩
  · exact ⟨_, _, rfl, Or.inr rfl⟩
  · exact ⟨_, _, rfl, Or.inl rfl⟩

theorem scans (hquote : quote = '"' ∨ quote = '\x27') (h : piece.fits quote rest = true) :
    Scans quote piece.spelling := by
  cases piece with
  | plain c =>
    simp only [fits, Bool.and_eq_true, bne_iff_ne] at h
    exact Or.inl ⟨c, rfl, h.1.1.1, h.1.1.2⟩
  | escaped c => exact Or.inr ⟨c, [], rfl, List.not_mem_nil, List.not_mem_nil⟩
  | octal digits =>
    simp only [fits, Bool.and_eq_true] at h
    obtain ⟨digit, tail, rfl, -, htail⟩ := isOctalEscape_cases h.1
    exact Or.inr ⟨digit, tail, rfl, quiet_of_all hquote htail (by decide +kernel)⟩
  | hex digits =>
    simp only [fits, Bool.and_eq_true] at h
    exact Or.inr ⟨'x', digits, rfl, quiet_of_all_hex hquote h.2⟩
  | unit digits =>
    simp only [fits, Bool.and_eq_true] at h
    exact Or.inr ⟨'u', digits, rfl, quiet_of_all_hex hquote h.2⟩
  | codePoint digits =>
    simp only [fits, Bool.and_eq_true] at h
    obtain ⟨hopen, hbackslash⟩ := quiet_of_all_hex hquote h.1.2
    refine Or.inr ⟨'u', '{' :: (digits ++ ['}']), rfl, ?_, ?_⟩
    · rcases hquote with rfl | rfl
      · simp [hopen]
      · simp [hopen]
    · simp [hbackslash]
  | continued lineEnd =>
    obtain ⟨c, tail, rfl, htail⟩ := lineEnd_cases h
    refine Or.inr ⟨c, tail, rfl, ?_⟩
    rcases hquote with rfl | rfl <;> rcases htail with rfl | rfl <;> decide

/-- What is read of a piece: at least as many units as the piece stands for, and just these if it is
    simple. -/
structure Read (piece : Piece) (chars : List Char) : Prop where
  length : piece.units.length ≤ (textUnits chars).length
  units : textUnits chars = piece.units ↔ piece.isSimple = true

theorem Read.of_eq {chars : List Char} (h : textUnits chars = piece.units)
    (hsimple : piece.isSimple = true) : piece.Read chars :=
  ⟨Nat.le_of_eq (congrArg List.length h.symm), iff_of_true h hsimple⟩

/-- More characters are read of a piece than it stands for units. -/
theorem Read.of_length {chars : List Char} (h : piece.units.length < chars.length)
    (hsimple : piece.isSimple = false) : piece.Read chars := by
  have hlength := Nat.lt_of_lt_of_le h (length_le_textUnits chars)
  refine ⟨Nat.le_of_lt hlength, iff_of_false ?_ (by simp [hsimple])⟩
  intro hunits
  rw [hunits] at hlength
  exact Nat.lt_irrefl _ hlength

theorem read_escaped {c : Char} (h : isOctal c = false) : (escaped c).Read [escapeMeaning c] := by
  by_cases hletter : c ∈ ['b', 't', 'n', 'v', 'f', 'r']
  · simp only [List.mem_cons, List.not_mem_nil, or_false] at hletter
    rcases hletter with rfl | rfl | rfl | rfl | rfl | rfl <;>
      exact ⟨by decide +kernel, by decide +kernel⟩
  · simp only [List.mem_cons, List.not_mem_nil, or_false, not_or] at hletter
    obtain ⟨hb, ht, hn, hv, hf, hr⟩ := hletter
    have hzero : c ≠ '0' := by
      rintro rfl
      revert h
      decide +kernel
    have hmeaning : escapeMeaning c = c := by simp [escapeMeaning]
    have hunits : escapedUnits c = unitsOf c.toNat := by simp [escapedUnits]
    apply Read.of_eq
    · rw [hmeaning, units, hunits]
      exact List.append_nil _
    · simp [isSimple, hb, hf, hv]

theorem read_octal {digit : Char} {tail : List Char} (hdigit : isOctal digit = true) :
    (octal (digit :: tail)).Read (escapeMeaning digit :: tail) := by
  cases tail with
  | nil =>
    have hcases : digit ∈ ['0', '1', '2', '3', '4', '5', '6', '7'] := by
      simpa [isOctal] using hdigit
    simp only [List.mem_cons, List.not_mem_nil, or_false] at hcases
    rcases hcases with rfl | rfl | rfl | rfl | rfl | rfl | rfl | rfl <;>
      exact ⟨by decide +kernel, by decide +kernel⟩
  | cons second tail =>
    apply Read.of_length
    · simp [units]
    · simp [isSimple]

theorem unescape_escape_plain (c : Char) {tail : List Char} (h : '\\' ∉ tail) :
    unescape ('\\' :: c :: tail) = escapeMeaning c :: tail := by
  have hplain := unescape_plain_append h []
  rw [List.append_nil] at hplain
  rw [unescape_escape, hplain]
  simp [unescape]

theorem read (hquote : quote = '"' ∨ quote = '\x27') (h : piece.fits quote rest = true) :
    piece.Read (unescape piece.spelling) := by
  cases piece with
  | plain c =>
    simp only [fits, Bool.and_eq_true, bne_iff_ne] at h
    have hread : unescape [c] = [c] := unescape_cons h.1.1.2 []
    apply Read.of_eq
    · rw [spelling, hread]
      exact List.append_nil _
    · rfl
  | escaped c =>
    simp only [fits, Bool.and_eq_true, Bool.not_eq_true'] at h
    exact read_escaped h.1.1.1
  | octal digits =>
    simp only [fits, Bool.and_eq_true] at h
    obtain ⟨digit, tail, rfl, hdigit, htail⟩ := isOctalEscape_cases h.1
    have hquiet := quiet_of_all hquote htail (by decide +kernel)
    rw [spelling, unescape_escape_plain digit hquiet.2]
    exact read_octal hdigit
  | hex digits =>
    simp only [fits, Bool.and_eq_true, beq_iff_eq] at h
    rw [spelling, unescape_escape_plain 'x' (quiet_of_all_hex hquote h.2).2]
    apply Read.of_length
    · simp [units, h.1]
    · rfl
  | unit digits =>
    simp only [fits, Bool.and_eq_true, beq_iff_eq] at h
    rw [spelling, unescape_escape_plain 'u' (quiet_of_all_hex hquote h.2).2]
    apply Read.of_length
    · simp [units, h.1]
    · rfl
  | codePoint digits =>
    simp only [fits, Bool.and_eq_true, bne_iff_ne] at h
    have hquiet : '\\' ∉ '{' :: (digits ++ ['}']) := by
      simp [(quiet_of_all_hex hquote h.1.2).2]
    rw [spelling, unescape_escape_plain 'u' hquiet]
    apply Read.of_length
    · have hunits := (length_unitsOf (digitsValue 16 digits)).2
      simp only [units, List.length_cons, List.length_append, List.length_nil]
      omega
    · rfl
  | continued lineEnd =>
    obtain ⟨c, tail, rfl, htail⟩ := lineEnd_cases h
    have hquiet : '\\' ∉ tail := by rcases htail with rfl | rfl <;> decide
    rw [spelling, unescape_escape_plain c hquiet]
    apply Read.of_length
    · simp [units]
    · rfl

end Piece

/-! ### The whole literal -/

theorem units_unescape {quote : Char} (hquote : quote = '"' ∨ quote = '\x27') (pieces : List Piece)
    (h : fitTogether quote pieces = true) :
    (pieces.flatMap Piece.units).length ≤
        (textUnits (unescape (pieces.flatMap Piece.spelling))).length ∧
      (textUnits (unescape (pieces.flatMap Piece.spelling)) = pieces.flatMap Piece.units ↔
        pieces.all Piece.isSimple = true) := by
  induction pieces with
  | nil => exact ⟨Nat.le_refl 0, iff_of_true rfl rfl⟩
  | cons piece rest ih =>
    rw [fitTogether, Bool.and_eq_true] at h
    obtain ⟨hlength, hunits⟩ := ih h.2
    have hread := Piece.read hquote h.1
    rw [List.flatMap_cons, List.flatMap_cons, (Piece.scans hquote h.1).unescape_append,
      textUnits_append, List.length_append, List.length_append]
    refine ⟨Nat.add_le_add hread.length hlength, ?_⟩
    rw [List.all_cons, Bool.and_eq_true, ← hread.units, ← hunits]
    constructor
    · intro heq
      -- nothing is read short, so what is read of the piece has the length of its units
      have htotal := congrArg List.length heq
      rw [List.length_append, List.length_append] at htotal
      have hpiece := hread.length
      exact List.append_inj heq (by omega)
    · rintro ⟨hpiece, hrest⟩
      rw [hpiece, hrest]

theorem splitQuoted_pieces {quote : Char} (hquote : quote = '"' ∨ quote = '\x27')
    (pieces : List Piece) (rest : List Char) (h : fitTogether quote pieces = true) :
    splitQuoted quote (pieces.flatMap Piece.spelling ++ quote :: rest) =
      (pieces.flatMap Piece.spelling ++ [quote], rest) := by
  induction pieces with
  | nil => rcases hquote with rfl | rfl <;> cases rest <;> simp [splitQuoted]
  | cons piece pieces ih =>
    rw [fitTogether, Bool.and_eq_true] at h
    rw [List.flatMap_cons, List.append_assoc, (Piece.scans hquote h.1).splitQuoted_append, ih h.2,
      List.append_assoc]

namespace StringLiteral

/-- A literal is a token, whatever stands behind it. -/
theorem splitToken_text (literal : StringLiteral) (rest : List Char) :
    splitToken (literal.text ++ rest) = (.quoted, literal.text, rest) := by
  have hquoted := splitQuoted_pieces literal.isQuote literal.pieces rest literal.fits
  have hopening : (literal.quote == '"' || literal.quote == '\x27') = true := by
    simpa using literal.isQuote
  rw [text, body, List.cons_append, List.append_assoc, List.singleton_append, splitToken,
    if_pos hopening, hquoted]

def node (literal : StringLiteral) (offset : Nat) : Node :=
  ⟨0, .string, none, offset, offset + byteWidth literal.text, String.ofList literal.text, []⟩

theorem node_writes (literal : StringLiteral) (offset : Nat) :
    (literal.node offset).Writes literal := ⟨rfl, rfl⟩

/-- Where a literal stands, it is the next token. -/
theorem place_text (literal : StringLiteral) (offset : Nat) (rest : List Char)
    (comments : List Comment) :
    Cursor.place offset (literal.text ++ rest) comments =
      { last := offset
        behind := literal.text ++ rest
        comments := comments
        token := ⟨.quoted, String.ofList literal.text, offset, offset + byteWidth literal.text,
          false⟩
        front := literal.text ++ rest
        rest := rest } := by
  have hgap : readGap .blank offset comments false (literal.text ++ rest) =
      ⟨comments, false, offset, literal.text ++ rest⟩ := by
    rcases literal.isQuote with hquote | hquote
    · rw [text, hquote]
      rfl
    · rw [text, hquote]
      rfl
  unfold Cursor.place
  dsimp only
  rw [hgap, splitToken_text]

/-- As an operand and as a key, a literal is read as a node that writes it, up to what stands behind
    it. -/
theorem run_place (g : Grammar) (literal : StringLiteral) (inAllowed : Bool) (offset : Nat)
    (rest : List Char) (comments : List Comment) :
    let place := Cursor.place offset (literal.text ++ rest) comments
    let behind := Cursor.place (offset + byteWidth literal.text) rest comments
    (g.primary inAllowed).run place = some (literal.node offset, behind) ∧
      g.propertyName.run place = some (literal.node offset, behind) ∧
      (literal.node offset).Writes literal := by
  dsimp only
  rw [place_text]
  exact ⟨rfl, rfl, literal.node_writes offset⟩

theorem stringValue?_of_writes {literal : StringLiteral} {node : Node} (h : node.Writes literal) :
    node.stringValue? = some (String.ofList (unescape literal.body)) := by
  obtain ⟨c, rest, hrest⟩ := List.exists_cons_of_ne_nil
    (List.append_ne_nil_of_right_ne_nil literal.body (List.cons_ne_nil literal.quote []))
  unfold Node.stringValue?
  rw [h.kind, h.lexeme, String.toList_ofList, text, hrest]
  dsimp only
  rw [← hrest, List.dropLast_concat]
  rfl

/-- The value of a literal's node is what the literal denotes just when the literal is simple. -/
theorem stringValue?_eq_iff {literal : StringLiteral} {node : Node} {name : String}
    (h : node.Writes literal) (hname : literal.Denotes name) :
    node.stringValue? = some name ↔ literal.isSimple = true := by
  rw [stringValue?_of_writes h, Option.some.injEq, isSimple,
    ← (units_unescape literal.isQuote literal.pieces literal.fits).2]
  constructor
  · rintro rfl
    rw [Denotes, String.toList_ofList] at hname
    exact hname.symm
  · intro hunits
    rw [← String.ofList_toList (s := name)]
    exact congrArg String.ofList (textUnits_injective (hunits.trans hname))

/-- Two escapes that spell one character by its surrogate pair. -/
example : (⟨'"', [.unit ['D', '8', '3', 'D'], .unit ['D', 'E', '0', '0']], Or.inl rfl,
    by decide +kernel⟩ : StringLiteral).Denotes "😀" := by decide +kernel

end StringLiteral

end Capabilities.Script
