/-
Characters and texts: digits, blanks, separators and lines.

In Unicode the ten digits of a script follow each other, so a table of the zeros gives every digit its value. The blanks
are the white space of Unicode together with the separators U+001C to U+001F; they are dropped around command-line
values and around the text of numbers. A text has one piece more than it has separators, so that joining the pieces gives
it back.

The lines of a text are those that diagnostics quote. A line ends at a line feed, a carriage return (one break together
with a line feed that follows it), a vertical tab, a form feed, one of the separators U+001C to U+001E, the next-line
control U+0085, or U+2028 or U+2029. A break at the very end of the text opens no further line.
-/

namespace LevelScript.Text

/-! ## Digits -/

/-- the code points of the digit zero, script by script (Unicode 14) -/
def zeros : List Nat :=
  [0x30, 0x660, 0x6f0, 0x7c0, 0x966, 0x9e6, 0xa66, 0xae6, 0xb66, 0xbe6, 0xc66, 0xce6, 0xd66, 0xde6, 0xe50, 0xed0,
    0xf20, 0x1040, 0x1090, 0x17e0, 0x1810, 0x1946, 0x19d0, 0x1a80, 0x1a90, 0x1b50, 0x1bb0, 0x1c40, 0x1c50, 0xa620,
    0xa8d0, 0xa900, 0xa9d0, 0xa9f0, 0xaa50, 0xabf0, 0xff10, 0x104a0, 0x10d30, 0x11066, 0x110f0, 0x11136, 0x111d0,
    0x112f0, 0x11450, 0x114d0, 0x11650, 0x116c0, 0x11730, 0x118e0, 0x11950, 0x11c50, 0x11d50, 0x11da0, 0x16a60,
    0x16ac0, 0x16b50, 0x1d7ce, 0x1d7d8, 0x1d7e2, 0x1d7ec, 0x1d7f6, 0x1e140, 0x1e2f0, 0x1e950, 0x1fbf0]

def digitValue? (c : Char) : Option Nat :=
  (zeros.find? fun z => z ≤ c.toNat && c.toNat < z + 10).map (c.toNat - ·)

/-- the number that a run of ASCII digits spells -/
def digitsValue (digits : List Char) : Nat :=
  digits.foldl (fun n c => 10 * n + (c.toNat - 48)) 0

/-! ## Blanks and capitals -/

/-- the characters that trimming drops -/
def isBlank (c : Char) : Bool :=
  let code := c.toNat
  (0x9 ≤ code && code ≤ 0xd) || (0x1c ≤ code && code ≤ 0x20) || code = 0x85 || code = 0xa0 || code = 0x1680 ||
    (0x2000 ≤ code && code ≤ 0x200a) || code = 0x2028 || code = 0x2029 || code = 0x202f || code = 0x205f ||
    code = 0x3000

def trimChars (text : List Char) : List Char :=
  ((text.dropWhile isBlank).reverse.dropWhile isBlank).reverse

def trim (text : String) : String :=
  String.ofList (trimChars text.toList)

/-- a text with the lower-case letters of ASCII in place of its capitals -/
def lower (text : String) : String :=
  String.ofList (text.toList.map Char.toLower)

/-- the capitals of ASCII in place of the lower-case letters; the dotless i and the long s, whose capitals are ASCII
letters too, become `I` and `S` -/
def upperChar (c : Char) : Char :=
  if c = '\u0131' then 'I' else if c = '\u017f' then 'S' else c.toUpper

/-- a text in capitals, as far as ASCII letters result -/
def upper (text : String) : String :=
  String.ofList (text.toList.map upperChar)

/-! ## Pieces and lines -/

/-- the pieces of a text between occurrences of a separator -/
def pieces (separator : Char) : List Char → List (List Char)
  | [] => [[]]
  | c :: rest =>
    let others := pieces separator rest
    if c = separator then [] :: others else (c :: others.headD []) :: others.tail

def isLineBreak (c : Char) : Bool :=
  c = '\n' || c = '\r' || c = '\x0b' || c = '\x0c' || c = '\x1c' || c = '\x1d' || c = '\x1e' ||
    c = '\u0085' || c = '\u2028' || c = '\u2029'

/-- the lines of the characters that remain, where `line` holds what the current line has so far, last character first -/
def linesFrom (line : List Char) : List Char → List String
  | [] => if line.isEmpty then [] else [String.ofList line.reverse]
  | '\r' :: '\n' :: rest => String.ofList line.reverse :: linesFrom [] rest
  | c :: rest =>
    if isLineBreak c then String.ofList line.reverse :: linesFrom [] rest else linesFrom (c :: line) rest

def lines (text : String) : List String :=
  linesFrom [] text.toList

/-- the line of the given number, counted from one; no line has the number zero -/
def line? (text : String) : Nat → Option String
  | 0 => none
  | n + 1 => (lines text)[n]?

/-- a text as it is read from a file: every carriage return, alone or before a line feed, becomes a line feed -/
def unixBreaks : List Char → List Char
  | [] => []
  | '\r' :: '\n' :: rest => '\n' :: unixBreaks rest
  | c :: rest => (if c = '\r' then '\n' else c) :: unixBreaks rest

end LevelScript.Text
