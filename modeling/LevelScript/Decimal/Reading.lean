/-
Numbers read from text.

Digits of any script count by their value, a single underscore may stand between two digits, and blanks around the
number are dropped. A whole number is a run of digits after an optional sign; a floating-point number may have a point,
an exponent, or be one of the words `inf`, `infinity` and `nan` in any case.
-/
import LevelScript.Text.Basic
import LevelScript.Decimal.Text

namespace LevelScript.Decimal

open LevelScript.Text

/-- the outcome of reading a whole number; a text with too many digits is refused whatever follows them -/
inductive IntReading where
  | value (n : Int)
  | malformed
  | tooLong (digits : Nat)
  deriving DecidableEq, Repr

/-- a character as it counts in a number: digits of other scripts become ASCII digits and blanks beyond ASCII become
spaces -/
def plainChar (c : Char) : Char :=
  if c.toNat < 127 then c
  else if isBlank c then ' '
  else match digitValue? c with
    | some d => Char.ofNat (48 + d)
    | none => '?'

/-- the blanks that are dropped around a number -/
def isNumberBlank (c : Char) : Bool :=
  c = ' ' || (0x9 ≤ c.toNat && c.toNat ≤ 0xd)

/-- the characters of a number without the blanks around it -/
def numberChars (text : String) : List Char :=
  let chars := (text.toList.map plainChar).dropWhile isNumberBlank
  (chars.reverse.dropWhile isNumberBlank).reverse

/-- whether every underscore stands between two digits; `afterDigit` tells whether a digit precedes -/
def underscoresFit (afterDigit : Bool) : List Char → Bool
  | [] => true
  | '_' :: c :: rest => afterDigit && c.isDigit && underscoresFit true rest
  | '_' :: [] => false
  | c :: rest => underscoresFit c.isDigit rest

/-- a sign, if there is one, and what follows it; true for a minus -/
def splitSign : List Char → Bool × List Char
  | '-' :: rest => (true, rest)
  | '+' :: rest => (false, rest)
  | chars => (false, chars)

def readInt (text : String) : IntReading :=
  let (negative, chars) := splitSign (numberChars text)
  let run := chars.takeWhile fun c => c.isDigit || c = '_'
  let digits := run.filter Char.isDigit
  if run.isEmpty || !underscoresFit false run then .malformed
  else if maxDigits < digits.length then .tooLong digits.length
  else if run.length < chars.length then .malformed
  else .value (signed negative (digitsValue digits))

/-- the floating-point number nearest to `digits · 10 ^ power`; exponents far out of range are not multiplied out -/
def ofDecimal (negative : Bool) (digits : List Char) (power : Int) : Float :=
  let n := digitsValue digits
  let top := Int.ofNat (digitCount n) + power
  if n = 0 ∨ top < -400 then ofQuotient negative 0 1
  else if 400 < top then infinite negative
  else ofQuotient negative (n * Nat.pow 10 power.toNat) (Nat.pow 10 (-power).toNat)

/-- an exponent: a letter e, an optional sign and digits up to the end; no exponent counts as zero -/
def readExponent? : List Char → Option Int
  | [] => some 0
  | e :: rest =>
    let (negative, digits) := splitSign rest
    if (e = 'e' || e = 'E') && !digits.isEmpty && digits.all Char.isDigit then
      some (signed negative (digitsValue digits))
    else none

/-- a decimal with an optional point and exponent -/
def readDecimal? (negative : Bool) (chars : List Char) : Option Float :=
  let whole := chars.takeWhile Char.isDigit
  let rest := chars.dropWhile Char.isDigit
  let (fraction, tail) := match rest with
    | '.' :: more => (more.takeWhile Char.isDigit, more.dropWhile Char.isDigit)
    | _ => ([], rest)
  if whole.isEmpty && fraction.isEmpty then none
  else (readExponent? tail).map fun e => ofDecimal negative (whole ++ fraction) (e - fraction.length)

def readFloat? (text : String) : Option Float :=
  let chars := numberChars text
  if !underscoresFit false chars then none
  else
    let (negative, chars) := splitSign (chars.filter (· ≠ '_'))
    let word := String.ofList (chars.map Char.toLower)
    if word = "inf" ∨ word = "infinity" then some (infinite negative)
    else if word = "nan" then some (0.0 / 0.0)
    else readDecimal? negative chars

end LevelScript.Decimal
