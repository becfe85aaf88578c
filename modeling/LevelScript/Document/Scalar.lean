/-
Plain words of a document, and what they stand for.

A word that spells nothing, a truth value or a number stands for it; every other word stands for itself. Numbers have
the forms of YAML 1.1: underscores may stand among the digits, whole numbers may be binary, octal or hexadecimal, and
numbers with colons count in sixties. A floating-point number needs a point, and its exponent a sign.
-/
import LevelScript.Data
import LevelScript.Diagnostic
import LevelScript.Text.Basic

namespace LevelScript.Document

open LevelScript.Decimal
open LevelScript.Text (digitsValue pieces)

def nullWords : List String :=
  ["", "~", "null", "Null", "NULL"]

def trueWords : List String :=
  ["yes", "Yes", "YES", "true", "True", "TRUE", "on", "On", "ON"]

def falseWords : List String :=
  ["no", "No", "NO", "false", "False", "FALSE", "off", "Off", "OFF"]

/-- the value of a digit in bases up to sixteen -/
def baseDigit (c : Char) : Nat :=
  if c.isDigit then c.toNat - 48 else c.toLower.toNat - 87

/-- whether a character is a digit of a base up to sixteen, or an underscore -/
def inBase (base : Nat) (c : Char) : Bool :=
  c = '_' || ((c.isDigit || ('a' ≤ c.toLower && c.toLower ≤ 'f')) && baseDigit c < base)

/-- characters without the underscores -/
def bare (chars : List Char) : List Char :=
  chars.filter (· ≠ '_')

/-- the number that digits of a base spell, underscores aside; there must be a digit -/
def ofBase (base : Nat) (chars : List Char) : Except HostError Nat :=
  let digits := bare chars
  if digits.isEmpty then
    .error (.invalidValue ("invalid literal for int() with base " ++ toString base ++ ": ''"))
  else .ok (digits.foldl (fun n c => base * n + baseDigit c) 0)

/-- the number that decimal digits spell, underscores aside; there must not be too many -/
def ofDigits (chars : List Char) : Except HostError Nat :=
  let digits := bare chars
  if maxDigits < digits.length then .error (.tooManyDigitsRead digits.length) else .ok (digitsValue digits)

/-- whether characters are decimal digits and underscores, with a digit in front -/
def isRun : List Char → Bool
  | c :: rest => c.isDigit && rest.all (inBase 10)
  | [] => false

/-- whether characters are a part after a colon: a number below sixty in one or two digits -/
def isSixtieth : List Char → Bool
  | [c] => c.isDigit
  | [d, c] => '0' ≤ d && d ≤ '5' && c.isDigit
  | _ => false

/-- the whole number that a word without a sign spells, if it has the form of one -/
def natural? : List Char → Option (Except HostError Nat)
  | '0' :: 'b' :: digits => if digits.isEmpty || !digits.all (inBase 2) then none else some (ofBase 2 digits)
  | '0' :: 'x' :: digits => if digits.isEmpty || !digits.all (inBase 16) then none else some (ofBase 16 digits)
  | '0' :: digits => if digits.all (inBase 8) then some (ofBase 8 ('0' :: digits)) else none
  | word =>
    match pieces ':' word with
    | first :: parts =>
      if isRun first && parts.all isSixtieth then
        some ((ofDigits first).map fun n => parts.foldl (fun n part => 60 * n + digitsValue part) n)
      else none
    | [] => none

/-- whether characters are the exponent of a number, or nothing -/
def isExponent : List Char → Bool
  | [] => true
  | e :: sign :: digits =>
    (e = 'e' || e = 'E') && (sign = '+' || sign = '-') && !digits.isEmpty && digits.all Char.isDigit
  | _ => false

/-- whether characters are digits and underscores with an exponent after them, if there is one -/
def isFraction (chars : List Char) : Bool :=
  isExponent (chars.dropWhile (inBase 10))

/-- the floating-point number that pieces of sixties spell, the last of which has a point -/
def ofSixtieths (parts : List (List Char)) : Float :=
  let readings := parts.map fun part => (readFloat? (String.ofList (bare part))).getD 0.0
  (readings.reverse.foldl (fun (sum, unit) x => (sum + x * unit, unit * 60.0)) ((0.0 : Float), (1.0 : Float))).1

/-- the floating-point number that a word spells, if it has the form of one -/
def fraction? (word : List Char) : Option Float :=
  let (negative, chars) := splitSign word
  match chars with
  | '.' :: digits =>
    let name := String.ofList digits
    if name = "inf" ∨ name = "Inf" ∨ name = "INF" then some (infinite negative)
    else if word ≠ chars then none
    else if name = "nan" ∨ name = "NaN" ∨ name = "NAN" then some (0.0 / 0.0)
    else match digits with
      | c :: _ => if c.isDigit && isFraction digits then readFloat? (String.ofList (bare word)) else none
      | [] => none
  | _ =>
    let whole := chars.takeWhile (· ≠ '.')
    match pieces ':' whole, chars.dropWhile (· ≠ '.') with
    | [digits], '.' :: tail =>
      if isRun digits && isFraction tail then readFloat? (String.ofList (bare word)) else none
    | first :: parts, '.' :: tail =>
      if isRun first && parts.all isSixtieth && tail.all (inBase 10) then
        some ((if negative then -1.0 else 1.0) * ofSixtieths (pieces ':' chars))
      else none
    | _, _ => none

/-- the data that a plain word stands for -/
def ofWord (word : String) : Except HostError Data :=
  if nullWords.contains word then .ok .null
  else if trueWords.contains word then .ok (.bool true)
  else if falseWords.contains word then .ok (.bool false)
  else match fraction? word.toList with
    | some x => .ok (.float x)
    | none =>
      let (negative, chars) := splitSign word.toList
      match natural? chars with
      | some n => n.map fun n => .int (signed negative n)
      | none => .ok (.text word)

end LevelScript.Document
