/-
The texts of numbers.

`Layout.write` shows a floating-point number by the fewest digits that read back; a `Layout` holds the decisions of one
format. `fixedText` shows a number with a fixed count of decimal places, and `intText?` a whole number, unless it is
too long.
-/
import LevelScript.Decimal.Shortest

namespace LevelScript.Decimal

/-- the decisions of a format for floating-point numbers; a number whose first digit stands for `10 ^ k` is written
without an exponent if `lowest ≤ k < highest` -/
structure Layout where
  lowest : Int := -4
  highest : Int := 16
  exponentPlaces : Nat := 2
  pointBeforeExponent : Bool := false
  infinity : String := "inf"
  nan : String := "nan"

/-- the decimal digits of a number, filled up with zeros in front to the given width -/
def padded (width n : Nat) : List Char :=
  let digits := Nat.toDigits 10 n
  List.replicate (width - digits.length) '0' ++ digits

/-- digits with a point after the first `whole` of them; both sides have a digit at least -/
def pointed (digits : List Char) (whole : Nat) : List Char :=
  digits.take whole ++ List.replicate (whole - digits.length) '0' ++ '.' ::
    (if digits.length ≤ whole then ['0'] else digits.drop whole)

def Layout.digitsText (layout : Layout) (s : Scientific) : List Char :=
  let digits := padded s.places s.digits
  if layout.lowest ≤ s.scale ∧ s.scale < layout.highest then
    if 0 ≤ s.scale then pointed digits (s.scale.toNat + 1)
    else '0' :: '.' :: List.replicate (-s.scale - 1).toNat '0' ++ digits
  else
    let front := if digits.length = 1 ∧ !layout.pointBeforeExponent then digits else pointed digits 1
    front ++ 'e' :: (if s.scale < 0 then '-' else '+') :: padded layout.exponentPlaces s.scale.natAbs

/-- the text of a floating-point number by the fewest digits that read back -/
def Layout.write (layout : Layout) (x : Float) : String :=
  match Binary64.ofFloat x with
  | .nan => layout.nan
  | .infinite negative => if negative then "-" ++ layout.infinity else layout.infinity
  | .finite negative mantissa exponent =>
    let digits := if mantissa = 0 then ['0', '.', '0'] else layout.digitsText (shortest mantissa exponent)
    String.ofList (if negative then '-' :: digits else digits)

/-- the text of a floating-point number with a fixed count of decimal places, its exact value rounded half to even -/
def fixedText (places : Nat) (x : Float) : String :=
  match Binary64.ofFloat x with
  | .nan => "nan"
  | .infinite negative => if negative then "-inf" else "inf"
  | .finite negative mantissa exponent =>
    let scaled := divRoundEven (mantissa * Nat.pow 2 exponent.toNat * Nat.pow 10 places) (Nat.pow 2 (-exponent).toNat)
    let digits := padded (places + 1) scaled
    let text := digits.take (digits.length - places) ++ '.' :: digits.drop (digits.length - places)
    String.ofList (if negative then '-' :: text else text)

/-- the greatest count of digits of a whole number that is written or read -/
def maxDigits : Nat := 4300

/-- the text of a whole number, unless it has more than `maxDigits` digits -/
def intText? (n : Int) : Option String :=
  if Nat.pow 10 maxDigits ≤ n.natAbs then none else some (toString n)

end LevelScript.Decimal
