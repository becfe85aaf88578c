/-
Exact arithmetic on 64-bit floating-point numbers.

`Binary64.ofFloat` reads a number as `± mantissa · 2 ^ exponent`; everything exact (comparison with whole numbers,
truncation, rounding of a quotient to the nearest number) is then arithmetic on `Nat` and `Int`.
-/

namespace LevelScript.Decimal

/-- the quotient of two numbers rounded to the nearest whole number; a tie goes to the even one -/
def divRoundEven (num den : Nat) : Nat :=
  let q := num / den
  let r := num % den
  if 2 * r < den ∨ (2 * r = den ∧ q % 2 = 0) then q else q + 1

/-- what a 64-bit pattern stands for -/
inductive Binary64 where
  | nan
  | infinite (negative : Bool)
  | finite (negative : Bool) (mantissa : Nat) (exponent : Int)
  deriving DecidableEq, Repr

/-- the exponent of the numbers nearest to zero -/
def minExponent : Int := -1074

/-- the pattern of positive infinity: patterns below it are the non-negative finite numbers in ascending order -/
def infinityBits : Nat := 0x7ff0000000000000

def Binary64.ofBits (bits : Nat) : Binary64 :=
  let negative := bits / Nat.pow 2 63 % 2 = 1
  let biased : Nat := bits / Nat.pow 2 52 % Nat.pow 2 11
  let fraction := bits % Nat.pow 2 52
  if biased = 0x7ff then (if fraction = 0 then .infinite negative else .nan)
  else if biased = 0 then .finite negative fraction minExponent
  else .finite negative (fraction + Nat.pow 2 52) (minExponent + (Int.ofNat biased - 1))

def Binary64.ofFloat (x : Float) : Binary64 :=
  .ofBits x.toBits.toNat

/-- the pattern of the number nearest to a quotient, ties to even; at least `infinityBits` if none is large enough -/
def nearestBits (num den : Nat) : Nat :=
  if num = 0 then 0
  else
    let guess : Int := Int.ofNat num.log2 - Int.ofNat den.log2
    let top := if den * Nat.pow 2 guess.toNat ≤ num * Nat.pow 2 (-guess).toNat then guess else guess - 1
    let exponent := max minExponent (top - 52)
    let mantissa := divRoundEven (num * Nat.pow 2 (-exponent).toNat) (den * Nat.pow 2 exponent.toNat)
    (exponent - minExponent).toNat * Nat.pow 2 52 + mantissa

/-- the floating-point number nearest to a signed quotient; a quotient beyond the largest one becomes infinite -/
def ofQuotient (negative : Bool) (num den : Nat) : Float :=
  let bits := min (nearestBits num den) infinityBits
  Float.ofBits (UInt64.ofNat (if negative then bits + Nat.pow 2 63 else bits))

def infinite (negative : Bool) : Float :=
  if negative then -1.0 / 0.0 else 1.0 / 0.0

/-- a whole number as the nearest floating-point number, if it is within range -/
def ofInt? (n : Int) : Option Float :=
  if infinityBits ≤ nearestBits n.natAbs 1 then none else some (ofQuotient (n < 0) n.natAbs 1)

def signed (negative : Bool) (n : Nat) : Int :=
  if negative then -(Int.ofNat n) else Int.ofNat n

/-- a number without its fraction, rounded toward zero; infinities and NaN have none -/
def truncate? (x : Float) : Option Int :=
  match Binary64.ofFloat x with
  | .finite negative mantissa exponent =>
    some (signed negative (mantissa * Nat.pow 2 exponent.toNat / Nat.pow 2 (-exponent).toNat))
  | _ => none

/-- the order of a whole number and a floating-point number, by their exact values; NaN has none -/
def compareInt? (n : Int) (x : Float) : Option Ordering :=
  match Binary64.ofFloat x with
  | .nan => none
  | .infinite negative => some (if negative then .gt else .lt)
  | .finite negative mantissa exponent =>
    some (compare (n * Int.ofNat (Nat.pow 2 (-exponent).toNat)) (signed negative (mantissa * Nat.pow 2 exponent.toNat)))

end LevelScript.Decimal
