/-
The shortest decimal that reads back as a given floating-point number.

The reals that round to `mantissa · 2 ^ exponent` form an interval, closed exactly if the mantissa is even. For one to
seventeen digits in turn, the two neighbours of the number on the grid of decimals with that many digits are tried; the
first grid with a neighbour in the interval wins, and of two hits the nearer one.
-/
import LevelScript.Decimal.Binary64

namespace LevelScript.Decimal

/-- a decimal `digits · 10 ^ (scale - places + 1)`, where `places` is the number of digits: `scale` is the power of ten
of the first digit -/
structure Scientific where
  digits : Nat
  places : Nat
  scale : Int
  deriving DecidableEq, Repr

/-- the number of decimal digits of a number; zero has none -/
def digitCount (n : Nat) : Nat :=
  if n = 0 then 0 else (Nat.toDigits 10 n).length

/-- the power of ten of the first digit of a positive quotient -/
def leadingPower (num den : Nat) : Int :=
  if den ≤ num then Int.ofNat (digitCount (num / den)) - 1
  else -Int.ofNat (digitCount ((den + num - 1) / num - 1))

/-- the interval of reals that round to a number, all over the common denominator `den` -/
structure Rounding where
  low : Nat
  value : Nat
  high : Nat
  den : Nat
  closed : Bool

/-- the reals that round to `mantissa · 2 ^ exponent`: half a unit above and below, but only a quarter below a power of
two, whose lower neighbours are closer -/
def Rounding.around (mantissa : Nat) (exponent : Int) : Rounding :=
  let unit := Nat.pow 2 (exponent - 2).toNat
  let below := if mantissa = Nat.pow 2 52 ∧ minExponent < exponent then 1 else 2
  ⟨(4 * mantissa - below) * unit, 4 * mantissa * unit, (4 * mantissa + 2) * unit, Nat.pow 2 (2 - exponent).toNat,
    mantissa % 2 = 0⟩

/-- whether the decimal `n · 10 ^ power` lies in the interval -/
def Rounding.admits (r : Rounding) (n : Nat) (power : Int) : Bool :=
  let x := n * Nat.pow 10 power.toNat * r.den
  let shift := Nat.pow 10 (-power).toNat
  if r.closed then r.low * shift ≤ x ∧ x ≤ r.high * shift else r.low * shift < x ∧ x < r.high * shift

/-- the decimal with the given number of places that is nearest to the number; of two equally near ones, the one with an
even last digit -/
def Rounding.nearest (r : Rounding) (scale : Int) (places : Nat) : Nat :=
  let power := scale - places + 1
  divRoundEven (r.value * Nat.pow 10 (-power).toNat) (r.den * Nat.pow 10 power.toNat)

/-- the decimal with the given number of places that reads back, if there is one: the nearest, else the neighbour on the
other side of the number -/
def Rounding.candidate? (r : Rounding) (scale : Int) (places : Nat) : Option Scientific :=
  let power := scale - places + 1
  let below := r.value * Nat.pow 10 (-power).toNat / (r.den * Nat.pow 10 power.toNat)
  let nearest := r.nearest scale places
  let other := if nearest = below then below + 1 else below
  ([nearest, other].find? (r.admits · power)).map fun n => ⟨n, places, scale⟩

/-- the first of the grids, from the one with `places` digits on, that has a decimal which reads back; the nearest
decimal on the last grid, if none has -/
def Rounding.search (r : Rounding) (scale : Int) : Nat → Nat → Scientific
  | 0, places => ⟨r.nearest scale places, places, scale⟩
  | grids + 1, places => (r.candidate? scale places).getD (r.search scale grids (places + 1))

/-- a decimal whose digits have grown to the next power of ten, with one place less -/
def Scientific.carried (s : Scientific) : Scientific :=
  if s.digits = Nat.pow 10 s.places then ⟨Nat.pow 10 (s.places - 1), s.places, s.scale + 1⟩ else s

/-- the shortest decimal that reads back as the positive number `mantissa · 2 ^ exponent` -/
def shortest (mantissa : Nat) (exponent : Int) : Scientific :=
  let r := Rounding.around mantissa exponent
  (r.search (leadingPower r.value r.den) 16 1).carried

end LevelScript.Decimal
