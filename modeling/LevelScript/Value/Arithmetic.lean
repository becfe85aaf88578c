/-
Operators on values.

Whole numbers are unbounded and stay whole among themselves; a floating-point operand makes the result floating-point.
Vectors of one type add and subtract, and vectors and numbers multiply. Comparisons of a whole with a floating-point
number are exact. An operator that has no rule for its operands gives no value.
-/
import LevelScript.Value.Cast

namespace LevelScript

open LevelScript.Syntax

inductive Number where
  | int (n : Int)
  | float (x : Float)

def Val.number? : Val → Option Number
  | .int n => some (.int n)
  | .float x => some (.float x)
  | _ => none

namespace Number

def toFloat : Number → Except Interrupt Float
  | .int n => match Decimal.ofInt? n with
    | some x => .ok x
    | none => .error (.host .intTooLarge)
  | .float x => .ok x

/-- the operation on two numbers: the first function for whole numbers, the second one otherwise -/
def combine (whole : Int → Int → Int) (real : Float → Float → Float) : Number → Number → Except Interrupt Val
  | .int a, .int b => .ok (.int (whole a b))
  | a, b => do return .float (real (← a.toFloat) (← b.toFloat))

/-- whether a number is zero, of either sign -/
def isZero : Number → Bool
  | .int n => n = 0
  | .float x => x == 0.0

/-- the order of two numbers by their exact values; NaN has none -/
def compare? : Number → Number → Option Ordering
  | .int a, .int b => some (compare a b)
  | .int a, .float y => Decimal.compareInt? a y
  | .float x, .int b => (Decimal.compareInt? b x).map Ordering.swap
  | .float x, .float y => if x < y then some .lt else if x == y then some .eq else if y < x then some .gt else none

end Number

def Val.mapVector? (f : Float → Float) : Val → Option Val
  | .vec2 x y => some (.vec2 (f x) (f y))
  | .vec3 x y z => some (.vec3 (f x) (f y) (f z))
  | _ => none

/-- the vector of two vectors of one type, component by component -/
def Val.zipVector? (f : Float → Float → Float) : Val → Val → Option Val
  | .vec2 a b, .vec2 c d => some (.vec2 (f a c) (f b d))
  | .vec3 a b c, .vec3 d e g => some (.vec3 (f a d) (f b e) (f c g))
  | _, _ => none

/-- a number with the other sign; a whole zero has none -/
def Number.negated : Number → Number
  | .int n => .int (-n)
  | .float x => .float (-x)

/-- sums of numbers and of vectors of one type -/
def Val.add (a b : Val) : Except Interrupt (Option Val) :=
  match a.number?, b.number? with
  | some m, some n => some <$> m.combine (· + ·) (· + ·) n
  | _, _ => .ok (a.zipVector? (· + ·) b)

/-- differences: the sum with the right operand negated, so that a negative zero less a whole zero is positive -/
def Val.subtract (a b : Val) : Except Interrupt (Option Val) :=
  match a.number?, b.number? with
  | some m, some n => some <$> m.combine (· + ·) (· + ·) n.negated
  | _, _ => .ok (a.zipVector? (fun x y => x + -y) b)

/-- products of numbers, or of a vector and a number on either side -/
def Val.multiply (a b : Val) : Except Interrupt (Option Val) :=
  match a.number?, b.number? with
  | some m, some n => some <$> m.combine (· * ·) (· * ·) n
  | none, some n => if a.type.isVector then do let x ← n.toFloat; return a.mapVector? (· * x) else .ok none
  | some m, none => if b.type.isVector then do let x ← m.toFloat; return b.mapVector? (x * ·) else .ok none
  | none, none => .ok none

/-- the quotient of the magnitudes, with a minus sign if just one of the numbers is negative -/
def quotientOfMagnitudes (a b : Int) : Int :=
  let q : Int := (a.natAbs / b.natAbs : Nat)
  if 0 ≤ a ↔ 0 ≤ b then q else -q

/-- quotients of numbers, toward zero between whole numbers, and of a vector by a number -/
def Val.divide (a b : Val) (span : Span) : Except Interrupt (Option Val) :=
  match a.number?, b.number? with
  | some m, some n =>
    if n.isZero then .error (.at .divisionByZero span) else some <$> m.combine quotientOfMagnitudes (· / ·) n
  | none, some n =>
    if a.type.isVector then
      if n.isZero then .error (.at .divisionByZero span)
      else do let x ← n.toFloat; return a.mapVector? (· / x)
    else .ok none
  | _, none => .ok none

/-- whether an order satisfies a comparison; nothing is true of a pair without order -/
def Syntax.Operator.holds (op : Operator) (order : Option Ordering) : Bool :=
  match op, order with
  | .lt, some .lt | .gt, some .gt | .eq, some .eq | .le, some .lt | .le, some .eq | .ge, some .gt | .ge, some .eq => true
  | _, _ => false

/-- comparisons of numbers, and equality of truth values -/
def Val.compareWith (op : Operator) (a b : Val) : Option Val :=
  match a.number?, b.number? with
  | some m, some n => some (.bool (op.holds (m.compare? n)))
  | _, _ => match op, a, b with
    | .eq, .bool p, .bool q => some (.bool (p = q))
    | _, _, _ => none

/-- the result of an operator, if it has a rule for the types of its operands; `span` is the place of a division -/
def Syntax.Operator.apply? (op : Operator) (a b : Val) (span : Span) : Except Interrupt (Option Val) :=
  match op with
  | .add => a.add b
  | .sub => a.subtract b
  | .mul => a.multiply b
  | .div => a.divide b span
  | .lt | .gt | .le | .ge | .eq => .ok (a.compareWith op b)

def Syntax.Operator.apply (op : Operator) (a b : Val) (span : Span) : Except Interrupt Val := do
  match ← op.apply? a b span with
  | some v => return v
  | none => throw (.at (.operandTypes op a.type b.type) span)

/-- the place of a component in a vector of the given type -/
def componentIndex? (t : Ty) (member : String) : Option Nat :=
  match t, member with
  | .vec2, "x" | .vec3, "x" => some 0
  | .vec2, "y" | .vec3, "y" => some 1
  | .vec3, "z" => some 2
  | _, _ => none

def Val.component? : Val → Nat → Option Float
  | .vec2 x _, 0 | .vec3 x _ _, 0 => some x
  | .vec2 _ y, 1 | .vec3 _ y _, 1 => some y
  | .vec3 _ _ z, 2 => some z
  | _, _ => none

def Val.setComponent (v : Val) (place : Nat) (c : Float) : Val :=
  match v, place with
  | .vec2 _ y, 0 => .vec2 c y
  | .vec2 x _, 1 => .vec2 x c
  | .vec3 _ y z, 0 => .vec3 c y z
  | .vec3 x _ z, 1 => .vec3 x c z
  | .vec3 x y _, 2 => .vec3 x y c
  | _, _ => v

end LevelScript
