/-
Casts and default values.

A value of the target type stays as it is; whole and floating-point numbers turn into each other, toward zero. There is
no other cast.
-/
import LevelScript.Value.Basic
import LevelScript.Fault

namespace LevelScript

open LevelScript.Syntax

/-- a value as the given type; `span` is the place that a fault names -/
def Val.cast (v : Val) (target : Ty) (span : Option Span := none) : Except Interrupt Val :=
  if v.type = target then .ok v
  else match v, target with
    | .int n, .float => match Decimal.ofInt? n with
      | some x => .ok (.float x)
      | none => .error (.host .intTooLarge)
    | .float x, .int => match Decimal.truncate? x with
      | some n => .ok (.int n)
      | none => .error (.fault ⟨.invalidCast .float .int, span⟩)
    | _, _ => .error (.fault ⟨.invalidCast v.type target, span⟩)

/-- the value of a declaration without an initial value; the list, which is new, comes from the heap -/
def Heap.defaultVal? (h : Heap) : Ty → Option (Val × Heap)
  | .void => some (.void, h)
  | .bool => some (.bool false, h)
  | .int => some (.int 0, h)
  | .float => some (.float 0.0, h)
  | .vec2 => some (.vec2 0.0 0.0, h)
  | .vec3 => some (.vec3 0.0 0.0 0.0, h)
  | .list => let (a, h) := h.insert #[]; some (.list a, h)
  | .string => some (.string "", h)
  | .fn | .nativeFn | .error => none

def noDefault (t : Ty) : HostError :=
  .invalidValue ("Type " ++ t.name ++ " has no default value")

def vectorOf : List Float → Except HostError Val
  | [x, y] => .ok (.vec2 x y)
  | [x, y, z] => .ok (.vec3 x y z)
  | components =>
    .error (.invalidValue ("Expected 2 or 3 vector components, got shape (" ++ toString components.length ++ ",)"))

/-- the arguments of a native as the types that it expects -/
def checkSignature (function : String) (arguments : List Val) (types : List Ty) : Except Interrupt (List Val) :=
  if arguments.length = types.length then (arguments.zip types).mapM fun (v, t) => v.cast t
  else .error (.unplaced (.signature function types.length arguments.length))

end LevelScript
