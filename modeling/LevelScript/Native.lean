/-
The built-in constants and functions of every script.

A built-in function receives its arguments as they are; all but `print` cast them to the types that they expect. A
mathematical function whose result is no number, though its argument is one, was called outside its domain.
-/
import LevelScript.Value.Text

namespace LevelScript

open LevelScript.Syntax

def constants : List (String × Val) :=
  [("PI", .float 3.141592653589793), ("true", .bool true), ("false", .bool false)]

/-- the names that every script finds bound, in the order of their bindings -/
def builtinNames : List String :=
  constants.map (·.1) ++ Builtin.all.map Builtin.name

/-- what a built-in function does, in one line -/
def Builtin.doc : Builtin → String
  | .print => "Print the arguments, concatenated, then a newline"
  | .v2 => "Construct a vec2"
  | .v3 => "Construct a vec3"
  | .length => "Euclidean length of a vec3"
  | .normalize => "Unit vec3 in the same direction (zero stays zero)"
  | .distance => "Distance between two vec3 points"
  | b => b.name ++ "(float) -> float"

/-- what a host finds in the registry under a name: a built-in function and its documentation -/
def Builtin.find? (name : String) : Option (Builtin × String) :=
  (Builtin.all.find? (·.name = name)).map fun b => (b, b.doc)

/-- the Euclidean length of a vector, rounded after every step -/
def euclidean (x y z : Float) : Float :=
  Float.sqrt (x * x + y * y + z * z)

/-- the result of a mathematical function; one that is no number means an argument outside the domain -/
def inDomain (name : String) (f : Float → Float) (x : Float) : Except Interrupt Val :=
  let y := f x
  if y.isNaN && !x.isNaN then .error (.unplaced (.mathDomain name x)) else .ok (.float y)

/-- the mathematical function behind a built-in function of one number -/
def Builtin.real? : Builtin → Option (Float → Float)
  | .sin => some Float.sin
  | .cos => some Float.cos
  | .asin => some Float.asin
  | .acos => some Float.acos
  | .sqrt => some Float.sqrt
  | _ => none

/-- the types that a built-in function expects; `print` takes anything -/
def Builtin.signature : Builtin → List Ty
  | .print => []
  | .v2 => [.float, .float]
  | .v3 => [.float, .float, .float]
  | .length | .normalize => [.vec3]
  | .distance => [.vec3, .vec3]
  | _ => [.float]

/-- the result of a built-in function that computes a value from arguments of the expected types -/
def Builtin.compute (b : Builtin) (norm : Float → Float → Float → Float) (arguments : List Val) :
    Except Interrupt Val :=
  match b, arguments with
  | .v2, [.float x, .float y] => .ok (.vec2 x y)
  | .v3, [.float x, .float y, .float z] => .ok (.vec3 x y z)
  | .length, [.vec3 x y z] => .ok (.float (norm x y z))
  | .normalize, [.vec3 x y z] =>
    let l := norm x y z
    .ok (if l == 0.0 then .vec3 x y z else .vec3 (x / l) (y / l) (z / l))
  | .distance, [.vec3 a b c, .vec3 x y z] => .ok (.float (norm (a - x) (b - y) (c - z)))
  | b, [.float x] => match b.real? with
    | some f => inDomain b.name f x
    | none => .ok .void
  | _, _ => .ok .void

/-- the result of a built-in function and the text that it prints; `norm` gives the length of a vector -/
def Builtin.call (b : Builtin) (h : Heap) (depth : Nat) (arguments : List Val)
    (norm : Float → Float → Float → Float := euclidean) : Except Interrupt (Val × String) :=
  match b with
  | .print => match arguments.mapM (h.display depth) with
    | .ok texts => .ok (.void, String.join texts ++ "\n")
    | .error e => .error (.host e)
  | _ => do
    let v ← b.compute norm (← checkSignature b.name arguments b.signature)
    return (v, "")

end LevelScript
