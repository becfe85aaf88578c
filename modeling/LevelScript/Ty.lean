/-
The types of values.

Eight types can be written in a script; functions, native functions and error values have types that only arise while it
runs.
-/

namespace LevelScript

inductive Ty where
  | void
  | bool
  | int
  | float
  | vec2
  | vec3
  | list
  | string
  | fn
  | nativeFn
  | error
  deriving DecidableEq, Repr, Inhabited

def Ty.name : Ty → String
  | .void => "void"
  | .bool => "bool"
  | .int => "int"
  | .float => "float"
  | .vec2 => "vec2"
  | .vec3 => "vec3"
  | .list => "list"
  | .string => "string"
  | .fn => "fn"
  | .nativeFn => "native_fn"
  | .error => "error"

/-- the types that a script can name -/
def Ty.declarable : List Ty :=
  [.void, .bool, .int, .float, .vec2, .vec3, .list, .string]

def Ty.ofKeyword? (word : String) : Option Ty :=
  Ty.declarable.find? (·.name = word)

def Ty.isNumeric (t : Ty) : Bool :=
  t = .int || t = .float

def Ty.isVector (t : Ty) : Bool :=
  t = .vec2 || t = .vec3

end LevelScript
