/-
Values and the heap of lists.

A value is immutable except for lists, which are shared: a list value is an address into the heap, where the items
stand. Functions keep the script that declared them, natives the script or host that provided them, so that two of them
are the same exactly if they come from the same place.
-/
import LevelScript.Syntax.Tree

namespace LevelScript

open LevelScript.Syntax

inductive Builtin where
  | print
  | v2
  | v3
  | length
  | normalize
  | distance
  | sin
  | cos
  | asin
  | acos
  | sqrt
  deriving DecidableEq, Repr, Inhabited

def Builtin.name : Builtin → String
  | .print => "print"
  | .v2 => "V2"
  | .v3 => "V3"
  | .length => "vec3_length"
  | .normalize => "vec3_normalize"
  | .distance => "vec3_distance"
  | .sin => "sin"
  | .cos => "cos"
  | .asin => "asin"
  | .acos => "acos"
  | .sqrt => "sqrt"

/-- all built-in functions, in the order in which a script receives them -/
def Builtin.all : List Builtin :=
  [.print, .v2, .v3, .length, .normalize, .distance, .sin, .cos, .asin, .acos, .sqrt]

/-- a function that is not written in the language: a built-in one of some script, or one that the host provides under a
number of its own -/
inductive Native where
  | builtin (owner : Nat) (function : Builtin)
  | host (number : Nat) (name : String)
  deriving DecidableEq, Repr, Inhabited

def Native.name : Native → String
  | .builtin _ b => b.name
  | .host _ name => name

/-- a value; `list` holds an address, and a function the number of its script -/
inductive Val where
  | void
  | bool (b : Bool)
  | int (n : Int)
  | float (x : Float)
  | vec2 (x y : Float)
  | vec3 (x y z : Float)
  | list (address : Nat)
  | string (s : String)
  | fn (owner : Nat) (decl : Function)
  | native (f : Native)
  | error (message : String)
  deriving Inhabited

def Val.type : Val → Ty
  | .void => .void
  | .bool _ => .bool
  | .int _ => .int
  | .float _ => .float
  | .vec2 .. => .vec2
  | .vec3 .. => .vec3
  | .list _ => .list
  | .string _ => .string
  | .fn .. => .fn
  | .native _ => .nativeFn
  | .error _ => .error

/-- the contents of all lists, by address; no list is ever taken away -/
structure Heap where
  cells : Array (Array Val) := #[]
  deriving Inhabited

namespace Heap

/-- the items of a list; an address that was never given out holds nothing -/
def items (h : Heap) (address : Nat) : Array Val :=
  h.cells[address]?.getD #[]

def insert (h : Heap) (items : Array Val) : Nat × Heap :=
  (h.cells.size, ⟨h.cells.push items⟩)

def modify (h : Heap) (address : Nat) (change : Array Val → Array Val) : Heap :=
  ⟨h.cells.modify address change⟩

/-- the heap with the given lists emptied -/
def empty (h : Heap) (addresses : List Nat) : Heap :=
  addresses.foldl (fun h a => h.modify a fun _ => #[]) h

end Heap

end LevelScript
