/-
Named arguments of generator functions.

A level stores one value for every parameter of a generator. Arguments are matched to parameters by name: of several
arguments with one name the last one counts, and each must have exactly the type of its parameter. A function runs with
the values in the order of its parameters.
-/
import LevelScript.Workspace

namespace LevelScript

namespace Generator

/-! ## Parameters and arguments -/

structure Parameter where
  name : String
  type : Ty
  deriving DecidableEq, Repr, Inhabited

/-- a value for the parameter of that name -/
structure Argument where
  name : String
  val : Val
  deriving Inhabited

def Argument.type (a : Argument) : Ty := a.val.type

/-- the types that an argument in a level can have -/
def argumentTypes : List Ty :=
  [.bool, .int, .float, .vec2, .vec3]

def componentCount? : Ty → Option Nat
  | .vec2 => some 2
  | .vec3 => some 3
  | _ => none

def parametersOf (params : List Syntax.Param) : List Parameter :=
  params.map fun p => ⟨p.name.name, p.type⟩

def defaultArguments (h : Heap) : List Parameter → Except HostError (List Argument × Heap)
  | [] => .ok ([], h)
  | p :: ps => match h.defaultVal? p.type with
    | none => .error (noDefault p.type)
    | some (v, h) => do
      let (others, h) ← defaultArguments h ps
      return (⟨p.name, v⟩ :: others, h)

/-- the arguments with one more: in the place of the one with its name, if there is one, else at the end -/
def put (a : Argument) : List Argument → List Argument
  | [] => [a]
  | b :: bs => if b.name = a.name then a :: bs else b :: put a bs

/-- the arguments of two lists with each name once, at its first place and with its last value -/
def merge (base overrides : List Argument) : List Argument :=
  (base ++ overrides).foldl (fun merged a => put a merged) []

/-- the last argument of a name -/
def find? (arguments : List Argument) (name : String) : Option Argument :=
  arguments.reverse.find? (·.name = name)

/-- the values of the arguments in the order of the parameters -/
def bind (params : List Parameter) (arguments : List Argument) : Except Cause (List Val) :=
  params.mapM fun p => match find? arguments p.name with
    | none => .error (.missingArgument p.name)
    | some a => if a.type = p.type then .ok a.val else .error (.argumentType p.name p.type a.type)

def generatorLogger : String := "golfscript.generator"

end Generator

/-! ## Running -/

open Generator

/-- the parameters of a function of a script; none if the script has no such function -/
def Script.generatorParams (s : Script) (function : String) : List Parameter :=
  parametersOf (s.params function)

/-- call a function of a script with named arguments. Arguments that do not fit its parameters give an error value, like
any other fault of a call. -/
def Workspace.generate (w : Workspace) (number : Nat) (arguments : List Argument) (function : String := "generate") :
    Except HostError Val × Workspace :=
  let s := w.script number
  match Generator.bind (s.generatorParams function) arguments with
  | .ok values => w.call number function values
  | .error cause =>
    let d := (Fault.mk cause none).diagnostic
    let w := w.modifyScript number fun s => { s with lastError := some d }
    let message := "Could not bind args for " ++ function ++ " in " ++ s.path ++ ": " ++ d.message
    (.ok (.error d.message), { w with log := w.log.push ⟨.debug, generatorLogger, message⟩ })

end LevelScript
