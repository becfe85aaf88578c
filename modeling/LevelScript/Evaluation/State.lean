/-
The state of a running script and the steps that change it.

`Eval` is a computation on the state that may be interrupted; the state stays as it is at the interruption. A frame that
a construct puts on the environment is taken off again however the construct ends.
-/
import LevelScript.Environment.Frame
import LevelScript.Native

namespace LevelScript

open LevelScript.Syntax

/-- the lists and strings that a script has made, in order; they are given up together -/
structure Owned where
  lists : Array Nat := #[]
  strings : Array String := #[]
  deriving Inhabited

/-- the state of a running script; `returning` is the value of a return statement that is under way, and `output` all
text printed, with the number of the script that it belongs to -/
structure State where
  env : Env := {}
  owned : Owned := {}
  returning : Option Val := none
  lastError : Option Diagnostic := none
  heap : Heap := {}
  output : Array (Nat × String) := #[]
  deriving Inhabited

/-- a computation of a running script -/
abbrev Eval := ExceptT Interrupt (StateM State)

namespace Eval

/-- a result that needs no state -/
def ofExcept {α : Type} (result : Except Interrupt α) : Eval α :=
  fun s => (result, s)

def fail {α : Type} (cause : Cause) (span : Span) : Eval α :=
  throw (.at cause span)

def lookup? (name : String) : Eval (Option Val) :=
  fun s => (.ok (s.env.lookup? name), s)

/-- bind a new name in the innermost frame -/
def declare (name : String) (v : Val) (span : Span) : Eval Unit :=
  fun s => match s.env.declare? name v with
    | some env => (.ok (), { s with env := env })
    | none => (.error (.at (.alreadyDeclared name) span), s)

/-- change the innermost binding of a name -/
def assign (name : String) (v : Val) : Eval Unit :=
  fun s => (.ok (), { s with env := s.env.assign name v })

def newList (items : Array Val) : Eval Val :=
  fun s =>
    let (address, heap) := s.heap.insert items
    (.ok (.list address), { s with heap := heap, owned := { s.owned with lists := s.owned.lists.push address } })

def newString (text : String) : Eval Val :=
  fun s => (.ok (.string text), { s with owned := { s.owned with strings := s.owned.strings.push text } })

/-- the value of a declaration without an initial value -/
def newDefault (type : Ty) : Eval Val :=
  match type with
  | .list => newList #[]
  | .string => newString ""
  | t => fun s => match s.heap.defaultVal? t with
    | some (v, heap) => (.ok v, { s with heap := heap })
    | none => (.error (.host (noDefault t)), s)

def items (address : Nat) : Eval (Array Val) :=
  fun s => (.ok (s.heap.items address), s)

def modifyList (address : Nat) (change : Array Val → Array Val) : Eval Unit :=
  fun s => (.ok (), { s with heap := s.heap.modify address change })

def isReturning : Eval Bool :=
  fun s => (.ok s.returning.isSome, s)

def startReturn (v : Val) : Eval Unit :=
  fun s => (.ok (), { s with returning := some v })

def clearReturn : Eval Unit :=
  fun s => (.ok (), { s with returning := none })

def write (owner : Nat) (text : String) : Eval Unit :=
  fun s => (.ok (), { s with output := s.output.push (owner, text) })

/-- run a computation with a new frame on top, which goes away at its end -/
def inFrame {α : Type} (name : String) (body : Eval α) : Eval α :=
  fun s =>
    let (result, s) := body { s with env := s.env.push ⟨name, []⟩ }
    (result, { s with env := s.env.pop })

/-- run the body of a called function; its value is the returned one, or void, and no return statement is under way
afterwards -/
def inCall (arguments : Frame) (dynamic : Bool) (body : Eval Unit) : Eval Val :=
  fun s =>
    let (result, t) := body { s with env := s.env.enter arguments dynamic }
    (result.map fun _ => t.returning.getD .void,
      { t with returning := none, env := .leave s.env t.env dynamic })

/-- run statements in order until one of them returns -/
def untilReturn (run : Stmt → Eval Unit) : List Stmt → Eval Unit
  | [] => pure ()
  | stmt :: rest => do
    run stmt
    if ← isReturning then pure () else untilReturn run rest

/-- run the body of the first arm whose condition holds; tells whether there is one -/
def firstArm (test : Expr → Eval Bool) (run : Stmt → Eval Unit) : List (Expr × Stmt) → Eval Bool
  | [] => pure false
  | (condition, body) :: rest => do
    if ← test condition then
      run body
      return true
    else firstArm test run rest

/-- run a loop until its condition fails or its body returns, at most the given number of times -/
def repeatWhile (test : Eval Bool) (body increment : Eval Unit) : Nat → Eval Unit
  | 0 => throw (.host .endless)
  | steps + 1 => do
    if ← test then
      body
      if ← isReturning then pure ()
      else
        increment
        repeatWhile test body increment steps
    else pure ()

end Eval

end LevelScript
