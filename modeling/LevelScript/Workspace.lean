/-
The scripts of a host, with all that they share.

A workspace numbers scripts in the order in which they are loaded. They share the platform, the heap, the record of all
that was printed, the registry of loaded scripts, the functions of the host and the log. Loading registers a script first;
a script that fails to load leaves the registry again and gives up what it owned.
-/
import LevelScript.Script

namespace LevelScript

open LevelScript.Syntax

inductive Level where
  | debug
  | warning
  deriving DecidableEq, Repr

def Level.name : Level → String
  | .debug => "DEBUG"
  | .warning => "WARNING"

structure Record where
  level : Level
  logger : String
  message : String
  deriving DecidableEq, Repr

def Record.text (r : Record) : String :=
  r.level.name ++ " " ++ r.logger ++ ": " ++ r.message

def scriptLogger : String := "golfscript.script"

/-- the scripts of a host; `registered` are the numbers of the loaded ones, in the order of their loading -/
structure Workspace where
  platform : Platform := .standard
  heap : Heap := {}
  output : Array (Nat × String) := #[]
  scripts : Array Script := #[]
  registered : List Nat := []
  natives : Array HostFunction := #[]
  log : Array Record := #[]

namespace Workspace

def script (w : Workspace) (number : Nat) : Script :=
  w.scripts[number]?.getD default

def note (w : Workspace) (level : Level) (message : String) : Workspace :=
  { w with log := w.log.push ⟨level, scriptLogger, message⟩ }

def printed (w : Workspace) (number : Nat) : String :=
  String.join ((w.output.toList.filter (·.1 = number)).map (·.2))

/-- what a script runs in -/
def setting (w : Workspace) (number : Nat) : Setting :=
  let s := w.script number
  { toPlatform := w.platform
    script := number
    line? := Text.line? s.source
    dynamic := s.dynamic
    host := fun n => w.natives[n]?.getD fun _ _ => return .noValue "NoneType" }

def modifyScript (w : Workspace) (number : Nat) (change : Script → Script) : Workspace :=
  { w with scripts := w.scripts.modify number change }

/-! ## The registry -/

/-- enter a script in the registry, unless it is there -/
def register (w : Workspace) (number : Nat) : Workspace :=
  let w := if w.registered.contains number then w else { w with registered := w.registered ++ [number] }
  w.note .debug ("Registered script " ++ (w.script number).path)

/-- strike a script off the registry; tells whether it was there -/
def unregister (w : Workspace) (number : Nat) : Bool × Workspace :=
  if w.registered.contains number then
    let w := { w with registered := w.registered.erase number }
    (true, w.note .debug ("Unregistered script " ++ (w.script number).path))
  else (false, w)

def paths (w : Workspace) : List String :=
  w.registered.map fun n => (w.script n).path

/-- the script that was loaded last under a path -/
def find? (w : Workspace) (path : String) : Option Nat :=
  w.registered.reverse.find? fun n => (w.script n).path = path

/-! ## Loading and unloading -/

/-- take a script off the registry and let go of all that it holds: the lists that it owns are emptied -/
def unload (w : Workspace) (number : Nat) : Workspace :=
  let (_, w) := w.unregister number
  let owned := (w.script number).owned
  let w := { w with heap := w.heap.empty owned.lists.toList }
  w.modifyScript number fun s =>
    { s with env := none, owned := {}, returning := none, tokens := [], statements := [], loaded := false }

/-- load a script; gives its number, or why it could not be loaded -/
def load (w : Workspace) (path source : String) (dynamic : Bool := false) : Except Failure Nat × Workspace :=
  let number := w.scripts.size
  let w := { w with scripts := w.scripts.push { path := path, source := source, dynamic := dynamic, env := some {} } }
  let w := w.register number
  let (tokens, loading) := runSource (w.setting number) path source { heap := w.heap, output := w.output }
  let after := loading.state
  let w := { w with heap := after.heap, output := after.output }
  let w := w.modifyScript number fun s =>
    { s with tokens := tokens, statements := loading.statements, env := some after.env, owned := after.owned,
             returning := after.returning }
  match loading.fault with
  | some fault =>
    let failure := fault.failure source
    let w := w.note .warning ("Failed to load script " ++ path ++ ": " ++ failure.message)
    (.error failure, w.unload number)
  | none =>
    let w := w.modifyScript number fun s => { s with loaded := true }
    (.ok number,
      w.note .debug ("Loaded script " ++ path ++ " (" ++ toString loading.statements.length ++ " statements)"))

/-! ## Calls from the host -/

/-- record that a call failed, and why -/
def callFailed (w : Workspace) (number : Nat) (name : String) (d : Diagnostic) : Workspace :=
  w.note .debug ("Call to " ++ name ++ " in " ++ (w.script number).path ++ " failed: " ++ d.message)

/-- call a function of a script. A fault comes back as an error value, and the script keeps it as its last error; only a
failure of the host has no value. -/
def call (w : Workspace) (number : Nat) (name : String) (arguments : List Val) : Except HostError Val × Workspace :=
  let s := w.script number
  match s.loaded, s.env with
  | true, some env =>
    let start : State :=
      { env := env, owned := s.owned, returning := s.returning, lastError := s.lastError, heap := w.heap,
        output := w.output }
    let (result, after) := callByName (w.setting number) w.platform.evaluation name arguments start
    let w := { w with heap := after.heap, output := after.output }
    let w := w.modifyScript number fun s =>
      { s with env := some after.env, owned := after.owned, returning := after.returning,
               lastError := after.lastError }
    let w := match after.lastError with
      | some d => w.callFailed number name d
      | none => w
    match result with
    | .ok v => (.ok v, w)
    | .error (.fault f) => (.ok (.error f.cause.message), w)
    | .error (.host e) => (.error e, w)
  | _, _ =>
    let d := (Fault.mk (.notLoaded s.path) none).diagnostic
    let w := w.modifyScript number fun s => { s with lastError := some d }
    (.ok (.error d.message), w.callFailed number name d)

/-- bind a function of the host to a global name of a script; gives the bound value. The function has a name of its own,
which its error messages use. -/
def setNative (w : Workspace) (number : Nat) (name ownName : String) (f : HostFunction) :
    Except HostError Val × Workspace :=
  match (w.script number).env with
  | none => (.error .indexOutOfRange, w)
  | some env =>
    let v := Val.native (.host w.natives.size ownName)
    let w := { w with natives := w.natives.push f }
    (.ok v, w.modifyScript number fun s => { s with env := some { env with globals := env.globals.set name v } })

end Workspace

end LevelScript
