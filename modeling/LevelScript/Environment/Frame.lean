/-
Frames and environments.

A frame binds names to values in the order of their declaration. The environment of a running script is the frame of its
globals below the frames of the blocks, loops and calls that are being executed, the innermost first. A name means its
innermost binding.

A lexical call runs with its arguments alone above the globals and puts the frames of its caller back afterwards; a
dynamic call runs on top of the frames of its caller.
-/
import LevelScript.Value.Basic

namespace LevelScript

/-- names with their values, in the order in which they were bound; no name is bound twice -/
structure Frame where
  name : String
  bindings : List (String × Val) := []
  deriving Inhabited

namespace Frame

def get? (f : Frame) (name : String) : Option Val :=
  (f.bindings.find? (·.1 = name)).map (·.2)

def binds (f : Frame) (name : String) : Bool :=
  f.bindings.any (·.1 = name)

/-- the bindings with a name bound to a value: in its place if it is bound already, else at the end -/
def setIn (name : String) (v : Val) : List (String × Val) → List (String × Val)
  | [] => [(name, v)]
  | b :: bs => if b.1 = name then (name, v) :: bs else b :: setIn name v bs

def set (f : Frame) (name : String) (v : Val) : Frame :=
  { f with bindings := setIn name v f.bindings }

/-- the frame of the given bindings; of several for one name, the first place and the last value count -/
def ofBindings (name : String) (bindings : List (String × Val)) : Frame :=
  bindings.foldl (fun f b => f.set b.1 b.2) ⟨name, []⟩

def names (f : Frame) : List String :=
  f.bindings.map (·.1)

end Frame

/-- the frame of the globals and, innermost first, the frames above it -/
structure Env where
  globals : Frame := ⟨"global", []⟩
  locals : List Frame := []
  deriving Inhabited

namespace Env

/-- all frames, the globals first -/
def frames (e : Env) : List Frame :=
  e.globals :: e.locals.reverse

/-- the innermost frame -/
def current (e : Env) : Frame :=
  e.locals.headD e.globals

def lookup? (e : Env) (name : String) : Option Val :=
  (e.locals.findSome? (·.get? name)).or (e.globals.get? name)

def modifyCurrent (e : Env) (change : Frame → Frame) : Env :=
  match e.locals with
  | [] => { e with globals := change e.globals }
  | f :: fs => { e with locals := change f :: fs }

/-- the environment with a new name in the innermost frame, unless that frame binds it already -/
def declare? (e : Env) (name : String) (v : Val) : Option Env :=
  if e.current.binds name then none else some (e.modifyCurrent (·.set name v))

/-- the frames with the innermost binding of a name changed, if there is one -/
def assignIn? (name : String) (v : Val) : List Frame → Option (List Frame)
  | [] => none
  | f :: fs => if f.binds name then some (f.set name v :: fs) else (assignIn? name v fs).map (f :: ·)

/-- the environment with the innermost binding of a name changed; a name without a binding becomes a global -/
def assign (e : Env) (name : String) (v : Val) : Env :=
  match assignIn? name v e.locals with
  | some locals => { e with locals := locals }
  | none => { e with globals := e.globals.set name v }

def push (e : Env) (f : Frame) : Env :=
  { e with locals := f :: e.locals }

/-- the environment without its innermost frame; the globals stay -/
def pop (e : Env) : Env :=
  { e with locals := e.locals.tail }

/-- the environment that a call runs in, with its arguments in a frame of their own -/
def enter (e : Env) (arguments : Frame) (dynamic : Bool) : Env :=
  if dynamic then e.push arguments else { e with locals := [arguments] }

/-- the environment after a call, from the caller's environment before it and the callee's at its end -/
def leave (caller callee : Env) (dynamic : Bool) : Env :=
  if dynamic then callee.pop else { callee with locals := caller.locals }

end Env

end LevelScript
