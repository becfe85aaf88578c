/-
A context with its open scopes, under any sequence of operations.

Blocks, loops and dynamic calls put a frame on the frames that are there; leaving them takes the innermost frame away,
whichever it is by then. A lexical call sets the frames of its caller aside and starts with the outermost of them and its
arguments; leaving it puts the frames back that were set aside. The outermost frame is the same in both, so it comes back
with all that happened to it, up to the moment when `clear` drops the frames.
-/
import LevelScript.Evaluation.State

namespace LevelScript

open LevelScript.Syntax

/-- a scope that has been entered: one more frame, or a lexical call with the frames set aside; `shared` tells whether the
outermost frame is still in use on both sides -/
inductive Scope where
  | pushed
  | aside (frames : Env) (shared : Bool)
  deriving Inhabited

/-- a context with its open scopes, the innermost first; without frames it has no environment -/
structure Scopes where
  env : Option Env := some {}
  entered : List Scope := []
  owned : Owned := {}
  returning : Option Val := none
  heap : Heap := {}
  output : String := ""
  deriving Inhabited

namespace Scopes

/-- all frames, the outermost first -/
def frames (s : Scopes) : List Frame :=
  match s.env with
  | none => []
  | some env => env.frames

def lookup? (s : Scopes) (name : String) : Option Val :=
  s.env.bind (·.lookup? name)

/-- the place of the innermost frame that binds a name, counted from the outermost one -/
def find? (s : Scopes) (name : String) : Option Nat :=
  (s.frames.reverse.findIdx? (·.binds name)).map (s.frames.length - 1 - ·)

def declare (s : Scopes) (name : String) (v : Val) : Except Interrupt Scopes :=
  match s.env with
  | none => .error (.host .indexOutOfRange)
  | some env => match env.declare? name v with
    | some env => .ok { s with env := some env }
    | none => .error (.unplaced (.alreadyDeclared name))

/-- bind a name in the frame at a place, counted from the outermost one -/
def set (s : Scopes) (place : Nat) (name : String) (v : Val) : Except HostError Scopes :=
  match s.env with
  | none => .error .indexOutOfRange
  | some env =>
    if place = 0 then .ok { s with env := some { env with globals := env.globals.set name v } }
    else if place ≤ env.locals.length then
      .ok { s with env := some { env with locals := env.locals.modify (env.locals.length - place) (·.set name v) } }
    else .error .indexOutOfRange

/-- enter a scope with one more frame, which is the outermost if there is none -/
def push (s : Scopes) (f : Frame) : Scopes :=
  { s with
    env := some (match s.env with
      | none => ⟨f, []⟩
      | some env => env.push f)
    entered := .pushed :: s.entered }

/-- enter a call; a lexical one needs an outermost frame -/
def call (s : Scopes) (arguments : Frame) (dynamic : Bool) : Except HostError Scopes :=
  if dynamic then .ok (s.push arguments)
  else match s.env with
    | none => .error .indexOutOfRange
    | some env =>
      .ok { s with env := some (env.enter arguments false), entered := .aside env true :: s.entered }

def dropFrame : Option Env → Except HostError (Option Env)
  | none => .error .nothingToLeave
  | some env => match env.locals with
    | [] => .ok none
    | _ :: _ => .ok (some env.pop)

/-- leave the innermost scope, which is left even if there is no frame to take away -/
def leave (s : Scopes) : Except HostError Unit × Scopes :=
  match s.entered with
  | [] => (.error .nothingToLeave, s)
  | .pushed :: others => match dropFrame s.env with
    | .error e => (.error e, { s with entered := others })
    | .ok env => (.ok (), { s with env := env, entered := others })
  | .aside frames shared :: others =>
    let globals := match s.env, shared with
      | some env, true => env.globals
      | _, _ => frames.globals
    (.ok (), { s with env := some { frames with globals := globals }, entered := others })

def own (s : Scopes) (v : Val) : Scopes :=
  match v with
  | .list a => { s with owned := { s.owned with lists := s.owned.lists.push a } }
  | .string text => { s with owned := { s.owned with strings := s.owned.strings.push text } }
  | _ => s

/-- the scopes after the frames in use are dropped: the outermost frame that the innermost lexical call shares with its
caller stays with the caller as it is now -/
def severed (env : Option Env) : List Scope → List Scope
  | [] => []
  | .pushed :: others => .pushed :: severed env others
  | .aside frames shared :: others =>
    let globals := match env, shared with
      | some env, true => env.globals
      | _, _ => frames.globals
    .aside { frames with globals := globals } false :: others

/-- drop the frames in use and everything owned, whose lists are emptied -/
def clear (s : Scopes) : Scopes :=
  { s with env := none, entered := severed s.env s.entered, owned := {}, returning := none,
           heap := s.heap.empty s.owned.lists.toList }

end Scopes

end LevelScript
