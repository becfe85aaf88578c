/-
Scripts: loading a program, and what remains of it.

Loading scans the whole text, binds the built-in names, and then reads and runs one statement after the other, so that
what a statement prints or changes has happened before a later one is found to be malformed. The first error ends the
loading.
-/
import LevelScript.Syntax.Grammar
import LevelScript.Syntax.Lexeme
import LevelScript.Evaluation.Machine

namespace LevelScript

open LevelScript.Syntax

/-- a script: where it comes from, and, while it is loaded, its statements and its environment; a script that is not
loaded has no environment -/
structure Script where
  path : String
  source : String
  dynamic : Bool := false
  tokens : List Token := []
  statements : List Stmt := []
  env : Option Env := none
  owned : Owned := {}
  returning : Option Val := none
  lastError : Option Diagnostic := none
  loaded : Bool := false
  deriving Inhabited

inductive LoadFault where
  | scan (fault : ScanFault)
  | refusal (refusal : Refusal)
  | interrupt (e : Interrupt)

/-- the failure that a fault of loading is reported as; its source line is quoted -/
def LoadFault.failure (source : String) : LoadFault → Failure
  | .scan fault => fault.failure source
  | .refusal r => .script ⟨.parsing, r.diagnostic (Text.line? source)⟩
  | .interrupt (.fault f) => .script ⟨.running, f.diagnostic.quoting (Text.line? source)⟩
  | .interrupt (.host e) => .host e

/-- all statements of a source text, from the file of the given name -/
def statementsOf (source : String) (file : Option String) (depths : Depths := .standard) : Except Failure (List Stmt) := do
  let tokens ← (tokenize source file).mapError fun fault => (LoadFault.scan fault).failure source
  (parse tokens depths).mapError fun refusal => (LoadFault.refusal refusal).failure source

def Failure.message : Failure → String
  | .script e => e.diagnostic.message
  | .host e => e.message

/-- how far loading came: the statements read, why it ended early, and the state after it -/
structure Loading where
  statements : List Stmt
  fault : Option LoadFault
  state : State

/-- read and run the statements at the front of a list of tokens one by one, at most as many as the bound -/
def runTokens (setting : Setting) : Nat → List Token → State → Loading
  | 0, _, s => ⟨[], none, s⟩
  | bound + 1, tokens, s =>
    if Parser.ended tokens then ⟨[], none, s⟩
    else match parseStatement setting.depths tokens with
      | .error refusal => ⟨[], some (.refusal refusal), s⟩
      | .ok (stmt, rest) => match execTop setting stmt s with
        | (.error e, s) => ⟨[stmt], some (.interrupt e), s⟩
        | (.ok (), s) =>
          let others := runTokens setting bound rest s
          { others with statements := stmt :: others.statements }

/-- the frame of the globals before a script runs: constants, then functions -/
def builtinFrame (script : Nat) : Frame :=
  .ofBindings "global" (constants ++ Builtin.all.map fun b => (b.name, .native (.builtin script b)))

/-- scan a source text, bind the built-in names, and run its statements -/
def runSource (setting : Setting) (path source : String) (s : State) : List Token × Loading :=
  match tokenize source (some path) with
  | .error fault => ([], ⟨[], some (.scan fault), s⟩)
  | .ok tokens =>
    (tokens, runTokens setting tokens.length tokens { s with env := ⟨builtinFrame setting.script, []⟩ })

namespace Script

/-- the functions that the globals of a script hold, in order -/
def functions (s : Script) : List Function :=
  match s.env with
  | none => []
  | some env => env.globals.bindings.filterMap fun
      | (_, .fn _ decl) => some decl
      | _ => none

/-- the globals of a script other than built-in names and functions, in order -/
def globals (s : Script) : List (String × Val) :=
  match s.env with
  | none => []
  | some env => env.globals.bindings.filter fun b =>
      !builtinNames.contains b.1 && b.2.type ≠ .fn && b.2.type ≠ .nativeFn

def get? (s : Script) (name : String) : Option Val :=
  s.env.bind (·.lookup? name)

def params (s : Script) (function : String) : List Param :=
  match s.get? function with
  | some (.fn _ decl) => decl.params
  | _ => []

/-- a script with its path and its state, for debugging -/
def literal (s : Script) : String :=
  "Script(" ++ Text.quoted s.path ++ ", " ++ (if s.loaded then "loaded" else "unloaded") ++ ")"

end Script

end LevelScript
