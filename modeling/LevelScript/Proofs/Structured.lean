/-
Return statements without a signal.

In this semantics a statement tells how it ends: it falls through, or it has returned a value. A block and a loop stop
at the first statement that has returned, an if statement ends like its branch, and a call takes the value that its
body has returned, or void. The states have no place for a return statement that is under way. Depth and repetitions
are budgets here as they are in the evaluator.
-/
import LevelScript.Proofs.Computation

namespace LevelScript

open LevelScript.Syntax

/-- the state of a running script, but for the return statement that is under way -/
structure Store where
  env : Env := {}
  owned : Owned := {}
  lastError : Option Diagnostic := none
  heap : Heap := {}
  output : Array (Nat × String) := #[]

def State.store (s : State) : Store :=
  { env := s.env, owned := s.owned, lastError := s.lastError, heap := s.heap, output := s.output }

/-- the state in which no return statement is under way -/
def Store.state (s : Store) : State :=
  { env := s.env, owned := s.owned, returning := none, lastError := s.lastError, heap := s.heap, output := s.output }

/-- how a statement ends that does not fail -/
inductive Outcome where
  | fell
  | returned (v : Val)

/-- the value of a call whose body ends in this way -/
def Outcome.value : Outcome → Val
  | .fell => .void
  | .returned v => v

/-- a computation without a return signal -/
abbrev Run := Stateful Store

namespace Run

variable {α : Type}

/-- a step that has nothing to do with return statements -/
def ofEval (step : Eval α) : Run α := fun s =>
  let (result, t) := step s.state
  (result, t.store)

/-- the computation as a function of the host meets it -/
def toEval (run : Run α) : Eval α := fun s =>
  let (result, t) := run s.store
  (result, t.state)

def inFrame (name : String) (body : Run α) : Run α := fun s =>
  let (result, t) := body { s with env := s.env.push ⟨name, []⟩ }
  (result, { t with env := t.env.pop })

/-- run the body of a called function and take its value -/
def inCall (arguments : Frame) (dynamic : Bool) (body : Run Outcome) : Run Val := fun s =>
  let (result, t) := body { s with env := s.env.enter arguments dynamic }
  (result.map Outcome.value, { t with env := .leave s.env t.env dynamic })

/-- run statements in order, up to the first that returns -/
def sequence (run : Stmt → Run Outcome) : List Stmt → Run Outcome
  | [] => pure .fell
  | stmt :: rest => do
    match ← run stmt with
    | .fell => sequence run rest
    | .returned v => return .returned v

/-- run the body of the first arm whose condition holds, or the last statement -/
def choose (test : Expr → Run Bool) (run : Stmt → Run Outcome) (otherwise : Option Stmt) :
    List (Expr × Stmt) → Run Outcome
  | [] => match otherwise with
    | some body => run body
    | none => pure .fell
  | (condition, body) :: rest => do
    if ← test condition then run body else choose test run otherwise rest

def loop (test : Run Bool) (body : Run Outcome) (increment : Run Unit) : Nat → Run Outcome
  | 0 => throw (.host .endless)
  | steps + 1 => do
    if ← test then
      match ← body with
      | .fell => do
        increment
        loop test body increment steps
      | .returned v => return .returned v
    else return .fell

end Run

namespace Structured

open Run

mutual

def exec (setting : Setting) : Nat → Stmt → Run Outcome
  | 0, _ => throw (.host .tooDeep)
  | depth + 1, stmt => match stmt with
    | .expr _ e => do
      discard (eval setting depth e)
      return .fell
    | .var token ty names start => match names with
      | [name] => do
        let v ← match start with
          | none => ofEval (Eval.newDefault ty)
          | some e => do ofEval (Eval.ofExcept ((← eval setting depth e).cast ty e.span))
        ofEval (Eval.declare name.name v name.span)
        return .fell
      | _ => throw (.at .severalNames token.span)
    | .fn decl => do
      ofEval (Eval.declare decl.name (.fn setting.script decl) decl.span)
      return .fell
    | .branch _ arms otherwise => choose (test setting depth) (exec setting depth) otherwise arms
    | .loop _ counter start condition increment body => inFrame "for-loop" do
      let v ← eval setting depth start
      match counter with
      | some ⟨ty, name⟩ => do
        let v ← ofEval (Eval.ofExcept (v.cast ty start.span))
        ofEval (Eval.declare name.name v name.span)
      | none => pure ()
      loop (test setting depth condition) (exec setting depth body) (discard (eval setting depth increment))
        setting.repetitions
    | .ret _ e => do return .returned (← eval setting depth e)
    | .block _ body => inFrame "block" (sequence (exec setting depth) body)

def test (setting : Setting) : Nat → Expr → Run Bool
  | 0, _ => throw (.host .tooDeep)
  | depth + 1, e => do
    match ← ofEval (Eval.ofExcept ((← eval setting depth e).cast .bool e.span)) with
    | .bool b => return b
    | _ => return false

def eval (setting : Setting) : Nat → Expr → Run Val
  | 0, _ => throw (.host .tooDeep)
  | depth + 1, e => match e with
    | .int _ n => return .int n
    | .float _ x => return .float x
    | .string _ text => ofEval (Eval.newString text)
    | .symbol token name => do
      match ← ofEval (Eval.lookup? name) with
      | some v => return v
      | none => throw (.at (.undefinedSymbol name) token.span)
    | .binary token left op right => do
      let a ← eval setting depth left
      let b ← eval setting depth right
      ofEval (Eval.ofExcept (op.apply a b token.span))
    | .assign _ target value => do
      let v ← eval setting depth value
      let slot ← resolve setting depth target
      ofEval (store target slot v value.span)
    | .call token callee arguments => do
      match ← eval setting depth callee with
      | .fn _ decl =>
        if arguments.length ≠ decl.params.length then
          throw (.at (.argumentCount decl.name decl.params.length arguments.length) token.span)
        else
          let values ← (arguments.zip decl.params).mapM fun (e, p) => do
            ofEval (Eval.ofExcept ((← eval setting depth e).cast p.type e.span))
          callFunction setting depth decl values setting.dynamic
      | .native f => do
        let values ← arguments.mapM (eval setting depth)
        let callBack := fun name arguments => (callByName setting depth name arguments).toEval
        ofEval (callNative setting depth callBack f values token.span)
      | v => throw (.at (.notCallable v.type) token.span)
    | .member token target name => do ofEval (readMember (← eval setting depth target) name token.span)
    | .index _ target place => do
      match ← eval setting depth target with
      | .list a => ofEval (readItem a (← eval setting depth place) place.span)
      | v => throw (.at (.expectedList v.type) target.span)
    | .list _ elements => do ofEval (Eval.newList (← elements.mapM (eval setting depth)).toArray)
    | .cast token ty operand => do ofEval (Eval.ofExcept ((← eval setting depth operand).cast ty token.span))

def resolve (setting : Setting) : Nat → Expr → Run Slot
  | 0, _ => throw (.host .tooDeep)
  | depth + 1, target => match target with
    | .symbol token name => do
      if (← ofEval (Eval.lookup? name)).isSome then return .binding name
      else throw (.at (.undefinedSymbol name) token.span)
    | .member _ owner _ => resolve setting depth owner
    | .index _ owner place => do
      match ← eval setting depth owner with
      | .list a => ofEval (growSlot a (← eval setting depth place) place.span)
      | v => throw (.at (.expectedList v.type) owner.span)
    | other => throw (.at .invalidTarget other.span)

def callFunction (setting : Setting) : Nat → Function → List Val → Bool → Run Val
  | 0, _, _, _ => throw (.host .tooDeep)
  | depth + 1, decl, arguments, dynamic =>
    tryCatch (inCall (argumentFrame decl arguments) dynamic
        (inFrame "block" (sequence (exec setting depth) decl.body))) fun e =>
      match e with
      | .host .tooDeep => throw (.at (.callTooDeep decl.name) decl.span)
      | e => throw e

def callByName (setting : Setting) : Nat → String → List Val → Run Val
  | 0, _, _ => throw (.host .tooDeep)
  | depth + 1, name, arguments => do
    modify fun s => { s with lastError := none }
    let call : Run Val := do
      match (← get).env.globals.get? name with
      | some (.fn _ decl) =>
        match hostCallCause? name decl.params arguments with
        | some cause => throw (.unplaced cause)
        | none =>
          tryCatch (callFunction setting depth decl arguments false) fun e => match e with
            | .host .tooDeep => throw (.at .nestingTooDeep decl.span)
            | e => throw e
      | _ => throw (.unplaced (.unknownFunction name))
    tryCatch call fun e => match e with
      | .fault f => do
        modify fun s => { s with lastError := some (f.diagnostic.quoting setting.line?) }
        return .error f.cause.message
      | e => throw e

end

/-- run a statement at the top level, where it does not matter how it ends -/
def execTop (setting : Setting) (stmt : Stmt) : Run Unit := do
  let _ ← tryCatch (exec setting setting.evaluation stmt) fun e => match e with
    | .host .tooDeep => throw (.at .nestingTooDeep stmt.span)
    | e => throw e

end Structured

end LevelScript
