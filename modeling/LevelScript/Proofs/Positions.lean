/-
The positions that a run goes through.

A position is something that is about to run from a state: a statement, an expression, the rest of a block, a call, the
rest of a function of the host. It starts other positions, one after the other, each from the state in which the ones
before have ended. So every state of a run is that of a position or the one in which a position has ended. A position
also carries the types that its frames were declared with (`Types`), which the program does not know.

The operands of an expression are taken to run in order as long as they have values; whether the expression accepts
these values is not looked at, so a run goes through the positions given here at most.
-/
import LevelScript.Proofs.TypedFrames
import LevelScript.Script

namespace LevelScript

open LevelScript.Syntax

/-- what a run is about to do -/
inductive Part (m : Manners) where
  | script (bound : Nat) (tokens : List Token)
  | stmt (stmt : Stmt)
  | sequence (body : List Stmt)
  | arms (arms : List (Expr × Stmt)) (otherwise : Option Stmt)
  | rounds (condition increment : Expr) (body : Stmt) (steps : Nat)
  | test (e : Expr)
  | expr (e : Expr)
  | exprs (es : List Expr)
  | target (e : Expr)
  | call (decl : Function) (arguments : List Val) (dynamic : Bool)
  | named (name : String) (arguments : List Val)
  | host (rest : Routine m)

/-- what is about to run, with which depth and from which state, and the declared types of the frames there -/
structure Position (m : Manners) where
  types : Types
  depth : Nat
  part : Part m
  state : State

namespace Syntax

/-- the expressions that an expression evaluates first, in order; an assignment has no such list -/
def Expr.operands : Expr → List Expr
  | .int .. | .float .. | .string .. | .symbol .. | .assign .. => []
  | .binary _ left _ right => [left, right]
  | .call _ callee arguments => callee :: arguments
  | .member _ target _ => [target]
  | .index _ target place => [target, place]
  | .list _ elements => elements
  | .cast _ _ operand => [operand]

/-- the expression that a statement evaluates, if it is no more than that and a step with the value -/
def Stmt.operands : Stmt → List Expr
  | .expr _ e | .ret _ e | .var _ _ [_] (some e) => [e]
  | _ => []

end Syntax

def State.pushed (s : State) (name : String) : State := { s with env := s.env.push ⟨name, []⟩ }

/-- the state in which the body of a called function runs -/
def State.entered (s : State) (decl : Function) (arguments : List Val) (dynamic : Bool) : State :=
  { s with env := (s.env.enter (argumentFrame decl arguments) dynamic).push ⟨"block", []⟩ }

/-- the start of a loop: its start value, which its variable is bound to if it has one -/
def loopStart (setting : Setting) (depth : Nat) (counter : Option Param) (start : Expr) : Eval Unit := do
  let v ← eval setting depth start
  match counter with
  | some ⟨ty, name⟩ => Eval.declare name.name (← Eval.ofExcept (v.cast ty start.span)) name.span
  | none => pure ()

def counterTypes : Option Param → List (String × Ty)
  | some p => [(p.name.name, p.type)]
  | none => []

/-- a position starts another one; there the run has the given declared types, depth and state -/
inductive Starts {m : Manners} (setting : Setting) : Position m → Position m → Prop where
  -- the statements of a source text
  | top {types d bound tokens s stmt rest} : parseStatement setting.depths tokens = .ok (stmt, rest) →
      Starts setting ⟨types, d, .script (bound + 1) tokens, s⟩ ⟨types, setting.evaluation, .stmt stmt, s⟩
  | later {types d bound tokens s stmt rest t} : parseStatement setting.depths tokens = .ok (stmt, rest) →
      execTop setting stmt s = (.ok (), t) →
      Starts setting ⟨types, d, .script (bound + 1) tokens, s⟩
        ⟨types.add (declared setting setting.evaluation stmt s), d, .script bound rest, t⟩
  -- statements
  | operand {types depth stmt s} :
      Starts setting ⟨types, depth + 1, .stmt stmt, s⟩ ⟨types, depth, .exprs stmt.operands, s⟩
  | branch {types depth token arms otherwise s} :
      Starts setting ⟨types, depth + 1, .stmt (.branch token arms otherwise), s⟩ ⟨types, depth, .arms arms otherwise, s⟩
  | condition {types depth condition body rest otherwise s} :
      Starts setting ⟨types, depth, .arms ((condition, body) :: rest) otherwise, s⟩ ⟨types, depth, .test condition, s⟩
  | chosen {types depth condition body rest otherwise s t} : test setting depth condition s = (.ok true, t) →
      Starts setting ⟨types, depth, .arms ((condition, body) :: rest) otherwise, s⟩ ⟨types, depth, .stmt body, t⟩
  | skipped {types depth condition body rest otherwise s t} : test setting depth condition s = (.ok false, t) →
      Starts setting ⟨types, depth, .arms ((condition, body) :: rest) otherwise, s⟩
        ⟨types, depth, .arms rest otherwise, t⟩
  | otherwise {types depth body s} :
      Starts setting ⟨types, depth, .arms [] (some body), s⟩ ⟨types, depth, .stmt body, s⟩
  | loopStart {types depth token counter start condition increment body s} :
      Starts setting ⟨types, depth + 1, .stmt (.loop token counter start condition increment body), s⟩
        ⟨types.push [], depth, .expr start, s.pushed "for-loop"⟩
  | loop {types depth token counter start condition increment body s t} :
      LevelScript.loopStart setting depth counter start (s.pushed "for-loop") = (.ok (), t) →
      Starts setting ⟨types, depth + 1, .stmt (.loop token counter start condition increment body), s⟩
        ⟨types.push (counterTypes counter), depth, .rounds condition increment body setting.repetitions, t⟩
  | roundTest {types depth condition increment body steps s} :
      Starts setting ⟨types, depth, .rounds condition increment body (steps + 1), s⟩ ⟨types, depth, .test condition, s⟩
  | roundBody {types depth condition increment body steps s t} : test setting depth condition s = (.ok true, t) →
      Starts setting ⟨types, depth, .rounds condition increment body (steps + 1), s⟩ ⟨types, depth, .stmt body, t⟩
  | increment {types depth condition increment body steps s t u} : test setting depth condition s = (.ok true, t) →
      exec setting depth body t = (.ok (), u) → u.returning = none →
      Starts setting ⟨types, depth, .rounds condition increment body (steps + 1), s⟩
        ⟨types.add (declared setting depth body t), depth, .expr increment, u⟩
  | again {types depth condition increment body steps s t u v w} : test setting depth condition s = (.ok true, t) →
      exec setting depth body t = (.ok (), u) → u.returning = none → eval setting depth increment u = (.ok v, w) →
      Starts setting ⟨types, depth, .rounds condition increment body (steps + 1), s⟩
        ⟨types.add (declared setting depth body t), depth, .rounds condition increment body steps, w⟩
  | block {types depth token body s} :
      Starts setting ⟨types, depth + 1, .stmt (.block token body), s⟩
        ⟨types.push [], depth, .sequence body, s.pushed "block"⟩
  | first {types depth stmt rest s} :
      Starts setting ⟨types, depth, .sequence (stmt :: rest), s⟩ ⟨types, depth, .stmt stmt, s⟩
  | next {types depth stmt rest s t} : exec setting depth stmt s = (.ok (), t) → t.returning = none →
      Starts setting ⟨types, depth, .sequence (stmt :: rest), s⟩
        ⟨types.add (declared setting depth stmt s), depth, .sequence rest, t⟩
  -- expressions
  | tested {types depth e s} : Starts setting ⟨types, depth + 1, .test e, s⟩ ⟨types, depth, .expr e, s⟩
  | operands {types depth e s} : Starts setting ⟨types, depth + 1, .expr e, s⟩ ⟨types, depth, .exprs e.operands, s⟩
  | firstOperand {types depth e es s} : Starts setting ⟨types, depth, .exprs (e :: es), s⟩ ⟨types, depth, .expr e, s⟩
  | nextOperand {types depth e es s v t} : eval setting depth e s = (.ok v, t) →
      Starts setting ⟨types, depth, .exprs (e :: es), s⟩ ⟨types, depth, .exprs es, t⟩
  | value {types depth token target value s} :
      Starts setting ⟨types, depth + 1, .expr (.assign token target value), s⟩ ⟨types, depth, .expr value, s⟩
  | target {types depth token target value s v t} : eval setting depth value s = (.ok v, t) →
      Starts setting ⟨types, depth + 1, .expr (.assign token target value), s⟩ ⟨types, depth, .target target, t⟩
  | owner {types depth token owner name s} :
      Starts setting ⟨types, depth + 1, .target (.member token owner name), s⟩ ⟨types, depth, .target owner, s⟩
  | item {types depth token owner place s} :
      Starts setting ⟨types, depth + 1, .target (.index token owner place), s⟩ ⟨types, depth, .exprs [owner, place], s⟩
  -- calls
  | function {types depth token callee arguments s owner decl t values u} :
      eval setting depth callee s = (.ok (.fn owner decl), t) → arguments.length = decl.params.length →
      Eval.castAll (eval setting depth) arguments decl.params t = (.ok values, u) →
      Starts setting ⟨types, depth + 1, .expr (.call token callee arguments), s⟩
        ⟨types, depth, .call decl values setting.dynamic, u⟩
  | body {types depth decl arguments dynamic s} :
      Starts setting ⟨types, depth + 1, .call decl arguments dynamic, s⟩
        ⟨(types.enter (declaredParams decl.params) dynamic).push [], depth, .sequence decl.body,
          s.entered decl arguments dynamic⟩
  | named {types depth name arguments s owner decl} : s.env.globals.get? name = some (.fn owner decl) →
      hostCallCause? name decl.params arguments = none →
      Starts setting ⟨types, depth + 1, .named name arguments, s⟩
        ⟨types, depth, .call decl arguments false, { s with lastError := none }⟩
  -- functions of the host
  | native {types depth token callee arguments s number ownName t values u} {r : Routine m} :
      eval setting depth callee s = (.ok (.native (.host number ownName)), t) →
      arguments.mapM (eval setting depth) t = (.ok values, u) →
      (∀ callBack, setting.host number callBack values = r.run callBack) →
      Starts setting ⟨types, depth + 1, .expr (.call token callee arguments), s⟩ ⟨types, depth, .host r, u⟩
  | look {types depth next s} :
      Starts setting ⟨types, depth, .host (.look next), s⟩ ⟨types, depth, .host (next s), s⟩
  | lists {types depth heap next s} :
      Starts setting ⟨types, depth, .host (.lists heap next), s⟩ ⟨types, depth, .host next, { s with heap := heap }⟩
  | print {types depth owner text next s} :
      Starts setting ⟨types, depth, .host (.print owner text next), s⟩
        ⟨types, depth, .host next, { s with output := s.output.push (owner, text) }⟩
  | callBack {types depth allowed name arguments next s} :
      Starts setting ⟨types, depth, .host (.call allowed name arguments next), s⟩
        ⟨types, depth, .named name arguments, s⟩
  | calledBack {types depth allowed name arguments next s result t} :
      callByName setting depth name arguments s = (result, t) →
      Starts setting ⟨types, depth, .host (.call allowed name arguments next), s⟩ ⟨types, depth, .host (next result), t⟩
  | install {types depth allowed name f next s} :
      Starts setting ⟨types, depth, .host (.install allowed name f next), s⟩
        ⟨types, depth, .host next, s.install name f⟩

/-- the declared types and the state where a position has ended; the ends of lists of statements or expressions are
ends of what they start -/
def Position.after {m : Manners} (setting : Setting) (p : Position m) : Types × State :=
  match p.part with
  | .stmt stmt => (p.types.add (declared setting p.depth stmt p.state), (exec setting p.depth stmt p.state).2)
  | .test e => (p.types, (test setting p.depth e p.state).2)
  | .expr e => (p.types, (eval setting p.depth e p.state).2)
  | .target e => (p.types, (resolve setting p.depth e p.state).2)
  | .call decl arguments dynamic => (p.types, (callFunction setting p.depth decl arguments dynamic p.state).2)
  | .named name arguments => (p.types, (callByName setting p.depth name arguments p.state).2)
  | _ => (p.types, p.state)

/-- the run from a position comes to a state in which the frames have the given declared types -/
def Position.Sees {m : Manners} (setting : Setting) (p : Position m) (types : Types) (s : State) : Prop :=
  ∃ q, Relation.ReflTransGen (Starts setting) p q ∧ ((types, s) = (q.types, q.state) ∨ (types, s) = q.after setting)

end LevelScript
