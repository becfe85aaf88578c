/-
The evaluator.

Statements run for their effect and expressions give values; a return statement leaves its value in the state, where
blocks and loops stop for it and the call that it belongs to takes it. Assignments find the slot that they write first,
then cast and store.

Every level of nesting, and every call, spends a unit of a depth budget, which makes the recursion structural. The
function that runs out of it is blamed. Loops have a budget of repetitions of their own. Both budgets, and what else the
machine brings along, are the `Platform` that a script runs on.
-/
import LevelScript.Evaluation.State
import LevelScript.Value.Arithmetic

namespace LevelScript

open LevelScript.Syntax

/-- what a function of the host gives back: a value, or something that is none, named by its kind -/
inductive Reply where
  | value (v : Val)
  | noValue (kind : String)

/-- a function of the host; it can call the functions of the script by name -/
abbrev HostFunction := (String → List Val → Eval Val) → List Val → Eval Reply

/-- what the machine brings along: the depth to which it parses and evaluates, the repetitions of a loop that it sees
through, and the length of a vector -/
structure Platform where
  depths : Depths := .standard
  evaluation : Nat := 480
  repetitions : Nat := 1000000000000
  norm : Float → Float → Float → Float := euclidean
  /-- a call from the host can enter the function -/
  enters : 2 ≤ evaluation := by decide

/-- what the machine brings along unless a host says otherwise -/
def Platform.standard : Platform := {}

/-- what a script runs in: the platform, its number, its lines, the way its functions are called, and the functions of the
host by number -/
structure Setting extends Platform where
  script : Nat := 0
  line? : Nat → Option String := fun _ => none
  dynamic : Bool := false
  host : Nat → HostFunction := fun _ _ _ => return .noValue "NoneType"

inductive Slot where
  | binding (name : String)
  | item (address place : Nat)

namespace Slot

def get (slot : Slot) : Eval Val :=
  match slot with
  | .binding name => do return (← Eval.lookup? name).getD .void
  | .item address place => do return (← Eval.items address)[place]?.getD .void

def set (slot : Slot) (v : Val) : Eval Unit :=
  match slot with
  | .binding name => Eval.assign name v
  | .item address place => Eval.modifyList address (·.setIfInBounds place v)

end Slot

/-- a list grown with zeros until it has an item at the given place -/
def grown (place : Nat) (items : Array Val) : Array Val :=
  items ++ Array.replicate (place + 1 - items.size) (Val.int 0)

/-- the fault that an index cannot be used; its text may have too many digits -/
def invalidIndex {α : Type} (index : Int) (span : Span) : Eval α :=
  match Decimal.intText? index with
  | some text => Eval.fail (.invalidIndex text) span
  | none => throw (.host .tooManyDigits)

def readMember (v : Val) (name : Token) (span : Span) : Eval Val :=
  match v with
  | .list a => do
    if name.name = "length" then return .int (← Eval.items a).size
    else Eval.fail (.invalidMember .list name.name) name.span
  | .vec2 .. | .vec3 .. =>
    match (componentIndex? v.type name.name).bind v.component? with
    | some c => return .float c
    | none => Eval.fail (.invalidMember v.type name.name) name.span
  | _ => Eval.fail (.noMembers v.type) span

def readItem (address : Nat) (index : Val) (span : Span) : Eval Val := do
  match ← Eval.ofExcept (index.cast .int span) with
  | .int n =>
    let items ← Eval.items address
    match if n < 0 then none else items[n.toNat]? with
    | some v => return v
    | none => invalidIndex n span
  | _ => return .void

/-- the slot of a list at an index; the list grows to hold it -/
def growSlot (address : Nat) (index : Val) (span : Span) : Eval Slot := do
  match ← Eval.ofExcept (index.cast .int span) with
  | .int n =>
    if n < 0 then invalidIndex n span
    else if maxListIndex < n.toNat then Eval.fail .indexTooLarge span
    else
      Eval.modifyList address (grown n.toNat)
      return .item address n.toNat
  | _ => Eval.fail .invalidTarget span

/-- store the value of an assignment in the slot of its target: a member changes one component of a vector, an item takes
any value, and a name keeps the type of its value -/
def store (target : Expr) (slot : Slot) (v : Val) (span : Span) : Eval Val := do
  let current ← slot.get
  match target with
  | .member token _ name =>
    match ← Eval.ofExcept (v.cast .float span) with
    | .float c =>
      if current.type.isVector then
        match componentIndex? current.type name.name with
        | some place =>
          slot.set (current.setComponent place c)
          return .float c
        | none => Eval.fail (.invalidMember current.type name.name) name.span
      else Eval.fail (.noAssignableMembers current.type) token.span
    | other => return other
  | .index .. =>
    slot.set v
    return v
  | _ =>
    let v ← Eval.ofExcept (v.cast current.type span)
    slot.set v
    return v

/-- the interrupt that a failed native function becomes at its call: faults get the place of the call, failures of the
host become faults that name the function, and a lack of depth or of repetitions stays what it is -/
def nativeInterrupt (name : String) (span : Span) : Interrupt → Interrupt
  | .fault f => .fault (f.located span)
  | .host .tooDeep => .host .tooDeep
  | .host .endless => .host .endless
  | .host e => .at (.nativeFailed name e.message) span

/-- the value of a call of a native function from its reply; an error value is a failed call -/
def acceptReply (name : String) (span : Span) : Reply → Eval Val
  | .value (.error message) => Eval.fail (.nativeFailed name message) span
  | .value v => return v
  | .noValue kind => Eval.fail (.nativeFailed name ("expected a Val result, got " ++ kind)) span

/-- call a native function; functions of the host may call back -/
def callNative (setting : Setting) (depth : Nat) (callBack : String → List Val → Eval Val) (f : Native)
    (arguments : List Val) (span : Span) : Eval Val := do
  let run : Eval Reply := match f with
    | .builtin owner b => do
      let (v, text) ← Eval.ofExcept (b.call (← get).heap depth arguments setting.norm)
      if text.isEmpty then pure () else Eval.write owner text
      return .value v
    | .host number _ => setting.host number callBack arguments
  let reply ← tryCatch run fun e => throw (nativeInterrupt f.name span e)
  acceptReply f.name span reply

/-- the fault of a call from the host, if the arguments do not fit the parameters -/
def hostCallCause? (name : String) (params : List Param) (arguments : List Val) : Option Cause :=
  if arguments.length ≠ params.length then some (.hostArgumentCount name params.length arguments.length)
  else (arguments.zip params).findSome? fun (v, p) =>
    if v.type = p.type then none else some (.hostArgumentType p.name.name p.type v.type)

def argumentFrame (decl : Function) (arguments : List Val) : Frame :=
  .ofBindings decl.name ((decl.params.map (·.name.name)).zip arguments)

mutual

def exec (setting : Setting) : Nat → Stmt → Eval Unit
  | 0, _ => throw (.host .tooDeep)
  | depth + 1, stmt => match stmt with
    | .expr _ e => do discard (eval setting depth e)
    | .var token ty names start => match names with
      | [name] => do
        let v ← match start with
          | none => Eval.newDefault ty
          | some e => do Eval.ofExcept ((← eval setting depth e).cast ty e.span)
        Eval.declare name.name v name.span
      | _ => Eval.fail .severalNames token.span
    | .fn decl => Eval.declare decl.name (.fn setting.script decl) decl.span
    | .branch _ arms otherwise => do
      unless ← Eval.firstArm (test setting depth) (exec setting depth) arms do
        match otherwise with
        | some body => exec setting depth body
        | none => pure ()
    | .loop _ counter start condition increment body =>
      Eval.inFrame "for-loop" do
        let v ← eval setting depth start
        match counter with
        | some ⟨ty, name⟩ => Eval.declare name.name (← Eval.ofExcept (v.cast ty start.span)) name.span
        | none => pure ()
        Eval.repeatWhile (test setting depth condition) (exec setting depth body)
          (discard (eval setting depth increment)) setting.repetitions
    | .ret _ e => do Eval.startReturn (← eval setting depth e)
    | .block _ body => Eval.inFrame "block" (Eval.untilReturn (exec setting depth) body)

def test (setting : Setting) : Nat → Expr → Eval Bool
  | 0, _ => throw (.host .tooDeep)
  | depth + 1, e => do
    match ← Eval.ofExcept ((← eval setting depth e).cast .bool e.span) with
    | .bool b => return b
    | _ => return false

def eval (setting : Setting) : Nat → Expr → Eval Val
  | 0, _ => throw (.host .tooDeep)
  | depth + 1, e => match e with
    | .int _ n => return .int n
    | .float _ x => return .float x
    | .string _ text => Eval.newString text
    | .symbol token name => do
      match ← Eval.lookup? name with
      | some v => return v
      | none => Eval.fail (.undefinedSymbol name) token.span
    | .binary token left op right => do
      let a ← eval setting depth left
      let b ← eval setting depth right
      Eval.ofExcept (op.apply a b token.span)
    | .assign _ target value => do
      let v ← eval setting depth value
      let slot ← resolve setting depth target
      store target slot v value.span
    | .call token callee arguments => do
      match ← eval setting depth callee with
      | .fn _ decl =>
        if arguments.length ≠ decl.params.length then
          Eval.fail (.argumentCount decl.name decl.params.length arguments.length) token.span
        else
          let values ← (arguments.zip decl.params).mapM fun (e, p) => do
            Eval.ofExcept ((← eval setting depth e).cast p.type e.span)
          callFunction setting depth decl values setting.dynamic
      | .native f => do
        let values ← arguments.mapM (eval setting depth)
        callNative setting depth (callByName setting depth) f values token.span
      | v => Eval.fail (.notCallable v.type) token.span
    | .member token target name => do readMember (← eval setting depth target) name token.span
    | .index _ target place => do
      match ← eval setting depth target with
      | .list a => readItem a (← eval setting depth place) place.span
      | v => Eval.fail (.expectedList v.type) target.span
    | .list _ elements => do Eval.newList (← elements.mapM (eval setting depth)).toArray
    | .cast token ty operand => do Eval.ofExcept ((← eval setting depth operand).cast ty token.span)

/-- the slot that the target of an assignment names; a member has the slot of its owner -/
def resolve (setting : Setting) : Nat → Expr → Eval Slot
  | 0, _ => throw (.host .tooDeep)
  | depth + 1, target => match target with
    | .symbol token name => do
      if (← Eval.lookup? name).isSome then return .binding name
      else Eval.fail (.undefinedSymbol name) token.span
    | .member _ owner _ => resolve setting depth owner
    | .index _ owner place => do
      match ← eval setting depth owner with
      | .list a => growSlot a (← eval setting depth place) place.span
      | v => Eval.fail (.expectedList v.type) owner.span
    | other => Eval.fail .invalidTarget other.span

/-- call a function of a script with arguments of the declared types -/
def callFunction (setting : Setting) : Nat → Function → List Val → Bool → Eval Val
  | 0, _, _, _ => throw (.host .tooDeep)
  | depth + 1, decl, arguments, dynamic =>
    tryCatch (Eval.inCall (argumentFrame decl arguments) dynamic
        (Eval.inFrame "block" (Eval.untilReturn (exec setting depth) decl.body))) fun e =>
      match e with
      | .host .tooDeep => Eval.fail (.callTooDeep decl.name) decl.span
      | e => throw e

/-- call a global function from the host. The arguments must have the declared types already. A fault comes back as an
error value and is kept as the last error, which a call that succeeds clears. -/
def callByName (setting : Setting) : Nat → String → List Val → Eval Val
  | 0, _, _ => throw (.host .tooDeep)
  | depth + 1, name, arguments => do
    modify fun s => { s with lastError := none }
    let call : Eval Val := do
      match (← get).env.globals.get? name with
      | some (.fn _ decl) =>
        match hostCallCause? name decl.params arguments with
        | some cause => throw (.unplaced cause)
        | none =>
          tryCatch (callFunction setting depth decl arguments false) fun e => match e with
            | .host .tooDeep => Eval.fail .nestingTooDeep decl.span
            | e => throw e
      | _ => throw (.unplaced (.unknownFunction name))
    tryCatch call fun e => match e with
      | .fault f => do
        modify fun s => { s with lastError := some (f.diagnostic.quoting setting.line?) }
        return .error f.cause.message
      | e => throw e

end

/-- run a statement at the top level, where a return statement ends nothing but itself -/
def execTop (setting : Setting) (stmt : Stmt) : Eval Unit := do
  tryCatch (exec setting setting.evaluation stmt) fun e => match e with
    | .host .tooDeep => Eval.fail .nestingTooDeep stmt.span
    | e => throw e
  Eval.clearReturn

end LevelScript
