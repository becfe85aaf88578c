/-
Runs under observation.

A watched run calls functions lexically, and it knows the frames of the suspended callers, which a dynamic run would
see. Where it looks up a name that the frames of its own activation do not bind, while a suspended caller does, the run
is broken off: it has no end (`none`). A watched run that comes to an end has looked up no such name. Functions of the
host are guests, whose lookups are watched, too. What they call back starts a new activation without callers, in both
ways of calling functions.
-/
import LevelScript.Proofs.Routine
import LevelScript.Script

namespace LevelScript

open LevelScript.Syntax

/-- a computation that knows the frames of its suspended callers, the innermost first, and may be broken off -/
abbrev Watch := ReaderT (List Frame) (ExceptT Interrupt (StateT State Option))

/-- the state as it is seen from the globals, without the frames above them -/
def State.atGlobals (s : State) : State := { s with env := { s.env with locals := [] } }

/-- the steps of a function of the host that sees the frames above the globals only through the values of names -/
inductive Guest where
  | reply (r : Reply)
  | fail (e : Interrupt)
  | look (next : State → Guest)
  | find (name : String) (next : Option Val → Guest)
  | lists (heap : Heap) (next : Guest)
  | print (owner : Nat) (text : String) (next : Guest)
  | call (name : String) (arguments : List Val) (next : Except Interrupt Val → Guest)
  | install (name : String) (f : Native) (next : Guest)

/-- a guest is a routine that may call functions and bind free names -/
def Guest.routine : Guest → Routine ⟨True, True⟩
  | reply r => .reply r
  | fail e => .fail e
  | look next => .look fun s => (next s.atGlobals).routine
  | find name next => .look fun s => (next (s.env.lookup? name)).routine
  | lists heap next => .lists heap next.routine
  | print owner text next => .print owner text next.routine
  | call name arguments next => .call trivial name arguments fun result => (next result).routine
  | install name f next => .install trivial name f next.routine

/-- what the functions of the host do, by number and arguments -/
abbrev Guests := Nat → List Val → Guest

/-- the name is bound by a suspended caller, but by no frame of the activation itself -/
def State.Captures (s : State) (callers : List Frame) (name : String) : Prop :=
  (∀ f ∈ s.env.locals, f.binds name = false) ∧ ∃ f ∈ callers, f.binds name = true

instance (s : State) (callers : List Frame) (name : String) : Decidable (s.Captures callers name) :=
  inferInstanceAs (Decidable (_ ∧ _))

namespace Watch

variable {α : Type}

/-- a step that looks up no name -/
def lift (step : Eval α) : Watch α := fun _ s => some (step s)

/-- break the run off if the name is captured -/
def guard (name : String) : Watch Unit := fun callers s => if s.Captures callers name then none else some (.ok (), s)

def lookup? (name : String) : Watch (Option Val) := do
  guard name
  lift (Eval.lookup? name)

def inFrame (name : String) (body : Watch α) : Watch α := fun callers s =>
  (body callers { s with env := s.env.push ⟨name, []⟩ }).map fun (result, t) =>
    (result, { t with env := t.env.pop })

/-- run the body of a called function; the caller is suspended, unless it is the host -/
def inCall (arguments : Frame) (byHost : Bool) (body : Watch Unit) : Watch Val := fun callers s =>
  (body (if byHost then [] else s.env.locals ++ callers) { s with env := s.env.enter arguments false }).map
    fun (result, t) => (result.map fun _ => t.returning.getD .void,
      { t with returning := none, env := .leave s.env t.env false })

def untilReturn (run : Stmt → Watch Unit) : List Stmt → Watch Unit
  | [] => pure ()
  | stmt :: rest => do
    run stmt
    if ← lift Eval.isReturning then pure () else untilReturn run rest

def firstArm (test : Expr → Watch Bool) (run : Stmt → Watch Unit) : List (Expr × Stmt) → Watch Bool
  | [] => pure false
  | (condition, body) :: rest => do
    if ← test condition then
      run body
      return true
    else firstArm test run rest

def repeatWhile (test : Watch Bool) (body increment : Watch Unit) : Nat → Watch Unit
  | 0 => throw (.host .endless)
  | steps + 1 => do
    if ← test then
      body
      if ← lift Eval.isReturning then pure ()
      else
        increment
        repeatWhile test body increment steps
    else pure ()

def store (target : Expr) (slot : Slot) (v : Val) (span : Span) : Watch Val := do
  match slot with
  | .binding name => guard name
  | .item .. => pure ()
  lift (LevelScript.store target slot v span)

/-- run a function of the host -/
def welcome (callBack : String → List Val → Watch Val) : Guest → Watch Reply
  | .reply r => pure r
  | .fail e => throw e
  | .look next => fun callers s => welcome callBack (next s.atGlobals) callers s
  | .find name next => do
    guard name
    fun callers s => welcome callBack (next (s.env.lookup? name)) callers s
  | .lists heap next => fun callers s => welcome callBack next callers { s with heap := heap }
  | .print owner text next => do
    lift (Eval.write owner text)
    welcome callBack next
  | .call name arguments next => fun callers s =>
    (callBack name arguments callers s).bind fun (result, t) => welcome callBack (next result) callers t
  | .install name f next => fun callers s => welcome callBack next callers (s.install name f)

def callNative (setting : Setting) (guests : Guests) (depth : Nat) (callBack : String → List Val → Watch Val) (f : Native)
    (arguments : List Val) (span : Span) : Watch Val :=
  match f with
  | .builtin .. => lift (LevelScript.callNative setting depth (fun _ _ => return .void) f arguments span)
  | .host number name => do
    let reply ← tryCatch (welcome callBack (guests number arguments)) fun e => throw (nativeInterrupt name span e)
    lift (acceptReply name span reply)

mutual

def exec (setting : Setting) (guests : Guests) : Nat → Stmt → Watch Unit
  | 0, _ => throw (.host .tooDeep)
  | depth + 1, stmt => match stmt with
    | .expr _ e => do discard (eval setting guests depth e)
    | .var token ty names start => match names with
      | [name] => do
        let v ← match start with
          | none => lift (Eval.newDefault ty)
          | some e => do lift (Eval.ofExcept ((← eval setting guests depth e).cast ty e.span))
        lift (Eval.declare name.name v name.span)
      | _ => throw (.at .severalNames token.span)
    | .fn decl => lift (Eval.declare decl.name (.fn setting.script decl) decl.span)
    | .branch _ arms otherwise => do
      unless ← firstArm (test setting guests depth) (exec setting guests depth) arms do
        match otherwise with
        | some body => exec setting guests depth body
        | none => pure ()
    | .loop _ counter start condition increment body =>
      inFrame "for-loop" do
        let v ← eval setting guests depth start
        match counter with
        | some ⟨ty, name⟩ => lift (Eval.declare name.name (← lift (Eval.ofExcept (v.cast ty start.span))) name.span)
        | none => pure ()
        repeatWhile (test setting guests depth condition) (exec setting guests depth body)
          (discard (eval setting guests depth increment)) setting.repetitions
    | .ret _ e => do lift (Eval.startReturn (← eval setting guests depth e))
    | .block _ body => inFrame "block" (untilReturn (exec setting guests depth) body)

def test (setting : Setting) (guests : Guests) : Nat → Expr → Watch Bool
  | 0, _ => throw (.host .tooDeep)
  | depth + 1, e => do
    match ← lift (Eval.ofExcept ((← eval setting guests depth e).cast .bool e.span)) with
    | .bool b => return b
    | _ => return false

def eval (setting : Setting) (guests : Guests) : Nat → Expr → Watch Val
  | 0, _ => throw (.host .tooDeep)
  | depth + 1, e => match e with
    | .int _ n => return .int n
    | .float _ x => return .float x
    | .string _ text => lift (Eval.newString text)
    | .symbol token name => do
      match ← lookup? name with
      | some v => return v
      | none => throw (.at (.undefinedSymbol name) token.span)
    | .binary token left op right => do
      let a ← eval setting guests depth left
      let b ← eval setting guests depth right
      lift (Eval.ofExcept (op.apply a b token.span))
    | .assign _ target value => do
      let v ← eval setting guests depth value
      let slot ← resolve setting guests depth target
      store target slot v value.span
    | .call token callee arguments => do
      match ← eval setting guests depth callee with
      | .fn _ decl =>
        if arguments.length ≠ decl.params.length then
          throw (.at (.argumentCount decl.name decl.params.length arguments.length) token.span)
        else
          let values ← (arguments.zip decl.params).mapM fun (e, p) => do
            lift (Eval.ofExcept ((← eval setting guests depth e).cast p.type e.span))
          callFunction setting guests depth decl values false
      | .native f => do
        let values ← arguments.mapM (eval setting guests depth)
        callNative setting guests depth (callByName setting guests depth) f values token.span
      | v => throw (.at (.notCallable v.type) token.span)
    | .member token target name => do lift (readMember (← eval setting guests depth target) name token.span)
    | .index _ target place => do
      match ← eval setting guests depth target with
      | .list a => lift (readItem a (← eval setting guests depth place) place.span)
      | v => throw (.at (.expectedList v.type) target.span)
    | .list _ elements => do lift (Eval.newList (← elements.mapM (eval setting guests depth)).toArray)
    | .cast token ty operand => do
      lift (Eval.ofExcept ((← eval setting guests depth operand).cast ty token.span))

def resolve (setting : Setting) (guests : Guests) : Nat → Expr → Watch Slot
  | 0, _ => throw (.host .tooDeep)
  | depth + 1, target => match target with
    | .symbol token name => do
      if (← lookup? name).isSome then return .binding name
      else throw (.at (.undefinedSymbol name) token.span)
    | .member _ owner _ => resolve setting guests depth owner
    | .index _ owner place => do
      match ← eval setting guests depth owner with
      | .list a => lift (growSlot a (← eval setting guests depth place) place.span)
      | v => throw (.at (.expectedList v.type) owner.span)
    | other => throw (.at .invalidTarget other.span)

def callFunction (setting : Setting) (guests : Guests) : Nat → Function → List Val → Bool → Watch Val
  | 0, _, _, _ => throw (.host .tooDeep)
  | depth + 1, decl, arguments, byHost =>
    tryCatch (inCall (argumentFrame decl arguments) byHost
        (inFrame "block" (untilReturn (exec setting guests depth) decl.body))) fun e =>
      match e with
      | .host .tooDeep => throw (.at (.callTooDeep decl.name) decl.span)
      | e => throw e

def callByName (setting : Setting) (guests : Guests) : Nat → String → List Val → Watch Val
  | 0, _, _ => throw (.host .tooDeep)
  | depth + 1, name, arguments => do
    lift (modify fun s => { s with lastError := none })
    let call : Watch Val := do
      match (← lift get).env.globals.get? name with
      | some (.fn _ decl) =>
        match hostCallCause? name decl.params arguments with
        | some cause => throw (.unplaced cause)
        | none =>
          tryCatch (callFunction setting guests depth decl arguments true) fun e => match e with
            | .host .tooDeep => throw (.at .nestingTooDeep decl.span)
            | e => throw e
      | _ => throw (.unplaced (.unknownFunction name))
    tryCatch call fun e => match e with
      | .fault f => do
        lift (modify fun s => { s with lastError := some (f.diagnostic.quoting setting.line?) })
        return .error f.cause.message
      | e => throw e

end

def execTop (setting : Setting) (guests : Guests) (stmt : Stmt) : Watch Unit := do
  tryCatch (exec setting guests setting.evaluation stmt) fun e => match e with
    | .host .tooDeep => throw (.at .nestingTooDeep stmt.span)
    | e => throw e
  lift Eval.clearReturn

def runTokens (setting : Setting) (guests : Guests) : Nat → List Token → State → Option Loading
  | 0, _, s => some ⟨[], none, s⟩
  | bound + 1, tokens, s =>
    if Parser.ended tokens then some ⟨[], none, s⟩
    else match parseStatement setting.depths tokens with
      | .error refusal => some ⟨[], some (.refusal refusal), s⟩
      | .ok (stmt, rest) => (execTop setting guests stmt [] s).bind fun
        | (.error e, s) => some ⟨[stmt], some (.interrupt e), s⟩
        | (.ok (), s) => (runTokens setting guests bound rest s).map fun others =>
          { others with statements := stmt :: others.statements }

end Watch

end LevelScript
