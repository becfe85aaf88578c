/-
The return signal implements structured return.

The evaluator leaves the value of a return statement in the state and goes on; blocks and loops look for it, and the
call takes it away. `return_is_structured`: from a state in which no return statement is under way, that has the
results, the errors and the effects of statements that tell how they end, and afterwards a return statement is under
way exactly if the statement has returned. Expressions and calls never leave one under way.
-/
import LevelScript.Proofs.Evolution
import LevelScript.Proofs.Hosting
import LevelScript.Proofs.Structured

namespace LevelScript

open LevelScript.Syntax Eval Run

variable {α β : Type}

@[simp] theorem Store.env_state (s : Store) : s.state.env = s.env := rfl

theorem State.state_store {s : State} (h : s.returning = none) : s.store.state = s := by
  cases s
  cases h
  rfl

/-! ## Steps that do not touch the signal -/

/-- the return statement that is under way is the same -/
def Quiet (s t : State) : Prop := t.returning = s.returning

instance : IsPreorder State Quiet where
  refl _ := rfl
  trans _ _ _ h k := k.trans h

theorem quiet_of_inert {c : Eval α} (h : Keeps Inert c) : Keeps Quiet c := h.mono fun _ _ hst => hst.2

theorem quiet_declare (name : String) (v : Val) (span : Span) : Keeps Quiet (declare name v span) := by
  intro s
  unfold declare
  split <;> rfl

theorem quiet_set (slot : Slot) (v : Val) : Keeps Quiet (slot.set v) := by
  cases slot with
  | binding name => exact fun s => rfl
  | item address place => exact quiet_of_inert (inert_modifyList _ _)

/-! ## Agreement -/

/-- without a return statement under way, the two give the same result and the same state, which has none either -/
def Agrees (c : Eval α) (r : Run α) : Prop := ∀ s : Store, c s.state = ((r s).1, (r s).2.state)

/-- the end of a statement that tells how it ends, as the evaluator leaves it -/
def signalled : Except Interrupt Outcome × Store → Except Interrupt Unit × State
  | (.ok .fell, t) => (.ok (), t.state)
  | (.ok (.returned v), t) => (.ok (), { t.state with returning := some v })
  | (.error e, t) => (.error e, t.state)

/-- the evaluator leaves a return statement under way if the statement has returned, and only then -/
def Follows (c : Eval Unit) (r : Run Outcome) : Prop := ∀ s : Store, c s.state = signalled (r s)

theorem agrees_pure (a : α) : Agrees (pure a) (pure a) := fun _ => rfl

theorem agrees_throw (e : Interrupt) : Agrees (throw e : Eval α) (throw e) := fun _ => rfl

theorem agrees_fail (cause : Cause) (span : Span) : Agrees (fail cause span : Eval α) (throw (.at cause span)) :=
  fun _ => rfl

theorem run_ofEval {c : Eval α} {s : Store} (h : (c s.state).2.returning = none) :
    c s.state = ((ofEval c s).1, (ofEval c s).2.state) :=
  Prod.ext rfl (State.state_store h).symm

theorem agrees_ofEval {c : Eval α} (h : Keeps Quiet c) : Agrees c (ofEval c) := fun s => run_ofEval (h s.state)

theorem agrees_ofExcept (r : Except Interrupt α) : Agrees (Eval.ofExcept r) (ofEval (Eval.ofExcept r)) :=
  agrees_ofEval (keeps_ofExcept r)

theorem Agrees.bind {c : Eval α} {r : Run α} {f : α → Eval β} {g : α → Run β} (h : Agrees c r)
    (hf : ∀ a, Agrees (f a) (g a)) : Agrees (c >>= f) (r >>= g) := by
  intro s
  have hs := h s
  rcases hr : r s with ⟨e | a, t⟩ <;> rw [hr] at hs
  · rw [run_bind_error hs, run_bind_error hr]
  · rw [run_bind_ok hs, run_bind_ok hr]
    exact hf a t

theorem Agrees.tryCatch {c : Eval α} {r : Run α} {f : Interrupt → Eval α} {g : Interrupt → Run α} (h : Agrees c r)
    (hf : ∀ e, Agrees (f e) (g e)) : Agrees (tryCatch c f) (tryCatch r g) := by
  intro s
  have hs := h s
  rcases hr : r s with ⟨e | a, t⟩ <;> rw [hr] at hs
  · rw [run_catch_error hs, run_catch_error hr]
    exact hf e t
  · rw [run_catch_ok hs, run_catch_ok hr]

theorem Agrees.map {c : Eval α} {r : Run α} (h : Agrees c r) (f : α → β) : Agrees (f <$> c) (f <$> r) := by
  rw [map_eq_pure_bind, map_eq_pure_bind]
  exact h.bind fun a => agrees_pure (f a)

theorem Agrees.discard {c : Eval α} {r : Run α} (h : Agrees c r) : Agrees (discard c) (discard r) := h.map _

theorem agrees_get {f : State → Eval β} {g : Store → Run β} (h : ∀ s : Store, Agrees (f s.state) (g s)) :
    Agrees (get >>= f) (get >>= g) := fun s => h s s

/-- a handler that gives a lack of depth a place -/
theorem agrees_placed (cause : Cause) (span : Span) (e : Interrupt) :
    Agrees (match e with
        | .host .tooDeep => fail cause span
        | e => throw e : Eval α)
      (match e with
        | .host .tooDeep => throw (.at cause span)
        | e => throw e) := by
  rcases e with f | e
  · exact agrees_throw _
  · cases e <;> exact agrees_throw _

theorem agrees_mapM {f : α → Eval β} {g : α → Run β} (h : ∀ a, Agrees (f a) (g a)) (l : List α) :
    Agrees (l.mapM f) (l.mapM g) := by
  induction l with
  | nil => exact agrees_pure []
  | cons a l ih =>
    rw [List.mapM_cons, List.mapM_cons]
    exact (h a).bind fun b => ih.bind fun bs => agrees_pure (b :: bs)

/-! ## Statements one after the other -/

theorem follows_fell : Follows (pure ()) (pure .fell) := fun _ => rfl

theorem follows_throw (e : Interrupt) : Follows (throw e) (throw e) := fun _ => rfl

theorem follows_startReturn (v : Val) : Follows (startReturn v) (pure (.returned v)) := fun _ => rfl

theorem Agrees.bind_follows {c : Eval α} {r : Run α} {f : α → Eval Unit} {g : α → Run Outcome} (h : Agrees c r)
    (hf : ∀ a, Follows (f a) (g a)) : Follows (c >>= f) (r >>= g) := by
  intro s
  have hs := h s
  rcases hr : r s with ⟨e | a, t⟩ <;> rw [hr] at hs
  · rw [run_bind_error hs, run_bind_error hr]
    rfl
  · rw [run_bind_ok hs, run_bind_ok hr]
    exact hf a t

/-- a statement that cannot return falls through -/
theorem Agrees.fell {c : Eval Unit} {r : Run Unit} (h : Agrees c r) : Follows c (r >>= fun _ => pure .fell) := by
  rw [← bind_pure c]
  exact h.bind_follows fun _ => follows_fell

theorem Follows.tryCatch {c : Eval Unit} {r : Run Outcome} {f : Interrupt → Eval Unit} {g : Interrupt → Run Outcome}
    (h : Follows c r) (hf : ∀ e, Follows (f e) (g e)) : Follows (tryCatch c f) (tryCatch r g) := by
  intro s
  have hs := h s
  rcases hr : r s with ⟨e | _ | v, t⟩ <;> rw [hr] at hs
  · rw [run_catch_error hs, run_catch_error hr]
    exact hf e t
  · rw [run_catch_ok hs, run_catch_ok hr]
    rfl
  · rw [run_catch_ok hs, run_catch_ok hr]
    rfl

/-- where the signal is forgotten, it does not matter how a statement ends -/
theorem Follows.cleared {c : Eval Unit} {r : Run Outcome} (h : Follows c r) :
    Agrees (c >>= fun _ => clearReturn) (r >>= fun _ => pure ()) := by
  intro s
  have hs := h s
  rcases hr : r s with ⟨e | _ | v, t⟩ <;> rw [hr] at hs
  · rw [run_bind_error hs, run_bind_error hr]
  · rw [run_bind_ok hs, run_bind_ok hr]
    rfl
  · rw [run_bind_ok hs, run_bind_ok hr]
    rfl

/-- after a statement that may return, the signal decides as the outcome does -/
theorem Follows.unlessReturning {c next : Eval Unit} {r next' : Run Outcome} (h : Follows c r)
    (hnext : Follows next next') :
    Follows (c >>= fun _ => isReturning >>= fun b => if b = true then pure () else next)
      (r >>= fun o => match o with
        | .fell => next'
        | .returned v => pure (.returned v)) := by
  intro s
  have hs := h s
  rcases hr : r s with ⟨e | _ | v, t⟩ <;> rw [hr] at hs
  · rw [run_bind_error hs, run_bind_error hr]
    rfl
  · rw [run_bind_ok hs, run_bind_ok hr]
    exact hnext t
  · rw [run_bind_ok hs, run_bind_ok hr]
    rfl

theorem follows_sequence {run : Stmt → Eval Unit} {run' : Stmt → Run Outcome}
    (h : ∀ stmt, Follows (run stmt) (run' stmt)) (body : List Stmt) :
    Follows (untilReturn run body) (sequence run' body) := by
  induction body with
  | nil => exact follows_fell
  | cons stmt rest ih => exact (h stmt).unlessReturning ih

theorem follows_loop {test : Eval Bool} {body increment : Eval Unit} {test' : Run Bool} {body' : Run Outcome}
    {increment' : Run Unit} (ht : Agrees test test') (hb : Follows body body') (hi : Agrees increment increment')
    (steps : Nat) : Follows (repeatWhile test body increment steps) (loop test' body' increment' steps) := by
  induction steps with
  | zero => exact follows_throw _
  | succ steps ih =>
    refine ht.bind_follows fun b => ?_
    cases b with
    | false => exact follows_fell
    | true =>
      have hnext := hi.bind_follows fun _ => ih
      exact hb.unlessReturning hnext

theorem follows_choose {test : Expr → Eval Bool} {run : Stmt → Eval Unit} {test' : Expr → Run Bool}
    {run' : Stmt → Run Outcome} (ht : ∀ e, Agrees (test e) (test' e)) (hr : ∀ stmt, Follows (run stmt) (run' stmt))
    (otherwise : Option Stmt) (arms : List (Expr × Stmt)) :
    Follows (do match ← chosenArm test otherwise arms with
        | some body => run body
        | none => pure ()) (choose test' run' otherwise arms) := by
  induction arms with
  | nil =>
    cases otherwise with
    | none => exact follows_fell
    | some body => exact hr body
  | cons arm rest ih =>
    simp only [chosenArm, bind_assoc]
    refine (ht arm.1).bind_follows fun b => ?_
    cases b with
    | true => exact hr arm.2
    | false => exact ih

/-! ## Frames -/

theorem Follows.inFrame {c : Eval Unit} {r : Run Outcome} (h : Follows c r) (name : String) :
    Follows (Eval.inFrame name c) (Run.inFrame name r) := by
  intro s
  have hs := h { s with env := s.env.push ⟨name, []⟩ }
  have hpop := congrArg (fun p : Except Interrupt Unit × State => (p.1, { p.2 with env := p.2.env.pop })) hs
  refine Eq.trans hpop ?_
  unfold Run.inFrame
  rcases r { s with env := s.env.push ⟨name, []⟩ } with ⟨_ | _ | _, t⟩ <;> rfl

/-- a call takes the value that its body has returned, and the signal with it -/
theorem Follows.inCall {c : Eval Unit} {r : Run Outcome} (h : Follows c r) (arguments : Frame) (dynamic : Bool) :
    Agrees (Eval.inCall arguments dynamic c) (Run.inCall arguments dynamic r) := by
  intro s
  have hs := h { s with env := s.env.enter arguments dynamic }
  have hleave := congrArg (fun p : Except Interrupt Unit × State => (p.1.map fun _ => p.2.returning.getD .void,
    { p.2 with returning := none, env := .leave s.env p.2.env dynamic })) hs
  refine Eq.trans hleave ?_
  unfold Run.inCall
  rcases r { s with env := s.env.enter arguments dynamic } with ⟨_ | _ | _, t⟩ <;> rfl

/-! ## Native functions -/

/-- if no return statement is under way before, none is afterwards -/
def StaysClear (s t : State) : Prop := s.returning = none → t.returning = none

instance : IsPreorder State StaysClear where
  refl _ h := h
  trans _ _ _ h k hs := k (h hs)

theorem clear_of_quiet {c : Eval α} (h : Keeps Quiet c) : Keeps StaysClear c :=
  h.mono fun _ _ hst hs => hst.trans hs

theorem Agrees.staysClear {c : Eval α} {r : Run α} (h : Agrees c r) : Keeps StaysClear c := fun s hs => by
  rw [← State.state_store hs, h]
  rfl

/-- a routine cannot tell the two kinds of functions that it calls apart -/
theorem Routine.run_toEval {m : Manners} {callBack : String → List Val → Eval Val}
    {run : String → List Val → Run Val} (h : ∀ name arguments, Agrees (callBack name arguments) (run name arguments))
    (r : Routine m) (s : Store) :
    r.run callBack s.state = r.run (fun name arguments => (run name arguments).toEval) s.state := by
  induction r generalizing s with
  | reply r => rfl
  | fail e => rfl
  | look next ih => exact ih s.state s
  | lists heap next ih => exact ih { s with heap := heap }
  | print owner text next ih => exact ih { s with output := s.output.push (owner, text) }
  | call allowed name arguments next ih =>
    have hcall := h name arguments s
    simp only [Routine.run, hcall]
    exact ih (run name arguments s).1 (run name arguments s).2
  | install allowed name f next ih =>
    simp only [Routine.run, State.install]
    split_ifs
    · exact ih s
    · exact ih { s with env := { s.env with globals := s.env.globals.set name (.native f) } }

theorem agrees_callNative {m : Manners} {setting : Setting} (hs : setting.Obeys m) {depth : Nat}
    {callBack : String → List Val → Eval Val} {run : String → List Val → Run Val}
    (h : ∀ name arguments, Agrees (callBack name arguments) (run name arguments)) (f : Native) (arguments : List Val)
    (span : Span) :
    Agrees (callNative setting depth callBack f arguments span)
      (ofEval (callNative setting depth (fun name arguments => (run name arguments).toEval) f arguments span)) := by
  intro s
  have hsame : callNative setting depth callBack f arguments span s.state =
      callNative setting depth (fun name arguments => (run name arguments).toEval) f arguments span s.state := by
    refine callNative_congr (fun number => ?_) f span
    obtain ⟨r, hr⟩ := hs number arguments
    rw [hr, hr]
    exact r.run_toEval h s
  have hclear : Keeps StaysClear (callNative setting depth callBack f arguments span) := by
    refine keeps_callNative (fun owner text => clear_of_quiet (quiet_of_inert (inert_write owner text))) ?_ span
    intro number
    obtain ⟨r, hr⟩ := hs number arguments
    rw [hr]
    refine r.keeps_run (fun _ _ ht => ht) (fun owner text => clear_of_quiet (quiet_of_inert (inert_write owner text)))
      (fun _ name arguments => (h name arguments).staysClear) fun _ t name f ht => ?_
    unfold State.install
    split_ifs
    · exact ht
    · exact ht
  have hend := hclear s.state rfl
  rw [hsame] at hend
  rw [hsame]
  exact run_ofEval hend

/-! ## Runs -/

/-- with a depth to spend, the evaluator implements the statements that tell how they end -/
structure Implements (setting : Setting) (depth : Nat) : Prop where
  exec : ∀ stmt, Follows (exec setting depth stmt) (Structured.exec setting depth stmt)
  test : ∀ e, Agrees (test setting depth e) (Structured.test setting depth e)
  eval : ∀ e, Agrees (eval setting depth e) (Structured.eval setting depth e)
  resolve : ∀ target, Agrees (resolve setting depth target) (Structured.resolve setting depth target)
  call : ∀ decl arguments dynamic, Agrees (callFunction setting depth decl arguments dynamic)
    (Structured.callFunction setting depth decl arguments dynamic)
  callByName : ∀ name arguments, Agrees (callByName setting depth name arguments)
    (Structured.callByName setting depth name arguments)

section Steps

variable {m : Manners} {setting : Setting} {depth : Nat} (hs : setting.Obeys m) (ih : Implements setting depth)

include ih

theorem test_agrees (e : Expr) : Agrees (test setting (depth + 1) e) (Structured.test setting (depth + 1) e) := by
  simp only [test, Structured.test]
  refine (ih.eval e).bind fun v => (agrees_ofExcept _).bind fun b => ?_
  cases b <;> exact agrees_pure _

theorem resolve_agrees (target : Expr) :
    Agrees (resolve setting (depth + 1) target) (Structured.resolve setting (depth + 1) target) := by
  cases target with
  | symbol token name =>
    simp only [resolve, Structured.resolve]
    refine (agrees_ofEval (keeps_lookup name)).bind fun v => ?_
    split_ifs
    · exact agrees_pure _
    · exact agrees_fail _ _
  | member token owner name =>
    simp only [resolve, Structured.resolve]
    exact ih.resolve owner
  | index token owner place =>
    simp only [resolve, Structured.resolve]
    refine (ih.eval owner).bind fun v => ?_
    cases v with
    | list a => exact (ih.eval place).bind fun i => agrees_ofEval (quiet_of_inert (inert_growSlot a i _))
    | _ => exact agrees_fail _ _
  | _ =>
    simp only [resolve, Structured.resolve]
    exact agrees_fail _ _

theorem call_agrees (decl : Function) (arguments : List Val) (dynamic : Bool) :
    Agrees (callFunction setting (depth + 1) decl arguments dynamic)
      (Structured.callFunction setting (depth + 1) decl arguments dynamic) := by
  simp only [callFunction, Structured.callFunction]
  have hbody := (follows_sequence ih.exec decl.body).inFrame "block"
  exact (hbody.inCall _ dynamic).tryCatch fun e => agrees_placed _ _ e

theorem callByName_agrees (name : String) (arguments : List Val) :
    Agrees (callByName setting (depth + 1) name arguments)
      (Structured.callByName setting (depth + 1) name arguments) := by
  simp only [callByName, Structured.callByName]
  have hlast (d : Option Diagnostic) : Agrees (modify fun s => { s with lastError := d } : Eval Unit)
      (modify fun s => { s with lastError := d } : Run Unit) := fun s => rfl
  refine (hlast none).bind fun _ => Agrees.tryCatch (agrees_get fun s => ?_) fun e => ?_
  · rw [Store.env_state]
    rcases s.env.globals.get? name with _ | v
    · exact agrees_throw _
    · cases v with
      | fn owner decl =>
        dsimp only
        rcases hostCallCause? name decl.params arguments with _ | cause
        · exact (ih.call _ _ _).tryCatch fun e => agrees_placed _ _ e
        · exact agrees_throw _
      | _ => exact agrees_throw _
  · rcases e with f | e
    · exact (hlast _).bind fun _ => agrees_pure _
    · exact agrees_throw _

include hs in
theorem eval_agrees (e : Expr) : Agrees (eval setting (depth + 1) e) (Structured.eval setting (depth + 1) e) := by
  cases e with
  | int token n | float token x =>
    simp only [eval, Structured.eval]
    exact agrees_pure _
  | string token text =>
    simp only [eval, Structured.eval]
    exact agrees_ofEval (quiet_of_inert (inert_newString text))
  | symbol token name =>
    simp only [eval, Structured.eval]
    refine (agrees_ofEval (keeps_lookup name)).bind fun v => ?_
    cases v with
    | none => exact agrees_fail _ _
    | some v => exact agrees_pure v
  | binary token left op right =>
    simp only [eval, Structured.eval]
    exact (ih.eval left).bind fun a => (ih.eval right).bind fun b => agrees_ofExcept _
  | assign token target value =>
    simp only [eval, Structured.eval]
    refine (ih.eval value).bind fun v => (ih.resolve target).bind fun slot => ?_
    exact agrees_ofEval (keeps_store (quiet_set slot) target v _)
  | call token callee arguments =>
    simp only [eval, Structured.eval]
    refine (ih.eval callee).bind fun v => ?_
    cases v with
    | fn owner decl =>
      dsimp only
      split_ifs
      · exact agrees_fail _ _
      · refine (agrees_mapM (fun p => ?_) _).bind fun values => ih.call _ values _
        exact (ih.eval p.1).bind fun w => agrees_ofExcept _
    | native f => exact (agrees_mapM ih.eval arguments).bind fun values => agrees_callNative hs ih.callByName f values _
    | _ => exact agrees_fail _ _
  | member token target name =>
    simp only [eval, Structured.eval]
    exact (ih.eval target).bind fun v => agrees_ofEval (quiet_of_inert (keeps_readMember v name _))
  | index token target place =>
    simp only [eval, Structured.eval]
    refine (ih.eval target).bind fun v => ?_
    cases v with
    | list a => exact (ih.eval place).bind fun i => agrees_ofEval (quiet_of_inert (keeps_readItem a i _))
    | _ => exact agrees_fail _ _
  | list token elements =>
    simp only [eval, Structured.eval]
    exact (agrees_mapM ih.eval elements).bind fun vs => agrees_ofEval (quiet_of_inert (inert_newList _))
  | cast token ty operand =>
    simp only [eval, Structured.eval]
    exact (ih.eval operand).bind fun v => agrees_ofExcept _

theorem exec_follows (stmt : Stmt) :
    Follows (exec setting (depth + 1) stmt) (Structured.exec setting (depth + 1) stmt) := by
  cases stmt with
  | expr token e =>
    simp only [exec, Structured.exec]
    exact (ih.eval e).discard.fell
  | var token ty names start =>
    rcases names with _ | ⟨name, _ | ⟨second, more⟩⟩
    · simp only [exec, Structured.exec]
      exact follows_throw _
    · simp only [exec, Structured.exec]
      have hdeclare (v : Val) : Follows (declare name.name v name.span)
          (ofEval (declare name.name v name.span) >>= fun _ => pure .fell) :=
        (agrees_ofEval (quiet_declare _ v _)).fell
      cases start with
      | none => exact (agrees_ofEval (quiet_of_inert (inert_newDefault ty))).bind_follows hdeclare
      | some e => exact (ih.eval e).bind_follows fun v => (agrees_ofExcept _).bind_follows hdeclare
    · simp only [exec, Structured.exec]
      exact follows_throw _
  | fn decl =>
    simp only [exec, Structured.exec]
    exact (agrees_ofEval (quiet_declare _ _ _)).fell
  | branch token arms otherwise =>
    rw [exec_branch]
    simp only [Structured.exec]
    exact follows_choose ih.test ih.exec otherwise arms
  | loop token counter start condition increment body =>
    simp only [exec, Structured.exec]
    have hrounds := follows_loop (ih.test condition) (ih.exec body) (ih.eval increment).discard setting.repetitions
    refine Follows.inFrame ((ih.eval start).bind_follows fun v => ?_) "for-loop"
    cases counter with
    | none => exact hrounds
    | some p =>
      refine (agrees_ofExcept _).bind_follows fun w => ?_
      exact (agrees_ofEval (quiet_declare _ w _)).bind_follows fun _ => hrounds
  | ret token e =>
    simp only [exec, Structured.exec]
    exact (ih.eval e).bind_follows follows_startReturn
  | block token body =>
    simp only [exec, Structured.exec]
    exact (follows_sequence ih.exec body).inFrame "block"

end Steps

theorem implements {m : Manners} {setting : Setting} (hs : setting.Obeys m) (depth : Nat) :
    Implements setting depth := by
  induction depth with
  | zero =>
    exact ⟨fun _ => follows_throw _, fun _ => agrees_throw _, fun _ => agrees_throw _, fun _ => agrees_throw _,
      fun _ _ _ => agrees_throw _, fun _ _ => agrees_throw _⟩
  | succ depth ih =>
    exact ⟨exec_follows ih, test_agrees ih, eval_agrees hs ih, resolve_agrees ih, call_agrees ih, callByName_agrees ih⟩

/-! ## Scripts at rest -/

theorem execTop_agrees {m : Manners} {setting : Setting} (hs : setting.Obeys m) (stmt : Stmt) :
    Agrees (execTop setting stmt) (Structured.execTop setting stmt) := by
  refine Follows.cleared (((implements hs setting.evaluation).exec stmt).tryCatch fun e => ?_)
  rcases e with f | e
  · exact follows_throw _
  · cases e <;> exact follows_throw _

/-- no script that is not being executed has a return statement under way -/
theorem Workspace.Reachable.returning_eq_none {m : Manners} {w : Workspace} (h : w.Reachable m) (number : Nat) :
    (w.script number).returning = none := by
  have hinvariant : ScriptInvariant m (·.returning = none) :=
    { unloaded := fun _ => rfl
      loads := fun {w path source dynamic} hw => by
        have hs := hw.opened path source dynamic
        simp only [Workspace.ranScript, Workspace.loading, runSource]
        split
        · rfl
        · exact Workspace.keeps_runTokens (fun stmt => (execTop_agrees hs stmt).staysClear) _ _ _ rfl
      called := fun {w number name arguments env} hw hnone _ =>
        ((implements (hw.setting number) w.platform.evaluation).callByName name arguments).staysClear _ hnone
      failed := fun h => h
      installed := fun h => h }
  exact hinvariant.reachable h number

/-- a run ends like the one without a signal, and no return statement is under way -/
def EndsClear (run : Except Interrupt α × State) (reference : Except Interrupt α × Store) : Prop :=
  run.1 = reference.1 ∧ run.2.store = reference.2 ∧ run.2.returning = none

theorem Agrees.endsClear {c : Eval α} {r : Run α} (h : Agrees c r) {s : State} (hs : s.returning = none) :
    EndsClear (c s) (r s.store) := by
  have hend := h s.store
  rw [State.state_store hs] at hend
  rw [hend]
  exact ⟨rfl, rfl, rfl⟩

/-- **The return signal implements structured return.** A statement that starts with no return statement under way has
the result, the error and the effects of the statement that tells how it ends; afterwards a return statement is under
way with a value if the statement has returned that value, and only then. Expressions and calls end without one. -/
theorem return_is_structured {m : Manners} {setting : Setting} (hs : setting.Obeys m) (depth : Nat) {s : State}
    (hclear : s.returning = none) :
    (∀ stmt,
      (exec setting depth stmt s).1 = (Structured.exec setting depth stmt s.store).1.map (fun _ => ()) ∧
      (exec setting depth stmt s).2.store = (Structured.exec setting depth stmt s.store).2 ∧
      ∀ v, (exec setting depth stmt s).2.returning = some v ↔
        (Structured.exec setting depth stmt s.store).1 = .ok (.returned v)) ∧
    (∀ e, EndsClear (eval setting depth e s) (Structured.eval setting depth e s.store)) ∧
    ∀ decl arguments dynamic, EndsClear (callFunction setting depth decl arguments dynamic s)
      (Structured.callFunction setting depth decl arguments dynamic s.store) := by
  have himplements := implements hs depth
  refine ⟨fun stmt => ?_, fun e => (himplements.eval e).endsClear hclear,
    fun decl arguments dynamic => (himplements.call decl arguments dynamic).endsClear hclear⟩
  have hend := himplements.exec stmt s.store
  rw [State.state_store hclear] at hend
  rw [hend]
  rcases Structured.exec setting depth stmt s.store with ⟨e | _ | w, t⟩
  · exact ⟨rfl, rfl, fun v => ⟨nofun, nofun⟩⟩
  · exact ⟨rfl, rfl, fun v => ⟨nofun, nofun⟩⟩
  · refine ⟨rfl, rfl, fun v => ⟨fun hv => ?_, fun hv => ?_⟩⟩
    · cases hv
      rfl
    · cases hv
      rfl

/-- a return statement inside of an if statement ends the loop around it in its second round -/
theorem return_is_structured_loop :
    let i := { (default : Token) with kind := .symbol "i" }
    let body := Stmt.branch i [(.binary i (.int i 0) .lt (.symbol i "i"), .block i [.ret i (.symbol i "i")])] none
    let counting := Stmt.loop i (some ⟨.int, i⟩) (.int i 0) (.binary i (.symbol i "i") .lt (.int i 9))
      (.assign i (.symbol i "i") (.binary i (.symbol i "i") .add (.int i 1))) body
    (exec {} 9 counting {}).2.returning = some (.int 1) := by
  intro i body counting
  have hsetting : Setting.Obeys ⟨True, True⟩ {} := Setting.obeys_default _
  have hreturned : (Structured.exec {} 9 counting {}).1 = .ok (.returned (.int 1)) := by rfl
  exact (((return_is_structured hsetting 9 rfl).1 counting).2.2 (.int 1)).2 hreturned

end LevelScript
