/-
How the environment of a script evolves while it runs.

An evolution relates an environment to a later one, given the names that the innermost frame was meant to gain in
between, each with its declared type. It is closed under the few things that can happen to an environment: a binding
gets a value of its own type, the innermost frame gets a new binding, a frame comes and goes, a call comes and goes,
and the host binds a free global. `Evolution.run`: then it holds along every statement, expression and call, whichever
way they end. What a statement declares in the innermost frame is `declared`; an expression declares nothing.
-/
import LevelScript.Proofs.Routine
import LevelScript.Proofs.Slots

namespace LevelScript

open LevelScript.Syntax Eval

/-! ## Types of values -/

theorem newDefault_type {t : Ty} {v : Val} {s u : State} (h : newDefault t s = (.ok v, u)) : v.type = t := by
  cases t <;> cases h <;> rfl

/-! ## What assignments do -/

/-- the environment stays as it is, or the innermost binding of a name gets a value of the same type -/
def Env.Assigned (e f : Env) : Prop :=
  f = e ∨ ∃ name old new, e.lookup? name = some old ∧ new.type = old.type ∧ f = e.assign name new

/-- a slot that the target can name: a binding has a value, and the slot of an index is an item -/
def Slot.Fits (target : Expr) (e : Env) : Slot → Prop
  | .binding name => (∃ v, e.lookup? name = some v) ∧ ∀ token owner place, target ≠ .index token owner place
  | .item .. => True

/-- the slot of a target fits it in the state in which it was found -/
theorem resolve_fits {setting : Setting} {depth : Nat} {target : Expr} {s t : State} {slot : Slot}
    (h : resolve setting depth target s = (.ok slot, t)) : slot.Fits target t.env := by
  induction depth generalizing target with
  | zero => cases h
  | succ depth ih =>
    cases target with
    | symbol token name =>
      simp only [resolve] at h
      obtain ⟨found, u, hu, hfound⟩ := bind_eq_ok h
      cases hu
      split_ifs at hfound with hsome
      · cases hfound
        exact ⟨Option.isSome_iff_exists.1 hsome, fun _ _ _ => nofun⟩
      · cases hfound
    | member token owner name =>
      simp only [resolve] at h
      cases slot with
      | binding b => exact ⟨(ih h).1, fun _ _ _ => nofun⟩
      | item => trivial
    | index token owner place =>
      simp only [resolve] at h
      obtain ⟨v, u, -, hv⟩ := bind_eq_ok h
      split at hv
      · obtain ⟨i, w, -, hi⟩ := bind_eq_ok hv
        obtain ⟨m, -, -, -, rfl, -⟩ := growSlot_eq_ok hi
        trivial
      · cases hv
    | _ =>
      simp only [resolve] at h
      cases h

theorem set_assigned {target : Expr} {slot : Slot} {s u : State} {old new : Val} (h : slot.Fits target s.env)
    (hget : slot.get s = (.ok old, s)) (hset : slot.set new s = (.ok (), u))
    (ht : (∀ token owner place, target ≠ .index token owner place) → new.type = old.type) : s.env.Assigned u.env := by
  cases slot with
  | item address place =>
    cases hset
    exact .inl rfl
  | binding name =>
    obtain ⟨⟨v, hv⟩, htarget⟩ := h
    have hlookup : lookup? name s = (.ok (some v), s) := congrArg (fun found => (Except.ok found, s)) hv
    rw [Slot.get, run_bind_ok hlookup] at hget
    cases hget
    cases hset
    exact .inr ⟨name, v, new, hv, ht htarget, rfl⟩

/-- a store keeps the type of a binding, whatever the form of the target -/
theorem store_assigned {target : Expr} {slot : Slot} {s : State} (h : slot.Fits target s.env) (v : Val) (span : Span) :
    s.env.Assigned (store target slot v span s).2.env := by
  rcases store_cases target slot v span s with ⟨e, he⟩ | ⟨result, u, old, hstore, hreplaces⟩
  · rw [he]
    exact .inl rfl
  · rw [hstore]
    cases hreplaces with
    | component hget _ _ hset => exact set_assigned h hget hset fun _ => Val.type_setComponent _ _ _
    | whole _ hget hset ht => exact set_assigned h hget hset ht

/-! ## What leaves the environment alone -/

def SameEnv (s t : State) : Prop := t.env = s.env

instance : IsPreorder State SameEnv where
  refl _ := rfl
  trans _ _ _ h k := k.trans h

theorem env_bind {α β : Type} (c : Eval α) {f : α → Eval β} (hf : ∀ a, Keeps SameEnv (f a)) (s : State) :
    ((c >>= f) s).2.env = (c s).2.env := by
  rcases hc : c s with ⟨e | a, t⟩
  · rw [run_bind_error hc]
  · rw [run_bind_ok hc]
    exact hf a t

theorem env_tryCatch {α : Type} (c : Eval α) {f : Interrupt → Eval α} (hf : ∀ e, Keeps SameEnv (f e)) (s : State) :
    ((tryCatch c f) s).2.env = (c s).2.env := by
  rcases hc : c s with ⟨e | a, t⟩
  · rw [run_catch_error hc]
    exact hf e t
  · rw [run_catch_ok hc]

/-- the top level changes how a statement ends, but not the environment there -/
theorem env_execTop (setting : Setting) (stmt : Stmt) (s : State) :
    (execTop setting stmt s).2.env = (exec setting setting.evaluation stmt s).2.env := by
  have hclear : Keeps SameEnv clearReturn := fun _ => rfl
  refine (env_bind _ (fun _ => hclear) s).trans (env_tryCatch _ (fun e => ?_) s)
  split
  · exact keeps_fail _ _
  · exact keeps_throw _

/-! ## What statements declare -/

/-- the statement that an if statement goes on to: the body of the first arm whose condition holds, or the last one -/
def Eval.chosenArm (test : Expr → Eval Bool) (otherwise : Option Stmt) : List (Expr × Stmt) → Eval (Option Stmt)
  | [] => pure otherwise
  | (condition, body) :: rest => do
    if ← test condition then return some body else chosenArm test otherwise rest

theorem keeps_chosenArm {R : State → State → Prop} [IsPreorder State R] {test : Expr → Eval Bool}
    (h : ∀ e, Keeps R (test e)) (otherwise : Option Stmt) (arms : List (Expr × Stmt)) :
    Keeps R (chosenArm test otherwise arms) := by
  induction arms with
  | nil => exact keeps_pure otherwise
  | cons arm rest ih =>
    refine (h arm.1).bind fun b => ?_
    cases b with
    | true => exact keeps_pure (some arm.2)
    | false => exact ih

/-- an if statement finds the statement that it goes on to and runs it -/
theorem exec_branch (setting : Setting) (depth : Nat) (token : Token) (arms : List (Expr × Stmt))
    (otherwise : Option Stmt) :
    exec setting (depth + 1) (.branch token arms otherwise) = (do
      match ← chosenArm (test setting depth) otherwise arms with
      | some body => exec setting depth body
      | none => pure ()) := by
  simp only [exec]
  induction arms with
  | nil => cases otherwise <;> simp [firstArm, chosenArm]
  | cons arm rest ih =>
    simp only [firstArm, chosenArm, bind_assoc]
    congr 1
    funext b
    cases b with
    | true => simp
    | false => simpa using ih

/-- the names that a declaration with the given result has bound -/
def bound (result : Except Interrupt Unit) (name : String) (ty : Ty) : List (String × Ty) :=
  match result with
  | .ok () => [(name, ty)]
  | .error _ => []

/-- the names that a statement, run from a state, binds in the innermost frame, with their declared types -/
def declared (setting : Setting) : Nat → Stmt → State → List (String × Ty)
  | 0, _, _ => []
  | depth + 1, stmt, s => match stmt with
    | .var _ ty [name] _ => bound (exec setting (depth + 1) stmt s).1 name.name ty
    | .fn decl => bound (exec setting (depth + 1) stmt s).1 decl.name .fn
    | .branch _ arms otherwise => match chosenArm (test setting depth) otherwise arms s with
      | (.ok (some body), t) => declared setting depth body t
      | _ => []
    | _ => []

/-! ## Evolutions -/

/-- a relation between environments, with the names declared in between, that nothing a script does can break -/
structure Evolution (m : Manners) (R : List (String × Ty) → Env → Env → Prop) : Prop where
  same : ∀ e, R [] e e
  andThen : ∀ {a b e f g}, R a e f → R b f g → R (a ++ b) e g
  assign : ∀ {e name old new}, e.lookup? name = some old → new.type = old.type → R [] e (e.assign name new)
  declare : ∀ {e f name v}, e.declare? name v = some f → R [(name, v.type)] e f
  frame : ∀ {a e f name}, R a (e.push ⟨name, []⟩) f → R [] e f.pop
  call : ∀ {a e f arguments dynamic}, R a (e.enter arguments dynamic) f → R [] e (.leave e f dynamic)
  install : m.installs → ∀ {e name f}, e.globals.binds name = false →
    R [] e { e with globals := e.globals.set name (.native f) }

/-- states whose environments are related, with nothing declared in between -/
def Stays (R : List (String × Ty) → Env → Env → Prop) (s t : State) : Prop := R [] s.env t.env

/-- states whose environments are related, with anything declared in between -/
def Advances (R : List (String × Ty) → Env → Env → Prop) (s t : State) : Prop := ∃ a, R a s.env t.env

theorem advances_of_stays {α : Type} {R : List (String × Ty) → Env → Env → Prop} {c : Eval α}
    (hc : Keeps (Stays R) c) : Keeps (Advances R) c := hc.mono fun _ _ hst => ⟨[], hst⟩

namespace Evolution

variable {m : Manners} {R : List (String × Ty) → Env → Env → Prop} (h : Evolution m R)

include h

theorem stays_preorder : IsPreorder State (Stays R) where
  refl s := h.same s.env
  trans _ _ _ hst htu := h.andThen hst htu

theorem advances_preorder : IsPreorder State (Advances R) where
  refl s := ⟨[], h.same s.env⟩
  trans _ _ _ := fun ⟨a, hst⟩ ⟨b, htu⟩ => ⟨a ++ b, h.andThen hst htu⟩

theorem stays_of_inert {α : Type} {c : Eval α} (hc : Keeps Inert c) : Keeps (Stays R) c := hc.mono fun s t hst => by
  rw [Stays, hst.1]
  exact h.same s.env

theorem stays_of_assigned {s t : State} (hst : s.env.Assigned t.env) : Stays R s t := by
  rw [Stays]
  rcases hst with hst | ⟨name, old, new, hold, htype, hst⟩
  · rw [hst]
    exact h.same s.env
  · rw [hst]
    exact h.assign hold htype

theorem declares (name : String) (v : Val) (span : Span) (s : State) :
    R (bound (Eval.declare name v span s).1 name v.type) s.env (Eval.declare name v span s).2.env := by
  unfold Eval.declare
  rcases hd : s.env.declare? name v with _ | f
  · exact h.same s.env
  · exact h.declare hd

/-- a name is bound to a value of its declared type -/
theorem declares_value {ty : Ty} {c : Eval Val} (hc : Keeps (Stays R) c)
    (htype : ∀ s v t, c s = (.ok v, t) → v.type = ty) (name : String) (span : Span) (s : State) :
    R (bound ((c >>= fun v => Eval.declare name v span) s).1 name ty) s.env
      ((c >>= fun v => Eval.declare name v span) s).2.env := by
  have hstays := hc s
  rcases hs : c s with ⟨e | v, t⟩
  · rw [run_bind_error hs]
    rw [hs] at hstays
    exact hstays
  · rw [run_bind_ok hs, ← htype s v t hs]
    rw [hs] at hstays
    exact h.andThen hstays (h.declares name v span t)

theorem advances_declare (name : String) (v : Val) (span : Span) : Keeps (Advances R) (Eval.declare name v span) :=
  fun s => ⟨_, h.declares name v span s⟩

theorem stays_inFrame {α : Type} {body : Eval α} (hb : Keeps (Advances R) body) (name : String) :
    Keeps (Stays R) (inFrame name body) := fun s =>
  let ⟨_, hst⟩ := hb { s with env := s.env.push ⟨name, []⟩ }
  h.frame hst

theorem stays_inCall {body : Eval Unit} (hb : Keeps (Advances R) body) (arguments : Frame) (dynamic : Bool) :
    Keeps (Stays R) (inCall arguments dynamic body) := fun s =>
  let ⟨_, hst⟩ := hb { s with env := s.env.enter arguments dynamic }
  h.call hst

theorem stays_install (hm : m.installs) (s : State) (name : String) (f : Native) : Stays R s (s.install name f) := by
  unfold State.install
  split_ifs with hbound
  · exact h.same s.env
  · exact h.install hm (by simpa using hbound)

end Evolution

/-! ## Runs -/

/-- whatever the evaluator does with a depth to spend is along the evolution -/
structure RunsAlong (R : List (String × Ty) → Env → Env → Prop) (setting : Setting) (depth : Nat) : Prop where
  exec : ∀ stmt s, R (declared setting depth stmt s) s.env (exec setting depth stmt s).2.env
  test : ∀ e, Keeps (Stays R) (test setting depth e)
  eval : ∀ e, Keeps (Stays R) (eval setting depth e)
  resolve : ∀ target, Keeps (Stays R) (resolve setting depth target)
  call : ∀ decl arguments dynamic, Keeps (Stays R) (callFunction setting depth decl arguments dynamic)
  callByName : ∀ name arguments, Keeps (Stays R) (callByName setting depth name arguments)

section Steps

variable {m : Manners} {R : List (String × Ty) → Env → Env → Prop} {setting : Setting} {depth : Nat}

theorem RunsAlong.advances (ih : RunsAlong R setting depth) (stmt : Stmt) :
    Keeps (Advances R) (LevelScript.exec setting depth stmt) := fun s => ⟨_, ih.exec stmt s⟩

variable (h : Evolution m R) (hs : setting.Obeys m) (ih : RunsAlong R setting depth)

include h

include ih in
theorem test_along (e : Expr) : Keeps (Stays R) (test setting (depth + 1) e) := by
  have := h.stays_preorder
  simp only [test]
  refine (ih.eval e).bind fun v => (keeps_ofExcept _).bind fun b => ?_
  split <;> exact keeps_pure _

include ih in
theorem resolve_along (target : Expr) : Keeps (Stays R) (resolve setting (depth + 1) target) := by
  have := h.stays_preorder
  cases target with
  | symbol token name =>
    simp only [resolve]
    refine (keeps_lookup name).bind fun v => ?_
    split_ifs
    · exact keeps_pure _
    · exact keeps_fail _ _
  | member token owner name =>
    simp only [resolve]
    exact ih.resolve owner
  | index token owner place =>
    simp only [resolve]
    refine (ih.eval owner).bind fun v => ?_
    split
    · exact (ih.eval place).bind fun i => h.stays_of_inert (inert_growSlot _ i _)
    · exact keeps_fail _ _
  | _ =>
    simp only [resolve]
    exact keeps_fail _ _

include ih in
theorem call_along (decl : Function) (arguments : List Val) (dynamic : Bool) :
    Keeps (Stays R) (callFunction setting (depth + 1) decl arguments dynamic) := by
  have := h.stays_preorder
  have := h.advances_preorder
  simp only [callFunction]
  refine Keeps.tryCatch ?_ fun e => ?_
  · have hbody := keeps_untilReturn ih.advances decl.body
    exact h.stays_inCall (advances_of_stays (h.stays_inFrame hbody "block")) _ _
  · split
    · exact keeps_fail _ _
    · exact keeps_throw _

include ih in
theorem callByName_along (name : String) (arguments : List Val) :
    Keeps (Stays R) (callByName setting (depth + 1) name arguments) := by
  have := h.stays_preorder
  simp only [callByName]
  refine Keeps.bind (keeps_modify fun s => h.same s.env) fun _ => Keeps.tryCatch ?_ fun e => ?_
  · refine (keeps_of_same (m := get) fun _ => rfl).bind fun s => ?_
    split
    · split
      · exact keeps_throw _
      · refine (ih.call _ _ _).tryCatch fun e => ?_
        split
        · exact keeps_fail _ _
        · exact keeps_throw _
    · exact keeps_throw _
  · split
    · exact Keeps.bind (keeps_modify fun s => h.same s.env) fun _ => keeps_pure _
    · exact keeps_throw _

include hs ih in
theorem native_along (f : Native) (arguments : List Val) (span : Span) :
    Keeps (Stays R) (callNative setting depth (callByName setting depth) f arguments span) := by
  have := h.stays_preorder
  refine keeps_callNative (fun owner text => h.stays_of_inert (inert_write owner text)) (fun number => ?_) span
  obtain ⟨r, hr⟩ := hs number arguments
  rw [hr]
  exact r.keeps_run (fun s _ => h.same s.env) (fun owner text => h.stays_of_inert (inert_write owner text))
    (fun _ => ih.callByName) h.stays_install

include hs ih in
theorem eval_along (e : Expr) : Keeps (Stays R) (eval setting (depth + 1) e) := by
  have := h.stays_preorder
  cases e with
  | int token n | float token x =>
    simp only [eval]
    exact keeps_pure _
  | string token text =>
    simp only [eval]
    exact h.stays_of_inert (inert_newString text)
  | symbol token name =>
    simp only [eval]
    refine (keeps_lookup name).bind fun v => ?_
    split
    · exact keeps_pure _
    · exact keeps_fail _ _
  | binary token left op right =>
    simp only [eval]
    exact (ih.eval left).bind fun a => (ih.eval right).bind fun b => keeps_ofExcept _
  | assign token target value =>
    simp only [eval]
    -- the slot is only known to fit where the target was resolved
    refine (ih.eval value).bind fun v => (ih.resolve target).bind_ok fun s slot t hslot => ?_
    exact h.stays_of_assigned (store_assigned (resolve_fits hslot) v _)
  | call token callee arguments =>
    simp only [eval]
    refine (ih.eval callee).bind fun v => ?_
    split
    · split_ifs
      · exact keeps_fail _ _
      · refine (keeps_mapM fun p _ => ?_).bind fun values => ih.call _ values _
        exact (ih.eval p.1).bind fun w => keeps_ofExcept _
    · exact (keeps_mapM fun e _ => ih.eval e).bind fun values => native_along h hs ih _ values _
    · exact keeps_fail _ _
  | member token target name =>
    simp only [eval]
    exact (ih.eval target).bind fun v => h.stays_of_inert (keeps_readMember v name _)
  | index token target place =>
    simp only [eval]
    refine (ih.eval target).bind fun v => ?_
    split
    · exact (ih.eval place).bind fun i => h.stays_of_inert (keeps_readItem _ i _)
    · exact keeps_fail _ _
  | list token elements =>
    simp only [eval]
    exact (keeps_mapM fun e _ => ih.eval e).bind fun vs => h.stays_of_inert (inert_newList _)
  | cast token ty operand =>
    simp only [eval]
    exact (ih.eval operand).bind fun v => keeps_ofExcept _

include ih in
theorem exec_along (stmt : Stmt) (s : State) :
    R (declared setting (depth + 1) stmt s) s.env (exec setting (depth + 1) stmt s).2.env := by
  have := h.stays_preorder
  have := h.advances_preorder
  cases stmt with
  | expr token e =>
    simp only [exec, declared]
    exact (ih.eval e).discard s
  | var token ty names start =>
    match names with
    | [name] =>
      simp only [declared]
      cases start with
      | none =>
        simp only [exec]
        exact h.declares_value (h.stays_of_inert (inert_newDefault ty)) (fun _ _ _ => newDefault_type) _ _ s
      | some e =>
        simp only [exec]
        rw [← bind_assoc]
        refine h.declares_value ((ih.eval e).bind fun v => keeps_ofExcept _) (fun s v t hv => ?_) _ _ s
        obtain ⟨w, u, -, hw⟩ := bind_eq_ok hv
        exact Val.cast_type (congrArg Prod.fst hw)
    | [] | _ :: _ :: _ =>
      simp only [exec, declared]
      exact h.same s.env
  | fn decl =>
    simp only [declared, exec]
    exact h.declares decl.name (.fn setting.script decl) decl.span s
  | branch token arms otherwise =>
    rw [exec_branch]
    have hstays := keeps_chosenArm ih.test otherwise arms s
    simp only [declared]
    rcases hs : chosenArm (test setting depth) otherwise arms s with ⟨e | _ | body, t⟩
    · rw [run_bind_error hs]
      rwa [hs] at hstays
    · rw [run_bind_ok hs]
      rwa [hs] at hstays
    · rw [run_bind_ok hs]
      rw [hs] at hstays
      exact h.andThen hstays (ih.exec body t)
  | loop token counter start condition increment body =>
    simp only [exec, declared]
    refine h.stays_inFrame ?_ "for-loop" s
    have hrounds := keeps_repeatWhile (advances_of_stays (ih.test condition)) (ih.advances body)
      (advances_of_stays (ih.eval increment).discard) setting.repetitions
    refine (advances_of_stays (ih.eval start)).bind fun v => ?_
    split
    · exact (keeps_ofExcept _).bind fun w => (h.advances_declare _ w _).bind fun _ => hrounds
    · exact (keeps_pure ()).bind fun _ => hrounds
  | ret token e =>
    simp only [exec, declared]
    have hret : ∀ v, Keeps (Stays R) (startReturn v) := fun v t => h.same t.env
    exact (ih.eval e).bind hret s
  | block token body =>
    simp only [exec, declared]
    exact h.stays_inFrame (keeps_untilReturn ih.advances body) "block" s

end Steps

/-- **An evolution holds along every run.** Whatever a statement, an expression, a target or a call does to the
environment is along the evolution, in both ways of calling functions and however it ends. A statement declares what
`declared` says, everything else declares nothing. -/
theorem Evolution.run {m : Manners} {R : List (String × Ty) → Env → Env → Prop} (h : Evolution m R) {setting : Setting}
    (hs : setting.Obeys m) (depth : Nat) : RunsAlong R setting depth := by
  have := h.stays_preorder
  induction depth with
  | zero =>
    exact ⟨fun stmt s => h.same s.env, fun _ => keeps_throw _, fun _ => keeps_throw _, fun _ => keeps_throw _,
      fun _ _ _ => keeps_throw _, fun _ _ => keeps_throw _⟩
  | succ depth ih =>
    exact ⟨exec_along h ih, test_along h ih, eval_along h hs ih, resolve_along h ih, call_along h ih,
      callByName_along h ih⟩

end LevelScript
