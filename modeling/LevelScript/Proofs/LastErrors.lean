/-
Only a call by its name sets the last error.

While a script runs, nothing that it does touches the last error that it keeps, unless a function of the host calls it
back (`lasting`). So the last error that a call from the host leaves behind is its own: there is none after a success,
and after a fault it is the diagnostic of that fault (`callByName_outcome`).
-/
import LevelScript.Proofs.HostFailures
import LevelScript.Proofs.Routine

namespace LevelScript

open LevelScript.Syntax Eval

def SameLastError (s t : State) : Prop := t.lastError = s.lastError

instance : IsPreorder State SameLastError where
  refl _ := rfl
  trans _ _ _ h k := k.trans h

/-! ## Steps -/

namespace Eval

/-- the computation leaves the last error alone -/
abbrev Lasting {α : Type} (c : Eval α) : Prop := Keeps SameLastError c

theorem lasting_newList (items : Array Val) : Lasting (newList items) := fun _ => rfl

theorem lasting_newString (text : String) : Lasting (newString text) := fun _ => rfl

theorem lasting_write (owner : Nat) (text : String) : Lasting (write owner text) := fun _ => rfl

theorem lasting_declare (name : String) (v : Val) (span : Span) : Lasting (declare name v span) := by
  intro s
  unfold declare
  split <;> rfl

theorem lasting_newDefault (t : Ty) : Lasting (newDefault t) := by
  unfold newDefault
  split
  · exact lasting_newList _
  · exact lasting_newString _
  · intro s
    dsimp only
    split <;> rfl

theorem Step.lasting {α : Type} {c : Eval α} (h : Step c) : Lasting c := by
  cases h with
  | pure a => exact keeps_pure a
  | fail cause span => exact keeps_fail cause span
  | endless | tooManyDigits => exact keeps_throw _
  | isReturning => exact keeps_isReturning
  | startReturn v => exact fun _ => rfl
  | lookup name => exact keeps_lookup name
  | declare name v span => exact lasting_declare name v span
  | assign name v => exact fun _ => rfl
  | items address => exact keeps_items address
  | modifyList address change => exact fun _ => rfl
  | newDefault type => exact lasting_newDefault type
  | newString text => exact lasting_newString text
  | newList items => exact lasting_newList items
  | cast | apply => exact keeps_ofExcept _

theorem Lasting.inFrame {α : Type} {body : Eval α} (h : Lasting body) (name : String) : Lasting (inFrame name body) :=
  fun s => h { s with env := s.env.push ⟨name, []⟩ }

theorem Lasting.inCall {body : Eval Unit} (h : Lasting body) (arguments : Frame) (dynamic : Bool) :
    Lasting (inCall arguments dynamic body) :=
  fun s => h { s with env := s.env.enter arguments dynamic }

end Eval

/-! ## Functions of the host -/

/-- the functions of the host leave the last error alone, whatever they could call -/
def Setting.Lasting (setting : Setting) : Prop :=
  ∀ number callBack arguments, Eval.Lasting (setting.host number callBack arguments)

theorem Routine.lasting {m : Manners} (hm : ¬ m.calls) (r : Routine m) (callBack : String → List Val → Eval Val) :
    Eval.Lasting (r.run callBack) := by
  refine r.keeps_run (fun _ _ => rfl) lasting_write (fun hcalls => absurd hcalls hm) fun _ s name f => ?_
  unfold State.install
  split_ifs <;> rfl

/-- functions of the host that call nothing of the script leave its last error alone -/
theorem Setting.Obeys.lasting {m : Manners} (hm : ¬ m.calls) {setting : Setting} (hs : setting.Obeys m) :
    setting.Lasting := by
  intro number callBack arguments
  obtain ⟨r, hr⟩ := hs number arguments
  rw [hr]
  exact r.lasting hm callBack

/-! ## Runs -/

/-- whatever the evaluator does with a depth to spend leaves the last error alone -/
structure Lasts (setting : Setting) (depth : Nat) : Prop where
  exec : ∀ stmt, Lasting (exec setting depth stmt)
  test : ∀ e, Lasting (test setting depth e)
  eval : ∀ e, Lasting (eval setting depth e)
  resolve : ∀ target, Lasting (resolve setting depth target)
  call : ∀ decl arguments dynamic, Lasting (callFunction setting depth decl arguments dynamic)

/-- leaving the last error alone, as a congruence that does not look at the second computation -/
def keepingLastError {setting : Setting} (hs : setting.Lasting) : Congruence setting where
  Rel c _ := Lasting c
  step h := h.lasting
  bind := Keeps.bind
  inFrame := Lasting.inFrame
  inCall := Lasting.inCall
  blamed h name span := Keeps.tryCatch h fun e => by
    split
    · exact keeps_fail _ _
    · exact keeps_throw _
  native _ callBack _ _ arguments span := keeps_callNative lasting_write (fun number => hs number callBack arguments) span
  tooDeep _ := keeps_throw _

/-- a run leaves the last error alone -/
theorem lasting {setting : Setting} (hs : setting.Lasting) (depth : Nat) : Lasts setting depth :=
  have h := (keepingLastError hs).run (le_refl depth)
  ⟨h.exec, h.test, h.eval, h.resolve, h.call⟩

/-! ## Calls from the host -/

section Calls

variable {setting : Setting} {depth : Nat} {name : String} {arguments : List Val} {s t : State} {v : Val}

/-- a call that gives a value is one of a function of the script -/
theorem calling_eq_ok (h : calling setting depth name arguments s = (.ok v, t)) :
    ∃ decl, callFunction setting depth decl arguments false s = (.ok v, t) := by
  rw [calling, run_bind_ok (m := get) (a := s) (t := s) rfl] at h
  rcases hname : s.env.globals.get? name with _ | global
  · rw [hname] at h
    cases h
  rw [hname] at h
  cases global with
  | fn owner decl =>
    refine ⟨decl, ?_⟩
    dsimp only at h
    rcases hcause : hostCallCause? name decl.params arguments with _ | cause
    · rw [hcause] at h
      dsimp only at h
      rcases hcall : callFunction setting depth decl arguments false s with ⟨e | w, u⟩
      · rw [run_catch_error hcall] at h
        split at h <;> cases h
      · rwa [run_catch_ok hcall] at h
    · rw [hcause] at h
      cases h
  | _ => cases h

/-- how a call by a name ends: with the value of a function and no last error, with the message of a fault as an error
value and its diagnostic as the last error, or with a failure of the host -/
inductive CallOutcome (setting : Setting) (depth : Nat) (arguments : List Val) (start : State) :
    Except Interrupt Val × State → Prop where
  | value {decl v t} : callFunction setting depth decl arguments false { start with lastError := none } = (.ok v, t) →
      t.lastError = none → CallOutcome setting depth arguments start (.ok v, t)
  | fault {t d} : t.lastError = some d → CallOutcome setting depth arguments start (.ok (.error d.message), t)
  | failure {e t} : CallOutcome setting depth arguments start (.error (.host e), t)

/-- **The last error is that of the last call.** -/
theorem callByName_outcome (hs : setting.Lasting) (depth : Nat) (name : String) (arguments : List Val) (s : State) :
    CallOutcome setting depth arguments s (callByName setting (depth + 1) name arguments s) := by
  rw [callByName_settles]
  rcases hcalling : calling setting depth name arguments { s with lastError := none } with ⟨(f | e) | v, t⟩
  · have hmessage : (f.diagnostic.quoting setting.line?).message = f.cause.message := by
      unfold Diagnostic.quoting
      split <;> rfl
    rw [settled, ← hmessage]
    exact .fault rfl
  · exact .failure
  · obtain ⟨decl, hcall⟩ := calling_eq_ok hcalling
    have hlast := (lasting hs depth).call decl arguments false { s with lastError := none }
    rw [hcall] at hlast
    exact .value hcall hlast

end Calls

end LevelScript
