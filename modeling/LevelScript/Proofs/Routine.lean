/-
What the functions of a host do to the script that calls them.

A function of the host is code outside of the language. It sees the whole state of the script, but it changes the
script only through what the script offers: it changes lists, prints, calls functions of the script by name, and binds
names of the globals that are free. A routine is such a course of steps, each of which may depend on all that was seen
and returned before; `Manners` say which of the last two are allowed. A setting obeys if its host functions are
routines.
-/
import LevelScript.Proofs.Computation
import LevelScript.Workspace

namespace LevelScript

/-- what the functions of a host may do with the script that calls them -/
structure Manners where
  /-- they may call its functions -/
  calls : Prop
  /-- they may bind free names of its globals -/
  installs : Prop

/-- the steps of a function of the host, up to its reply or failure -/
inductive Routine (m : Manners) where
  | reply (r : Reply)
  | fail (e : Interrupt)
  | look (next : State → Routine m)
  | lists (heap : Heap) (next : Routine m)
  | print (owner : Nat) (text : String) (next : Routine m)
  | call (allowed : m.calls) (name : String) (arguments : List Val) (next : Except Interrupt Val → Routine m)
  | install (allowed : m.installs) (name : String) (f : Native) (next : Routine m)

/-- the state with a free name of the globals bound to a native function; a name in use stays what it is -/
def State.install (s : State) (name : String) (f : Native) : State :=
  if s.env.globals.binds name then s
  else { s with env := { s.env with globals := s.env.globals.set name (.native f) } }

/-- run a routine in a script whose functions it can call -/
def Routine.run {m : Manners} (callBack : String → List Val → Eval Val) : Routine m → Eval Reply
  | .reply r => pure r
  | .fail e => throw e
  | .look next => fun s => (next s).run callBack s
  | .lists heap next => fun s => next.run callBack { s with heap := heap }
  | .print owner text next => do
    Eval.write owner text
    next.run callBack
  | .call _ name arguments next => fun s =>
    let (result, t) := callBack name arguments s
    (next result).run callBack t
  | .install _ name f next => fun s => next.run callBack (s.install name f)

/-- what the function does with given arguments is a routine -/
def HostFunction.Obeys (m : Manners) (f : HostFunction) : Prop :=
  ∀ arguments, ∃ r : Routine m, ∀ callBack, f callBack arguments = r.run callBack

def Setting.Obeys (m : Manners) (setting : Setting) : Prop := ∀ number, (setting.host number).Obeys m

def Workspace.Obeys (m : Manners) (w : Workspace) : Prop := ∀ f ∈ w.natives, HostFunction.Obeys m f

/-- a function that gives no value -/
theorem HostFunction.obeys_noValue (m : Manners) (kind : String) :
    HostFunction.Obeys m fun _ _ => return .noValue kind :=
  fun _ => ⟨.reply (.noValue kind), fun _ => rfl⟩

theorem Setting.obeys_default (m : Manners) : Setting.Obeys m {} :=
  fun _ => HostFunction.obeys_noValue m "NoneType"

/-- what holds of every installed function and of one that gives no value holds of the functions that a script calls -/
theorem Workspace.setting_host {P : HostFunction → Prop} (hnone : P fun _ _ => return .noValue "NoneType")
    {w : Workspace} (h : ∀ f ∈ w.natives, P f) (number n : Nat) : P ((w.setting number).host n) := by
  simp only [Workspace.setting]
  rcases hn : w.natives[n]? with _ | f
  · exact hnone
  · exact h f (Array.mem_of_getElem? hn)

theorem Workspace.Obeys.setting {m : Manners} {w : Workspace} (h : w.Obeys m) (number : Nat) :
    (w.setting number).Obeys m :=
  setting_host (HostFunction.obeys_noValue m "NoneType") h number

namespace Routine

open Eval

variable {m : Manners} {R : State → State → Prop} [IsPreorder State R]

/-- a routine keeps what its single steps and the functions that it calls keep -/
theorem keeps_run {callBack : String → List Val → Eval Val} (hlists : ∀ s heap, R s { s with heap := heap })
    (hprint : ∀ owner text, Keeps R (Eval.write owner text))
    (hcall : m.calls → ∀ name arguments, Keeps R (callBack name arguments))
    (hinstall : m.installs → ∀ s name f, R s (s.install name f)) (r : Routine m) : Keeps R (r.run callBack) := by
  induction r with
  | reply r => exact keeps_pure r
  | fail e => exact keeps_throw e
  | look next ih => exact fun s => ih s s
  | lists heap next ih => exact fun s => trans_of R (hlists s heap) (ih _)
  | print owner text next ih => exact (hprint owner text).bind fun _ => ih
  | call allowed name arguments next ih => exact fun s => trans_of R (hcall allowed name arguments s) (ih _ _)
  | install allowed name f next ih => exact fun s => trans_of R (hinstall allowed s name f) (ih _)

end Routine

end LevelScript
