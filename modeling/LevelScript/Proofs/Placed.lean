/-
Results and computations that place their faults.

`Placed B r`: if the result `r` is a fault, it has a place, and that is one of `B`. `Eval.PlacesAt B m s`: the
computation `m`, run from the state `s`, ends in such a result. Both are closed under the ways to put computations
together, and every single step of the evaluator places its faults where it is told to. Native functions do not know
where they are called; their call places what they leave unplaced (`placesAt_callNative`).
-/
import LevelScript.Proofs.Anchors
import LevelScript.Proofs.HostFailures
import LevelScript.Proofs.Positions

namespace LevelScript

open LevelScript.Syntax

/-! ## Results -/

/-- a fault of the result has a place, one of `B` -/
inductive Placed {α : Type} (B : Span → Prop) : Except Interrupt α → Prop where
  | ok (a : α) : Placed B (.ok a)
  | host (e : HostError) : Placed B (.error (.host e))
  | fault {cause : Cause} {span : Span} (h : B span) : Placed B (.error (.at cause span))

namespace Placed

variable {α β : Type} {B B' : Span → Prop} {r : Except Interrupt α}

theorem mono (h : Placed B r) (hB : ∀ span, B span → B' span) : Placed B' r := by
  cases h with
  | ok a => exact .ok a
  | host e => exact .host e
  | fault h => exact .fault (hB _ h)

theorem map (h : Placed B r) (f : α → β) : Placed B (f <$> r) := by
  cases h with
  | ok a => exact .ok (f a)
  | host e => exact .host e
  | fault h => exact .fault h

theorem of_failsAt {span : Span} (h : FailsAt (some span) r) (hspan : B span) : Placed B r := by
  cases h with
  | ok a => exact .ok a
  | intTooLarge => exact .host _
  | fault cause => exact .fault hspan

theorem span_of_fault {f : Fault} (h : Placed B (.error (.fault f) : Except Interrupt α)) :
    ∃ span, f.span = some span ∧ B span := by
  cases h with
  | fault h => exact ⟨_, rfl, h⟩

end Placed

/-! ## Computations -/

namespace Eval

variable {α β : Type} {B : Span → Prop} {s t : State}

/-- run from a state, the computation ends in no fault, or in one at a place of `B` -/
def PlacesAt (B : Span → Prop) (m : Eval α) (s : State) : Prop := Placed B (m s).1

theorem placesAt_of_ok {m : Eval α} {a : α} (h : (m s).1 = .ok a) : PlacesAt B m s := by
  rw [PlacesAt, h]
  exact .ok a

theorem placesAt_pure (a : α) : PlacesAt B (pure a : Eval α) s := .ok a

theorem placesAt_fail {cause : Cause} {span : Span} (h : B span) : PlacesAt B (fail cause span : Eval α) s := .fault h

theorem placesAt_host (e : HostError) : PlacesAt B (throw (.host e) : Eval α) s := .host e

theorem placesAt_ofExcept {r : Except Interrupt α} (h : Placed B r) : PlacesAt B (ofExcept r) s := h

theorem PlacesAt.bind {m : Eval α} {f : α → Eval β} (hm : PlacesAt B m s)
    (hf : ∀ a t, m s = (.ok a, t) → PlacesAt B (f a) t) : PlacesAt B (m >>= f) s := by
  rw [PlacesAt] at hm
  rcases hs : m s with ⟨e | a, t⟩
  · rw [PlacesAt, run_bind_error hs]
    rw [hs] at hm
    cases hm with
    | host e => exact .host e
    | fault h => exact .fault h
  · rw [PlacesAt, run_bind_ok hs]
    exact hf a t hs

theorem PlacesAt.map {m : Eval α} (hm : PlacesAt B m s) (f : α → β) : PlacesAt B (f <$> m) s := by
  rw [map_eq_pure_bind]
  exact hm.bind fun a _ _ => placesAt_pure (f a)

theorem PlacesAt.discard {m : Eval α} (hm : PlacesAt B m s) : PlacesAt B (discard m) s := hm.map _

/-- each item is worked on in the state in which those before it have ended -/
theorem placesAt_mapM {f : α → Eval β} {l : List α}
    (h : ∀ n a values t, l[n]? = some a → (l.take n).mapM f s = (.ok values, t) → PlacesAt B (f a) t) :
    PlacesAt B (l.mapM f) s := by
  induction l generalizing s with
  | nil => exact placesAt_pure []
  | cons a l ih =>
    rw [List.mapM_cons]
    refine (h 0 a [] s rfl rfl).bind fun b t hb => ?_
    refine PlacesAt.bind ?_ fun bs u _ => placesAt_pure (b :: bs)
    refine ih fun n a' values u hn hbefore => ?_
    refine h (n + 1) a' (b :: values) u hn ?_
    rw [List.take_succ_cons, List.mapM_cons, run_bind_ok hb, run_bind_ok hbefore]
    rfl

theorem placesAt_inFrame {body : Eval α} {name : String} (h : PlacesAt B body (s.pushed name)) :
    PlacesAt B (inFrame name body) s := h

theorem placesAt_inCall {body : Eval Unit} {arguments : Frame} {dynamic : Bool}
    (h : PlacesAt B body { s with env := s.env.enter arguments dynamic }) :
    PlacesAt B (inCall arguments dynamic body) s :=
  Placed.map h _

/-- where a lack of depth becomes a fault, that fault has a place -/
theorem placesAt_blamed {m : Eval α} {cause : Cause} {span : Span} (hm : PlacesAt B m s) (h : B span) :
    PlacesAt B (tryCatch m fun e => match e with
      | .host .tooDeep => Eval.fail cause span
      | e => throw e) s := by
  rw [PlacesAt] at hm
  rcases hs : m s with ⟨e | a, t⟩
  · rw [PlacesAt, run_catch_error hs]
    rw [hs] at hm
    cases hm with
    | host e =>
      cases e with
      | tooDeep => exact .fault h
      | _ => exact .host _
    | fault h => exact .fault h
  · rw [PlacesAt, run_catch_ok hs]
    exact .ok a

end Eval

open Eval

theorem Eval.run_of_discard {α : Type} {m : Eval α} {s t : State} (h : discard m s = (.ok (), t)) :
    ∃ a, m s = (.ok a, t) := by
  have hmap : ((fun _ => ()) <$> m : Eval Unit) s = (.ok (), t) := h
  rw [map_eq_pure_bind] at hmap
  obtain ⟨a, u, hm, hpure⟩ := bind_eq_ok hmap
  cases hpure
  exact ⟨a, hm⟩

/-! ## The single steps -/

section Steps

variable {B : Span → Prop} {span : Span} {s : State}

theorem placesAt_cast (v : Val) (target : Ty) (h : B span) : PlacesAt B (Eval.ofExcept (v.cast target span)) s :=
  placesAt_ofExcept (.of_failsAt (v.failsAt_cast target span) h)

theorem placesAt_apply (op : Operator) (a b : Val) (h : B span) : PlacesAt B (Eval.ofExcept (op.apply a b span)) s :=
  placesAt_ofExcept (.of_failsAt (op.failsAt_apply a b span) h)

theorem placesAt_declare (name : String) (v : Val) (h : B span) : PlacesAt B (Eval.declare name v span) s := by
  unfold PlacesAt Eval.declare
  split
  · exact .ok _
  · exact .fault h

theorem placesAt_newDefault (ty : Ty) : PlacesAt B (newDefault ty) s := by
  cases ty with
  | fn | nativeFn | error => exact .host _
  | _ => exact .ok _

theorem placesAt_invalidIndex {α : Type} (index : Int) (h : B span) :
    PlacesAt B (invalidIndex (α := α) index span) s := by
  unfold invalidIndex
  split
  · exact placesAt_fail h
  · exact placesAt_host _

theorem placesAt_readMember (v : Val) (name : Token) (hname : B name.span) (h : B span) :
    PlacesAt B (readMember v name span) s := by
  unfold readMember
  split
  · split_ifs
    · exact placesAt_of_ok rfl
    · exact placesAt_fail hname
  · split
    · exact placesAt_pure _
    · exact placesAt_fail hname
  · split
    · exact placesAt_pure _
    · exact placesAt_fail hname
  · exact placesAt_fail h

theorem placesAt_readItem (address : Nat) (index : Val) (h : B span) : PlacesAt B (readItem address index span) s := by
  refine PlacesAt.bind (placesAt_cast index _ h) fun place t _ => ?_
  split
  · refine PlacesAt.bind (placesAt_of_ok rfl) fun items u _ => ?_
    split
    · exact placesAt_pure _
    · exact placesAt_invalidIndex _ h
  · exact placesAt_pure _

theorem placesAt_growSlot (address : Nat) (index : Val) (h : B span) : PlacesAt B (growSlot address index span) s := by
  refine PlacesAt.bind (placesAt_cast index _ h) fun place t _ => ?_
  split
  · split_ifs
    · exact placesAt_invalidIndex _ h
    · exact placesAt_fail h
    · exact placesAt_of_ok rfl
  · exact placesAt_fail h

theorem Slot.placesAt_set (slot : Slot) (v : Val) : PlacesAt B (slot.set v) s := by
  cases slot with
  | binding => exact placesAt_of_ok rfl
  | item => exact placesAt_of_ok rfl

theorem Slot.placesAt_get (slot : Slot) : PlacesAt B slot.get s := by
  cases slot with
  | binding => exact placesAt_of_ok rfl
  | item => exact placesAt_of_ok rfl

/-- storing points at the value, or at the member that the target names -/
theorem placesAt_store (target : Expr) (slot : Slot) (v : Val) (h : B span) (htarget : ∀ t ∈ target.anchors, B t.span) :
    PlacesAt B (store target slot v span) s := by
  refine PlacesAt.bind slot.placesAt_get fun current t _ => ?_
  split
  · rename_i token owner name
    have htoken : B token.span := htarget token (by simp [Expr.anchors])
    have hname : B name.span := htarget name (by simp [Expr.anchors])
    refine PlacesAt.bind (placesAt_cast v _ h) fun c u _ => ?_
    split
    · split_ifs
      · split
        · exact PlacesAt.bind (slot.placesAt_set _) fun _ _ _ => placesAt_pure _
        · exact placesAt_fail hname
      · exact placesAt_fail htoken
    · exact placesAt_pure _
  · exact PlacesAt.bind (slot.placesAt_set _) fun _ _ _ => placesAt_pure _
  · exact PlacesAt.bind (placesAt_cast v _ h) fun w _ _ =>
      PlacesAt.bind (slot.placesAt_set w) fun _ _ _ => placesAt_pure _

end Steps

/-! ## Native functions -/

/-- a fault of the result has no place yet -/
def Unplaced {α : Type} (r : Except Interrupt α) : Prop := ∀ f, r = .error (.fault f) → f.span = none

theorem Unplaced.bind {α β : Type} {r : Except Interrupt α} {f : α → Except Interrupt β} (h : Unplaced r)
    (hf : ∀ a, Unplaced (f a)) : Unplaced (r >>= f) := by
  intro fault hfault
  cases r with
  | ok a => exact hf a fault hfault
  | error e =>
    cases hfault
    exact h fault rfl

theorem unplaced_ok {α : Type} (a : α) : Unplaced (.ok a) := fun _ h => by cases h

theorem unplaced_host {α : Type} (e : HostError) : Unplaced (.error (.host e) : Except Interrupt α) := fun _ h => by
  cases h

theorem unplaced_cause {α : Type} (cause : Cause) : Unplaced (.error (.unplaced cause) : Except Interrupt α) :=
  fun _ h => by
    cases h
    rfl

theorem FailsAt.unplaced {α : Type} {r : Except Interrupt α} (h : FailsAt none r) : Unplaced r := by
  cases h with
  | ok a => exact unplaced_ok a
  | intTooLarge => exact unplaced_host _
  | fault cause => exact unplaced_cause cause

theorem unplaced_checkSignature (function : String) (arguments : List Val) (types : List Ty) :
    Unplaced (checkSignature function arguments types) := by
  unfold checkSignature
  split_ifs
  · generalize arguments.zip types = pairs
    induction pairs with
    | nil => exact unplaced_ok []
    | cons pair pairs ih =>
      rw [List.mapM_cons]
      exact (pair.1.failsAt_cast pair.2 none).unplaced.bind fun v => ih.bind fun vs => unplaced_ok (v :: vs)
  · exact unplaced_cause _

section Builtins

variable (b : Builtin) (norm : Float → Float → Float → Float)

theorem Builtin.unplaced_compute (arguments : List Val) : Unplaced (b.compute norm arguments) := by
  unfold Builtin.compute
  split
  any_goals exact unplaced_ok _
  split
  · unfold inDomain
    dsimp only
    split_ifs
    · exact unplaced_cause _
    · exact unplaced_ok _
  · exact unplaced_ok _

/-- built-in functions do not know where they are called -/
theorem Builtin.unplaced_call (h : Heap) (depth : Nat) (arguments : List Val) :
    Unplaced (b.call h depth arguments norm) := by
  unfold Builtin.call
  split
  · split
    · exact unplaced_ok _
    · exact unplaced_host _
  · refine (unplaced_checkSignature _ _ _).bind fun values => ?_
    exact (b.unplaced_compute norm values).bind fun v => unplaced_ok (v, "")

end Builtins

/-- the functions of the host raise faults without a place only; anything else is left to them -/
def Setting.RaisesUnplaced (setting : Setting) : Prop :=
  ∀ number depth arguments s, Unplaced (setting.host number (callByName setting depth) arguments s).1

/-- the call gives its own place to whatever fault ended the native function without one -/
theorem placed_nativeInterrupt {B : Span → Prop} (function : String) {span : Span} (h : B span) {e : Interrupt}
    (he : ∀ f, e = .fault f → f.span = none) :
    Placed B (.error (nativeInterrupt function span e) : Except Interrupt Reply) := by
  cases e with
  | fault fault =>
    have hlocated : nativeInterrupt function span (.fault fault) = .at fault.cause span := by
      simp [nativeInterrupt, Fault.located, he fault rfl, Interrupt.at]
    rw [hlocated]
    exact .fault h
  | host e =>
    cases e with
    | tooDeep => exact .host _
    | endless => exact .host _
    | _ => exact .fault h

theorem placesAt_acceptReply {B : Span → Prop} (function : String) {span : Span} (h : B span) (reply : Reply) (s : State) :
    PlacesAt B (acceptReply function span reply) s := by
  unfold acceptReply
  split
  · exact placesAt_fail h
  · exact placesAt_pure _
  · exact placesAt_fail h

theorem placesAt_native {B : Span → Prop} {m : Eval Reply} {s : State} (hm : Unplaced (m s).1) (function : String)
    {span : Span} (h : B span) :
    PlacesAt B (do acceptReply function span (← tryCatch m fun e => throw (nativeInterrupt function span e))) s := by
  refine PlacesAt.bind ?_ fun reply t _ => placesAt_acceptReply function h reply t
  rcases hrun : m s with ⟨e | reply, t⟩
  · rw [PlacesAt, run_catch_error hrun]
    rw [hrun] at hm
    exact placed_nativeInterrupt function h fun f hf => hm f (congrArg Except.error hf)
  · rw [PlacesAt, run_catch_ok hrun]
    exact .ok reply

/-- built-in functions do not know either what their output belongs to -/
theorem Builtin.unplaced_reply (b : Builtin) (norm : Float → Float → Float → Float) (owner depth : Nat)
    (arguments : List Val) (s : State) :
    Unplaced ((do
      let (v, text) ← Eval.ofExcept (b.call (← get).heap depth arguments norm)
      if text.isEmpty then pure () else Eval.write owner text
      return .value v : Eval Reply) s).1 := by
  rw [run_bind_ok (m := get) (a := s) (t := s) rfl]
  have hcall := b.unplaced_call norm s.heap depth arguments
  rcases hresult : b.call s.heap depth arguments norm with e | ⟨v, text⟩
  · rw [hresult] at hcall
    rw [run_bind_error (m := Eval.ofExcept (.error e)) (t := s) rfl]
    intro fault hfault
    cases hfault
    exact hcall fault rfl
  · rw [run_bind_ok (m := Eval.ofExcept (.ok (v, text))) (t := s) rfl]
    dsimp only
    split_ifs
    · exact unplaced_ok _
    · exact unplaced_ok _

/-- whatever ends a native function, a fault of its call points at the call -/
theorem placesAt_callNative {B : Span → Prop} {setting : Setting} (hs : setting.RaisesUnplaced) (depth : Nat) (f : Native)
    (arguments : List Val) {span : Span} (h : B span) (s : State) :
    PlacesAt B (callNative setting depth (callByName setting depth) f arguments span) s := by
  cases f with
  | builtin owner b => exact placesAt_native (b.unplaced_reply setting.norm owner depth arguments s) _ h
  | host number name => exact placesAt_native (hs number depth arguments s) _ h

end LevelScript
