/-
Computations of a running script, and what they do to its state.

`Eval.Keeps R m`: the computation `m` moves the state along the preorder `R`, however it ends. Whatever is put together
from computations that keep `R` keeps `R` as well: sequences, handlers, lists of computations, if chains and loops. So
an invariant of a whole run needs a proof for the single steps only.
-/
import Mathlib.Tactic
import LevelScript.Evaluation.Machine

namespace LevelScript

open LevelScript.Syntax

/-- a computation on a state that may be interrupted -/
abbrev Stateful (σ : Type) := ExceptT Interrupt (StateM σ)

namespace Eval

variable {α β σ : Type}

/-! ## Running computations -/

theorem run_ofExcept (r : Except Interrupt α) (s : State) : ofExcept r s = (r, s) := rfl

theorem run_bind_ok {m : Stateful σ α} {s t : σ} {a : α} (h : m s = (.ok a, t)) (f : α → Stateful σ β) :
    (m >>= f) s = f a t := by
  simp only [bind, ExceptT.bind, ExceptT.mk, StateT.bind, h, ExceptT.bindCont]

theorem run_bind_error {m : Stateful σ α} {s t : σ} {e : Interrupt} (h : m s = (.error e, t)) (f : α → Stateful σ β) :
    (m >>= f) s = (.error e, t) := by
  simp only [bind, ExceptT.bind, ExceptT.mk, StateT.bind, h, ExceptT.bindCont]
  rfl

theorem run_catch_ok {m : Stateful σ α} {s t : σ} {a : α} (h : m s = (.ok a, t))
    (f : Interrupt → Stateful σ α) : (tryCatch m f) s = (.ok a, t) := by
  simp only [tryCatch, tryCatchThe, MonadExceptOf.tryCatch, ExceptT.tryCatch, ExceptT.mk, bind, StateT.bind, h]
  rfl

theorem run_catch_error {m : Stateful σ α} {s t : σ} {e : Interrupt} (h : m s = (.error e, t))
    (f : Interrupt → Stateful σ α) : (tryCatch m f) s = f e t := by
  simp only [tryCatch, tryCatchThe, MonadExceptOf.tryCatch, ExceptT.tryCatch, ExceptT.mk, bind, StateT.bind, h]

theorem bind_congr_run {m m' : Stateful σ α} {s : σ} (h : m s = m' s) (f : α → Stateful σ β) :
    (m >>= f) s = (m' >>= f) s := by
  rcases hm : m' s with ⟨e | a, t⟩
  · rw [run_bind_error hm, run_bind_error (h.trans hm)]
  · rw [run_bind_ok hm, run_bind_ok (h.trans hm)]

theorem catch_congr_run {m m' : Stateful σ α} {s : σ} (h : m s = m' s) (f : Interrupt → Stateful σ α) :
    (tryCatch m f) s = (tryCatch m' f) s := by
  rcases hm : m' s with ⟨e | a, t⟩
  · rw [run_catch_error hm, run_catch_error (h.trans hm)]
  · rw [run_catch_ok hm, run_catch_ok (h.trans hm)]

/-- a sequence gives a value only if both its parts do -/
theorem bind_eq_ok {m : Eval α} {f : α → Eval β} {s u : State} {b : β} (h : (m >>= f) s = (.ok b, u)) :
    ∃ a t, m s = (.ok a, t) ∧ f a t = (.ok b, u) := by
  rcases hm : m s with ⟨_ | a, t⟩
  · rw [run_bind_error hm] at h
    cases h
  · exact ⟨a, t, rfl, (run_bind_ok hm f).symm.trans h⟩

/-! ## Computations that keep a preorder -/

/-- the computation moves every state along `R`, however it ends -/
def Keeps (R : State → State → Prop) (m : Eval α) : Prop := ∀ s, R s (m s).2

theorem Keeps.mono {R R' : State → State → Prop} {m : Eval α} (h : Keeps R m) (hR : ∀ s t, R s t → R' s t) :
    Keeps R' m := fun s => hR _ _ (h s)

variable {R : State → State → Prop} [IsPreorder State R]

theorem keeps_of_same {m : Eval α} (h : ∀ s, (m s).2 = s) : Keeps R m := fun s => by
  rw [h s]
  exact refl s

theorem keeps_pure (a : α) : Keeps R (pure a : Eval α) := keeps_of_same fun _ => rfl

theorem keeps_throw (e : Interrupt) : Keeps R (throw e : Eval α) := keeps_of_same fun _ => rfl

theorem keeps_fail (cause : Cause) (span : Span) : Keeps R (fail cause span : Eval α) := keeps_of_same fun _ => rfl

theorem keeps_ofExcept (r : Except Interrupt α) : Keeps R (ofExcept r) := keeps_of_same fun _ => rfl

omit [IsPreorder State R] in
theorem keeps_modify {change : State → State} (h : ∀ s, R s (change s)) : Keeps R (modify change : Eval Unit) := h

theorem keeps_isReturning : Keeps R isReturning := keeps_of_same fun _ => rfl

theorem keeps_lookup (name : String) : Keeps R (lookup? name) := keeps_of_same fun _ => rfl

theorem keeps_items (address : Nat) : Keeps R (items address) := keeps_of_same fun _ => rfl

/-- the second part of a sequence needs to keep `R` only where the first one ends -/
theorem Keeps.bind_ok {m : Eval α} {f : α → Eval β} (hm : Keeps R m)
    (hf : ∀ s a t, m s = (.ok a, t) → R t (f a t).2) : Keeps R (m >>= f) := by
  intro s
  have h := hm s
  rcases hs : m s with ⟨_ | a, t⟩
  · rw [run_bind_error hs]
    rwa [hs] at h
  · rw [run_bind_ok hs]
    rw [hs] at h
    exact trans_of R h (hf s a t hs)

theorem Keeps.bind {m : Eval α} {f : α → Eval β} (hm : Keeps R m) (hf : ∀ a, Keeps R (f a)) :
    Keeps R (m >>= f) :=
  hm.bind_ok fun _ a t _ => hf a t

theorem Keeps.map {m : Eval α} (hm : Keeps R m) (f : α → β) : Keeps R (f <$> m) := by
  rw [map_eq_pure_bind]
  exact hm.bind fun a => keeps_pure (f a)

theorem Keeps.discard {m : Eval α} (hm : Keeps R m) : Keeps R (discard m) := hm.map _

theorem Keeps.tryCatch {m : Eval α} {f : Interrupt → Eval α} (hm : Keeps R m) (hf : ∀ e, Keeps R (f e)) :
    Keeps R (tryCatch m f) := by
  intro s
  have h := hm s
  rcases hs : m s with ⟨e | _, t⟩
  · rw [run_catch_error hs]
    rw [hs] at h
    exact trans_of R h (hf e t)
  · rw [run_catch_ok hs]
    rwa [hs] at h

theorem keeps_mapM {f : α → Eval β} {l : List α} (hf : ∀ a ∈ l, Keeps R (f a)) : Keeps R (l.mapM f) := by
  induction l with
  | nil => exact keeps_pure []
  | cons a l ih =>
    rw [List.mapM_cons]
    have hrest := ih fun b hb => hf b (List.mem_cons_of_mem a hb)
    exact (hf a List.mem_cons_self).bind fun b => hrest.bind fun bs => keeps_pure (b :: bs)

theorem keeps_untilReturn {run : Stmt → Eval Unit} (h : ∀ stmt, Keeps R (run stmt)) (body : List Stmt) :
    Keeps R (untilReturn run body) := by
  induction body with
  | nil => exact keeps_pure ()
  | cons stmt rest ih =>
    refine (h stmt).bind fun _ => keeps_isReturning.bind fun b => ?_
    cases b with
    | true => exact keeps_pure ()
    | false => exact ih

theorem keeps_repeatWhile {test : Eval Bool} {body increment : Eval Unit} (ht : Keeps R test) (hb : Keeps R body)
    (hi : Keeps R increment) (steps : Nat) : Keeps R (repeatWhile test body increment steps) := by
  induction steps with
  | zero => exact keeps_throw _
  | succ steps ih =>
    refine ht.bind fun b => ?_
    cases b with
    | false => exact keeps_pure ()
    | true =>
      refine hb.bind fun _ => keeps_isReturning.bind fun returning => ?_
      cases returning with
      | true => exact keeps_pure ()
      | false => exact hi.bind fun _ => ih

/-! ## Reading -/

theorem keeps_invalidIndex (index : Int) (span : Span) : Keeps R (invalidIndex (α := α) index span) := by
  unfold invalidIndex
  split
  · exact keeps_fail _ _
  · exact keeps_throw _

theorem keeps_readMember (v : Val) (name : Token) (span : Span) : Keeps R (readMember v name span) := by
  unfold readMember
  split
  · split_ifs
    · exact (keeps_items _).bind fun _ => keeps_pure _
    · exact keeps_fail _ _
  · split
    · exact keeps_pure _
    · exact keeps_fail _ _
  · split
    · exact keeps_pure _
    · exact keeps_fail _ _
  · exact keeps_fail _ _

theorem keeps_readItem (address : Nat) (index : Val) (span : Span) : Keeps R (readItem address index span) := by
  refine (keeps_ofExcept _).bind fun place => ?_
  split
  · refine (keeps_items _).bind fun items => ?_
    split
    · exact keeps_pure _
    · exact keeps_invalidIndex _ _
  · exact keeps_pure _

/-! ## The single steps -/

/-- only lists, strings and output change: neither the environment nor the return signal does -/
def Inert (s t : State) : Prop := t.env = s.env ∧ t.returning = s.returning

instance : IsPreorder State Inert where
  refl _ := ⟨rfl, rfl⟩
  trans _ _ _ h k := ⟨k.1.trans h.1, k.2.trans h.2⟩

theorem inert_newList (items : Array Val) : Keeps Inert (newList items) := fun _ => ⟨rfl, rfl⟩

theorem inert_newString (text : String) : Keeps Inert (newString text) := fun _ => ⟨rfl, rfl⟩

theorem inert_modifyList (address : Nat) (change : Array Val → Array Val) : Keeps Inert (modifyList address change) :=
  fun _ => ⟨rfl, rfl⟩

theorem inert_write (owner : Nat) (text : String) : Keeps Inert (write owner text) := fun _ => ⟨rfl, rfl⟩

theorem inert_newDefault (t : Ty) : Keeps Inert (newDefault t) := by
  unfold newDefault
  split
  · exact inert_newList _
  · exact inert_newString _
  · intro s
    dsimp only
    split <;> exact ⟨rfl, rfl⟩

theorem inert_growSlot (address : Nat) (index : Val) (span : Span) : Keeps Inert (growSlot address index span) := by
  refine (keeps_ofExcept _).bind fun place => ?_
  split
  · split_ifs
    · exact keeps_invalidIndex _ _
    · exact keeps_fail _ _
    · exact (inert_modifyList _ _).bind fun _ => keeps_pure _
  · exact keeps_fail _ _

theorem keeps_acceptReply (name : String) (span : Span) (r : Reply) : Keeps R (acceptReply name span r) := by
  unfold acceptReply
  split
  · exact keeps_fail _ _
  · exact keeps_pure _
  · exact keeps_fail _ _

/-- the functions that it may call back matter only to the functions of the host -/
theorem callNative_congr {setting : Setting} {depth : Nat} {callBack callBack' : String → List Val → Eval Val}
    {arguments : List Val} {s : State}
    (h : ∀ number, setting.host number callBack arguments s = setting.host number callBack' arguments s) (f : Native)
    (span : Span) :
    callNative setting depth callBack f arguments span s = callNative setting depth callBack' f arguments span s := by
  refine bind_congr_run (catch_congr_run ?_ _) _
  cases f with
  | builtin owner b => rfl
  | host number own => exact h number

/-- a call of a native function keeps what printing and the function of the host keep -/
theorem keeps_callNative {setting : Setting} {depth : Nat} {callBack : String → List Val → Eval Val} {f : Native}
    {arguments : List Val} (hwrite : ∀ owner text, Keeps R (write owner text))
    (hhost : ∀ number, Keeps R (setting.host number callBack arguments)) (span : Span) :
    Keeps R (callNative setting depth callBack f arguments span) := by
  refine (Keeps.tryCatch ?_ fun e => keeps_throw _).bind fun r => keeps_acceptReply _ _ r
  cases f with
  | builtin owner b =>
    refine (keeps_of_same (m := get) fun _ => rfl).bind fun s => (keeps_ofExcept _).bind fun (v, text) => ?_
    dsimp only
    split_ifs
    · exact (keeps_pure ()).bind fun _ => keeps_pure _
    · exact (hwrite owner text).bind fun _ => keeps_pure _
  | host number own => exact hhost number

end Eval

end LevelScript
