/-
More depth to spend changes nothing but failures for lack of depth.

A computation with a smaller budget either does exactly what it does with a larger one, or it ends at the limit: with
the failure of the host for lack of depth, or with one of the faults that such a failure becomes. The functions of the
host must not call back, because a call from the host turns faults into values.
-/
import LevelScript.Proofs.Congruence
import LevelScript.Proofs.Routine

namespace LevelScript

open LevelScript.Syntax Eval

variable {α β : Type}

/-! ## The limit -/

/-- a lack of depth, or a fault that reports one -/
inductive Interrupt.AtLimit : Interrupt → Prop where
  | depth : AtLimit (.host .tooDeep)
  | call {name : String} {span : Option Span} : AtLimit (.fault ⟨.callTooDeep name, span⟩)
  | nesting {span : Option Span} : AtLimit (.fault ⟨.nestingTooDeep, span⟩)

/-- the result is a failure at the limit -/
def EndsAtLimit (result : Except Interrupt α) : Prop := ∃ e, result = .error e ∧ e.AtLimit

theorem EndsAtLimit.map {result : Except Interrupt α} (h : EndsAtLimit result) (f : α → β) :
    EndsAtLimit (result.map f) := by
  obtain ⟨e, rfl, he⟩ := h
  exact ⟨e, rfl, he⟩

/-- the first computation does what the second one does, or ends at the limit -/
def Deepens (c d : Eval α) : Prop := ∀ s, c s = d s ∨ EndsAtLimit (c s).1

theorem Deepens.refl (c : Eval α) : Deepens c c := fun _ => .inl rfl

theorem deepens_tooDeep (d : Eval α) : Deepens (throw (.host .tooDeep)) d := fun _ => .inr ⟨_, rfl, .depth⟩

theorem Deepens.bind {c d : Eval α} {f g : α → Eval β} (h : Deepens c d) (hf : ∀ a, Deepens (f a) (g a)) :
    Deepens (c >>= f) (d >>= g) := by
  intro s
  rcases h s with heq | ⟨e, he, hlimit⟩
  · rcases hd : d s with ⟨e | a, t⟩ <;> rw [hd] at heq
    · left
      rw [run_bind_error heq, run_bind_error hd]
    · rw [run_bind_ok heq, run_bind_ok hd]
      exact hf a t
  · right
    rcases hc : c s with ⟨result, t⟩
    rw [hc] at he
    cases he
    rw [run_bind_error hc]
    exact ⟨e, rfl, hlimit⟩

/-- a handler may change what ended at the limit, as long as that still shows -/
theorem Deepens.tryCatch {c d : Eval α} {f : Interrupt → Eval α} (h : Deepens c d)
    (hf : ∀ e s, e.AtLimit → EndsAtLimit (f e s).1) : Deepens (tryCatch c f) (tryCatch d f) := by
  intro s
  rcases h s with heq | ⟨e, he, hlimit⟩
  · exact .inl (catch_congr_run heq f)
  · right
    rcases hc : c s with ⟨result, t⟩
    rw [hc] at he
    cases he
    rw [run_catch_error hc]
    exact hf e t hlimit

theorem Deepens.inFrame {c d : Eval α} (h : Deepens c d) (name : String) :
    Deepens (inFrame name c) (inFrame name d) := by
  intro s
  unfold Eval.inFrame
  rcases h { s with env := s.env.push ⟨name, []⟩ } with heq | hlimit
  · left
    rw [heq]
  · exact .inr hlimit

theorem Deepens.inCall {c d : Eval Unit} (h : Deepens c d) (arguments : Frame) (dynamic : Bool) :
    Deepens (inCall arguments dynamic c) (inCall arguments dynamic d) := by
  intro s
  unfold Eval.inCall
  rcases h { s with env := s.env.enter arguments dynamic } with heq | hlimit
  · left
    rw [heq]
  · exact .inr (hlimit.map _)

/-! ## Native functions -/

theorem mapM_or_tooDeep {f g : α → Except HostError β} (h : ∀ a, f a = g a ∨ f a = .error .tooDeep) (l : List α) :
    l.mapM f = l.mapM g ∨ l.mapM f = .error .tooDeep := by
  induction l with
  | nil => exact .inl rfl
  | cons a l ih =>
    rw [List.mapM_cons, List.mapM_cons]
    rcases h a with ha | ha
    · rw [ha]
      rcases g a with e | b
      · exact .inl rfl
      · rcases ih with ih | ih
        · left
          rw [ih]
        · right
          rw [ih]
          rfl
    · right
      rw [ha]
      rfl

theorem display_or_tooDeep (h : Heap) {depth depth' : Nat} (hle : depth ≤ depth') (v : Val) :
    h.display depth v = h.display depth' v ∨ h.display depth v = .error .tooDeep := by
  induction depth generalizing depth' v with
  | zero =>
    right
    unfold Heap.display
    rfl
  | succ depth ih =>
    obtain ⟨depth', rfl⟩ := Nat.exists_eq_succ_of_ne_zero (Nat.ne_of_gt (Nat.lt_of_lt_of_le depth.succ_pos hle))
    have hitems := fun v => ih (Nat.le_of_succ_le_succ hle) v
    unfold Heap.display
    cases v with
    | list a =>
      dsimp only
      rcases mapM_or_tooDeep hitems (h.items a).toList with hm | hm
      · left
        rw [hm]
      · right
        rw [hm]
        rfl
    | int n =>
      left
      dsimp only
    | _ =>
      left
      rfl

theorem deepens_builtin (b : Builtin) {depth depth' : Nat} (hle : depth ≤ depth') (h : Heap) (arguments : List Val)
    (norm : Float → Float → Float → Float) :
    Deepens (Eval.ofExcept (b.call h depth arguments norm)) (Eval.ofExcept (b.call h depth' arguments norm)) := by
  intro s
  cases b with
  | print =>
    rcases mapM_or_tooDeep (display_or_tooDeep h hle) arguments with hm | hm
    · left
      simp only [Builtin.call, hm]
    · right
      simp only [Builtin.call, hm]
      exact ⟨_, rfl, .depth⟩
  | _ => exact .inl rfl

/-- a routine that does not call anything does not depend on what it could call -/
theorem Routine.run_eq {m : Manners} (hm : ¬ m.calls) (r : Routine m)
    (callBack callBack' : String → List Val → Eval Val) : r.run callBack = r.run callBack' := by
  induction r with
  | reply r => rfl
  | fail e => rfl
  | look next ih =>
    funext s
    exact congrFun (ih s) s
  | lists heap next ih =>
    funext s
    exact congrFun ih { s with heap := heap }
  | print owner text next ih => simp only [Routine.run, ih]
  | call allowed => exact absurd allowed hm
  | install allowed name f next ih =>
    funext s
    exact congrFun ih (s.install name f)

theorem deepens_callNative {m : Manners} (hm : ¬ m.calls) {setting : Setting} (hs : setting.Obeys m)
    {depth depth' : Nat} (hle : depth ≤ depth') (callBack callBack' : String → List Val → Eval Val) (f : Native)
    (arguments : List Val) (span : Span) :
    Deepens (callNative setting depth callBack f arguments span)
      (callNative setting depth' callBack' f arguments span) := by
  refine (Deepens.tryCatch ?_ fun e s he => ?_).bind fun r => .refl (acceptReply _ _ r)
  · cases f with
    | builtin owner b =>
      refine Deepens.bind (.refl get) fun s => (deepens_builtin b hle s.heap arguments _).bind fun p => .refl _
    | host number own =>
      obtain ⟨r, hr⟩ := hs number arguments
      simp only [hr, r.run_eq hm callBack callBack']
      exact .refl _
  · cases he with
    | depth => exact ⟨_, rfl, .depth⟩
    | call => exact ⟨_, rfl, .call⟩
    | nesting => exact ⟨_, rfl, .nesting⟩

/-! ## Runs -/

/-- whatever the evaluator does with the smaller budget, it does with the larger one, or ends at the limit -/
structure Deeper (setting : Setting) (depth depth' : Nat) : Prop where
  exec : ∀ stmt, Deepens (exec setting depth stmt) (exec setting depth' stmt)
  test : ∀ e, Deepens (test setting depth e) (test setting depth' e)
  eval : ∀ e, Deepens (eval setting depth e) (eval setting depth' e)
  resolve : ∀ target, Deepens (resolve setting depth target) (resolve setting depth' target)
  call : ∀ decl arguments dynamic,
    Deepens (callFunction setting depth decl arguments dynamic) (callFunction setting depth' decl arguments dynamic)

/-- doing the same unless at the limit is a congruence, if the functions of the host do not call back -/
def deepening {m : Manners} (hm : ¬ m.calls) {setting : Setting} (hs : setting.Obeys m) : Congruence setting where
  Rel := Deepens
  step _ := .refl _
  bind := Deepens.bind
  inFrame := Deepens.inFrame
  inCall := Deepens.inCall
  blamed h name span := h.tryCatch fun e s he => by
    cases he with
    | depth => exact ⟨_, rfl, .call⟩
    | call => exact ⟨_, rfl, .call⟩
    | nesting => exact ⟨_, rfl, .nesting⟩
  native hle := deepens_callNative hm hs hle
  tooDeep := deepens_tooDeep

/-- **More depth changes nothing but failures at the limit.** With functions of the host that do not call back, what a
statement, an expression, a target or a call does with a budget of depth it also does with any larger one, unless it
has ended at the limit. -/
theorem deeper {m : Manners} (hm : ¬ m.calls) {setting : Setting} (hs : setting.Obeys m) {depth depth' : Nat}
    (hle : depth ≤ depth') : Deeper setting depth depth' :=
  have h := (deepening hm hs).run hle
  ⟨h.exec, h.test, h.eval, h.resolve, h.call⟩

end LevelScript
