/-
Congruences of the evaluator.

A congruence relates computations. It relates every single step of the evaluator to itself, and whatever the evaluator
puts together from related computations is related: sequences, frames and calls. What fails for lack of depth is related
to anything. Then whatever the evaluator does with a budget of depth is related to what it does with a larger one
(`Congruence.run`).

A property of computations is the case of a relation that looks at the first of the two only. For it the theorem says
that all runs have the property.
-/
import LevelScript.Proofs.Computation

namespace LevelScript

open LevelScript.Syntax

/-! ## Single steps -/

/-- the steps that the evaluator takes on its own, of which everything else is put together -/
inductive Eval.Step : {α : Type} → Eval α → Prop where
  | pure {α : Type} (a : α) : Step (Pure.pure a)
  | fail {α : Type} (cause : Cause) (span : Span) : Step (Eval.fail (α := α) cause span)
  | endless : Step (throw (.host .endless) : Eval Unit)
  | tooManyDigits {α : Type} : Step (throw (.host .tooManyDigits) : Eval α)
  | isReturning : Step Eval.isReturning
  | startReturn (v : Val) : Step (Eval.startReturn v)
  | lookup (name : String) : Step (Eval.lookup? name)
  | declare (name : String) (v : Val) (span : Span) : Step (Eval.declare name v span)
  | assign (name : String) (v : Val) : Step (Eval.assign name v)
  | items (address : Nat) : Step (Eval.items address)
  | modifyList (address : Nat) (change : Array Val → Array Val) : Step (Eval.modifyList address change)
  | newDefault (type : Ty) : Step (Eval.newDefault type)
  | newString (text : String) : Step (Eval.newString text)
  | newList (items : Array Val) : Step (Eval.newList items)
  | cast (v : Val) (type : Ty) (span : Option Span) : Step (Eval.ofExcept (v.cast type span))
  | apply (op : Operator) (a b : Val) (span : Span) : Step (Eval.ofExcept (op.apply a b span))

/-! ## Congruences -/

/-- a relation between computations that the evaluator respects -/
structure Congruence (setting : Setting) where
  Rel : {α : Type} → Eval α → Eval α → Prop
  step : ∀ {α : Type} {c : Eval α}, c.Step → Rel c c
  bind : ∀ {α β : Type} {c d : Eval α} {f g : α → Eval β}, Rel c d → (∀ a, Rel (f a) (g a)) → Rel (c >>= f) (d >>= g)
  inFrame : ∀ {α : Type} {c d : Eval α}, Rel c d → ∀ name, Rel (Eval.inFrame name c) (Eval.inFrame name d)
  inCall : ∀ {c d : Eval Unit}, Rel c d → ∀ arguments dynamic,
    Rel (Eval.inCall arguments dynamic c) (Eval.inCall arguments dynamic d)
  /-- a called function is blamed for a lack of depth -/
  blamed : ∀ {c d : Eval Val}, Rel c d → ∀ name span,
    Rel (tryCatch c fun e => match e with
        | .host .tooDeep => Eval.fail (.callTooDeep name) span
        | e => throw e)
      (tryCatch d fun e => match e with
        | .host .tooDeep => Eval.fail (.callTooDeep name) span
        | e => throw e)
  native : ∀ {depth depth' : Nat}, depth ≤ depth' → ∀ callBack callBack' f arguments span,
    Rel (callNative setting depth callBack f arguments span) (callNative setting depth' callBack' f arguments span)
  tooDeep : ∀ {α : Type} (d : Eval α), Rel (throw (.host .tooDeep)) d

namespace Congruence

variable {setting : Setting} (K : Congruence setting) {α β : Type}

theorem of_pure (a : α) : K.Rel (pure a) (pure a) := K.step (.pure a)

theorem of_fail (cause : Cause) (span : Span) : K.Rel (Eval.fail (α := α) cause span) (Eval.fail cause span) :=
  K.step (.fail cause span)

theorem of_cast (v : Val) (type : Ty) (span : Option Span) :
    K.Rel (Eval.ofExcept (v.cast type span)) (Eval.ofExcept (v.cast type span)) := K.step (.cast v type span)

theorem discard {c d : Eval α} (h : K.Rel c d) : K.Rel (discard c) (discard d) := by
  change K.Rel ((fun _ => ()) <$> c) ((fun _ => ()) <$> d)
  rw [map_eq_pure_bind, map_eq_pure_bind]
  exact K.bind h fun _ => K.of_pure ()

theorem mapM {f g : α → Eval β} (h : ∀ a, K.Rel (f a) (g a)) (l : List α) : K.Rel (l.mapM f) (l.mapM g) := by
  induction l with
  | nil => exact K.of_pure []
  | cons a l ih =>
    rw [List.mapM_cons, List.mapM_cons]
    exact K.bind (h a) fun b => K.bind ih fun bs => K.of_pure (b :: bs)

theorem untilReturn {run run' : Stmt → Eval Unit} (h : ∀ stmt, K.Rel (run stmt) (run' stmt)) (body : List Stmt) :
    K.Rel (Eval.untilReturn run body) (Eval.untilReturn run' body) := by
  induction body with
  | nil => exact K.of_pure ()
  | cons stmt rest ih =>
    refine K.bind (h stmt) fun _ => K.bind (K.step .isReturning) fun returning => ?_
    cases returning with
    | true => exact K.of_pure ()
    | false => exact ih

theorem firstArm {test test' : Expr → Eval Bool} {run run' : Stmt → Eval Unit} (ht : ∀ e, K.Rel (test e) (test' e))
    (hr : ∀ stmt, K.Rel (run stmt) (run' stmt)) (arms : List (Expr × Stmt)) :
    K.Rel (Eval.firstArm test run arms) (Eval.firstArm test' run' arms) := by
  induction arms with
  | nil => exact K.of_pure false
  | cons arm rest ih =>
    refine K.bind (ht arm.1) fun holds => ?_
    cases holds with
    | true => exact K.bind (hr arm.2) fun _ => K.of_pure true
    | false => exact ih

theorem repeatWhile {test test' : Eval Bool} {body body' increment increment' : Eval Unit} (ht : K.Rel test test')
    (hb : K.Rel body body') (hi : K.Rel increment increment') (steps : Nat) :
    K.Rel (Eval.repeatWhile test body increment steps) (Eval.repeatWhile test' body' increment' steps) := by
  induction steps with
  | zero => exact K.step .endless
  | succ steps ih =>
    refine K.bind ht fun holds => ?_
    cases holds with
    | false => exact K.of_pure ()
    | true =>
      refine K.bind hb fun _ => K.bind (K.step .isReturning) fun returning => ?_
      cases returning with
      | true => exact K.of_pure ()
      | false => exact K.bind hi fun _ => ih

/-! ## Reading and storing -/

theorem invalidIndex (index : Int) (span : Span) :
    K.Rel (LevelScript.invalidIndex (α := α) index span) (LevelScript.invalidIndex index span) := by
  unfold LevelScript.invalidIndex
  split
  · exact K.of_fail _ _
  · exact K.step .tooManyDigits

theorem readMember (v : Val) (name : Token) (span : Span) :
    K.Rel (LevelScript.readMember v name span) (LevelScript.readMember v name span) := by
  unfold LevelScript.readMember
  split
  · split_ifs
    · exact K.bind (K.step (.items _)) fun _ => K.of_pure _
    · exact K.of_fail _ _
  · split
    · exact K.of_pure _
    · exact K.of_fail _ _
  · split
    · exact K.of_pure _
    · exact K.of_fail _ _
  · exact K.of_fail _ _

theorem readItem (address : Nat) (index : Val) (span : Span) :
    K.Rel (LevelScript.readItem address index span) (LevelScript.readItem address index span) := by
  refine K.bind (K.of_cast _ _ _) fun place => ?_
  split
  · refine K.bind (K.step (.items _)) fun items => ?_
    split
    · exact K.of_pure _
    · exact K.invalidIndex _ _
  · exact K.of_pure _

theorem growSlot (address : Nat) (index : Val) (span : Span) :
    K.Rel (LevelScript.growSlot address index span) (LevelScript.growSlot address index span) := by
  refine K.bind (K.of_cast _ _ _) fun place => ?_
  split
  · split_ifs
    · exact K.invalidIndex _ _
    · exact K.of_fail _ _
    · exact K.bind (K.step (.modifyList _ _)) fun _ => K.of_pure _
  · exact K.of_fail _ _

theorem getSlot (slot : Slot) : K.Rel slot.get slot.get := by
  cases slot with
  | binding name => exact K.bind (K.step (.lookup name)) fun _ => K.of_pure _
  | item address place => exact K.bind (K.step (.items address)) fun _ => K.of_pure _

/-- a value is stored, and another one given back -/
theorem stored (slot : Slot) (stored given : Val) :
    K.Rel (do slot.set stored; return given) (do slot.set stored; return given) := by
  cases slot with
  | binding name => exact K.bind (K.step (.assign name stored)) fun _ => K.of_pure given
  | item address place => exact K.bind (K.step (.modifyList address _)) fun _ => K.of_pure given

theorem store (target : Expr) (slot : Slot) (v : Val) (span : Span) :
    K.Rel (LevelScript.store target slot v span) (LevelScript.store target slot v span) := by
  refine K.bind (K.getSlot slot) fun current => ?_
  split
  · refine K.bind (K.of_cast _ _ _) fun c => ?_
    split
    · split_ifs
      · split
        · exact K.stored slot _ _
        · exact K.of_fail _ _
      · exact K.of_fail _ _
    · exact K.of_pure _
  · exact K.stored slot v v
  · exact K.bind (K.of_cast _ _ _) fun w => K.stored slot w w

/-! ## Runs -/

/-- what the evaluator does with one budget of depth is related to what it does with another one -/
structure Runs (depth depth' : Nat) : Prop where
  exec : ∀ stmt, K.Rel (exec setting depth stmt) (exec setting depth' stmt)
  test : ∀ e, K.Rel (test setting depth e) (test setting depth' e)
  eval : ∀ e, K.Rel (eval setting depth e) (eval setting depth' e)
  resolve : ∀ target, K.Rel (resolve setting depth target) (resolve setting depth' target)
  call : ∀ decl arguments dynamic,
    K.Rel (callFunction setting depth decl arguments dynamic) (callFunction setting depth' decl arguments dynamic)

section Steps

variable {K} {depth depth' : Nat} (ih : K.Runs depth depth')

include ih

theorem test_step (e : Expr) : K.Rel (LevelScript.test setting (depth + 1) e) (LevelScript.test setting (depth' + 1) e) := by
  simp only [LevelScript.test]
  refine K.bind (ih.eval e) fun v => K.bind (K.of_cast _ _ _) fun b => ?_
  split <;> exact K.of_pure _

theorem resolve_step (target : Expr) :
    K.Rel (LevelScript.resolve setting (depth + 1) target) (LevelScript.resolve setting (depth' + 1) target) := by
  cases target with
  | symbol token name =>
    simp only [LevelScript.resolve]
    refine K.bind (K.step (.lookup name)) fun found => ?_
    split_ifs
    · exact K.of_pure _
    · exact K.of_fail _ _
  | member token owner name =>
    simp only [LevelScript.resolve]
    exact ih.resolve owner
  | index token owner place =>
    simp only [LevelScript.resolve]
    refine K.bind (ih.eval owner) fun v => ?_
    split
    · exact K.bind (ih.eval place) fun i => K.growSlot _ i _
    · exact K.of_fail _ _
  | _ =>
    simp only [LevelScript.resolve]
    exact K.of_fail _ _

theorem call_step (decl : Function) (arguments : List Val) (dynamic : Bool) :
    K.Rel (callFunction setting (depth + 1) decl arguments dynamic)
      (callFunction setting (depth' + 1) decl arguments dynamic) := by
  simp only [callFunction]
  have hbody := K.inFrame (K.untilReturn ih.exec decl.body) "block"
  exact K.blamed (K.inCall hbody _ dynamic) _ _

theorem eval_step (hle : depth ≤ depth') (e : Expr) :
    K.Rel (LevelScript.eval setting (depth + 1) e) (LevelScript.eval setting (depth' + 1) e) := by
  cases e with
  | int token n | float token x =>
    simp only [LevelScript.eval]
    exact K.of_pure _
  | string token text =>
    simp only [LevelScript.eval]
    exact K.step (.newString text)
  | symbol token name =>
    simp only [LevelScript.eval]
    refine K.bind (K.step (.lookup name)) fun found => ?_
    split
    · exact K.of_pure _
    · exact K.of_fail _ _
  | binary token left op right =>
    simp only [LevelScript.eval]
    exact K.bind (ih.eval left) fun a => K.bind (ih.eval right) fun b => K.step (.apply op a b _)
  | assign token target value =>
    simp only [LevelScript.eval]
    exact K.bind (ih.eval value) fun v => K.bind (ih.resolve target) fun slot => K.store target slot v _
  | call token callee arguments =>
    simp only [LevelScript.eval]
    refine K.bind (ih.eval callee) fun v => ?_
    split
    · split_ifs
      · exact K.of_fail _ _
      · refine K.bind (K.mapM (fun p => ?_) _) fun values => ih.call _ values _
        exact K.bind (ih.eval p.1) fun u => K.of_cast _ _ _
    · exact K.bind (K.mapM ih.eval arguments) fun values => K.native hle _ _ _ values _
    · exact K.of_fail _ _
  | member token target name =>
    simp only [LevelScript.eval]
    exact K.bind (ih.eval target) fun v => K.readMember v name _
  | index token target place =>
    simp only [LevelScript.eval]
    refine K.bind (ih.eval target) fun v => ?_
    split
    · exact K.bind (ih.eval place) fun i => K.readItem _ i _
    · exact K.of_fail _ _
  | list token elements =>
    simp only [LevelScript.eval]
    exact K.bind (K.mapM ih.eval elements) fun values => K.step (.newList _)
  | cast token ty operand =>
    simp only [LevelScript.eval]
    exact K.bind (ih.eval operand) fun v => K.of_cast _ _ _

theorem exec_step (stmt : Stmt) :
    K.Rel (LevelScript.exec setting (depth + 1) stmt) (LevelScript.exec setting (depth' + 1) stmt) := by
  have hdeclare (name : Token) (v : Val) : K.Rel (Eval.declare name.name v name.span) (Eval.declare name.name v name.span) :=
    K.step (.declare _ v _)
  cases stmt with
  | expr token e =>
    simp only [LevelScript.exec]
    exact K.discard (ih.eval e)
  | var token ty names start =>
    match names with
    | [name] =>
      simp only [LevelScript.exec]
      cases start with
      | none => exact K.bind (K.step (.newDefault ty)) (hdeclare name)
      | some e => exact K.bind (ih.eval e) fun v => K.bind (K.of_cast _ _ _) (hdeclare name)
    | [] | _ :: _ :: _ =>
      simp only [LevelScript.exec]
      exact K.of_fail _ _
  | fn decl =>
    simp only [LevelScript.exec]
    exact K.step (.declare _ _ _)
  | branch token arms otherwise =>
    simp only [LevelScript.exec]
    refine K.bind (K.firstArm ih.test ih.exec arms) fun ran => ?_
    cases ran with
    | true => exact K.of_pure ()
    | false =>
      cases otherwise with
      | none => exact K.of_pure ()
      | some body => exact ih.exec body
  | loop token counter start condition increment body =>
    simp only [LevelScript.exec]
    have hrounds := K.repeatWhile (ih.test condition) (ih.exec body) (K.discard (ih.eval increment)) setting.repetitions
    refine K.inFrame (K.bind (ih.eval start) fun v => ?_) _
    split
    · exact K.bind (K.of_cast _ _ _) fun u => K.bind (hdeclare _ u) fun _ => hrounds
    · exact hrounds
  | ret token e =>
    simp only [LevelScript.exec]
    exact K.bind (ih.eval e) fun v => K.step (.startReturn v)
  | block token body =>
    simp only [LevelScript.exec]
    exact K.inFrame (K.untilReturn ih.exec body) _

end Steps

/-- **A congruence relates the runs of one depth to those of a larger one.** The induction is on the smaller budget,
which the larger one outlasts. -/
theorem run {depth depth' : Nat} (hle : depth ≤ depth') : K.Runs depth depth' := by
  induction depth generalizing depth' with
  | zero =>
    exact ⟨fun _ => K.tooDeep _, fun _ => K.tooDeep _, fun _ => K.tooDeep _, fun _ => K.tooDeep _,
      fun _ _ _ => K.tooDeep _⟩
  | succ depth ih =>
    obtain ⟨depth', rfl⟩ := Nat.exists_eq_succ_of_ne_zero (Nat.ne_of_gt (Nat.lt_of_lt_of_le depth.succ_pos hle))
    have hle := Nat.le_of_succ_le_succ hle
    have ih := ih hle
    exact ⟨exec_step ih, test_step ih, eval_step ih hle, resolve_step ih, call_step ih⟩

end Congruence

end LevelScript
