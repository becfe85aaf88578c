/-
Every fault of a run has a place in the script.

The functions of the host may end in faults, without a place, or in failures of any other kind, and they may give back
error values or nothing that is a value. Whatever they do, a fault that a statement ends in points at one of the tokens
that the statement keeps, or that a function keeps which was called on the way (`faults_have_places`). A fault that a
call of a native function ends in points at the call.

What happens on the way is told by `Includes`: a job, something that runs from a state, includes other jobs, each from
the state in which those before it have ended. `Calls` follows it down to the calls of script functions. Calls that come
from functions of the host are left out, since no fault gets out of them.

The step lemmas say of every construct that a fault is placed if the jobs it includes place theirs; the run lemma
`placesWithin` follows by induction on the depth.
-/
import LevelScript.Proofs.Placed

namespace LevelScript

open LevelScript.Syntax Eval

/-! ## Jobs -/

inductive Task where
  | stmt (stmt : Stmt)
  | sequence (body : List Stmt)
  | arms (arms : List (Expr × Stmt)) (otherwise : Option Stmt)
  | rounds (condition increment : Expr) (body : Stmt) (steps : Nat)
  | test (e : Expr)
  | expr (e : Expr)
  | target (e : Expr)
  | call (decl : Function) (arguments : List Val) (dynamic : Bool)

def Task.anchors : Task → List Token
  | .stmt one => one.anchors
  | .sequence body => Stmt.listAnchors body
  | .arms all otherwise => Stmt.armAnchors all ++ Stmt.optionalAnchors otherwise
  | .rounds condition increment body _ => condition.anchors ++ (increment.anchors ++ body.anchors)
  | .test e | .expr e | .target e => e.anchors
  | .call decl _ _ => decl.anchors

/-- a task, the depth that it may spend, and the state that it runs from -/
structure Job where
  depth : Nat
  task : Task
  state : State

/-- a job includes another one: it comes to run it, from the state where what comes before has ended -/
inductive Includes (setting : Setting) : Job → Job → Prop where
  -- statements
  | operand {depth stmt e s} : e ∈ stmt.operands → Includes setting ⟨depth + 1, .stmt stmt, s⟩ ⟨depth, .expr e, s⟩
  | branch {depth token arms otherwise s} :
      Includes setting ⟨depth + 1, .stmt (.branch token arms otherwise), s⟩ ⟨depth, .arms arms otherwise, s⟩
  | condition {depth condition body rest otherwise s} :
      Includes setting ⟨depth, .arms ((condition, body) :: rest) otherwise, s⟩ ⟨depth, .test condition, s⟩
  | chosen {depth condition body rest otherwise s t} : test setting depth condition s = (.ok true, t) →
      Includes setting ⟨depth, .arms ((condition, body) :: rest) otherwise, s⟩ ⟨depth, .stmt body, t⟩
  | skipped {depth condition body rest otherwise s t} : test setting depth condition s = (.ok false, t) →
      Includes setting ⟨depth, .arms ((condition, body) :: rest) otherwise, s⟩ ⟨depth, .arms rest otherwise, t⟩
  | otherwise {depth body s} : Includes setting ⟨depth, .arms [] (some body), s⟩ ⟨depth, .stmt body, s⟩
  | start {depth token counter start condition increment body s} :
      Includes setting ⟨depth + 1, .stmt (.loop token counter start condition increment body), s⟩
        ⟨depth, .expr start, s.pushed "for-loop"⟩
  | rounds {depth token counter start condition increment body s t} :
      loopStart setting depth counter start (s.pushed "for-loop") = (.ok (), t) →
      Includes setting ⟨depth + 1, .stmt (.loop token counter start condition increment body), s⟩
        ⟨depth, .rounds condition increment body setting.repetitions, t⟩
  | roundTest {depth condition increment body steps s} :
      Includes setting ⟨depth, .rounds condition increment body (steps + 1), s⟩ ⟨depth, .test condition, s⟩
  | roundBody {depth condition increment body steps s t} : test setting depth condition s = (.ok true, t) →
      Includes setting ⟨depth, .rounds condition increment body (steps + 1), s⟩ ⟨depth, .stmt body, t⟩
  | increment {depth condition increment body steps s t u} : test setting depth condition s = (.ok true, t) →
      exec setting depth body t = (.ok (), u) → u.returning = none →
      Includes setting ⟨depth, .rounds condition increment body (steps + 1), s⟩ ⟨depth, .expr increment, u⟩
  | again {depth condition increment body steps s t u v w} : test setting depth condition s = (.ok true, t) →
      exec setting depth body t = (.ok (), u) → u.returning = none → eval setting depth increment u = (.ok v, w) →
      Includes setting ⟨depth, .rounds condition increment body (steps + 1), s⟩
        ⟨depth, .rounds condition increment body steps, w⟩
  | block {depth token body s} :
      Includes setting ⟨depth + 1, .stmt (.block token body), s⟩ ⟨depth, .sequence body, s.pushed "block"⟩
  | first {depth stmt rest s} : Includes setting ⟨depth, .sequence (stmt :: rest), s⟩ ⟨depth, .stmt stmt, s⟩
  | next {depth stmt rest s t} : exec setting depth stmt s = (.ok (), t) → t.returning = none →
      Includes setting ⟨depth, .sequence (stmt :: rest), s⟩ ⟨depth, .sequence rest, t⟩
  -- expressions
  | tested {depth e s} : Includes setting ⟨depth + 1, .test e, s⟩ ⟨depth, .expr e, s⟩
  | left {depth token left op right s} :
      Includes setting ⟨depth + 1, .expr (.binary token left op right), s⟩ ⟨depth, .expr left, s⟩
  | right {depth token left op right s a t} : eval setting depth left s = (.ok a, t) →
      Includes setting ⟨depth + 1, .expr (.binary token left op right), s⟩ ⟨depth, .expr right, t⟩
  | value {depth token target value s} :
      Includes setting ⟨depth + 1, .expr (.assign token target value), s⟩ ⟨depth, .expr value, s⟩
  | target {depth token target value s v t} : eval setting depth value s = (.ok v, t) →
      Includes setting ⟨depth + 1, .expr (.assign token target value), s⟩ ⟨depth, .target target, t⟩
  | memberOwner {depth token owner name s} :
      Includes setting ⟨depth + 1, .expr (.member token owner name), s⟩ ⟨depth, .expr owner, s⟩
  | itemOwner {depth token owner place s} :
      Includes setting ⟨depth + 1, .expr (.index token owner place), s⟩ ⟨depth, .expr owner, s⟩
  | itemPlace {depth token owner place s a t} : eval setting depth owner s = (.ok (.list a), t) →
      Includes setting ⟨depth + 1, .expr (.index token owner place), s⟩ ⟨depth, .expr place, t⟩
  | element {depth token elements n e values s t} : elements[n]? = some e →
      (elements.take n).mapM (eval setting depth) s = (.ok values, t) →
      Includes setting ⟨depth + 1, .expr (.list token elements), s⟩ ⟨depth, .expr e, t⟩
  | casted {depth token ty operand s} :
      Includes setting ⟨depth + 1, .expr (.cast token ty operand), s⟩ ⟨depth, .expr operand, s⟩
  -- targets of assignments
  | targetMember {depth token owner name s} :
      Includes setting ⟨depth + 1, .target (.member token owner name), s⟩ ⟨depth, .target owner, s⟩
  | targetOwner {depth token owner place s} :
      Includes setting ⟨depth + 1, .target (.index token owner place), s⟩ ⟨depth, .expr owner, s⟩
  | targetPlace {depth token owner place s a t} : eval setting depth owner s = (.ok (.list a), t) →
      Includes setting ⟨depth + 1, .target (.index token owner place), s⟩ ⟨depth, .expr place, t⟩
  -- calls
  | callee {depth token callee arguments s} :
      Includes setting ⟨depth + 1, .expr (.call token callee arguments), s⟩ ⟨depth, .expr callee, s⟩
  | nativeArgument {depth token callee arguments f n e values s t u} : eval setting depth callee s = (.ok (.native f), t) →
      arguments[n]? = some e → (arguments.take n).mapM (eval setting depth) t = (.ok values, u) →
      Includes setting ⟨depth + 1, .expr (.call token callee arguments), s⟩ ⟨depth, .expr e, u⟩
  | argument {depth token callee arguments owner decl n e values s t u} :
      eval setting depth callee s = (.ok (.fn owner decl), t) → arguments.length = decl.params.length →
      arguments[n]? = some e →
      castAll (eval setting depth) (arguments.take n) (decl.params.take n) t = (.ok values, u) →
      Includes setting ⟨depth + 1, .expr (.call token callee arguments), s⟩ ⟨depth, .expr e, u⟩
  | function {depth token callee arguments owner decl values s t u} :
      eval setting depth callee s = (.ok (.fn owner decl), t) → arguments.length = decl.params.length →
      castAll (eval setting depth) arguments decl.params t = (.ok values, u) →
      Includes setting ⟨depth + 1, .expr (.call token callee arguments), s⟩
        ⟨depth, .call decl values setting.dynamic, u⟩
  | body {depth decl arguments dynamic s} :
      Includes setting ⟨depth + 1, .call decl arguments dynamic, s⟩
        ⟨depth, .sequence decl.body, s.entered decl arguments dynamic⟩

/-- the job comes to call the function -/
def Calls (setting : Setting) (j : Job) (decl : Function) : Prop :=
  ∃ depth arguments dynamic s, Relation.TransGen (Includes setting) j ⟨depth, .call decl arguments dynamic, s⟩

/-- the places that a job may blame: its own tokens and those of the functions that it comes to call -/
def Blames (setting : Setting) (j : Job) (span : Span) : Prop :=
  (∃ token ∈ j.task.anchors, token.span = span) ∨
    ∃ decl, Calls setting j decl ∧ ∃ token ∈ decl.anchors, token.span = span

section Blame

variable {setting : Setting} {j k : Job}

theorem blames_own {token : Token} (h : token ∈ j.task.anchors) : Blames setting j token.span := .inl ⟨token, h, rfl⟩

/-- what a part blames, the whole blames as well -/
theorem Blames.lift {span : Span} (hblames : Blames setting k span) (h : Includes setting j k)
    (hanchors : k.task.anchors ⊆ j.task.anchors) : Blames setting j span := by
  obtain ⟨token, htoken, hspan⟩ | ⟨decl, ⟨depth, arguments, dynamic, s, hcalls⟩, htoken⟩ := hblames
  · exact .inl ⟨token, hanchors htoken, hspan⟩
  · exact .inr ⟨decl, ⟨depth, arguments, dynamic, s, .head h hcalls⟩, htoken⟩

/-- what a called function blames, the call blames as well -/
theorem Blames.called {depth : Nat} {decl : Function} {arguments : List Val} {dynamic : Bool} {s : State} {span : Span}
    (hblames : Blames setting ⟨depth, .call decl arguments dynamic, s⟩ span)
    (h : Includes setting j ⟨depth, .call decl arguments dynamic, s⟩) : Blames setting j span := by
  obtain htoken | ⟨inner, ⟨depth', arguments', dynamic', s', hcalls⟩, htoken⟩ := hblames
  · exact .inr ⟨decl, ⟨depth, arguments, dynamic, s, .single h⟩, htoken⟩
  · exact .inr ⟨inner, ⟨depth', arguments', dynamic', s', .head h hcalls⟩, htoken⟩

theorem Eval.PlacesAt.lift {α : Type} {m : Eval α} {s : State} (hm : PlacesAt (Blames setting k) m s)
    (h : Includes setting j k) (hanchors : k.task.anchors ⊆ j.task.anchors) : PlacesAt (Blames setting j) m s :=
  Placed.mono hm fun _ hblames => hblames.lift h hanchors

end Blame

/-! ## Runs -/

/-- whatever the evaluator does with a depth to spend places its faults -/
structure PlacesWithin (setting : Setting) (depth : Nat) : Prop where
  exec : ∀ stmt s, PlacesAt (Blames setting ⟨depth, .stmt stmt, s⟩) (exec setting depth stmt) s
  test : ∀ e s, PlacesAt (Blames setting ⟨depth, .test e, s⟩) (test setting depth e) s
  eval : ∀ e s, PlacesAt (Blames setting ⟨depth, .expr e, s⟩) (eval setting depth e) s
  resolve : ∀ target s, PlacesAt (Blames setting ⟨depth, .target target, s⟩) (resolve setting depth target) s
  call : ∀ decl arguments dynamic s, PlacesAt (Blames setting ⟨depth, .call decl arguments dynamic, s⟩)
    (callFunction setting depth decl arguments dynamic) s

/-- a loop starts and goes through its rounds -/
theorem exec_loop (setting : Setting) (depth : Nat) (token : Token) (counter : Option Param)
    (start condition increment : Expr) (body : Stmt) :
    exec setting (depth + 1) (.loop token counter start condition increment body) =
      Eval.inFrame "for-loop" (loopStart setting depth counter start >>= fun _ =>
        Eval.repeatWhile (test setting depth condition) (exec setting depth body)
          (discard (eval setting depth increment)) setting.repetitions) := by
  simp only [exec, loopStart, bind_assoc]
  cases counter with
  | none => simp
  | some p => simp

section Within

variable {setting : Setting} {depth : Nat} (ih : PlacesWithin setting depth)

include ih

theorem places_sequence (body : List Stmt) (s : State) :
    PlacesAt (Blames setting ⟨depth, .sequence body, s⟩) (untilReturn (exec setting depth) body) s := by
  induction body generalizing s with
  | nil => exact placesAt_pure ()
  | cons stmt rest ihr =>
    have hstmt : stmt.anchors ⊆ Stmt.listAnchors (stmt :: rest) := fun t ht => by simp [Stmt.listAnchors, ht]
    have hrest : Stmt.listAnchors rest ⊆ Stmt.listAnchors (stmt :: rest) := fun t ht => by simp [Stmt.listAnchors, ht]
    refine PlacesAt.bind ((ih.exec stmt s).lift .first hstmt) fun _ t hrun => ?_
    refine PlacesAt.bind (placesAt_of_ok rfl) fun returning u hreturning => ?_
    cases hreturning
    cases hnone : t.returning with
    | some v => exact placesAt_pure ()
    | none => exact (ihr t).lift (.next hrun hnone) hrest

theorem places_arms (otherwise : Option Stmt) (arms : List (Expr × Stmt)) (s : State) :
    PlacesAt (Blames setting ⟨depth, .arms arms otherwise, s⟩)
      (do match ← chosenArm (test setting depth) otherwise arms with
        | some body => exec setting depth body
        | none => pure ()) s := by
  induction arms generalizing s with
  | nil =>
    refine PlacesAt.bind (placesAt_pure otherwise) fun chosen t hchosen => ?_
    cases hchosen
    cases otherwise with
    | none => exact placesAt_pure ()
    | some body =>
      exact (ih.exec body s).lift .otherwise fun t ht => by
        simpa [Task.anchors, Stmt.armAnchors, Stmt.optionalAnchors] using ht
  | cons arm rest ihr =>
    obtain ⟨condition, body⟩ := arm
    have hparts (t : Token) : t ∈ (Task.arms ((condition, body) :: rest) otherwise).anchors ↔
        t ∈ condition.anchors ∨ t ∈ body.anchors ∨ t ∈ (Task.arms rest otherwise).anchors := by
      simp [Task.anchors, Stmt.armAnchors]
    simp only [chosenArm, bind_assoc]
    refine PlacesAt.bind ((ih.test condition s).lift .condition ?_) fun holds t hrun => ?_
    · exact fun a ha => (hparts a).2 (.inl ha)
    cases holds with
    | true => exact (ih.exec body t).lift (.chosen hrun) fun a ha => (hparts a).2 (.inr (.inl ha))
    | false => exact (ihr t).lift (.skipped hrun) fun a ha => (hparts a).2 (.inr (.inr ha))

theorem places_rounds (condition increment : Expr) (body : Stmt) (steps : Nat) (s : State) :
    PlacesAt (Blames setting ⟨depth, .rounds condition increment body steps, s⟩)
      (repeatWhile (test setting depth condition) (exec setting depth body) (discard (eval setting depth increment))
        steps) s := by
  have hparts (n : Nat) (t : Token) : t ∈ (Task.rounds condition increment body n).anchors ↔
      t ∈ condition.anchors ∨ t ∈ increment.anchors ∨ t ∈ body.anchors := by
    simp [Task.anchors]
  induction steps generalizing s with
  | zero => exact placesAt_host _
  | succ steps ihr =>
    refine PlacesAt.bind ((ih.test condition s).lift .roundTest ?_) fun holds t htest => ?_
    · exact fun a ha => (hparts _ a).2 (.inl ha)
    cases holds with
    | false => exact placesAt_pure ()
    | true =>
      refine PlacesAt.bind ((ih.exec body t).lift (.roundBody htest) ?_) fun _ u hbody => ?_
      · exact fun a ha => (hparts _ a).2 (.inr (.inr ha))
      refine PlacesAt.bind (placesAt_of_ok rfl) fun returning u' hreturning => ?_
      cases hreturning
      cases hnone : u.returning with
      | some v => exact placesAt_pure ()
      | none =>
        have hincrement := (ih.eval increment u).lift (.increment htest hbody hnone) fun a ha =>
          (hparts (steps + 1) a).2 (.inr (.inl ha))
        refine PlacesAt.bind hincrement.discard fun _ w hincremented => ?_
        obtain ⟨v, hv⟩ := run_of_discard hincremented
        exact (ihr w).lift (.again htest hbody hnone hv) fun t ht => ht

theorem places_test (e : Expr) (s : State) :
    PlacesAt (Blames setting ⟨depth + 1, .test e, s⟩) (test setting (depth + 1) e) s := by
  have htoken : Blames setting ⟨depth + 1, .test e, s⟩ e.span := blames_own e.token_mem_anchors
  simp only [test]
  refine PlacesAt.bind ((ih.eval e s).lift .tested fun t ht => ht) fun v t _ => ?_
  refine PlacesAt.bind (placesAt_cast v _ htoken) fun b u _ => ?_
  split
  · exact placesAt_pure _
  · exact placesAt_pure _

theorem places_resolve (target : Expr) (s : State) :
    PlacesAt (Blames setting ⟨depth + 1, .target target, s⟩) (resolve setting (depth + 1) target) s := by
  have htoken : Blames setting ⟨depth + 1, .target target, s⟩ target.span := blames_own target.token_mem_anchors
  cases target with
  | symbol token name =>
    simp only [resolve]
    refine PlacesAt.bind (placesAt_of_ok rfl) fun v t _ => ?_
    split_ifs
    · exact placesAt_pure _
    · exact placesAt_fail htoken
  | member token owner name =>
    simp only [resolve]
    exact (ih.resolve owner s).lift .targetMember fun t ht => by simpa [Task.anchors, Expr.anchors] using .inr (.inr ht)
  | index token owner place =>
    have howner : owner.anchors ⊆ (Expr.index token owner place).anchors := fun t ht => by simp [Expr.anchors, ht]
    have hplace : place.anchors ⊆ (Expr.index token owner place).anchors := fun t ht => by simp [Expr.anchors, ht]
    simp only [resolve]
    refine PlacesAt.bind ((ih.eval owner s).lift .targetOwner howner) fun v t hv => ?_
    split
    · refine PlacesAt.bind ((ih.eval place t).lift (.targetPlace hv) hplace) fun i u _ => ?_
      exact placesAt_growSlot _ i (blames_own (hplace place.token_mem_anchors))
    · exact placesAt_fail (blames_own (howner owner.token_mem_anchors))
  | _ =>
    simp only [resolve]
    exact placesAt_fail htoken

theorem places_call (decl : Function) (arguments : List Val) (dynamic : Bool) (s : State) :
    PlacesAt (Blames setting ⟨depth + 1, .call decl arguments dynamic, s⟩)
      (callFunction setting (depth + 1) decl arguments dynamic) s := by
  simp only [callFunction]
  refine placesAt_blamed (placesAt_inCall (placesAt_inFrame ?_)) (blames_own decl.token_mem_anchors)
  exact (places_sequence ih decl.body _).lift .body decl.body_anchors

/-- the arguments of a call, cast to the types of the parameters, each in the state where those before it have ended -/
theorem places_arguments {token : Token} {callee : Expr} {arguments : List Expr} {owner : Nat} {decl : Function} {s t : State}
    (hcallee : eval setting depth callee s = (.ok (.fn owner decl), t)) (hlength : arguments.length = decl.params.length) :
    PlacesAt (Blames setting ⟨depth + 1, .expr (.call token callee arguments), s⟩)
      (castAll (eval setting depth) arguments decl.params) t := by
  refine placesAt_mapM fun n pair values u hpair hbefore => ?_
  obtain ⟨e, p⟩ := pair
  obtain ⟨he, -⟩ := List.getElem?_zip_eq_some.1 hpair
  have hanchors : e.anchors ⊆ (Expr.call token callee arguments).anchors := fun a ha =>
    List.mem_cons_of_mem _ (List.mem_append_right _ (Expr.anchors_of_mem (List.mem_of_getElem? he) ha))
  rw [List.zip_eq_zipWith, List.take_zipWith, ← List.zip_eq_zipWith] at hbefore
  refine PlacesAt.bind ((ih.eval e u).lift (.argument hcallee hlength he hbefore) hanchors) fun v t' _ => ?_
  exact placesAt_cast v _ (blames_own (hanchors e.token_mem_anchors))

theorem places_eval (hs : setting.RaisesUnplaced) (e : Expr) (s : State) :
    PlacesAt (Blames setting ⟨depth + 1, .expr e, s⟩) (eval setting (depth + 1) e) s := by
  have htoken : Blames setting ⟨depth + 1, .expr e, s⟩ e.token.span := blames_own e.token_mem_anchors
  cases e with
  | int token n | float token x =>
    simp only [eval]
    exact placesAt_pure _
  | string token text =>
    simp only [eval]
    exact placesAt_of_ok rfl
  | symbol token name =>
    simp only [eval]
    refine PlacesAt.bind (placesAt_of_ok rfl) fun v t _ => ?_
    split
    · exact placesAt_pure _
    · exact placesAt_fail htoken
  | binary token left op right =>
    have hleft : left.anchors ⊆ (Expr.binary token left op right).anchors := fun t ht => by simp [Expr.anchors, ht]
    have hright : right.anchors ⊆ (Expr.binary token left op right).anchors := fun t ht => by simp [Expr.anchors, ht]
    simp only [eval]
    refine PlacesAt.bind ((ih.eval left s).lift .left hleft) fun a t ha => ?_
    refine PlacesAt.bind ((ih.eval right t).lift (.right ha) hright) fun b u _ => ?_
    exact placesAt_apply op a b htoken
  | assign token target value =>
    have htarget : target.anchors ⊆ (Expr.assign token target value).anchors := fun t ht => by simp [Expr.anchors, ht]
    have hvalue : value.anchors ⊆ (Expr.assign token target value).anchors := fun t ht => by simp [Expr.anchors, ht]
    simp only [eval]
    refine PlacesAt.bind ((ih.eval value s).lift .value hvalue) fun v t hv => ?_
    refine PlacesAt.bind ((ih.resolve target t).lift (.target hv) htarget) fun slot u _ => ?_
    exact placesAt_store target slot v (blames_own (hvalue value.token_mem_anchors)) fun a ha => blames_own (htarget ha)
  | call token callee arguments =>
    have hcallee : callee.anchors ⊆ (Expr.call token callee arguments).anchors := fun t ht => by simp [Expr.anchors, ht]
    simp only [eval]
    refine PlacesAt.bind ((ih.eval callee s).lift .callee hcallee) fun v t hv => ?_
    split
    · rename_i owner decl
      split_ifs with hlength
      · exact placesAt_fail htoken
      · rw [not_not] at hlength
        refine PlacesAt.bind (places_arguments ih hv hlength) fun values u hvalues => ?_
        exact Placed.mono (ih.call decl values setting.dynamic u) fun _ hblames =>
          hblames.called (.function hv hlength hvalues)
    · rename_i f
      refine PlacesAt.bind (placesAt_mapM fun n e values u he hbefore => ?_) fun values u _ => ?_
      · refine (ih.eval e u).lift (.nativeArgument hv he hbefore) fun a ha => ?_
        exact List.mem_cons_of_mem _ (List.mem_append_right _ (Expr.anchors_of_mem (List.mem_of_getElem? he) ha))
      · exact placesAt_callNative hs depth f values htoken u
    · exact placesAt_fail htoken
  | member token target name =>
    have htarget : target.anchors ⊆ (Expr.member token target name).anchors := fun t ht => by simp [Expr.anchors, ht]
    simp only [eval]
    refine PlacesAt.bind ((ih.eval target s).lift .memberOwner htarget) fun v t _ => ?_
    exact placesAt_readMember v name (blames_own (by simp [Task.anchors, Expr.anchors])) htoken
  | index token target place =>
    have htarget : target.anchors ⊆ (Expr.index token target place).anchors := fun t ht => by simp [Expr.anchors, ht]
    have hplace : place.anchors ⊆ (Expr.index token target place).anchors := fun t ht => by simp [Expr.anchors, ht]
    simp only [eval]
    refine PlacesAt.bind ((ih.eval target s).lift .itemOwner htarget) fun v t hv => ?_
    split
    · refine PlacesAt.bind ((ih.eval place t).lift (.itemPlace hv) hplace) fun i u _ => ?_
      exact placesAt_readItem _ i (blames_own (hplace place.token_mem_anchors))
    · exact placesAt_fail (blames_own (htarget target.token_mem_anchors))
  | list token elements =>
    simp only [eval]
    refine PlacesAt.bind (placesAt_mapM fun n e values t he hbefore => ?_) fun vs t _ => ?_
    · refine (ih.eval e t).lift (.element he hbefore) fun a ha => ?_
      exact List.mem_cons_of_mem _ (Expr.anchors_of_mem (List.mem_of_getElem? he) ha)
    · exact placesAt_of_ok rfl
  | cast token ty operand =>
    simp only [eval]
    have hoperand : operand.anchors ⊆ (Expr.cast token ty operand).anchors := fun t ht => by simp [Expr.anchors, ht]
    refine PlacesAt.bind ((ih.eval operand s).lift .casted hoperand) fun v t _ => ?_
    exact placesAt_cast v _ htoken

theorem places_exec (stmt : Stmt) (s : State) :
    PlacesAt (Blames setting ⟨depth + 1, .stmt stmt, s⟩) (exec setting (depth + 1) stmt) s := by
  have htoken : Blames setting ⟨depth + 1, .stmt stmt, s⟩ stmt.token.span := blames_own stmt.token_mem_anchors
  cases stmt with
  | expr token e =>
    simp only [exec]
    exact ((ih.eval e s).lift (.operand (by simp [Stmt.operands])) fun a ha => by
      simp only [Task.anchors] at ha ⊢
      simp [Stmt.anchors, ha]).discard
  | var token ty names start =>
    rcases names with _ | ⟨name, _ | ⟨second, more⟩⟩
    · simp only [exec]
      exact placesAt_fail htoken
    · have hname : Blames setting ⟨depth + 1, .stmt (.var token ty [name] start), s⟩ name.span :=
        blames_own (by simp [Task.anchors, Stmt.anchors])
      simp only [exec]
      cases start with
      | none => exact PlacesAt.bind (placesAt_newDefault ty) fun v t _ => placesAt_declare _ v hname
      | some e =>
        have he : e.anchors ⊆ (Stmt.var token ty [name] (some e)).anchors := fun a ha => by simp [Stmt.anchors, ha]
        refine PlacesAt.bind ((ih.eval e s).lift (.operand (by simp [Stmt.operands])) he) fun v t _ => ?_
        refine PlacesAt.bind (placesAt_cast v _ (blames_own (he e.token_mem_anchors))) fun w u _ => ?_
        exact placesAt_declare _ w hname
    · simp only [exec]
      exact placesAt_fail htoken
  | fn decl =>
    simp only [exec]
    exact placesAt_declare _ _ htoken
  | branch token arms otherwise =>
    rw [exec_branch]
    exact (places_arms ih otherwise arms s).lift .branch fun a ha => by
      simp only [Task.anchors, Stmt.anchors] at ha ⊢
      exact List.mem_cons_of_mem _ ha
  | loop token counter start condition increment body =>
    have hstart : start.anchors ⊆ (Stmt.loop token counter start condition increment body).anchors := fun a ha => by
      simp [Stmt.anchors, ha]
    rw [exec_loop]
    refine placesAt_inFrame (PlacesAt.bind ?_ fun _ t hrun => ?_)
    · refine PlacesAt.bind ((ih.eval start _).lift .start hstart) fun v t _ => ?_
      cases counter with
      | none => exact placesAt_pure ()
      | some p =>
        have hname : p.name ∈ (Stmt.loop token (some p) start condition increment body).anchors := by simp [Stmt.anchors]
        refine PlacesAt.bind (placesAt_cast v _ (blames_own (hstart start.token_mem_anchors)))
          fun w u _ => ?_
        exact placesAt_declare _ w (blames_own hname)
    · refine (places_rounds ih condition increment body setting.repetitions t).lift (.rounds hrun) fun a ha => ?_
      simp only [Task.anchors, Stmt.anchors, List.mem_append, List.mem_cons] at ha ⊢
      tauto
  | ret token e =>
    simp only [exec]
    refine PlacesAt.bind ((ih.eval e s).lift (.operand (by simp [Stmt.operands])) fun a ha => by
      simp only [Task.anchors] at ha ⊢
      simp [Stmt.anchors, ha]) fun v t _ => placesAt_of_ok rfl
  | block token body =>
    simp only [exec]
    refine placesAt_inFrame ((places_sequence ih body _).lift .block fun a ha => ?_)
    exact List.mem_cons_of_mem _ ha

end Within

/-- a run of any depth places its faults, by induction on the depth -/
theorem placesWithin {setting : Setting} (hs : setting.RaisesUnplaced) (depth : Nat) : PlacesWithin setting depth := by
  induction depth with
  | zero =>
    have hdeep {α : Type} {B : Span → Prop} {s : State} : PlacesAt B (throw (.host .tooDeep) : Eval α) s :=
      placesAt_host _
    exact ⟨fun _ _ => hdeep, fun _ _ => hdeep, fun _ _ => hdeep, fun _ _ => hdeep, fun _ _ _ _ => hdeep⟩
  | succ depth ih =>
    exact ⟨places_exec ih, places_test ih, places_eval ih hs, places_resolve ih, places_call ih⟩

/-- a statement at the top level that is nested too deeply is blamed itself -/
theorem places_execTop {setting : Setting} (hs : setting.RaisesUnplaced) (stmt : Stmt) (s : State) :
    PlacesAt (Blames setting ⟨setting.evaluation, .stmt stmt, s⟩) (execTop setting stmt) s := by
  refine PlacesAt.bind (placesAt_blamed ((placesWithin hs setting.evaluation).exec stmt s) ?_) fun _ _ _ => ?_
  · exact blames_own stmt.token_mem_anchors
  · exact placesAt_of_ok rfl

/-- **Every fault of a run has a place in the script.** A fault that a statement ends in, inside of a script or at its
top level, points at a token that the statement keeps or that a function keeps which it came to call. If a call of a
native function ends in a fault behind its arguments, that fault points at the call. -/
theorem faults_have_places {setting : Setting} (hs : setting.RaisesUnplaced) :
    (∀ depth stmt s f t, exec setting depth stmt s = (.error (.fault f), t) →
      ∃ span, f.span = some span ∧ Blames setting ⟨depth, .stmt stmt, s⟩ span) ∧
    (∀ stmt s f t, execTop setting stmt s = (.error (.fault f), t) →
      ∃ span, f.span = some span ∧ Blames setting ⟨setting.evaluation, .stmt stmt, s⟩ span) ∧
    ∀ depth token callee arguments native values s t u f w, eval setting depth callee s = (.ok (.native native), t) →
      arguments.mapM (eval setting depth) t = (.ok values, u) →
      eval setting (depth + 1) (.call token callee arguments) s = (.error (.fault f), w) → f.span = some token.span := by
  refine ⟨?_, ?_, ?_⟩
  · intro depth stmt s f t hrun
    have hplaced := (placesWithin hs depth).exec stmt s
    rw [PlacesAt, hrun] at hplaced
    exact hplaced.span_of_fault
  · intro stmt s f t hrun
    have hplaced := places_execTop hs stmt s
    rw [PlacesAt, hrun] at hplaced
    exact hplaced.span_of_fault
  · intro depth token callee arguments native values s t u f w hcallee hvalues hrun
    have hplaced := placesAt_callNative (B := (· = token.span)) hs depth native values rfl u
    simp only [eval] at hrun
    rw [run_bind_ok hcallee] at hrun
    dsimp only at hrun
    rw [run_bind_ok hvalues] at hrun
    rw [PlacesAt, hrun] at hplaced
    obtain ⟨span, hspan, rfl⟩ := hplaced.span_of_fault
    exact hspan

/-- a function of the host raises a fault that knows no place; its call in a script gives it one -/
theorem faults_have_places_raised :
    let setting : Setting := { host := fun _ _ _ => throw (.unplaced (.raised "E900" "no")) }
    let token : Token := ⟨.symbol "f", "f", ⟨⟨1, 1, 0⟩, ⟨1, 2, 1⟩, none⟩⟩
    let stmt : Stmt := .expr token (.call token (.symbol token "f") [])
    let s : State := ({} : State).install "f" (.host 0 "f")
    setting.RaisesUnplaced ∧ ∃ f t, execTop setting stmt s = (.error (.fault f), t) ∧ f.span = some token.span ∧
      Blames setting ⟨setting.evaluation, .stmt stmt, s⟩ token.span := by
  intro setting token stmt s
  have hraises : setting.RaisesUnplaced := fun _ _ _ _ => unplaced_cause _
  obtain ⟨-, htop, -⟩ := faults_have_places hraises
  have hrun : execTop setting stmt s = (.error (.fault ⟨.raised "E900" "no", some token.span⟩), s) := rfl
  obtain ⟨span, hspan, hblames⟩ := htop stmt s _ s hrun
  cases hspan
  exact ⟨hraises, _, s, hrun, rfl, hblames⟩

end LevelScript
