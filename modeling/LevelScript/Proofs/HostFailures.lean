/-
The failures of the machinery that a script lets out.

A fault of a script comes back as a value, and a native function turns the failures of its own into faults. What is left
are the failures that the evaluator raises itself: a whole number beyond the range of floating-point numbers where one is
converted, a whole number too long for a message, a loop that does not end, and a default value of a type that no script
can write. A lack of depth becomes a fault at the call or at the statement that ran out of it.

`Eval.FailsOnly P m`: a failure of the machinery that ends the computation `m` satisfies `P`. Faults are not restricted.
-/
import LevelScript.Proofs.Congruence
import LevelScript.Proofs.Hosting
import LevelScript.Proofs.ValueFailures

namespace LevelScript

open LevelScript.Syntax

/-! ## Results -/

/-- the result is not a failure of the machinery, or one that satisfies `P` -/
inductive Admits {α : Type} (P : HostError → Prop) : Except Interrupt α → Prop where
  | ok (a : α) : Admits P (.ok a)
  | fault (f : Fault) : Admits P (.error (.fault f))
  | host {e : HostError} (h : P e) : Admits P (.error (.host e))

namespace Admits

variable {α β : Type} {P : HostError → Prop} {r : Except Interrupt α}

theorem mono {Q : HostError → Prop} (h : Admits P r) (hPQ : ∀ {e}, P e → Q e) : Admits Q r := by
  cases h with
  | ok a => exact .ok a
  | fault f => exact .fault f
  | host he => exact .host (hPQ he)

theorem map (h : Admits P r) (f : α → β) : Admits P (f <$> r) := by
  cases h with
  | ok a => exact .ok (f a)
  | fault fault => exact .fault fault
  | host he => exact .host he

end Admits

/-! ## Computations -/

namespace Eval

variable {α β : Type} {P Q : HostError → Prop}

/-- a failure of the machinery that ends the computation satisfies `P` -/
def FailsOnly (P : HostError → Prop) (m : Eval α) : Prop := ∀ s, Admits P (m s).1

theorem failsOnly_of_ok {m : Eval α} (h : ∀ s, ∃ a, (m s).1 = .ok a) : FailsOnly P m := fun s => by
  obtain ⟨a, ha⟩ := h s
  rw [ha]
  exact .ok a

theorem failsOnly_pure (a : α) : FailsOnly P (pure a : Eval α) := failsOnly_of_ok fun _ => ⟨a, rfl⟩

theorem failsOnly_get : FailsOnly P (get : Eval State) := failsOnly_of_ok fun s => ⟨s, rfl⟩

theorem failsOnly_fault (f : Fault) : FailsOnly P (throw (.fault f) : Eval α) := fun _ => .fault f

theorem failsOnly_fail (cause : Cause) (span : Span) : FailsOnly P (fail cause span : Eval α) := fun _ => .fault _

theorem failsOnly_host {e : HostError} (h : P e) : FailsOnly P (throw (.host e) : Eval α) := fun _ => .host h

theorem failsOnly_ofExcept {r : Except Interrupt α} (h : Admits P r) : FailsOnly P (ofExcept r) := fun _ => h

theorem FailsOnly.mono {m : Eval α} (h : FailsOnly P m) (hPQ : ∀ {e}, P e → Q e) : FailsOnly Q m :=
  fun s => (h s).mono hPQ

theorem FailsOnly.bind {m : Eval α} {f : α → Eval β} (hm : FailsOnly P m) (hf : ∀ a, FailsOnly P (f a)) :
    FailsOnly P (m >>= f) := by
  intro s
  have h := hm s
  rcases hs : m s with ⟨e | a, t⟩
  · rw [run_bind_error hs]
    rw [hs] at h
    cases h with
    | fault f => exact .fault f
    | host he => exact .host he
  · rw [run_bind_ok hs]
    exact hf a t

/-- a handler restricts the failures anew: it has to deal with all faults, and with the failures let through so far -/
theorem FailsOnly.tryCatch {m : Eval α} {handler : Interrupt → Eval α} (hm : FailsOnly P m)
    (hfault : ∀ f, FailsOnly Q (handler (.fault f))) (hhost : ∀ e, P e → FailsOnly Q (handler (.host e))) :
    FailsOnly Q (tryCatch m handler) := by
  intro s
  have h := hm s
  rcases hs : m s with ⟨e | a, t⟩
  · rw [run_catch_error hs]
    rw [hs] at h
    cases h with
    | fault f => exact hfault f t
    | host he => exact hhost _ he t
  · rw [run_catch_ok hs]
    exact .ok a

theorem failsOnly_inFrame {body : Eval α} (h : FailsOnly P body) (name : String) : FailsOnly P (inFrame name body) :=
  fun s => h { s with env := s.env.push ⟨name, []⟩ }

theorem failsOnly_inCall {body : Eval Unit} (h : FailsOnly P body) (arguments : Frame) (dynamic : Bool) :
    FailsOnly P (inCall arguments dynamic body) :=
  fun s => (h { s with env := s.env.enter arguments dynamic }).map _

end Eval

open Eval

/-! ## The failures that get out -/

/-- the failures that no handler of the evaluator turns into a fault -/
inductive Escaping : HostError → Prop where
  /-- a whole number beyond the range of floating-point numbers is converted to one -/
  | intTooLarge : Escaping .intTooLarge
  /-- an index with too many digits for a message -/
  | tooManyDigits : Escaping .tooManyDigits
  /-- a loop without an end -/
  | endless : Escaping .endless
  /-- a declaration with a type that has no name in the language -/
  | noDefault {t : Ty} (h : t ∉ Ty.declarable) : Escaping (noDefault t)

/-- the failures inside a run, where the depth may run out as well -/
inductive Pending : HostError → Prop where
  | tooDeep : Pending .tooDeep
  | escaping {e : HostError} (h : Escaping e) : Pending e

/-- where a lack of depth becomes a fault, no failure is pending any longer -/
theorem failsOnly_blamed {α : Type} {m : Eval α} (h : FailsOnly Pending m) (cause : Cause) (span : Span) :
    FailsOnly Escaping (tryCatch m fun e => match e with
      | .host .tooDeep => Eval.fail cause span
      | e => throw e) := by
  refine h.tryCatch (fun f => failsOnly_fault f) fun e he => ?_
  cases he with
  | tooDeep => exact failsOnly_fail cause span
  | escaping he =>
    split
    · exact failsOnly_fail cause span
    · exact failsOnly_host he

/-- a cast or an operator fails in a pending way -/
theorem FailsAt.admits {α : Type} {span : Option Span} {r : Except Interrupt α} (h : FailsAt span r) :
    Admits Pending r := by
  cases h with
  | ok a => exact .ok a
  | intTooLarge => exact .host (.escaping .intTooLarge)
  | fault cause => exact .fault _

/-! ## The single steps -/

theorem failsOnly_declare (name : String) (v : Val) (span : Span) :
    FailsOnly Pending (Eval.declare name v span) := by
  intro s
  unfold Eval.declare
  split
  · exact .ok _
  · exact .fault _

theorem failsOnly_newDefault (t : Ty) : FailsOnly Pending (newDefault t) := by
  intro s
  cases t with
  | fn | nativeFn | error => exact .host (.escaping (.noDefault (by decide)))
  | _ => exact .ok _

theorem Eval.Step.failsOnly {α : Type} {c : Eval α} (h : Step c) : FailsOnly Pending c := by
  cases h with
  | pure a => exact failsOnly_pure a
  | fail cause span => exact failsOnly_fail cause span
  | endless => exact failsOnly_host (.escaping .endless)
  | tooManyDigits => exact failsOnly_host (.escaping .tooManyDigits)
  | declare name v span => exact failsOnly_declare name v span
  | newDefault type => exact failsOnly_newDefault type
  | cast v type span => exact failsOnly_ofExcept (v.failsAt_cast type span).admits
  | apply op a b span => exact failsOnly_ofExcept (op.failsAt_apply a b span).admits
  | isReturning | startReturn | lookup | assign | items | modifyList | newString | newList =>
    exact failsOnly_of_ok fun _ => ⟨_, rfl⟩

/-- whatever ends a native function, its call ends in a fault, for lack of depth or in an endless loop -/
theorem failsOnly_callNative (setting : Setting) (depth : Nat) (callBack : String → List Val → Eval Val) (f : Native)
    (arguments : List Val) (span : Span) :
    FailsOnly Pending (callNative setting depth callBack f arguments span) := by
  have hany {α : Type} (m : Eval α) : FailsOnly (fun _ => True) m := fun s => by
    rcases (m s).1 with (f | e) | a
    · exact .fault f
    · exact .host trivial
    · exact .ok a
  refine FailsOnly.bind ((hany _).tryCatch (fun fault => failsOnly_fault _) fun e _ => ?_) fun reply => ?_
  · unfold nativeInterrupt
    split
    · exact failsOnly_fault _
    · exact failsOnly_host .tooDeep
    · exact failsOnly_host (.escaping .endless)
    · exact failsOnly_fault _
  · unfold acceptReply
    split
    · exact failsOnly_fail _ _
    · exact failsOnly_pure _
    · exact failsOnly_fail _ _

/-! ## Runs -/

/-- whatever the evaluator does with a depth to spend fails only in pending ways -/
structure RunsWithin (setting : Setting) (depth : Nat) : Prop where
  exec : ∀ stmt, FailsOnly Pending (exec setting depth stmt)
  test : ∀ e, FailsOnly Pending (test setting depth e)
  eval : ∀ e, FailsOnly Pending (eval setting depth e)
  resolve : ∀ target, FailsOnly Pending (resolve setting depth target)
  call : ∀ decl arguments dynamic, FailsOnly Pending (callFunction setting depth decl arguments dynamic)

/-- failing only in pending ways, as a congruence that does not look at the second computation -/
def failingWithin (setting : Setting) : Congruence setting where
  Rel c _ := FailsOnly Pending c
  step h := h.failsOnly
  bind := FailsOnly.bind
  inFrame := failsOnly_inFrame
  inCall := failsOnly_inCall
  blamed h _ span := (failsOnly_blamed h _ span).mono .escaping
  native _ callBack _ f arguments span := failsOnly_callNative setting _ callBack f arguments span
  tooDeep _ := failsOnly_host .tooDeep

/-- a run of any depth fails only in pending ways -/
theorem runsWithin (setting : Setting) (depth : Nat) : RunsWithin setting depth :=
  have h := (failingWithin setting).run (le_refl depth)
  ⟨h.exec, h.test, h.eval, h.resolve, h.call⟩

/-! ## Calls from the host and statements at the top level -/

/-- a call by name, before its faults become values -/
def calling (setting : Setting) (depth : Nat) (name : String) (arguments : List Val) : Eval Val := do
  match (← get).env.globals.get? name with
  | some (.fn _ decl) =>
    match hostCallCause? name decl.params arguments with
    | some cause => throw (.unplaced cause)
    | none =>
      tryCatch (callFunction setting depth decl arguments false) fun e => match e with
        | .host .tooDeep => Eval.fail .nestingTooDeep decl.span
        | e => throw e
  | _ => throw (.unplaced (.unknownFunction name))

theorem failsOnly_calling (setting : Setting) (depth : Nat) (name : String) (arguments : List Val) :
    FailsOnly Escaping (calling setting depth name arguments) := by
  refine failsOnly_get.bind fun s => ?_
  split
  · split
    · exact failsOnly_fault _
    · exact failsOnly_blamed ((runsWithin setting depth).call _ _ _) _ _
  · exact failsOnly_fault _

/-- what a call by name makes of the end of the work behind it: a fault comes back as a value that tells what is wrong,
and the diagnostic is kept; a failure of the machinery stays one -/
def settled (line? : Nat → Option String) : Except Interrupt Val × State → Except Interrupt Val × State
  | (.ok v, t) => (.ok v, t)
  | (.error (.fault f), t) =>
    (.ok (.error f.cause.message), { t with lastError := some (f.diagnostic.quoting line?) })
  | (.error (.host e), t) => (.error (.host e), t)

theorem callByName_settles (setting : Setting) (depth : Nat) (name : String) (arguments : List Val) (s : State) :
    callByName setting (depth + 1) name arguments s =
      settled setting.line? (calling setting depth name arguments { s with lastError := none }) := by
  rw [callByName]
  change tryCatch (calling setting depth name arguments) _ { s with lastError := none } = _
  rcases hs : calling setting depth name arguments { s with lastError := none } with ⟨(f | e) | v, t⟩
  · exact run_catch_error hs _
  · exact run_catch_error hs _
  · exact run_catch_ok hs _

theorem failsOnly_callByName (setting : Setting) {depth : Nat} (hdepth : 0 < depth) (name : String)
    (arguments : List Val) : FailsOnly Escaping (callByName setting depth name arguments) := by
  obtain ⟨depth, rfl⟩ := Nat.exists_eq_succ_of_ne_zero hdepth.ne'
  intro s
  rw [callByName_settles]
  have h := failsOnly_calling setting depth name arguments { s with lastError := none }
  rcases hs : calling setting depth name arguments { s with lastError := none } with ⟨(f | e) | v, t⟩
  · exact .ok _
  · rw [hs] at h
    exact h
  · exact .ok v

theorem failsOnly_execTop (setting : Setting) (stmt : Stmt) : FailsOnly Escaping (execTop setting stmt) :=
  (failsOnly_blamed ((runsWithin setting _).exec stmt) _ _).bind fun _ => failsOnly_of_ok fun _ => ⟨(), rfl⟩

/-- of the faults of loading, a number in the text and a failure of a statement are failures of the machinery -/
theorem LoadFault.host_of_failure {fault : LoadFault} {source : String} {e : HostError}
    (h : fault.failure source = .host e) :
    (fault = .scan .numberTooLarge ∧ e = .intTooLarge) ∨ fault = .interrupt (.host e) := by
  cases fault with
  | scan scan =>
    cases scan with
    | unknownCharacter c span => cases h
    | numberTooLarge =>
      cases h
      exact .inl ⟨rfl, rfl⟩
  | refusal refusal => cases h
  | interrupt i =>
    cases i with
    | fault f => cases h
    | host e' =>
      cases h
      exact .inr rfl

theorem escaping_of_runTokens {setting : Setting} {bound : Nat} {tokens : List Token} {s : State} {e : HostError}
    (h : (runTokens setting bound tokens s).fault = some (.interrupt (.host e))) : Escaping e := by
  induction bound generalizing tokens s with
  | zero => cases h
  | succ bound ih =>
    unfold runTokens at h
    split_ifs at h
    rcases hstmt : parseStatement setting.depths tokens with refusal | ⟨stmt, rest⟩
    · rw [hstmt] at h
      cases h
    · have hadmits := failsOnly_execTop setting stmt s
      rw [hstmt] at h
      dsimp only at h
      rcases hrun : execTop setting stmt s with ⟨i | _, t⟩
      · rw [hrun] at h hadmits
        cases h
        cases hadmits with
        | host he => exact he
      · rw [hrun] at h
        exact ih h

namespace Workspace

theorem escaping_of_call {w : Workspace} {number : Nat} {name : String} {arguments : List Val} {e : HostError}
    (h : (w.call number name arguments).1 = .error e) : Escaping e := by
  rcases w.callable_or_not number with ⟨env, hl, henv⟩ | hl
  · have hadmits : Admits Escaping (w.called number name arguments env).1 :=
      failsOnly_callByName _ w.platform.evaluation_pos name arguments _
    rw [call_result hl henv] at h
    generalize (w.called number name arguments env).1 = result at h hadmits
    cases hadmits with
    | ok v => cases h
    | fault f => cases h
    | host he =>
      cases h
      exact he
  · unfold call at h
    dsimp only at h
    split at h
    · simp_all
    · cases h

theorem escaping_of_load {w : Workspace} {path source : String} {dynamic : Bool} {e : HostError}
    (h : (w.load path source dynamic).1 = .error (.host e)) : Escaping e := by
  rw [load_eq] at h
  rcases hfault : (w.loading path source dynamic).2.fault with _ | fault
  · rw [hfault] at h
    cases h
  · rw [hfault] at h
    rcases LoadFault.host_of_failure (Except.error.inj h) with ⟨-, rfl⟩ | rfl
    · exact .intTooLarge
    · rw [loading, runSource] at hfault
      split at hfault
      · cases hfault
      · exact escaping_of_runTokens hfault

/-- **Only four kinds of failure get out of a script.** A call from the host gives a value or ends in an escaping failure,
for any function, any arguments and any functions of the host. Loading a text gives a script, a script error or an
escaping failure. -/
theorem escaping_failures (w : Workspace) :
    (∀ number name arguments, (∃ v, (w.call number name arguments).1 = .ok v) ∨
      ∃ e, Escaping e ∧ (w.call number name arguments).1 = .error e) ∧
    (∀ path source dynamic, (∃ number, (w.load path source dynamic).1 = .ok number) ∨
      (∃ e, (w.load path source dynamic).1 = .error (.script e)) ∨
      ∃ e, Escaping e ∧ (w.load path source dynamic).1 = .error (.host e)) := by
  refine ⟨fun number name arguments => ?_, fun path source dynamic => ?_⟩
  · rcases h : (w.call number name arguments).1 with e | v
    · exact .inr ⟨e, escaping_of_call h, rfl⟩
    · exact .inl ⟨v, rfl⟩
  · rcases h : (w.load path source dynamic).1 with (e | e) | number
    · exact .inr (.inl ⟨e, rfl⟩)
    · exact .inr (.inr ⟨e, escaping_of_load h, rfl⟩)
    · exact .inl ⟨number, rfl⟩

/-- a function casts an argument beyond the range of floating-point numbers, and a text squares 2 ten times before it
stores the result in a variable of type `float` -/
theorem int_too_large_escapes :
    let source := "float f(int x) { return (float)x; }"
    let squares := "int n = 2; for (int i = 0; i < 10; i = i + 1) { n = n * n; } float x = n;"
    (({} : Workspace).load "level" source).1 = .ok 0 ∧
      ((({} : Workspace).load "level" source).2.call 0 "f" [.int (10 ^ 400)]).1 = .error .intTooLarge ∧
      (({} : Workspace).load "level" squares).1 = .error (.host .intTooLarge) := by
  intro source squares
  have hcall : ((({} : Workspace).load "level" source).2.call 0 "f" [.int (10 ^ 400)]).1.map (fun _ => ()) =
      .error .intTooLarge := by decide +kernel
  refine ⟨by decide +kernel, ?_, by decide +kernel⟩
  rcases h : ((({} : Workspace).load "level" source).2.call 0 "f" [.int (10 ^ 400)]).1 with e | v
  · rw [h] at hcall
    exact congrArg _ (Except.error.inj hcall)
  · rw [h] at hcall
    cases hcall

end Workspace

end LevelScript
