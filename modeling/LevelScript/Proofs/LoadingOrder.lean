/-
Loading reads and runs one statement after the other, and does what running a parsed text does.

The reference parses the whole text first, as a check of the text without running it does: `Eval.inOrder` then runs the
statements that were read, each of them with no return statement under way, up to the first one that fails.
`loading_in_order`: if the text can be parsed, loading does this and succeeds; if it cannot, loading does this with the
statements in front of the refused token and then fails as parsing does; a text that cannot be scanned runs nothing. If
a statement fails, that is how loading fails.

The run lemma is `runTokens_inOrder`: reading and running in turn is parsing and then running, by induction on the
statements.
-/
import LevelScript.Proofs.Hosting

namespace LevelScript

open LevelScript.Syntax Eval

/-! ## The reference -/

/-- run a statement at the top level; running out of depth is a fault of the statement -/
def Eval.attempt (setting : Setting) (stmt : Stmt) : Eval Unit :=
  tryCatch (exec setting setting.evaluation stmt) fun e => match e with
    | .host .tooDeep => fail .nestingTooDeep stmt.span
    | e => throw e

/-- run statements in order, each of them with no return statement under way, up to the first one that fails -/
def Eval.inOrder (setting : Setting) : List Stmt → Eval Unit
  | [] => pure ()
  | stmt :: rest => do
    clearReturn
    attempt setting stmt
    inOrder setting rest

/-! ## Reading and running in turn -/

/-- the state with no return statement under way -/
def State.clear (s : State) : State := { s with returning := none }

theorem State.clear_of_none {s : State} (h : s.returning = none) : s.clear = s := by
  cases s
  cases h
  rfl

theorem run_inOrder_cons (setting : Setting) (stmt : Stmt) (rest : List Stmt) (s : State) :
    inOrder setting (stmt :: rest) s = (attempt setting stmt >>= fun _ => inOrder setting rest) s.clear :=
  run_bind_ok rfl _

/-- a return statement that is under way at the start makes no difference, since it is forgotten first -/
theorem inOrder_clear {setting : Setting} {stmts : List Stmt} {s t : State} :
    (inOrder setting stmts s = (.ok (), t) → ∃ u, inOrder setting stmts s.clear = (.ok (), u) ∧ u.clear = t.clear) ∧
      ∀ e, inOrder setting stmts s = (.error e, t) → inOrder setting stmts s.clear = (.error e, t) := by
  cases stmts with
  | nil =>
    refine ⟨fun h => ?_, fun e h => ?_⟩
    · cases h
      exact ⟨s.clear, rfl, rfl⟩
    · cases h
  | cons stmt rest =>
    rw [run_inOrder_cons, run_inOrder_cons]
    exact ⟨fun h => ⟨t, h, rfl⟩, fun e h => h⟩

/-- loading has run the statements in order up to the first one that fails; if none does, it ends with the given fault or
without one -/
structure RanInOrder (setting : Setting) (stmts : List Stmt) (fault : Option LoadFault) (s : State) (l : Loading) :
    Prop where
  ended : ∀ t, inOrder setting stmts s = (.ok (), t) → l = ⟨stmts, fault, t.clear⟩
  failed : ∀ e t, inOrder setting stmts s = (.error e, t) → ∃ done, l = ⟨done, some (.interrupt e), t⟩

section RanInOrder

variable {setting : Setting} {stmt : Stmt} {stmts : List Stmt} {fault : Option LoadFault} {s t : State} {l : Loading}

theorem RanInOrder.nil (hs : s.returning = none) : RanInOrder setting [] fault s ⟨[], fault, s⟩ where
  ended t h := by
    cases h
    rw [State.clear_of_none hs]
  failed e t h := by cases h

theorem RanInOrder.stopped {e : Interrupt} (hs : s.returning = none) (h : attempt setting stmt s = (.error e, t)) :
    RanInOrder setting (stmt :: stmts) fault s ⟨[stmt], some (.interrupt e), t⟩ := by
  have hrun : inOrder setting (stmt :: stmts) s = (.error e, t) := by
    rw [run_inOrder_cons, State.clear_of_none hs, run_bind_error h]
  refine ⟨fun u hu => ?_, fun e' u hu => ?_⟩
  · rw [hrun] at hu
    cases hu
  · rw [hrun] at hu
    cases hu
    exact ⟨[stmt], rfl⟩

theorem RanInOrder.step (hs : s.returning = none) (h : attempt setting stmt s = (.ok (), t))
    (hl : RanInOrder setting stmts fault t.clear l) :
    RanInOrder setting (stmt :: stmts) fault s { l with statements := stmt :: l.statements } := by
  have hrun : inOrder setting (stmt :: stmts) s = inOrder setting stmts t := by
    rw [run_inOrder_cons, State.clear_of_none hs, run_bind_ok h]
  refine ⟨fun u hu => ?_, fun e u hu => ?_⟩
  · rw [hrun] at hu
    obtain ⟨u', hu', hclear⟩ := inOrder_clear.1 hu
    rw [hl.ended u' hu', hclear]
  · rw [hrun] at hu
    obtain ⟨done, rfl⟩ := hl.failed e u (inOrder_clear.2 e hu)
    exact ⟨stmt :: done, rfl⟩

end RanInOrder

/-- **Reading and running in turn is parsing and then running.** -/
theorem runTokens_inOrder (setting : Setting) (bound : Nat) (tokens : List Token) {s : State} (hs : s.returning = none) :
    RanInOrder setting (parseUpTo setting.depths bound tokens).statements
      ((parseUpTo setting.depths bound tokens).refusal.map .refusal) s (runTokens setting bound tokens s) := by
  induction bound generalizing tokens s with
  | zero => exact .nil hs
  | succ bound ih =>
    unfold parseUpTo runTokens
    split_ifs with hended
    · exact .nil hs
    · rcases parseStatement setting.depths tokens with refusal | ⟨stmt, rest⟩
      · exact .nil hs
      · dsimp only
        rcases hrun : attempt setting stmt s with ⟨e | _, t⟩
        · have htop : execTop setting stmt s = (.error e, t) := run_bind_error hrun _
          rw [htop]
          exact .stopped hs hrun
        · have htop : execTop setting stmt s = (.ok (), t.clear) := run_bind_ok hrun _
          rw [htop]
          exact .step hs hrun (ih rest rfl)

/-! ## Loading -/

/-- what a statement fails with is never reported as an error of scanning or of parsing -/
theorem LoadFault.stage_interrupt {e : Interrupt} {source : String} {error : ScriptError}
    (h : (LoadFault.interrupt e).failure source = .script error) : error.stage = .running := by
  cases e with
  | fault f =>
    cases h
    rfl
  | host e => cases h

section Reading

variable {source path : String} {tokens : List Token} {depths : Depths}

theorem statementsOf_scan {fault : ScanFault} (h : tokenize source (some path) = .error fault) :
    statementsOf source (some path) depths = .error ((LoadFault.scan fault).failure source) := by
  rw [statementsOf, h]
  rfl

theorem statementsOf_parse (h : tokenize source (some path) = .ok tokens) :
    statementsOf source (some path) depths =
      (parse tokens depths).mapError fun refusal => (LoadFault.refusal refusal).failure source := by
  rw [statementsOf, h]
  rfl

/-- the tokens of a text whose statements can be read -/
theorem tokens_of_statementsOf {stmts : List Stmt} (h : statementsOf source (some path) depths = .ok stmts) :
    ∃ tokens, tokenize source (some path) = .ok tokens ∧ parsePrefix tokens depths = ⟨stmts, none⟩ := by
  rcases htokens : tokenize source (some path) with fault | tokens
  · rw [statementsOf_scan htokens] at h
    cases h
  · rw [statementsOf_parse htokens] at h
    refine ⟨tokens, rfl, ?_⟩
    unfold parse at h
    rcases hread : parsePrefix tokens depths with ⟨read, _ | refusal⟩
    · rw [hread] at h
      cases h
      rfl
    · rw [hread] at h
      cases h

theorem refusal_of_parse {refusal : Refusal} (h : parse tokens depths = .error refusal) :
    (parsePrefix tokens depths).refusal = some refusal := by
  unfold parse at h
  rcases hread : parsePrefix tokens depths with ⟨read, _ | other⟩
  · rw [hread] at h
    cases h
  · rw [hread] at h
    cases h
    rfl

end Reading

namespace Workspace

variable (w : Workspace) (path source : String) (dynamic : Bool)

/-- a load that fails reports why, keeps what has been printed, and empties the lists that the script has made -/
theorem load_failed {fault : LoadFault} (h : (w.loading path source dynamic).2.fault = some fault) :
    (w.load path source dynamic).1 = .error (fault.failure source) ∧
      (w.load path source dynamic).2.output = (w.loading path source dynamic).2.state.output ∧
      (w.load path source dynamic).2.heap = (w.loading path source dynamic).2.state.heap.empty
        (w.loading path source dynamic).2.state.owned.lists.toList := by
  rw [load_eq, h]
  refine ⟨rfl, output_unload _ _, ?_⟩
  rw [heap_unload, script_note, script_ran, if_pos rfl]
  rfl

/-- a load that succeeds leaves everything as the run of the statements did -/
theorem load_succeeded (h : (w.loading path source dynamic).2.fault = none) :
    (w.load path source dynamic).1 = .ok w.scripts.size ∧
      (w.load path source dynamic).2.output = (w.loading path source dynamic).2.state.output ∧
      (w.load path source dynamic).2.heap = (w.loading path source dynamic).2.state.heap ∧
      (w.load path source dynamic).2.script w.scripts.size =
        { w.ranScript path source dynamic with loaded := true } := by
  have hscript := script_load w path source dynamic w.scripts.size
  rw [if_pos rfl, h] at hscript
  refine ⟨?_, ?_, ?_, hscript⟩ <;> rw [load_eq, h] <;> rfl

variable {path source}

/-- a text that can be scanned is read and run statement by statement -/
theorem loading_tokens {tokens : List Token} (h : tokenize source (some path) = .ok tokens) :
    (w.loading path source dynamic).2 =
      runTokens ((w.opened path source dynamic).setting w.scripts.size) tokens.length tokens
        (w.loadState path source dynamic) := by
  simp only [loading, runSource, h]
  rfl

/-- a text that cannot be scanned runs nothing -/
theorem loading_scan {fault : ScanFault} (h : tokenize source (some path) = .error fault) :
    w.loading path source dynamic = ([], ⟨[], some (.scan fault), { heap := w.heap, output := w.output }⟩) := by
  simp only [loading, runSource, h, opened, heap_register, output_register]

/-- loading a text that can be scanned runs the statements that can be read in order -/
theorem ran_in_order {tokens : List Token} (h : tokenize source (some path) = .ok tokens) :
    RanInOrder ((w.opened path source dynamic).setting w.scripts.size)
      (parsePrefix tokens w.platform.depths).statements
      ((parsePrefix tokens w.platform.depths).refusal.map .refusal) (w.loadState path source dynamic)
      (w.loading path source dynamic).2 := by
  rw [loading_tokens w dynamic h]
  have hdepths : ((w.opened path source dynamic).setting w.scripts.size).depths = w.platform.depths :=
    congrArg Platform.depths (w.platform_opened path source dynamic)
  rw [← hdepths]
  exact runTokens_inOrder _ _ _ rfl

/-- the statements fail: so does the load, with the same error and the same output -/
theorem load_interrupted {tokens : List Token} {e : Interrupt} {t : State}
    (h : tokenize source (some path) = .ok tokens)
    (hrun : inOrder ((w.opened path source dynamic).setting w.scripts.size)
      (parsePrefix tokens w.platform.depths).statements (w.loadState path source dynamic) = (.error e, t)) :
    (w.load path source dynamic).1 = .error ((LoadFault.interrupt e).failure source) ∧
      (w.load path source dynamic).2.output = t.output := by
  obtain ⟨done, hdone⟩ := (ran_in_order w dynamic h).failed e t hrun
  have hload := load_failed w path source dynamic (by rw [hdone])
  rw [hdone] at hload
  exact ⟨hload.1, hload.2.1⟩

/-- the statements of a text without a refused token come to their end: the script is left as they leave it, with no
return statement under way -/
theorem load_completed {tokens : List Token} {stmts : List Stmt} {t : State}
    (h : tokenize source (some path) = .ok tokens)
    (hread : parsePrefix tokens w.platform.depths = ⟨stmts, none⟩)
    (hrun : inOrder ((w.opened path source dynamic).setting w.scripts.size) stmts (w.loadState path source dynamic) =
      (.ok (), t)) :
    let after := (w.load path source dynamic).2
    let script := after.script w.scripts.size
    (w.load path source dynamic).1 = .ok w.scripts.size ∧ after.output = t.output ∧ after.heap = t.heap ∧
      script.env = some t.env ∧ script.owned = t.owned ∧ script.returning = none ∧
      script.statements = stmts ∧ script.loaded = true := by
  intro after script
  have hran := ran_in_order w dynamic h
  rw [hread] at hran
  have hended := hran.ended t hrun
  have hnone : (w.loading path source dynamic).2.fault = none := by rw [hended, Option.map_none]
  obtain ⟨hanswer, houtput, hheap, hscript⟩ := load_succeeded w path source dynamic hnone
  have hrecord : script = { w.ranScript path source dynamic with loaded := true } := hscript
  rw [hended] at houtput hheap
  refine ⟨hanswer, houtput, hheap, ?_⟩
  rw [hrecord]
  simp only [ranScript, hended, State.clear, and_self]

/-- the statements in front of a refused token come to their end: the load fails with the refusal -/
theorem load_refused {tokens : List Token} {refusal : Refusal} {t : State}
    (h : tokenize source (some path) = .ok tokens)
    (hrefusal : (parsePrefix tokens w.platform.depths).refusal = some refusal)
    (hrun : inOrder ((w.opened path source dynamic).setting w.scripts.size)
      (parsePrefix tokens w.platform.depths).statements (w.loadState path source dynamic) = (.ok (), t)) :
    (w.load path source dynamic).1 = .error ((LoadFault.refusal refusal).failure source) ∧
      (w.load path source dynamic).2.output = t.output := by
  have hended := (ran_in_order w dynamic h).ended t hrun
  rw [hrefusal] at hended
  have hload := load_failed w path source dynamic (by rw [hended, Option.map_some])
  rw [hended] at hload
  exact ⟨hload.1, hload.2.1⟩

/-- **Loading is parsing and then running in order.** A text that can be parsed: loading it runs its statements one after
the other, and ends with their first error or as they do, never with an error of scanning or parsing. A text with a
token that is refused: loading it runs the statements in front of the token in the same way, and then fails as parsing
does. A text that cannot be scanned: loading it runs nothing and fails as scanning does. -/
theorem loading_in_order (w : Workspace) (path source : String) (dynamic : Bool) :
    let setting := (w.opened path source dynamic).setting w.scripts.size
    let start := w.loadState path source dynamic
    let answer := (w.load path source dynamic).1
    let after := (w.load path source dynamic).2
    let script := after.script w.scripts.size
    (∀ stmts, statementsOf source (some path) w.platform.depths = .ok stmts →
      (∀ t, inOrder setting stmts start = (.ok (), t) →
        answer = .ok w.scripts.size ∧ after.output = t.output ∧ after.heap = t.heap ∧ script.env = some t.env ∧
          script.owned = t.owned ∧ script.returning = none ∧ script.statements = stmts ∧ script.loaded = true) ∧
      (∀ e t, inOrder setting stmts start = (.error e, t) →
        answer = .error ((LoadFault.interrupt e).failure source) ∧ after.output = t.output) ∧
      ∀ error, answer = .error (.script error) → error.stage = .running) ∧
    (∀ tokens refusal, tokenize source (some path) = .ok tokens → parse tokens w.platform.depths = .error refusal →
      let stmts := (parsePrefix tokens w.platform.depths).statements
      let failure := (LoadFault.refusal refusal).failure source
      statementsOf source (some path) w.platform.depths = .error failure ∧
      (∀ t, inOrder setting stmts start = (.ok (), t) → answer = .error failure ∧ after.output = t.output) ∧
      ∀ e t, inOrder setting stmts start = (.error e, t) →
        answer = .error ((LoadFault.interrupt e).failure source) ∧ after.output = t.output) ∧
    ∀ fault, tokenize source (some path) = .error fault →
      let failure := (LoadFault.scan fault).failure source
      statementsOf source (some path) w.platform.depths = .error failure ∧ answer = .error failure ∧
        after.output = w.output ∧ after.heap = w.heap := by
  intro setting start answer after script
  refine ⟨fun stmts hread => ?parsed, fun tokens refusal htokens hrefused => ?refused, fun fault hscan => ?unscanned⟩
  case parsed =>
    obtain ⟨tokens, htokens, hstmts⟩ := tokens_of_statementsOf hread
    have hfails (e : Interrupt) (t : State) (hrun : inOrder setting stmts start = (.error e, t)) :
        answer = .error ((LoadFault.interrupt e).failure source) ∧ after.output = t.output :=
      load_interrupted w dynamic htokens (by rwa [hstmts])
    have hends (t : State) := load_completed w dynamic htokens hstmts (t := t)
    refine ⟨hends, hfails, fun error herror => ?_⟩
    rcases hrun : inOrder setting stmts start with ⟨e | _, t⟩
    · exact LoadFault.stage_interrupt (Except.error.inj ((hfails e t hrun).1.symm.trans herror))
    · cases (hends t hrun).1.symm.trans herror
  case refused =>
    intro stmts failure
    have hread : statementsOf source (some path) w.platform.depths = .error failure := by
      rw [statementsOf_parse htokens, hrefused]
      rfl
    exact ⟨hread, fun t hrun => load_refused w dynamic htokens (refusal_of_parse hrefused) hrun,
      fun e t hrun => load_interrupted w dynamic htokens hrun⟩
  case unscanned =>
    intro failure
    have hloading := loading_scan w dynamic hscan
    obtain ⟨hanswer, houtput, hheap⟩ := load_failed w path source dynamic (by rw [hloading])
    rw [hloading] at houtput hheap
    exact ⟨statementsOf_scan hscan, hanswer, houtput, hheap⟩

/-- a return statement ends nothing but itself, and what stands before the refused token has been printed -/
theorem loading_in_order_refused :
    let start : Workspace := {}
    let source := "print(1); return 2; print(3); x = ; print(4);"
    ∃ tokens refusal, tokenize source (some "level") = .ok tokens ∧ parse tokens = .error refusal ∧
      (start.load "level" source).1 = .error ((LoadFault.refusal refusal).failure source) ∧
      (start.load "level" source).2.output = #[(0, "1\n"), (0, "3\n")] := by
  intro start source
  let setting := (start.opened "level" source false).setting 0
  let outcome (tokens : List Token) :=
    let run := inOrder setting (parsePrefix tokens).statements (start.loadState "level" source false)
    ((parse tokens).toBool, run.1.toBool, run.2.output)
  have houtcome : (tokenize source (some "level")).toOption.map outcome =
      some (false, true, #[(0, "1\n"), (0, "3\n")]) := by decide +kernel
  rcases htokens : tokenize source (some "level") with fault | tokens
  · rw [htokens] at houtcome
    cases houtcome
  · rw [htokens] at houtcome
    have hfacts : outcome tokens = (false, true, #[(0, "1\n"), (0, "3\n")]) := Option.some.inj houtcome
    rcases hparse : parse tokens with refusal | stmts
    · refine ⟨tokens, refusal, rfl, hparse, ?_⟩
      obtain ⟨-, hrefused, -⟩ := loading_in_order start "level" source false
      obtain ⟨-, hends, -⟩ := hrefused tokens refusal htokens hparse
      rcases hrun : inOrder setting (parsePrefix tokens).statements (start.loadState "level" source false) with ⟨e | _, t⟩
      · simp [outcome, hrun, Except.toBool] at hfacts
      · have houtput : t.output = #[(0, "1\n"), (0, "3\n")] := by
          simpa [outcome, hrun, hparse, Except.toBool] using hfacts
        rw [← houtput]
        exact hends t hrun
    · simp [outcome, hparse, Except.toBool] at hfacts

end Workspace

end LevelScript
