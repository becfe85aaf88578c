/-
Running a generator with named arguments.

Two checks stand in front of the body of a generator. Binding looks the parameters up by the name of the function, through
all frames, and the arguments by the names of the parameters; the call from the host finds the function in the globals and
compares values and parameters by their places. At rest both see the same declaration, so whatever has been bound passes
the second check as well, and what is told is the end of the body (`binding_agrees_with_host_call`). Arguments that cannot
be bound reach nothing but the last error and the log.
-/
import LevelScript.Generator.Run
import LevelScript.Proofs.HostCalls
import LevelScript.Proofs.NamedArguments

namespace LevelScript

open LevelScript.Syntax LevelScript.Generator Eval

/-- at rest a name is looked up in the globals -/
theorem Script.get?_at_rest {s : Script} {env : Env} (henv : s.env = some env) (hrest : env.locals = []) (name : String) :
    s.get? name = env.globals.get? name := by
  simp [Script.get?, henv, Env.lookup?, hrest]

theorem Script.generatorParams_of_get? {s : Script} {function : String} {owner : Nat} {decl : Function}
    (h : s.get? function = some (.fn owner decl)) : s.generatorParams function = parametersOf decl.params := by
  rw [Script.generatorParams, Script.params, h]

namespace Workspace

variable {w : Workspace} {number : Nat} {env : Env} {function : String} {owner : Nat} {decl : Function}

/-- how the body of a function ends that the host runs in a script with values for its parameters: in a frame of their
own above the globals, with the last error forgotten and one unit of depth spent -/
def bodyRun (w : Workspace) (number : Nat) (env : Env) (decl : Function) (values : List Val) :
    Except Interrupt Val × State :=
  callFunction (w.setting number) (w.platform.evaluation - 1) decl values false
    { w.callState number env with lastError := none }

/-- values that suit a function of a script at rest get through to its body -/
theorem call_tells_bodyRun (hl : (w.script number).loaded = true) (henv : (w.script number).env = some env)
    (hrest : env.locals = []) (hname : (w.script number).get? function = some (.fn owner decl)) {values : List Val}
    (hsuits : Suits values decl.params) :
    Tells (w.call number function values) number (w.bodyRun number env decl values) := by
  have hglobal : (w.callState number env).env.globals.get? function = some (.fn owner decl) :=
    (Script.get?_at_rest henv hrest function).symm.trans hname
  have hcalled : w.called number function values env =
      settled (w.setting number).line? (w.bodyRun number env decl values) := by
    obtain ⟨below, hbelow⟩ := Nat.exists_eq_add_of_le' w.platform.enters
    rw [called, bodyRun, hbelow]
    exact callByName_suits hglobal hsuits
  exact tells_of_settled hl henv (d := (w.bodyRun number env decl values).2.lastError)
    (o := (w.bodyRun number env decl values).2.owned) hcalled

/-- the answer to a call that does not reach the script: its cause comes back as an error value and is kept as the last
error of the script. The log may grow; nothing else of any script or of the workspace changes. -/
structure Refuses (w : Workspace) (number : Nat) (cause : Cause) (answer : Except HostError Val × Workspace) : Prop where
  value : answer.1 = .ok (.error cause.message)
  space : ∃ log, answer.2 =
    { w.modifyScript number fun s => { s with lastError := some (Fault.mk cause none).diagnostic } with log := log }

theorem generate_bound {arguments : List Argument} {values : List Val}
    (h : Generator.bind ((w.script number).generatorParams function) arguments = .ok values) :
    w.generate number arguments function = w.call number function values := by
  rw [generate, h]

theorem generate_refuses {arguments : List Argument} {cause : Cause}
    (h : Generator.bind ((w.script number).generatorParams function) arguments = .error cause) :
    Refuses w number cause (w.generate number arguments function) := by
  rw [generate, h]
  exact ⟨rfl, _, rfl⟩

/-- a run looks only at the last argument of each parameter's name -/
theorem generate_congr {arguments others : List Argument}
    (h : ∀ p ∈ (w.script number).generatorParams function,
      Generator.find? others p.name = Generator.find? arguments p.name) :
    w.generate number others function = w.generate number arguments function := by
  simp only [generate, Generator.bind_congr h]

/-- **Binding and the call from the host agree.** Let a name stand for a function in a loaded script at rest, and let named
arguments be given. If they can be bound to the parameters, then the values pass the check of the call from the host, and
the run answers with the end of the body. If they cannot, the body is not run: the cause is answered and kept as the last
error, and nothing else changes but the log. Arguments with different names have the same outcome in any order. -/
theorem binding_agrees_with_host_call (hl : (w.script number).loaded = true) (henv : (w.script number).env = some env)
    (hrest : env.locals = []) (hname : (w.script number).get? function = some (.fn owner decl))
    (arguments : List Argument) :
    let bound := Generator.bind ((w.script number).generatorParams function) arguments
    let answer := w.generate number arguments function
    (∀ values, bound = .ok values → hostCallCause? function decl.params values = none ∧
        answer = w.call number function values ∧ Tells answer number (w.bodyRun number env decl values)) ∧
      (∀ cause, bound = .error cause → Refuses w number cause answer) ∧
      ((names arguments).Nodup → ∀ others, arguments.Perm others → w.generate number others function = answer) := by
  intro bound answer
  refine ⟨fun values hbound => ?_, fun cause hbound => generate_refuses hbound, fun hnodup others hperm => ?_⟩
  · have hanswer : answer = w.call number function values := generate_bound hbound
    have hsuits : Suits values decl.params := by
      have hparams : Generator.bind (parametersOf decl.params) arguments = .ok values := by
        rw [← Script.generatorParams_of_get? hname]
        exact hbound
      exact suits_of_bind hparams
    refine ⟨hostCallCause_of_suits hsuits function, hanswer, ?_⟩
    rw [hanswer]
    exact call_tells_bodyRun hl henv hrest hname hsuits
  · exact generate_congr fun p _ => find?_perm hnodup hperm p.name

/-- two parameters of one name get one value; an argument of another type than its parameter is refused -/
theorem binding_agrees_with_host_call_repeated :
    let word (name : String) : Token := { (default : Token) with kind := .symbol name }
    let f := Function.mk default .int (word "f") [⟨.int, word "a"⟩, ⟨.bool, word "b"⟩, ⟨.int, word "a"⟩] default
      [.ret default (.symbol (word "a") "a")]
    let env : Env := ⟨⟨"global", [("f", .fn 0 f)]⟩, []⟩
    let w : Workspace := { scripts := #[{ path := "level", source := "", env := some env, loaded := true }],
                           registered := [0] }
    let fitting : List Argument := [⟨"b", .bool true⟩, ⟨"unknown", .void⟩, ⟨"a", .int 7⟩]
    let values : List Val := [.int 7, .bool true, .int 7]
    (hostCallCause? "f" f.params values = none ∧ (w.generate 0 fitting "f").1 = .ok (.int 7) ∧
        w.generate 0 fitting.reverse "f" = w.generate 0 fitting "f") ∧
      Refuses w 0 (.argumentType "a" .int .bool) (w.generate 0 [⟨"a", .int 7⟩, ⟨"a", .bool true⟩] "f") := by
  intro word f env w fitting values
  have hagrees (arguments : List Argument) :=
    binding_agrees_with_host_call (rfl : (w.script 0).loaded = true) (rfl : (w.script 0).env = some env) rfl
      (rfl : (w.script 0).get? "f" = some (.fn 0 f)) arguments
  obtain ⟨hchecks, -, htells⟩ := (hagrees fitting).1 values rfl
  refine ⟨⟨hchecks, htells.value (.int 7) rfl, (hagrees fitting).2.2 (by decide) _ fitting.reverse_perm.symm⟩, ?_⟩
  exact (hagrees _).2.1 _ rfl

end Workspace

end LevelScript
