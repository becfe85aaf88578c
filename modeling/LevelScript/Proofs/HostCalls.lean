/-
A call from the host is a call from the script.

The host calls a function by its name with values of exactly the declared types; it finds the function in the globals,
and runs its body lexically. A script evaluates the callee and the arguments, casts them, and calls in its own way. At
rest, where the globals are the only frame, both come to the same end: `host_call_is_script_call`.

On the way the two differ in what they record. The call from the host forgets the last error first, and arguments that
the script evaluates may add to the strings that it owns. `Eval.Unaware`: a computation does the same whatever stands in
these records, which holds of all runs unless a function of the host looks at them.
-/
import Mathlib
import LevelScript.Proofs.CallIsolation
import LevelScript.Proofs.HostFailures
import LevelScript.Proofs.Judgement
import LevelScript.Proofs.StackDiscipline
import LevelScript.Proofs.TypedFrames

namespace LevelScript

open LevelScript.Syntax Eval

/-! ## What runs do not look at -/

namespace Eval

variable {α β : Type}

/-- the computation does the same whatever the last error is and whatever the script is recorded to own -/
def Unaware (c : Eval α) : Prop :=
  ∀ s d o, ∃ d' o', c (s.recording d o) = ((c s).1, (c s).2.recording d' o')

theorem Unaware.bind {c : Eval α} {f : α → Eval β} (hc : Unaware c) (hf : ∀ s a, (c s).1 = .ok a → Unaware (f a)) :
    Unaware (c >>= f) := by
  intro s d o
  obtain ⟨d', o', hd⟩ := hc s d o
  rcases hrun : c s with ⟨e | a, t⟩ <;> rw [hrun] at hd
  · rw [run_bind_error hrun, run_bind_error hd]
    exact ⟨d', o', rfl⟩
  · rw [run_bind_ok hrun, run_bind_ok hd]
    exact hf s a (by rw [hrun]) t d' o'

theorem Unaware.tryCatch {c : Eval α} {f : Interrupt → Eval α} (hc : Unaware c) (hf : ∀ e, Unaware (f e)) :
    Unaware (tryCatch c f) := by
  intro s d o
  obtain ⟨d', o', hd⟩ := hc s d o
  rcases hrun : c s with ⟨e | a, t⟩ <;> rw [hrun] at hd
  · rw [run_catch_error hrun, run_catch_error hd]
    exact hf e t d' o'
  · rw [run_catch_ok hrun, run_catch_ok hd]
    exact ⟨d', o', rfl⟩

theorem Unaware.inFrame {body : Eval α} (h : Unaware body) (name : String) : Unaware (inFrame name body) := by
  intro s d o
  obtain ⟨d', o', hd⟩ := h { s with env := s.env.push ⟨name, []⟩ } d o
  refine ⟨d', o', ?_⟩
  have hinner : { s.recording d o with env := (s.recording d o).env.push ⟨name, []⟩ } =
      State.recording { s with env := s.env.push ⟨name, []⟩ } d o := rfl
  simp only [Eval.inFrame, hinner, hd]
  rfl

theorem Unaware.inCall {body : Eval Unit} (h : Unaware body) (arguments : Frame) (dynamic : Bool) :
    Unaware (inCall arguments dynamic body) := by
  intro s d o
  obtain ⟨d', o', hd⟩ := h { s with env := s.env.enter arguments dynamic } d o
  refine ⟨d', o', ?_⟩
  have hinner : { s.recording d o with env := (s.recording d o).env.enter arguments dynamic } =
      State.recording { s with env := s.env.enter arguments dynamic } d o := rfl
  simp only [Eval.inCall, hinner, hd]
  rfl

end Eval

/-- a function of the host that does not look at the last error or at what the script owns -/
def HostFunction.Unaware (f : HostFunction) : Prop :=
  ∀ callBack, (∀ name arguments, Eval.Unaware (callBack name arguments)) → ∀ arguments, Eval.Unaware (f callBack arguments)

def Setting.Unaware (setting : Setting) : Prop := ∀ number, (setting.host number).Unaware

/-- doing the same whatever is recorded, as a judgement that allows all values -/
def unawareness {setting : Setting} (hs : setting.Unaware) : Judgement Unit setting where
  Admits _ _ := True
  Holds _ P c := Unaware c ∧ ∀ s a, (c s).1 = .ok a → P () a
  mono h _ := h
  plain _ := trivial
  pure h := ⟨fun _ d o => ⟨d, o, rfl⟩, fun s a ha => by cases ha; exact h () le_rfl⟩
  throw e := ⟨fun _ d o => ⟨d, o, rfl⟩, fun _ _ => nofun⟩
  bind hc hf := by
    refine ⟨hc.1.bind fun s a ha => (hf () a le_rfl (hc.2 s a ha)).1, fun s b hb => ?_⟩
    obtain ⟨a, t, hs, ha⟩ := bind_eq_ok (Prod.ext hb rfl)
    exact (hf () a le_rfl (hc.2 s a (by rw [hs]))).2 t b (by rw [ha])
  tryCatch {α w P c f} hc hf := by
    refine ⟨hc.1.tryCatch fun e => (hf e).1, fun s a ha => ?_⟩
    rcases hrun : c s with ⟨e | b, t⟩
    · rw [run_catch_error hrun] at ha
      exact (hf e).2 t a ha
    · rw [run_catch_ok hrun] at ha
      exact hc.2 s a (by rw [hrun, ha])
  look hsame h := by
    refine ⟨fun s d o => ?_, fun s a ha => (h s).2 s a ha⟩
    obtain ⟨d', o', hd⟩ := (h s).1 s d o
    exact ⟨d', o', (congrFun (hsame s d o) _).trans hd⟩
  lookup _ := ⟨fun _ d o => ⟨d, o, rfl⟩, fun _ _ _ _ _ => trivial⟩
  items _ := ⟨fun _ d o => ⟨d, o, rfl⟩, fun _ _ _ _ _ => trivial⟩
  isReturning := ⟨fun _ d o => ⟨d, o, rfl⟩, fun _ _ _ => trivial⟩
  declare {_ v} _ name span := by
    refine ⟨fun s d o => ?_, fun _ _ _ => trivial⟩
    unfold Eval.declare State.recording
    rcases s.env.declare? name v with _ | env
    · exact ⟨d, o, rfl⟩
    · exact ⟨d, o, rfl⟩
  assign _ _ := ⟨fun _ d o => ⟨d, o, rfl⟩, fun _ _ _ => trivial⟩
  newList _ := ⟨fun _ d _ => ⟨d, _, rfl⟩, fun _ _ _ => trivial⟩
  newString _ := ⟨fun _ d _ => ⟨d, _, rfl⟩, fun _ _ _ => trivial⟩
  modifyList _ _ := ⟨fun _ d o => ⟨d, o, rfl⟩, fun _ _ _ => trivial⟩
  startReturn _ := ⟨fun _ d o => ⟨d, o, rfl⟩, fun _ _ _ => trivial⟩
  write _ _ := ⟨fun _ d o => ⟨d, o, rfl⟩, fun _ _ _ => trivial⟩
  clearReturn := ⟨fun _ d o => ⟨d, o, rfl⟩, fun _ _ _ => trivial⟩
  setLastError d := ⟨fun _ _ o => ⟨d, o, rfl⟩, fun _ _ _ => trivial⟩
  inFrame h name := ⟨h.1.inFrame name, fun _ a ha => h.2 _ a ha⟩
  inCall _ h _ dynamic := ⟨h.1.inCall _ dynamic, fun _ _ _ => trivial⟩
  host hcall number _ arguments _ :=
    ⟨hs number _ (fun name arguments => (hcall name () arguments fun _ _ => trivial).1) arguments,
      fun _ _ _ _ _ _ => trivial⟩

/-! ## Calls at rest -/

section Calls

variable {setting : Setting} {m : Manners} {s : State} {decl : Function} {values : List Val}

theorem hostCallCause_of_suits (h : Suits values decl.params) (name : String) :
    hostCallCause? name decl.params values = none := by
  unfold hostCallCause?
  rw [if_neg (not_not.2 h.length_eq), List.findSome?_eq_none_iff]
  intro ⟨v, p⟩ hmem
  exact if_pos ((List.forall₂_iff_zip.1 h).2 hmem)

theorem length_of_mapM {α β : Type} {f : α → Eval β} {l : List α} {t : State} {bs : List β}
    (h : l.mapM f s = (.ok bs, t)) : bs.length = l.length := by
  induction l generalizing s bs with
  | nil =>
    cases h
    rfl
  | cons a l ih =>
    rw [List.mapM_cons] at h
    obtain ⟨b, u, -, h⟩ := bind_eq_ok h
    obtain ⟨bs', r, hbs, h⟩ := bind_eq_ok h
    cases h
    exact congrArg (· + 1) (ih hbs)

/-- arguments that have the declared types already are not changed by the casts -/
theorem run_castAll {value : Expr → Eval Val} {arguments : List Expr} {params : List Param} {t : State}
    (h : arguments.mapM value s = (.ok values, t)) (hsuits : Suits values params) :
    castAll value arguments params s = (.ok values, t) := by
  induction arguments generalizing s values params with
  | nil =>
    cases h
    cases hsuits
    rfl
  | cons e arguments ih =>
    rw [List.mapM_cons] at h
    obtain ⟨v, u, hv, h⟩ := bind_eq_ok h
    obtain ⟨vs, r, hvs, h⟩ := bind_eq_ok h
    cases h
    obtain _ | @⟨_, p, _, params, htype, hsuits⟩ := hsuits
    have hcast : v.cast p.type e.span = .ok v := if_pos htype
    rw [castAll, List.zip_cons_cons, List.mapM_cons]
    have hfirst : (value e >>= fun v => Eval.ofExcept (v.cast p.type e.span)) s = (.ok v, u) := by
      rw [run_bind_ok hv, hcast]
      rfl
    rw [run_bind_ok hfirst]
    exact run_bind_ok (ih hvs hsuits) _

/-- where the globals are the only frame, both ways of calling come to the same -/
theorem callFunction_at_rest (hs : setting.Obeys m) (h : s.env.locals = []) (depth : Nat) (decl : Function)
    (values : List Val) (dynamic : Bool) :
    callFunction setting depth decl values dynamic s = callFunction setting depth decl values false s := by
  cases depth with
  | zero => rfl
  | succ depth =>
    simp only [callFunction]
    refine catch_congr_run ?_ _
    cases dynamic with
    | false => rfl
    | true =>
      -- the body leaves one frame above the globals, that of the arguments
      have := (height_evolution m).advances_preorder
      have hrun := (height_evolution m).run hs depth
      have hheight := (height_evolution m).stays_inFrame (keeps_untilReturn hrun.advances decl.body) "block"
        { s with env := s.env.enter (argumentFrame decl values) false }
      have henter : s.env.enter (argumentFrame decl values) true = s.env.enter (argumentFrame decl values) false := by
        simp [Env.enter, Env.push, h]
      unfold Eval.inCall
      rw [henter]
      generalize Eval.inFrame "block" _ _ = ending at hheight ⊢
      obtain ⟨result, t⟩ := ending
      obtain ⟨frame, hframe⟩ : ∃ frame, t.env.locals = [frame] := List.length_eq_one_iff.1 hheight
      have hleave : Env.leave s.env t.env true = Env.leave s.env t.env false := by
        simp [Env.leave, Env.pop, hframe, h]
      simp only [hleave]

/-- a call of a global function with arguments of the declared types is a call of the function with their values -/
theorem eval_call {depth : Nat} {token symbol : Token} {name : String} {arguments : List Expr} {owner : Nat} {t : State}
    (hname : s.env.lookup? name = some (.fn owner decl)) (hsuits : Suits values decl.params)
    (hvalues : arguments.mapM (eval setting (depth + 1)) s = (.ok values, t)) :
    eval setting (depth + 2) (.call token (.symbol symbol name) arguments) s =
      callFunction setting (depth + 1) decl values setting.dynamic t := by
  have hcallee : eval setting (depth + 1) (.symbol symbol name) s = (.ok (.fn owner decl), s) := by
    simp only [eval]
    rw [run_bind_ok (m := lookup? name) (a := some (.fn owner decl)) (t := s) (by rw [lookup?, hname])]
    rfl
  have hlength := (length_of_mapM hvalues).symm.trans hsuits.length_eq
  rw [eval, run_bind_ok hcallee]
  dsimp only
  rw [if_neg (not_not.2 hlength)]
  exact run_bind_ok (run_castAll hvalues hsuits) _

/-- blame for a lack of depth, as an end -/
theorem run_blamed {c : Eval Val} (cause : Cause) (span : Span) (s : State) :
    (tryCatch c (fun e => match e with
      | .host .tooDeep => Eval.fail cause span
      | e => throw e) s).1 ≠ .error (.host .tooDeep) ∧
    ((c s).1 ≠ .error (.host .tooDeep) → tryCatch c (fun e => match e with
      | .host .tooDeep => Eval.fail cause span
      | e => throw e) s = c s) := by
  rcases hc : c s with ⟨e | v, t⟩
  · rw [run_catch_error hc]
    split
    · exact ⟨(fun h => by cases h), fun hne => absurd rfl hne⟩
    · rename_i hne
      exact ⟨fun hdeep => hne (Except.error.inj hdeep), fun _ => rfl⟩
  · rw [run_catch_ok hc]
    exact ⟨(fun h => by cases h), fun _ => rfl⟩

/-- a called function takes the blame itself -/
theorem callFunction_blamed (setting : Setting) (depth : Nat) (decl : Function) (values : List Val) (dynamic : Bool)
    (s : State) :
    (callFunction setting (depth + 1) decl values dynamic s).1 ≠ .error (.host .tooDeep) := by
  simp only [callFunction]
  exact (run_blamed _ _ s).1

theorem settled_state (line? : Nat → Option String) (ending : Except Interrupt Val × State) :
    ∃ d, (settled line? ending).2 = ending.2.recording d ending.2.owned := by
  obtain ⟨(f | e) | v, t⟩ := ending
  · exact ⟨some (f.diagnostic.quoting line?), rfl⟩
  · exact ⟨t.lastError, rfl⟩
  · exact ⟨t.lastError, rfl⟩

theorem callByName_suits {name : String} {owner depth : Nat} (hname : s.env.globals.get? name = some (.fn owner decl))
    (hsuits : Suits values decl.params) :
    callByName setting (depth + 2) name values s =
      settled setting.line? (callFunction setting (depth + 1) decl values false (s.recording none s.owned)) := by
  have hwork : calling setting (depth + 1) name values (s.recording none s.owned) =
      callFunction setting (depth + 1) decl values false (s.recording none s.owned) := by
    have hglobal : (s.recording none s.owned).env.globals.get? name = some (.fn owner decl) := hname
    have hblamed := callFunction_blamed setting depth decl values false (s.recording none s.owned)
    rw [calling, run_bind_ok (m := get) (a := s.recording none s.owned) rfl]
    simp only [hglobal, hostCallCause_of_suits hsuits]
    exact (run_blamed _ _ _).2 hblamed
  rw [callByName_settles, ← hwork]
  rfl

end Calls

/-- more depth to spend changes nothing about the end of the computation -/
def Eval.Unlimited {α : Type} (c : Nat → Eval α) (depth : Nat) (s : State) : Prop :=
  ∀ depth' ≥ depth, c depth' s = c depth s

namespace Workspace

/-- an answer to the host tells the end of an evaluation in a script: a value is given back, a fault comes back as an
error value and its diagnostic is kept, and a failure of the machinery stays one. The names, lists and the output are
those after the evaluation. -/
structure Tells (answer : Except HostError Val × Workspace) (number : Nat) (ending : Except Interrupt Val × State) :
    Prop where
  value : ∀ v, ending.1 = .ok v → answer.1 = .ok v
  fault : ∀ f, ending.1 = .error (.fault f) → answer.1 = .ok (.error f.cause.message) ∧
    (answer.2.script number).lastError = some (f.diagnostic.quoting (Text.line? (answer.2.script number).source))
  failure : ∀ e, ending.1 = .error (.host e) → answer.1 = .error e
  env : (answer.2.script number).env = some ending.2.env
  heap : answer.2.heap = ending.2.heap
  output : answer.2.output = ending.2.output

variable {w : Workspace} {number : Nat} {env : Env}

theorem setting_unaware (h : ∀ f ∈ w.natives, HostFunction.Unaware f) (number : Nat) : (w.setting number).Unaware :=
  setting_host (fun _ _ _ _ d o => ⟨d, o, rfl⟩) h number

/-- a call from the host tells the end of the work behind it -/
theorem tells_of_settled (hl : (w.script number).loaded = true) (henv : (w.script number).env = some env)
    {name : String} {values : List Val} {ending : Except Interrupt Val × State} {d : Option Diagnostic} {o : Owned}
    (h : w.called number name values env = settled (w.setting number).line? (ending.1, ending.2.recording d o)) :
    Tells (w.call number name values) number ending := by
  have hscript := script_call_loaded hl henv name values number
  rw [if_pos rfl, h] at hscript
  have hanswer := call_result hl henv name values
  have hheap := heap_call_loaded hl henv name values
  have houtput := output_call_loaded hl henv name values
  rw [h] at hanswer hheap houtput
  obtain ⟨d', hstate⟩ := settled_state (w.setting number).line? (ending.1, ending.2.recording d o)
  refine ⟨fun v hv => ?_, fun f hf => ?_, fun e he => ?_, ?_, ?_, ?_⟩
  · rw [hanswer, hv]
    rfl
  · rw [hanswer, hscript, hf]
    exact ⟨rfl, rfl⟩
  · rw [hanswer, he]
    rfl
  · rw [hscript, Script.leftIn, hstate]
    rfl
  · rw [hheap, hstate]
    rfl
  · rw [houtput, hstate]
    rfl

/-- **A call from the host is a call from the script.** Let a loaded script be at rest, with a function bound to a global
name and values of exactly its declared types. Let arguments be evaluated to these values with no effect but, perhaps,
on the record of strings that the script owns. Then the host that calls the function by its name with these values is
told what the call with these arguments comes to in the script, be it called lexically or dynamically: the same value,
or a fault with the same message and the same diagnostic, the same globals, lists and output. More depth must make no
difference to the call; with functions of the host that do not call back it makes none unless the call ends at the
limit. The functions of the host are taken not to look at what the script records of itself, which matters only if the
last call has failed or the record of strings has changed. -/
theorem host_call_is_script_call {m : Manners} (hw : w.Obeys m) (hl : (w.script number).loaded = true)
    (henv : (w.script number).env = some env) (hrest : env.locals = []) {name : String} {owner : Nat} {decl : Function}
    (hname : env.globals.get? name = some (.fn owner decl)) {values : List Val} (hsuits : Suits values decl.params)
    {depth : Nat} (hdepth : depth < w.platform.evaluation) {arguments : List Expr} {owned : Owned}
    (hvalues : ∀ depth' ≥ depth, arguments.mapM (eval (w.setting number) depth') (w.callState number env) =
      (.ok values, { w.callState number env with owned }))
    (hquiet : (w.script number).lastError = none ∧ owned = (w.script number).owned ∨
      ∀ f ∈ w.natives, HostFunction.Unaware f)
    (token symbol : Token) :
    let call := Expr.call token (.symbol symbol name) arguments
    let ending := eval (w.setting number) (depth + 1) call (w.callState number env)
    Unlimited (eval (w.setting number) · call) (depth + 1) (w.callState number env) ∨
        ¬ m.calls ∧ ¬ EndsAtLimit ending.1 →
      Tells (w.call number name values) number ending := by
  intro call ending hlimit
  have hsetting := hw.setting number
  let s := w.callState number env
  -- the host enters the function one level below the whole depth
  obtain ⟨below, hbelow⟩ := Nat.exists_eq_add_of_le' w.platform.enters
  let work := callFunction (w.setting number) (below + 1) decl values false
  have hfull : eval (w.setting number) w.platform.evaluation call s = ending := by
    rcases hlimit with hlimit | ⟨hm, hlimit⟩
    · exact hlimit _ hdepth
    · exact (((deeper hm hsetting hdepth).eval call s).resolve_right hlimit).symm
  have hlookup : s.env.lookup? name = some (.fn owner decl) := by
    change env.lookup? name = _
    rw [Env.lookup?, hrest, hname]
    rfl
  have hending : ending = work (s.recording s.lastError owned) := by
    rw [hbelow] at hfull hdepth
    rw [← hfull, eval_call hlookup hsuits (hvalues (below + 1) (Nat.le_of_lt_succ hdepth))]
    exact callFunction_at_rest hsetting hrest _ _ _ _
  have hsame : ∃ d o, work (s.recording none s.owned) = (ending.1, ending.2.recording d o) := by
    rw [hending]
    rcases hquiet with ⟨hnone, howned⟩ | hunaware
    · refine ⟨(work (s.recording none s.owned)).2.lastError, (work (s.recording none s.owned)).2.owned, ?_⟩
      have hstart : s.recording s.lastError owned = s.recording none s.owned := by
        rw [howned, show s.lastError = none from hnone]
        rfl
      rw [hstart]
      rfl
    · have hcall :=
        ((unawareness (setting_unaware hunaware number)).run (below + 1)).call decl values false () fun _ _ => trivial
      exact hcall.1 (s.recording s.lastError owned) none s.owned
  obtain ⟨d, o, hwork⟩ := hsame
  refine tells_of_settled hl henv (d := d) (o := o) ?_
  rw [← hwork, called, hbelow]
  exact callByName_suits hname hsuits

/-- a recursive function of a dynamic script adds up a list, which an item that is no number makes impossible -/
theorem host_call_is_script_call_sum :
    let word (name : String) : Token := { (default : Token) with kind := .symbol name }
    let symbol (name : String) : Expr := .symbol (word name) name
    let one : Expr := .int default 1
    let item : Expr := .index default (symbol "xs") (symbol "n")
    let rest : Expr := .call default (symbol "sum") [symbol "xs", .binary default (symbol "n") .sub one]
    let sum := Function.mk default .int (word "sum") [⟨.list, word "xs"⟩, ⟨.int, word "n"⟩] default
      [.branch default [(.binary default (symbol "n") .lt one, .ret default item)] none,
        .ret default (.binary default item .add rest)]
    let env : Env := ⟨⟨"global", [("sum", .fn 0 sum), ("l", .list 0)]⟩, []⟩
    let w : Workspace := { scripts := #[{ path := "level", source := "", dynamic := true, env := some env, loaded := true }],
                           registered := [0], heap := ⟨#[#[.int 20, .int 3, .bool true]]⟩ }
    let call (n : Nat) : Expr := .call default (symbol "sum") [symbol "l", .int default n]
    let run (n : Nat) := eval (w.setting 0) 40 (call n) (w.callState 0 env)
    ((run 1).1 = .ok (.int 23) ∧ Tells (w.call 0 "sum" [.list 0, .int 1]) 0 (run 1)) ∧
      (run 2).1 = .error (.at (.operandTypes .add .bool .int) default) ∧ Tells (w.call 0 "sum" [.list 0, .int 2]) 0 (run 2) := by
  intro word symbol one item rest sum env w call run
  have hw : w.Obeys ⟨False, True⟩ := fun f hf => absurd hf (by simp [w])
  have hfirst : (run 1).1 = .ok (.int 23) := by rfl
  have hsecond : (run 2).1 = .error (.at (.operandTypes .add .bool .int) default) := by rfl
  have htells (n : Nat) (hlimit : ¬ EndsAtLimit (run n).1) : Tells (w.call 0 "sum" [.list 0, .int n]) 0 (run n) := by
    have hsuits : Suits [.list 0, .int n] sum.params := .cons rfl (.cons rfl .nil)
    have hname : env.globals.get? "sum" = some (.fn 0 sum) := rfl
    have hvalues (depth : Nat) (hdepth : depth ≥ 39) :
        [symbol "l", .int default n].mapM (eval (w.setting 0) depth) (w.callState 0 env) =
          (.ok [.list 0, .int n], { w.callState 0 env with owned := {} }) := by
      obtain ⟨depth, rfl⟩ := Nat.exists_eq_add_of_le' hdepth
      rfl
    have hquiet (f : HostFunction) (hf : f ∈ w.natives) : f.Unaware := absurd hf (by simp [w])
    exact host_call_is_script_call hw rfl rfl rfl hname hsuits (by decide) hvalues (.inr hquiet) _ _
      (.inr ⟨not_false, hlimit⟩)
  refine ⟨⟨hfirst, htells 1 ?_⟩, hsecond, htells 2 ?_⟩
  · rw [hfirst]
    exact fun ⟨_, h, _⟩ => nomatch h
  · rw [hsecond]
    rintro ⟨_, h, hlimit⟩
    cases h
    cases hlimit

end Workspace

end LevelScript
