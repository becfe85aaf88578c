/-
The functions that a script lists.

A function statement binds the name of the function to it, and only a declaration gives a script a new global that holds
a function; its variables have types that a script can name, and functions have none of these. So after a load, and after
calls, a global that holds a function has the name of that function (`Frame.Lists`), as long as no assignment puts
another value into such a global. Then the listing names each function once, and the host that calls a listed function by
its name reaches it (`listing_is_faithful`).
-/
import LevelScript.Proofs.BuiltinGlobals
import LevelScript.Proofs.DeclaredFunctions
import LevelScript.Proofs.GeneratorCalls

namespace LevelScript

open LevelScript.Syntax LevelScript.Generator Eval

/-! ## Globals that hold functions -/

/-- a function is replaced by nothing but itself -/
def KeepsFunctions (_ : String) (old new : Val) : Prop := old.type = .fn → new = old

instance (name : String) : IsPreorder Val (KeepsFunctions name) where
  refl _ _ := rfl
  trans _ _ _ h k hold := by
    obtain rfl := h hold
    exact k hold

/-- names are bound once, and the globals that hold functions have their names -/
structure Frame.Lists (f : Frame) (script : Nat) : Prop where
  nodup : f.names.Nodup
  named : ∀ name v, f.get? name = some v → v.type = .fn → ∃ decl, v = .fn script decl ∧ decl.name = name

theorem lists_builtinFrame (script : Nat) : (builtinFrame script).Lists script where
  nodup := nodup_builtinFrame script
  named name v hv htype := by
    have hmem := Frame.mem_of_get? hv
    rw [bindings_builtinFrame] at hmem
    simp only [builtinBindings, constants, List.mem_append, List.mem_map, List.mem_cons, List.not_mem_nil, or_false,
      Prod.mk.injEq] at hmem
    obtain (⟨-, rfl⟩ | ⟨-, rfl⟩ | ⟨-, rfl⟩) | ⟨b, -, -, rfl⟩ := hmem <;> cases htype

/-! ## Where functions among the globals come from -/

/-- the number of frames is the same, no global is bound twice, and a global that holds a function held one before or
has been declared as one -/
structure Env.FunctionsFrom (declarations : List (String × Ty)) (e f : Env) : Prop where
  height : f.locals.length = e.locals.length
  nodup : e.globals.names.Nodup → f.globals.names.Nodup
  source : ∀ name v, f.globals.get? name = some v → v.type = .fn →
    (∃ u, e.globals.get? name = some u ∧ u.type = .fn) ∨ e.locals = [] ∧ (name, Ty.fn) ∈ declarations

theorem Frame.nodup_set_free {f : Frame} {name : String} (hfree : f.binds name = false) (h : f.names.Nodup) (v : Val) :
    (f.set name v).names.Nodup := by
  rw [names_set, hfree]
  refine List.Nodup.append h (List.nodup_singleton name) fun x hx hname => ?_
  obtain rfl := List.mem_singleton.1 hname
  obtain ⟨b, hb, hname⟩ := List.mem_map.1 hx
  rw [Frame.binds, List.any_eq_false] at hfree
  exact hfree b hb (by simpa using hname)

namespace Env.FunctionsFrom

variable {a b : List (String × Ty)} {e f g : Env}

theorem refl (e : Env) : FunctionsFrom [] e e := ⟨rfl, id, fun _ v hv htype => .inl ⟨v, hv, htype⟩⟩

theorem trans (hef : FunctionsFrom a e f) (hfg : FunctionsFrom b f g) : FunctionsFrom (a ++ b) e g where
  height := hfg.height.trans hef.height
  nodup := hfg.nodup ∘ hef.nodup
  source name v hv htype := by
    rcases hfg.source name v hv htype with ⟨u, hu, hfn⟩ | ⟨hempty, hmem⟩
    · exact (hef.source name u hu hfn).imp id fun ⟨hempty, hmem⟩ => ⟨hempty, List.mem_append_left b hmem⟩
    · refine .inr ⟨List.eq_nil_of_length_eq_zero ?_, List.mem_append_right a hmem⟩
      rw [← hef.height, hempty, List.length_nil]

theorem assign {name : String} {old new : Val} (hold : e.lookup? name = some old) (htype : new.type = old.type) :
    FunctionsFrom [] e (e.assign name new) where
  height := Env.length_assign e name new
  nodup h := by
    rcases Env.assign_cases hold new with ⟨hglobal, hassign⟩ | ⟨inner, f, outer, -, -, hassign⟩
    · rwa [hassign, Frame.names_set, if_pos (Frame.binds_of_get? hglobal)]
    · rwa [hassign]
  source x v hv hfn := by
    have hassigned : e.Assigned (e.assign name new) := .inr ⟨name, old, new, hold, htype, rfl⟩
    left
    rcases hx : e.globals.get? x with _ | u
    · -- only a name with a value gets a new one
      rcases Env.assign_cases hold new with ⟨hglobal, hassign⟩ | ⟨inner, f, outer, -, -, hassign⟩
      · rw [hassign, Frame.get?_set] at hv
        split_ifs at hv with hname
        · subst hname
          rw [hx] at hglobal
          cases hglobal
        · rw [hx] at hv
          cases hv
      · rw [hassign, hx] at hv
        cases hv
    · exact ⟨u, rfl, (hassigned.sameType hx hv).symm.trans hfn⟩

theorem declare {name : String} {v : Val} (h : e.declare? name v = some f) : FunctionsFrom [(name, v.type)] e f := by
  obtain ⟨hfree, rfl⟩ := Env.declare_eq_some h
  unfold Env.current at hfree
  unfold Env.modifyCurrent
  rcases hlocals : e.locals with _ | ⟨top, others⟩ <;> rw [hlocals] at hfree
  · refine ⟨by simp [hlocals], fun hnodup => Frame.nodup_set_free hfree hnodup v, fun x u hu hfn => ?_⟩
    rw [Frame.get?_set] at hu
    split_ifs at hu with hname
    · cases hu
      rw [hname, hfn]
      exact .inr ⟨hlocals, List.mem_singleton.2 rfl⟩
    · exact .inl ⟨u, hu, hfn⟩
  · exact ⟨by simp [hlocals], id, fun x u hu hfn => .inl ⟨u, hu, hfn⟩⟩

/-- nothing is declared in the globals while there is a frame above them -/
theorem above (h : FunctionsFrom a e f) (hlocals : e.locals ≠ []) {before after : Env}
    (hheight : after.locals.length = before.locals.length) (hbefore : before.globals = e.globals)
    (hafter : after.globals = f.globals) : FunctionsFrom [] before after where
  height := hheight
  nodup := by
    rw [hbefore, hafter]
    exact h.nodup
  source name v hv hfn := by
    rw [hafter] at hv
    rw [hbefore]
    exact .inl ((h.source name v hv hfn).resolve_right fun hempty => hlocals hempty.1)

end Env.FunctionsFrom

theorem functionsFrom_evolution (m : Manners) : Evolution m Env.FunctionsFrom where
  same := .refl
  andThen := .trans
  assign := .assign
  declare := .declare
  frame {a e f name} h := by
    have hheight : f.pop.locals.length = e.locals.length := by simp [Env.pop, h.height, Env.push]
    exact h.above (List.cons_ne_nil _ _) hheight rfl rfl
  call {a e f arguments dynamic} h := by
    cases dynamic with
    | true =>
      have hheight : (Env.leave e f true).locals.length = e.locals.length := by
        simp [Env.leave, Env.pop, h.height, Env.enter, Env.push]
      exact h.above (List.cons_ne_nil _ _) hheight rfl rfl
    | false =>
      have hheight : (Env.leave e f false).locals.length = e.locals.length := rfl
      exact h.above (List.cons_ne_nil _ _) hheight rfl rfl
  install _ {e name f} hfree := by
    refine ⟨rfl, fun hnodup => Frame.nodup_set_free hfree hnodup _, fun x v hv hfn => ?_⟩
    rw [Frame.get?_set] at hv
    split_ifs at hv
    · cases hv
      cases hfn
    · exact .inl ⟨v, hv, hfn⟩

/-! ## Declarations at the top -/

theorem mem_of_chosenArm {test : Expr → Eval Bool} {otherwise : Option Stmt} {arms : List (Expr × Stmt)} {s t : State}
    {body : Stmt} (h : chosenArm test otherwise arms s = (.ok (some body), t)) :
    (∃ arm ∈ arms, arm.2 = body) ∨ otherwise = some body := by
  induction arms generalizing s with
  | nil =>
    cases h
    exact .inr rfl
  | cons arm rest ih =>
    obtain ⟨holds, u, -, hrest⟩ := bind_eq_ok h
    cases holds with
    | true =>
      cases hrest
      exact .inl ⟨arm, List.mem_cons_self, rfl⟩
    | false => exact (ih hrest).imp (fun ⟨one, hone, hbody⟩ => ⟨one, List.mem_cons_of_mem arm hone, hbody⟩) id

/-- a statement at the top that declares a function has bound its name to it at its end -/
theorem bound_of_declared {m : Manners} {setting : Setting} (hs : setting.Obeys m) {depth size : Nat} {stmt : Stmt}
    {depths : Depths} (hread : stmt.Readable depths size) {s : State} (hrest : s.env.locals = []) {name : String}
    (h : (name, Ty.fn) ∈ declared setting depth stmt s) :
    ∃ decl, decl.name = name ∧
      (exec setting depth stmt s).2.env.globals.get? name = some (.fn setting.script decl) := by
  induction depth generalizing size stmt s with
  | zero => cases h
  | succ depth ih =>
    cases stmt with
    | var token ty names start =>
      rcases names with _ | ⟨declared, _ | ⟨second, more⟩⟩
      · cases h
      · simp only [LevelScript.declared, bound] at h
        split at h
        · obtain ⟨rfl, rfl⟩ := Prod.mk.inj (List.mem_singleton.1 h)
          cases hread with
          | var htype => simp [Ty.declarable] at htype
        · cases h
      · cases h
    | fn decl =>
      simp only [LevelScript.declared, exec, Eval.declare] at h ⊢
      rcases hdeclare : s.env.declare? decl.name (.fn setting.script decl) with _ | env <;> rw [hdeclare] at h
      · cases h
      · obtain ⟨rfl, -⟩ := Prod.mk.inj (List.mem_singleton.1 h)
        have hcurrent := Env.get?_current_declare hdeclare
        have hlocals : env.locals = [] :=
          List.eq_nil_of_length_eq_zero (by rw [Env.length_declare hdeclare, hrest, List.length_nil])
        rw [Env.current, hlocals] at hcurrent
        exact ⟨decl, rfl, hcurrent⟩
    | branch token arms otherwise =>
      have htest := (height_evolution m).run hs depth
      have := (height_evolution m).stays_preorder
      have hheight := keeps_chosenArm htest.test otherwise arms s
      rw [exec_branch]
      simp only [LevelScript.declared] at h
      rcases hchosen : chosenArm (test setting depth) otherwise arms s with ⟨e | _ | body, t⟩ <;>
        rw [hchosen] at h hheight
      · cases h
      · cases h
      · rw [run_bind_ok hchosen]
        have hlocals : t.env.locals = [] := List.eq_nil_of_length_eq_zero (by rw [hheight, hrest, List.length_nil])
        cases hread with
        | branch _ _ harms hotherwise =>
          rcases mem_of_chosenArm hchosen with ⟨arm, harm, rfl⟩ | hbody
          · exact ih (harms arm harm) hlocals h
          · exact ih (hotherwise body hbody) hlocals h
    | _ => cases h

/-! ## Scripts that keep their functions -/

/-- a step that declares what it binds to functions, and keeps the functions that there were, leaves the listing right -/
theorem Frame.Lists.advance {e f : Env} {declarations : List (String × Ty)} {script : Nat} (h : e.globals.Lists script)
    (hfrom : Env.FunctionsFrom declarations e f) (hkeeps : e.globals.Retains KeepsFunctions f.globals)
    (hdeclared : ∀ name, e.locals = [] → (name, Ty.fn) ∈ declarations →
      ∃ decl, decl.name = name ∧ f.globals.get? name = some (.fn script decl)) : f.globals.Lists script where
  nodup := hfrom.nodup h.nodup
  named name v hv hfn := by
    rcases hfrom.source name v hv hfn with ⟨u, hu, hufn⟩ | ⟨hrest, hmem⟩
    · obtain ⟨new, hnew, hsame⟩ := hkeeps name u hu
      obtain rfl : new = u := hsame hufn
      rw [hv] at hnew
      cases hnew
      exact h.named name v hu hfn
    · obtain ⟨decl, hname, hbound⟩ := hdeclared name hrest hmem
      rw [hv] at hbound
      cases hbound
      exact ⟨decl, rfl, hname⟩

/-- the statements of a text, run one by one at the top, keep the listing right, by induction on their number -/
theorem lists_runTokens {m : Manners} {setting : Setting} (hs : setting.Obeys m) (bound : Nat) {tokens : List Token}
    (hends : Ends tokens) {types : Types} {depth : Nat} {s : State} (hrest : s.env.locals = [])
    (hspares : Position.Spares (m := m) setting KeepsFunctions ⟨types, depth, .script bound tokens, s⟩)
    (h : s.env.globals.Lists setting.script) :
    (runTokens setting bound tokens s).state.env.globals.Lists setting.script := by
  induction bound generalizing tokens types s with
  | zero => exact h
  | succ bound ih =>
    unfold runTokens
    split_ifs
    · exact h
    · rcases hparse : parseStatement setting.depths tokens with refusal | ⟨stmt, rest⟩
      · exact h
      · have hfrom := ((functionsFrom_evolution m).run hs setting.evaluation).exec stmt s
        have hkeeps := (retainsWithin hs setting.evaluation).exec (hspares.starts (.top hparse))
        have hlists := h.advance hfrom hkeeps fun name _ hmem =>
          bound_of_declared hs (readable_of_parseStatement hends hparse) hrest hmem
        rw [← env_execTop] at hlists hfrom
        dsimp only
        rcases hrun : execTop setting stmt s with ⟨e | _, t⟩ <;> rw [hrun] at hlists hfrom
        · exact hlists
        · have hlocals : t.env.locals = [] :=
            List.eq_nil_of_length_eq_zero (by rw [hfrom.height, hrest, List.length_nil])
          exact ih (parseStatement_shrinks hends hparse).1 hlocals (hspares.starts (.later hparse hrun)) hlists

namespace Workspace

section Histories

variable {m : Manners} {number : Nat} {w : Workspace}

theorem lists_loading (hw : w.Obeys m) {path source : String} {dynamic : Bool}
    (hspares : (w.loadPosition m path source dynamic).Spares
      ((w.opened path source dynamic).setting w.scripts.size) KeepsFunctions)
    (hok : (w.loading path source dynamic).2.fault = none) :
    (w.loading path source dynamic).2.state.env.globals.Lists w.scripts.size := by
  simp only [loadPosition, loading, runSource] at hspares hok ⊢
  rcases htokens : tokenize source (some path) with fault | tokens <;> simp only [htokens] at hspares hok ⊢
  · cases hok
  · exact lists_runTokens (hw.opened path source dynamic) tokens.length (standsIn_of_tokenize htokens).2 rfl hspares
      (lists_builtinFrame _)

theorem History.lists (h : w.History m (fun setting p => p.Spares setting KeepsFunctions) number) :
    ∃ env, (w.script number).env = some env ∧ env.locals = [] ∧ env.globals.Lists number := by
  induction h with
  | @loaded w path source dynamic hw hload hspares =>
    obtain ⟨hnumber, hfault, -⟩ := loaded_of_load hload
    rw [script_load, if_pos hnumber, hfault, hnumber]
    refine ⟨_, rfl, ?_, lists_loading hw hspares hfault⟩
    exact ranScript_locals hw path source dynamic rfl
  | @call w name arguments h hspares ih =>
    obtain ⟨env, henv, hrest, hlists⟩ := ih
    have hruns := (functionsFrom_evolution m).run (h.obeys.setting number) w.platform.evaluation
    have hfrom := hruns.callByName name arguments (w.callState number env)
    have hkeeps := retains_after (h.obeys.setting number) (hspares env henv)
    rw [script_call_loaded h.loads henv, if_pos rfl]
    refine ⟨_, rfl, called_locals h.obeys hrest name arguments, ?_⟩
    exact hlists.advance hfrom hkeeps fun _ _ hmem => nomatch hmem
  | other _ _ henv _ ih => rwa [henv]

end Histories

end Workspace

/-! ## The listing -/

/-- a call of a function that the check of its arguments refuses -/
theorem callByName_refused (setting : Setting) (depth : Nat) {name : String} {owner : Nat} {decl : Function}
    {values : List Val} {cause : Cause} {s : State} (hname : s.env.globals.get? name = some (.fn owner decl))
    (hcause : hostCallCause? name decl.params values = some cause) :
    (callByName setting (depth + 1) name values s).1 = .ok (.error cause.message) := by
  have hcalling (t : State) (ht : t.env.globals.get? name = some (.fn owner decl)) :
      calling setting depth name values t = (.error (.unplaced cause), t) := by
    rw [calling, run_bind_ok (m := get) (a := t) rfl]
    simp only [ht, hcause]
    rfl
  rw [callByName_settles, hcalling { s with lastError := none } hname]
  rfl

def functionsOf (bindings : List (String × Val)) : List Function :=
  bindings.filterMap fun
    | (_, .fn _ decl) => some decl
    | _ => none

theorem mem_functionsOf {bindings : List (String × Val)} {decl : Function} :
    decl ∈ functionsOf bindings ↔ ∃ name owner, (name, .fn owner decl) ∈ bindings := by
  simp only [functionsOf, List.mem_filterMap]
  constructor
  · rintro ⟨⟨name, v⟩, hmem, hv⟩
    cases v with
    | fn owner found =>
      cases hv
      exact ⟨name, owner, hmem⟩
    | _ => cases hv
  · rintro ⟨name, owner, hmem⟩
    exact ⟨_, hmem, rfl⟩

/-- functions that are bound to their own names are listed under names of the frame, in order -/
theorem names_functionsOf {bindings : List (String × Val)}
    (h : ∀ name owner decl, (name, Val.fn owner decl) ∈ bindings → decl.name = name) :
    ((functionsOf bindings).map (·.name)).Sublist (bindings.map (·.1)) := by
  induction bindings with
  | nil => exact .slnil
  | cons b bindings ih =>
    have hrest := ih fun name owner decl hmem => h name owner decl (List.mem_cons_of_mem b hmem)
    obtain ⟨name, v⟩ := b
    cases v with
    | fn owner decl =>
      obtain rfl := h name owner decl List.mem_cons_self
      exact hrest.cons_cons decl.name
    | _ => exact hrest.cons _

namespace Workspace

/-- **The listing of functions is faithful.** Let a script be loaded and its functions be called any number of times, and
let no assignment on the way give another value to a global that holds a function. Then the script lists no function
twice, nor two of one name, and each is bound to its name: under that name it has the parameters that the host is told,
and a call is checked against them and runs the body of just this function. -/
theorem listing_is_faithful {m : Manners} {number : Nat} {w : Workspace}
    (h : w.History m (fun setting p => p.Spares setting KeepsFunctions) number) :
    (w.script number).functions.Nodup ∧ ((w.script number).functions.map (·.name)).Nodup ∧
      ∀ decl ∈ (w.script number).functions, ∃ env, (w.script number).env = some env ∧
        env.globals.get? decl.name = some (.fn number decl) ∧
        (w.script number).generatorParams decl.name = parametersOf decl.params ∧
        ∀ values,
          (hostCallCause? decl.name decl.params values = none →
            Tells (w.call number decl.name values) number (w.bodyRun number env decl values)) ∧
          ∀ cause, hostCallCause? decl.name decl.params values = some cause →
            (w.call number decl.name values).1 = .ok (.error cause.message) := by
  obtain ⟨env, henv, hrest, hlists⟩ := h.lists
  have hfunctions : (w.script number).functions = functionsOf env.globals.bindings := by
    rw [Script.functions, henv]
    rfl
  have hbound {name : String} {owner : Nat} {decl : Function} (hmem : (name, .fn owner decl) ∈ env.globals.bindings) :
      decl.name = name ∧ owner = number := by
    obtain ⟨named, hnamed, hname⟩ := hlists.named name _ (Frame.get?_of_mem hlists.nodup hmem) rfl
    cases hnamed
    exact ⟨hname, rfl⟩
  have hnames : ((w.script number).functions.map (·.name)).Nodup := by
    rw [hfunctions]
    exact (names_functionsOf fun name owner decl hmem => (hbound hmem).1).nodup hlists.nodup
  refine ⟨.of_map _ hnames, hnames, fun decl hdecl => ?_⟩
  rw [hfunctions, mem_functionsOf] at hdecl
  obtain ⟨name, owner, hmem⟩ := hdecl
  obtain ⟨rfl, rfl⟩ := hbound hmem
  have hget := Frame.get?_of_mem hlists.nodup hmem
  have hfound := (Script.get?_at_rest henv hrest decl.name).trans hget
  refine ⟨env, henv, hget, Script.generatorParams_of_get? hfound, fun values => ⟨fun hcause => ?_, fun cause hcause => ?_⟩⟩
  · exact call_tells_bodyRun h.loads henv hrest hfound (suits_of_hostCallCause hcause)
  · have hcalled : (w.called owner decl.name values env).1 = .ok (.error cause.message) := by
      rw [called, ← Nat.sub_add_cancel w.platform.evaluation_pos]
      exact callByName_refused (w.setting owner) _ hget hcause
    rw [call_result h.loads henv, hcalled]

/-- a script that declares two functions lists both of them -/
theorem listing_is_faithful_pair :
    let source := "int f() { return 1; } int g(int n) { return n; }"
    let w := (({} : Workspace).load "level" source).2
    (w.script 0).functions.map (·.name) = ["f", "g"] ∧
      ∀ decl ∈ (w.script 0).functions, (w.script 0).generatorParams decl.name = parametersOf decl.params := by
  intro source w
  have hhost : ({} : Workspace).Obeys ⟨True, True⟩ := fun f hf => absurd hf (by simp)
  have hload : (({} : Workspace).load "level" source).1 = .ok 0 := by decide +kernel
  have hhistory : w.History ⟨True, True⟩ (fun setting p => p.Spares setting KeepsFunctions) 0 :=
    .loaded hhost hload (spares_functions (by decide +kernel))
  refine ⟨by decide +kernel, fun decl hdecl => ?_⟩
  obtain ⟨env, -, -, hparams, -⟩ := (listing_is_faithful hhistory).2.2 decl hdecl
  exact hparams

/-- two functions that trade their places: each is listed, and bound to the name of the other one -/
theorem traded_functions :
    let source := "int f() { return 1; } int g() { return 2; } list held = [f]; f = g; g = held[0];"
    let w := (({} : Workspace).load "level" source).2
    ∃ decl ∈ (w.script 0).functions, ∀ owner, (w.script 0).get? decl.name ≠ some (.fn owner decl) := by
  intro source w
  let named (found : Option Val) := (functionsOf (found.toList.map fun v => ("g", v))).map (·.name)
  have hnames : (w.script 0).functions.map (·.name) = ["g", "f"] := by decide +kernel
  have hg : named ((w.script 0).get? "g") = ["f"] := by decide +kernel
  obtain ⟨decl, hmem, hname⟩ : ∃ decl ∈ (w.script 0).functions, decl.name = "g" := by
    rw [← List.mem_map, hnames]
    exact List.mem_cons_self
  refine ⟨decl, hmem, fun owner hbound => ?_⟩
  rw [hname] at hbound
  rw [hbound] at hg
  have hself : [decl.name] = ["f"] := hg
  rw [hname] at hself
  exact absurd hself (by decide)

end Workspace

end LevelScript
