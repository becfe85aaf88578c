/-
Declared types are kept for life.

A position is sound if the environment there fits the declared types of its frames, and the arguments of a call suit
the parameters. Every position that a sound one starts is sound (`sound_of_starts`), so the whole run from it is, and
where it ends the environment fits as well. `declared_types_kept`: in every state of a script, while it is loaded,
between calls, and during calls, every declared name has a value of its declared type.
-/
import LevelScript.Proofs.Hosting
import LevelScript.Proofs.Positions

namespace LevelScript

open LevelScript.Syntax Eval

/-- the environment fits the declared types of its frames, and the arguments of a call suit the parameters -/
structure Position.Sound {m : Manners} (p : Position m) : Prop where
  fits : p.types.Fits p.state.env
  suits : ∀ decl arguments dynamic, p.part = .call decl arguments dynamic → Suits arguments decl.params

/-- what the statements of a source text declare in the globals, when they are run one by one -/
def declaredByTop (setting : Setting) : Nat → List Token → State → List (String × Ty)
  | 0, _, _ => []
  | bound + 1, tokens, s =>
    if Parser.ended tokens then []
    else match parseStatement setting.depths tokens with
      | .error _ => []
      | .ok (stmt, rest) => match execTop setting stmt s with
        | (.error _, _) => declared setting setting.evaluation stmt s
        | (.ok (), t) => declared setting setting.evaluation stmt s ++ declaredByTop setting bound rest t

section Runs

variable {m : Manners} {setting : Setting} (hs : setting.Obeys m)

/-- environments that fit go on to fit -/
abbrev Fitting (declarations : List (String × Ty)) (e f : Env) : Prop :=
  ∀ types : Types, types.Fits e → (types.add declarations).Fits f

include hs

theorem runsAlong_fitting (depth : Nat) : RunsAlong Fitting setting depth := (fits_evolution m).run hs depth

theorem fits_exec (depth : Nat) (stmt : Stmt) {types : Types} {s : State} (h : types.Fits s.env) :
    (types.add (declared setting depth stmt s)).Fits (exec setting depth stmt s).2.env :=
  (runsAlong_fitting hs depth).exec stmt s types h

omit hs in
theorem fits_of_stays {α : Type} {c : Eval α} (hc : Keeps (Stays Fitting) c) {types : Types} {s : State}
    (h : types.Fits s.env) : types.Fits (c s).2.env := by
  have := hc s types h
  rwa [types.add_nil] at this

omit hs in
theorem fits_of_run {α : Type} {c : Eval α} (hc : Keeps (Stays Fitting) c) {types : Types} {s t : State}
    {result : Except Interrupt α} (h : types.Fits s.env) (hrun : c s = (result, t)) : types.Fits t.env := by
  have hend := fits_of_stays hc h
  rwa [hrun] at hend

theorem fits_loopStart {depth : Nat} {counter : Option Param} {start : Expr} {types : Types} {s t : State}
    (h : types.Fits s.env) (hrun : loopStart setting depth counter start s = (.ok (), t)) :
    (types.add (counterTypes counter)).Fits t.env := by
  have heval := (runsAlong_fitting hs depth).eval start
  rcases counter with _ | ⟨ty, name⟩
  · obtain ⟨v, u, hv, hrun⟩ := bind_eq_ok hrun
    cases hrun
    rw [counterTypes, types.add_nil]
    exact fits_of_run heval h hv
  · have := (fits_evolution m).stays_preorder
    have hcast : Keeps (Stays Fitting) (eval setting depth start >>= fun v => Eval.ofExcept (v.cast ty start.span)) :=
      heval.bind fun v => keeps_ofExcept _
    have htype (s : State) (w : Val) (t : State)
        (hw : (eval setting depth start >>= fun v => Eval.ofExcept (v.cast ty start.span)) s = (.ok w, t)) :
        w.type = ty := by
      obtain ⟨v, u, -, hw⟩ := bind_eq_ok hw
      exact Val.cast_type (congrArg Prod.fst hw)
    have hend := (fits_evolution m).declares_value hcast htype name.name name.span s types h
    rw [bind_assoc] at hend
    rw [loopStart] at hrun
    rwa [hrun] at hend

theorem fits_test {depth : Nat} {e : Expr} {types : Types} {s t : State} {b : Bool} (h : types.Fits s.env)
    (hrun : test setting depth e s = (.ok b, t)) : types.Fits t.env :=
  fits_of_run ((runsAlong_fitting hs depth).test e) h hrun

theorem fits_eval {depth : Nat} {e : Expr} {types : Types} {s t : State} {v : Val} (h : types.Fits s.env)
    (hrun : eval setting depth e s = (.ok v, t)) : types.Fits t.env :=
  fits_of_run ((runsAlong_fitting hs depth).eval e) h hrun

theorem fits_exec_ok {depth : Nat} {stmt : Stmt} {types : Types} {s t : State} (h : types.Fits s.env)
    (hrun : exec setting depth stmt s = (.ok (), t)) : (types.add (declared setting depth stmt s)).Fits t.env := by
  have := fits_exec hs depth stmt h
  rwa [hrun] at this

theorem fits_execTop {stmt : Stmt} {types : Types} {s t : State} {result : Except Interrupt Unit}
    (h : types.Fits s.env) (hrun : execTop setting stmt s = (result, t)) :
    (types.add (declared setting setting.evaluation stmt s)).Fits t.env := by
  have hend := fits_exec hs setting.evaluation stmt h
  rwa [← env_execTop, hrun] at hend

/-- every position that a sound one starts is sound -/
theorem sound_of_starts {p q : Position m} (hp : p.Sound) (h : Starts setting p q) : q.Sound := by
  have := (fits_evolution m).stays_preorder
  obtain ⟨hfits, hsuits⟩ := hp
  cases h with
  -- where nothing has run yet, the state and the frames are those of the starting position
  | top | operand | branch | condition | otherwise | roundTest | first | tested | operands | firstOperand | value
  | owner | item | look | lists | print | callBack => exact ⟨hfits, nofun⟩
  | later _ hrun => exact ⟨fits_execTop hs hfits hrun, nofun⟩
  | chosen hrun | skipped hrun | roundBody hrun => exact ⟨fits_test hs hfits hrun, nofun⟩
  | loopStart | block => exact ⟨hfits.push (Frame.holds_nil _), nofun⟩
  | loop hrun =>
    have hend := fits_loopStart hs (hfits.push (Frame.holds_nil _)) hrun
    exact ⟨hend, nofun⟩
  | increment htest hrun => exact ⟨fits_exec_ok hs (fits_test hs hfits htest) hrun, nofun⟩
  | again htest hrun _ heval => exact ⟨fits_eval hs (fits_exec_ok hs (fits_test hs hfits htest) hrun) heval, nofun⟩
  | next hrun => exact ⟨fits_exec_ok hs hfits hrun, nofun⟩
  | nextOperand hrun | target hrun => exact ⟨fits_eval hs hfits hrun, nofun⟩
  | @function _ depth _ _ _ _ _ _ _ _ _ hcallee hlength hrun =>
    have hcasts := keeps_castAll (runsAlong_fitting hs depth).eval
    refine ⟨fits_of_run (hcasts _ _) (fits_eval hs hfits hcallee) hrun, fun decl arguments dynamic hpart => ?_⟩
    cases hpart
    exact suits_of_castAll hlength hrun
  -- the argument frame is the only one that does not start empty
  | body => exact ⟨(hfits.enter (holds_argumentFrame (hsuits _ _ _ rfl)) _).push (Frame.holds_nil _), nofun⟩
  | named hfound hcause =>
    refine ⟨hfits, fun decl arguments dynamic hpart => ?_⟩
    cases hpart
    exact suits_of_hostCallCause hcause
  | @native _ depth _ _ _ _ _ _ _ _ _ _ hcallee hrun =>
    have hvalues (l : List Expr) := keeps_mapM (l := l) fun e _ => (runsAlong_fitting hs depth).eval e
    exact ⟨fits_of_run (hvalues _) (fits_eval hs hfits hcallee) hrun, nofun⟩
  | @calledBack _ depth _ name arguments _ _ _ _ hrun =>
    exact ⟨fits_of_run ((runsAlong_fitting hs depth).callByName name arguments) hfits hrun, nofun⟩
  | @install _ _ allowed name f next s =>
    have hend := (fits_evolution m).stays_install allowed s name f _ hfits
    rw [Types.add_nil] at hend
    exact ⟨hend, nofun⟩

/-- where a position that fits has ended, the environment fits as well -/
theorem fits_after (p : Position m) (h : p.types.Fits p.state.env) :
    (p.after setting).1.Fits (p.after setting).2.env := by
  have hruns := runsAlong_fitting hs p.depth
  obtain ⟨types, depth, part, s⟩ := p
  cases part with
  | stmt stmt => exact fits_exec hs depth stmt h
  | test e => exact fits_of_stays (hruns.test e) h
  | expr e => exact fits_of_stays (hruns.eval e) h
  | target e => exact fits_of_stays (hruns.resolve e) h
  | call decl arguments dynamic => exact fits_of_stays (hruns.call decl arguments dynamic) h
  | named name arguments => exact fits_of_stays (hruns.callByName name arguments) h
  | _ => exact h

/-- every position of a run from a sound one is sound -/
theorem sound_of_reaches {p q : Position m} (hp : p.Sound) (h : Relation.ReflTransGen (Starts setting) p q) :
    q.Sound := by
  induction h with
  | refl => exact hp
  | tail _ hstep ih => exact sound_of_starts hs ih hstep

/-- in every state of a run from a sound position the environment fits the declared types -/
theorem fits_of_sees {p : Position m} (hp : p.Sound) {types : Types} {s : State} (h : p.Sees setting types s) :
    types.Fits s.env := by
  obtain ⟨q, hreach, hq⟩ := h
  have hsound := sound_of_reaches hs hp hreach
  rcases hq with hq | hq
  · cases hq
    exact hsound.fits
  · have hafter := fits_after hs q hsound.fits
    rwa [← hq] at hafter

theorem fits_runTokens (bound : Nat) (tokens : List Token) {types : Types} {s : State} (h : types.Fits s.env) :
    (types.add (declaredByTop setting bound tokens s)).Fits (runTokens setting bound tokens s).state.env := by
  induction bound generalizing tokens types s with
  | zero => rwa [declaredByTop, types.add_nil]
  | succ bound ih =>
    unfold runTokens declaredByTop
    split_ifs
    · rwa [types.add_nil]
    · rcases parseStatement setting.depths tokens with _ | ⟨stmt, rest⟩
      · rwa [types.add_nil]
      · dsimp only
        rcases hrun : execTop setting stmt s with ⟨_ | _, t⟩
        · exact fits_execTop hs h hrun
        · rw [← Types.add_append]
          exact ih rest (fits_execTop hs h hrun)

end Runs

/-! ## Scripts of a host -/

namespace Workspace

/-- the position from which a new script runs, with nothing declared yet -/
def loadPosition (m : Manners) (w : Workspace) (path source : String) (dynamic : Bool) : Position m :=
  let tokens := (w.loading path source dynamic).1
  ⟨{}, w.platform.evaluation, .script tokens.length tokens, w.loadState path source dynamic⟩

/-- what the statements of a new script declare in its globals -/
def loadDeclarations (w : Workspace) (path source : String) (dynamic : Bool) : List (String × Ty) :=
  let tokens := (w.loading path source dynamic).1
  declaredByTop ((w.opened path source dynamic).setting w.scripts.size) tokens.length tokens
    (w.loadState path source dynamic)

/-- the position from which a function of a script runs that is called by name -/
def callPosition (m : Manners) (w : Workspace) (number : Nat) (env : Env) (declarations : List (String × Ty))
    (name : String) (arguments : List Val) : Position m :=
  ⟨⟨declarations, []⟩, w.platform.evaluation, .named name arguments, w.callState number env⟩

/-- a script has been loaded, with the given declarations in its globals, and not unloaded since; what the host has
bound to names of the globals was free before -/
inductive Lives (m : Manners) (number : Nat) : List (String × Ty) → Workspace → Prop where
  | loaded {w : Workspace} {path source : String} {dynamic : Bool} : w.Obeys m →
      (w.load path source dynamic).1 = .ok number →
      Lives m number (w.loadDeclarations path source dynamic) (w.load path source dynamic).2
  | load {w : Workspace} {declarations : List (String × Ty)} {path source : String} {dynamic : Bool} :
      Lives m number declarations w → Lives m number declarations (w.load path source dynamic).2
  | unload {w : Workspace} {declarations : List (String × Ty)} {k : Nat} : k ≠ number →
      Lives m number declarations w → Lives m number declarations (w.unload k)
  | call {w : Workspace} {declarations : List (String × Ty)} {k : Nat} {name : String} {arguments : List Val} :
      Lives m number declarations w → Lives m number declarations (w.call k name arguments).2
  | setNative {w : Workspace} {declarations : List (String × Ty)} {k : Nat} {name ownName : String} {f : HostFunction} :
      HostFunction.Obeys m f →
      (∀ env, (w.script number).env = some env → k = number → env.globals.binds name = false) →
      Lives m number declarations w → Lives m number declarations (w.setNative k name ownName f).2
  | generate {w : Workspace} {declarations : List (String × Ty)} {k : Nat} {arguments : List Generator.Argument}
      {function : String} :
      Lives m number declarations w → Lives m number declarations (w.generate k arguments function).2
  | other {w w' : Workspace} {declarations : List (String × Ty)} : w'.scripts = w.scripts → w'.natives = w.natives →
      Lives m number declarations w → Lives m number declarations w'

theorem Lives.obeys {m : Manners} {number : Nat} {declarations : List (String × Ty)} {w : Workspace}
    (h : Lives m number declarations w) : w.Obeys m := by
  induction h with
  | loaded hw => exact hw.load _ _ _
  | load _ ih => exact ih.load _ _ _
  | unload _ _ ih => exact ih.unload _
  | call _ ih => exact ih.call _ _ _
  | setNative hf _ _ ih => exact ih.setNative hf _ _ _
  | generate _ ih => exact ih.generate _ _ _
  | other _ hsame _ ih => rwa [Obeys, hsame]

theorem fits_loading {m : Manners} {w : Workspace} (hw : w.Obeys m) (path source : String) (dynamic : Bool) :
    Types.Fits ⟨w.loadDeclarations path source dynamic, []⟩ (w.loading path source dynamic).2.state.env := by
  have hempty (env : Env) (h : env.locals = []) : Types.Fits {} env := ⟨Frame.holds_nil _, by rw [h]; exact .nil⟩
  unfold loadDeclarations loading runSource
  rcases tokenize source (some path) with fault | tokens
  · exact hempty _ rfl
  · have hend := fits_runTokens (hw.opened path source dynamic) tokens.length tokens
      (hempty (w.loadState path source dynamic).env rfl)
    exact hend

theorem fits_call {m : Manners} {w : Workspace} (hw : w.Obeys m) {number : Nat} {types : Types}
    (h : ∃ env, (w.script number).env = some env ∧ types.Fits env) (k : Nat) (name : String) (arguments : List Val) :
    ∃ env, ((w.call k name arguments).2.script number).env = some env ∧ types.Fits env := by
  obtain ⟨env, henv, hfits⟩ := h
  rcases w.callable_or_not k with ⟨called, hl, hcalled⟩ | hl
  · rw [script_call_loaded hl hcalled]
    split_ifs with hk
    · subst hk
      rw [henv] at hcalled
      cases hcalled
      have hruns := runsAlong_fitting (hw.setting number) w.platform.evaluation
      exact ⟨_, rfl, fits_of_stays (hruns.callByName name arguments) hfits⟩
    · exact ⟨env, henv, hfits⟩
  · obtain ⟨d, hd⟩ := script_call_unloaded hl name arguments number
    rw [hd]
    exact ⟨env, henv, hfits⟩

/-- between the operations of the host, the globals of a script fit their declared types -/
theorem Lives.fits {m : Manners} {number : Nat} {declarations : List (String × Ty)} {w : Workspace}
    (h : Lives m number declarations w) :
    ∃ env, (w.script number).env = some env ∧ Types.Fits ⟨declarations, []⟩ env := by
  induction h with
  | @loaded w path source dynamic hw hload =>
    obtain ⟨hnumber, hfault, -⟩ := loaded_of_load hload
    rw [script_load, if_pos hnumber, hfault]
    exact ⟨_, rfl, fits_loading hw path source dynamic⟩
  | @load w _ path source dynamic _ ih =>
    obtain ⟨env, henv, hfits⟩ := ih
    rw [script_load, if_neg (Nat.ne_of_lt (lt_size_of_env henv))]
    exact ⟨env, henv, hfits⟩
  | unload hne _ ih =>
    rw [script_unload_of_ne hne.symm]
    exact ih
  | call hlives ih => exact fits_call hlives.obeys ih _ _ _
  | @setNative w _ k name ownName f _ hfree _ ih =>
    obtain ⟨env, henv, hfits⟩ := ih
    rw [script_setNative]
    split_ifs with hk
    · subst hk
      refine ⟨_, by rw [henv]; rfl, ?_⟩
      exact ⟨hfits.globals.set_free (hfree env henv rfl) _, hfits.locals⟩
    · exact ⟨env, henv, hfits⟩
  | @generate w _ k arguments function hlives ih =>
    rcases w.generate_cases k arguments function with ⟨values, hcall⟩ | ⟨-, hsame⟩
    · rw [hcall]
      exact fits_call hlives.obeys ih _ _ _
    · obtain ⟨d, hd⟩ := hsame number
      rw [hd]
      exact ih
  | other hscripts _ _ ih => rwa [script, hscripts]

end Workspace

/-- **Declared types are kept for life.** While a script is loaded, in every state that its run comes to, every name
that a declaration, a typed loop or a parameter has bound in a frame has a value of exactly the declared type. The same
holds for its globals afterwards, whatever the host loads, unloads and calls and whatever functions it binds to free
names, and in every state that a call comes to. -/
theorem declared_types_kept (m : Manners) :
    (∀ w : Workspace, w.Obeys m → ∀ path source dynamic types s,
      (w.loadPosition m path source dynamic).Sees ((w.opened path source dynamic).setting w.scripts.size) types s →
        types.Fits s.env) ∧
    ∀ number declarations w, Workspace.Lives m number declarations w →
      ∃ env, (w.script number).env = some env ∧ Types.Fits ⟨declarations, []⟩ env ∧
        ∀ name arguments types s,
          (w.callPosition m number env declarations name arguments).Sees (w.setting number) types s →
            types.Fits s.env := by
  refine ⟨fun w hw path source dynamic types s hsees => ?_, fun number declarations w hlives => ?_⟩
  · have hfits : Types.Fits {} (w.loadState path source dynamic).env := ⟨Frame.holds_nil _, .nil⟩
    exact fits_of_sees (hw.opened path source dynamic) ⟨hfits, fun _ _ _ hpart => by cases hpart⟩ hsees
  · obtain ⟨env, henv, hfits⟩ := hlives.fits
    refine ⟨env, henv, hfits, fun name arguments types s hsees => ?_⟩
    exact fits_of_sees (hlives.obeys.setting number) ⟨hfits, fun _ _ _ hpart => by cases hpart⟩ hsees

/-- a function adds fractions to a global of type `int`, before and during a second call -/
theorem declared_types_kept_counter :
    let source := "int total = 0; int add(int n) { for (int i = 0; i < n; i = i + 1) { total = total + 1.5; } }"
    let start : Workspace := {}
    let w := ((start.load "level" source).2.call 0 "add" [.int 2]).2
    Types.Fits {} (start.loadState "level" source false).env ∧
      ∃ env, (w.script 0).env = some env ∧ Types.Fits ⟨[("total", .int), ("add", .fn)], []⟩ env ∧
        Types.Fits ⟨[("total", .int), ("add", .fn)], []⟩
          (callByName (w.setting 0) w.platform.evaluation "add" [.int 3] (w.callState 0 env)).2.env := by
  intro source start w
  have hstart : start.Obeys ⟨True, True⟩ := fun f hf => absurd hf (by simp [start])
  have hload : (start.load "level" source).1 = .ok 0 := by decide +kernel
  have hlives : Workspace.Lives ⟨True, True⟩ 0 (start.loadDeclarations "level" source false) w :=
    .call (.loaded hstart hload)
  have hdeclared : start.loadDeclarations "level" source false = [("total", .int), ("add", .fn)] := by decide +kernel
  rw [hdeclared] at hlives
  obtain ⟨env, henv, hfits, hcall⟩ := (declared_types_kept ⟨True, True⟩).2 _ _ _ hlives
  refine ⟨?_, env, henv, hfits, hcall "add" [.int 3] _ _ ⟨_, .refl, .inr rfl⟩⟩
  exact (declared_types_kept ⟨True, True⟩).1 start hstart "level" source false _ _ ⟨_, .refl, .inl rfl⟩

end LevelScript
