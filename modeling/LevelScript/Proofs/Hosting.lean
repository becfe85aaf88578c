/-
Workspaces under the operations of a host.

What loading, unloading, calling and the installation of functions do to the scripts of a workspace: the script that an
operation is about gets what the run of its statements or of its function leaves, and the other scripts stay what they
are. `Workspace.Reachable` are the workspaces that a host can come to.
-/
import LevelScript.Generator.Run
import LevelScript.Proofs.Routine

namespace LevelScript

open LevelScript.Syntax

theorem Platform.evaluation_pos (platform : Platform) : 0 < platform.evaluation :=
  Nat.lt_of_lt_of_le Nat.two_pos platform.enters

/-- a script that holds nothing any more -/
def Script.unloaded (s : Script) : Script :=
  { s with env := none, owned := {}, returning := none, tokens := [], statements := [], loaded := false }

/-- a script after a run has left a state behind -/
def Script.leftIn (s : Script) (after : State) : Script :=
  { s with env := some after.env, owned := after.owned, returning := after.returning, lastError := after.lastError }

namespace Workspace

/-! ## Steps that leave the scripts alone -/

@[simp] theorem script_note (w : Workspace) (level : Level) (message : String) (k : Nat) :
    (w.note level message).script k = w.script k := rfl

@[simp] theorem natives_note (w : Workspace) (level : Level) (message : String) :
    (w.note level message).natives = w.natives := rfl

@[simp] theorem script_callFailed (w : Workspace) (number : Nat) (name : String) (d : Diagnostic) (k : Nat) :
    (w.callFailed number name d).script k = w.script k := rfl

@[simp] theorem natives_callFailed (w : Workspace) (number : Nat) (name : String) (d : Diagnostic) :
    (w.callFailed number name d).natives = w.natives := rfl

@[simp] theorem script_register (w : Workspace) (number k : Nat) : (w.register number).script k = w.script k := by
  unfold register
  split_ifs <;> rfl

@[simp] theorem scripts_register (w : Workspace) (number : Nat) : (w.register number).scripts = w.scripts := by
  unfold register
  split_ifs <;> rfl

@[simp] theorem natives_register (w : Workspace) (number : Nat) : (w.register number).natives = w.natives := by
  unfold register
  split_ifs <;> rfl

@[simp] theorem script_unregister (w : Workspace) (number k : Nat) :
    (w.unregister number).2.script k = w.script k := by
  unfold unregister
  split_ifs <;> rfl

@[simp] theorem scripts_unregister (w : Workspace) (number : Nat) : (w.unregister number).2.scripts = w.scripts := by
  unfold unregister
  split_ifs <;> rfl

@[simp] theorem natives_unregister (w : Workspace) (number : Nat) : (w.unregister number).2.natives = w.natives := by
  unfold unregister
  split_ifs <;> rfl

@[simp] theorem heap_register (w : Workspace) (number : Nat) : (w.register number).heap = w.heap := by
  unfold register
  split_ifs <;> rfl

@[simp] theorem output_register (w : Workspace) (number : Nat) : (w.register number).output = w.output := by
  unfold register
  split_ifs <;> rfl

@[simp] theorem platform_register (w : Workspace) (number : Nat) : (w.register number).platform = w.platform := by
  unfold register
  split_ifs <;> rfl

@[simp] theorem heap_unregister (w : Workspace) (number : Nat) : (w.unregister number).2.heap = w.heap := by
  unfold unregister
  split_ifs <;> rfl

@[simp] theorem output_unregister (w : Workspace) (number : Nat) : (w.unregister number).2.output = w.output := by
  unfold unregister
  split_ifs <;> rfl

@[simp] theorem natives_modifyScript (w : Workspace) (number : Nat) (change : Script → Script) :
    (w.modifyScript number change).natives = w.natives := rfl

/-! ## Steps that change a script -/

theorem script_modifyScript_of_ne {number k : Nat} (h : k ≠ number) (w : Workspace) (change : Script → Script) :
    (w.modifyScript number change).script k = w.script k := by
  simp [script, modifyScript, Array.getElem?_modify, Ne.symm h]

theorem script_modifyScript_self {w : Workspace} {number : Nat} (h : number < w.scripts.size)
    (change : Script → Script) : (w.modifyScript number change).script number = change (w.script number) := by
  simp only [script, modifyScript, Array.getElem?_modify, if_true, Array.getElem?_eq_getElem h, Option.map_some,
    Option.getD_some]

theorem script_of_size_le {w : Workspace} {number : Nat} (h : w.scripts.size ≤ number) : w.script number = default := by
  rw [script, Array.getElem?_eq_none h, Option.getD_none]

theorem lt_size_of_env {w : Workspace} {number : Nat} {env : Env} (h : (w.script number).env = some env) :
    number < w.scripts.size := by
  by_contra hge
  rw [script_of_size_le (Nat.le_of_not_lt hge)] at h
  cases h

theorem script_modifyScript_or (w : Workspace) (number : Nat) (change : Script → Script) (k : Nat) :
    (w.modifyScript number change).script k = w.script k ∨
      (w.modifyScript number change).script k = change (w.script k) := by
  by_cases hk : k = number
  · subst hk
    by_cases hsize : k < w.scripts.size
    · exact .inr (script_modifyScript_self hsize _)
    · have hle := Nat.le_of_not_lt hsize
      left
      rw [script_of_size_le hle, script_of_size_le (by simpa [modifyScript] using hle)]
  · exact .inl (script_modifyScript_of_ne hk _ _)

theorem script_modifyScript_lastError (w : Workspace) (number : Nat) (d : Option Diagnostic) (k : Nat) :
    ∃ e, (w.modifyScript number fun s => { s with lastError := d }).script k = { w.script k with lastError := e } := by
  rcases w.script_modifyScript_or number (fun s => { s with lastError := d }) k with h | h
  · exact ⟨_, h⟩
  · exact ⟨d, h⟩

theorem modify_push {α : Type} (a : Array α) (x : α) (change : α → α) :
    (a.push x).modify a.size change = a.push (change x) := by
  apply Array.ext
  · simp
  · intro i hi _
    rw [Array.getElem_modify]
    by_cases h : a.size = i
    · subst h
      simp
    · have : i < a.size := by simp at hi; omega
      simp [Array.getElem_push, this, h]

/-! ## Loading -/

/-- the workspace in which a new script runs while it is loaded -/
def opened (w : Workspace) (path source : String) (dynamic : Bool) : Workspace :=
  { w with scripts := w.scripts.push { path := path, source := source, dynamic := dynamic, env := some {} } }.register
    w.scripts.size

/-- the run of the statements of a new script -/
def loading (w : Workspace) (path source : String) (dynamic : Bool) : List Token × Loading :=
  runSource ((w.opened path source dynamic).setting w.scripts.size) path source
    { heap := (w.opened path source dynamic).heap, output := (w.opened path source dynamic).output }

def loadState (w : Workspace) (path source : String) (dynamic : Bool) : State :=
  { env := ⟨builtinFrame w.scripts.size, []⟩, heap := (w.opened path source dynamic).heap,
    output := (w.opened path source dynamic).output }

def ranScript (w : Workspace) (path source : String) (dynamic : Bool) : Script :=
  let (tokens, loading) := w.loading path source dynamic
  { path := path, source := source, dynamic := dynamic, tokens := tokens, statements := loading.statements,
    env := some loading.state.env, owned := loading.state.owned, returning := loading.state.returning }

/-- the workspace after the run of a new script, before its end is reported -/
def ran (w : Workspace) (path source : String) (dynamic : Bool) : Workspace :=
  let (tokens, loading) := w.loading path source dynamic
  let after := loading.state
  { w.opened path source dynamic with heap := after.heap, output := after.output }.modifyScript w.scripts.size fun s =>
    { s with tokens := tokens, statements := loading.statements, env := some after.env, owned := after.owned,
             returning := after.returning }

theorem load_eq (w : Workspace) (path source : String) (dynamic : Bool) :
    w.load path source dynamic = match (w.loading path source dynamic).2.fault with
      | some fault =>
        let failure := fault.failure source
        (.error failure, ((w.ran path source dynamic).note .warning
          ("Failed to load script " ++ path ++ ": " ++ failure.message)).unload w.scripts.size)
      | none =>
        (.ok w.scripts.size, ((w.ran path source dynamic).modifyScript w.scripts.size fun s =>
          { s with loaded := true }).note .debug ("Loaded script " ++ path ++ " (" ++
            toString (w.loading path source dynamic).2.statements.length ++ " statements)")) := rfl

theorem scripts_ran (w : Workspace) (path source : String) (dynamic : Bool) :
    (w.ran path source dynamic).scripts = w.scripts.push (w.ranScript path source dynamic) := by
  simp only [ran, modifyScript, opened, scripts_register, modify_push]
  rfl

theorem script_ran (w : Workspace) (path source : String) (dynamic : Bool) (k : Nat) :
    (w.ran path source dynamic).script k =
      if k = w.scripts.size then w.ranScript path source dynamic else w.script k := by
  rw [script, scripts_ran, Array.getElem?_push]
  split_ifs <;> rfl

theorem natives_ran (w : Workspace) (path source : String) (dynamic : Bool) :
    (w.ran path source dynamic).natives = w.natives := by
  simp [ran, opened]

theorem natives_opened (w : Workspace) (path source : String) (dynamic : Bool) :
    (w.opened path source dynamic).natives = w.natives := by
  simp [opened]

@[simp] theorem heap_opened (w : Workspace) (path source : String) (dynamic : Bool) :
    (w.opened path source dynamic).heap = w.heap := by
  simp [opened]

@[simp] theorem output_opened (w : Workspace) (path source : String) (dynamic : Bool) :
    (w.opened path source dynamic).output = w.output := by
  simp [opened]

@[simp] theorem platform_opened (w : Workspace) (path source : String) (dynamic : Bool) :
    (w.opened path source dynamic).platform = w.platform := by
  simp [opened]

theorem Obeys.opened {m : Manners} {w : Workspace} (h : w.Obeys m) (path source : String) (dynamic : Bool) :
    ((w.opened path source dynamic).setting w.scripts.size).Obeys m :=
  Obeys.setting (by rwa [Obeys, natives_opened]) _

theorem natives_unload (w : Workspace) (number : Nat) : (w.unload number).natives = w.natives := by
  simp [unload]

@[simp] theorem output_unload (w : Workspace) (number : Nat) : (w.unload number).output = w.output :=
  output_unregister w number

/-- unloading empties the lists that the script owns -/
theorem heap_unload (w : Workspace) (number : Nat) :
    (w.unload number).heap = w.heap.empty (w.script number).owned.lists.toList := by
  calc (w.unload number).heap
      = (w.unregister number).2.heap.empty ((w.unregister number).2.script number).owned.lists.toList := rfl
    _ = w.heap.empty (w.script number).owned.lists.toList := by rw [heap_unregister, script_unregister]

theorem script_unload_of_ne {number k : Nat} (h : k ≠ number) (w : Workspace) :
    (w.unload number).script k = w.script k := by
  rw [unload, script_modifyScript_of_ne h]
  exact script_unregister w number k

theorem script_unload_self (w : Workspace) (number : Nat) :
    (w.unload number).script number = (w.script number).unloaded := by
  by_cases h : number < w.scripts.size
  · rw [unload, script_modifyScript_self (by simpa using h)]
    exact congrArg Script.unloaded (script_unregister w number number)
  · rw [script_of_size_le (by simpa [unload, modifyScript] using h), script_of_size_le (by simpa using h)]
    rfl

theorem natives_load (w : Workspace) (path source : String) (dynamic : Bool) :
    (w.load path source dynamic).2.natives = w.natives := by
  rw [load_eq]
  split <;> simp [natives_unload, natives_ran]

/-- the new script is the one after its run, marked as loaded if nothing went wrong and emptied if anything did -/
theorem script_load (w : Workspace) (path source : String) (dynamic : Bool) (k : Nat) :
    (w.load path source dynamic).2.script k =
      if k = w.scripts.size then
        match (w.loading path source dynamic).2.fault with
        | none => { w.ranScript path source dynamic with loaded := true }
        | some _ => (w.ranScript path source dynamic).unloaded
      else w.script k := by
  have hran := w.script_ran path source dynamic
  have hsize : w.scripts.size < (w.ran path source dynamic).scripts.size := by simp [scripts_ran]
  rw [load_eq]
  by_cases hk : k = w.scripts.size
  · subst hk
    split
    · simp [script_unload_self, *]
    · simp [script_modifyScript_self hsize, *]
  · split
    · simp [script_unload_of_ne hk, hran, hk]
    · simp [script_modifyScript_of_ne hk, hran, hk]

/-- a script that could be loaded is loaded -/
theorem loaded_of_load {w : Workspace} {path source : String} {dynamic : Bool} {number : Nat}
    (h : (w.load path source dynamic).1 = .ok number) :
    number = w.scripts.size ∧ (w.loading path source dynamic).2.fault = none ∧
      ((w.load path source dynamic).2.script number).loaded = true := by
  have hnumber : number = w.scripts.size ∧ (w.loading path source dynamic).2.fault = none := by
    rw [load_eq] at h
    split at h
    · cases h
    · exact ⟨by cases h; rfl, by assumption⟩
  refine ⟨hnumber.1, hnumber.2, ?_⟩
  rw [script_load, if_pos hnumber.1, hnumber.2]

/-! ## Calls and installations -/

def callState (w : Workspace) (number : Nat) (env : Env) : State :=
  { env := env, owned := (w.script number).owned, returning := (w.script number).returning,
    lastError := (w.script number).lastError, heap := w.heap, output := w.output }

/-- the end of a call of a function of a script, with its result -/
def called (w : Workspace) (number : Nat) (name : String) (arguments : List Val) (env : Env) :
    Except Interrupt Val × State :=
  callByName (w.setting number) w.platform.evaluation name arguments (w.callState number env)

/-- the workspace after a call of a function of a script, before a failure is recorded -/
def afterCall (w : Workspace) (number : Nat) (after : State) : Workspace :=
  { w with heap := after.heap, output := after.output }.modifyScript number (·.leftIn after)

/-- a script can be called or it cannot -/
theorem callable_or_not (w : Workspace) (number : Nat) :
    (∃ env, (w.script number).loaded = true ∧ (w.script number).env = some env) ∨
      (w.script number).loaded = false ∨ (w.script number).env = none := by
  rcases (w.script number).loaded with _ | _
  · exact .inr (.inl rfl)
  · rcases (w.script number).env with _ | env
    · exact .inr (.inr rfl)
    · exact .inl ⟨env, rfl, rfl⟩

theorem call_loaded {w : Workspace} {number : Nat} {env : Env} (hl : (w.script number).loaded = true)
    (henv : (w.script number).env = some env) (name : String) (arguments : List Val) :
    (w.call number name arguments).2 = match (w.called number name arguments env).2.lastError with
      | some d => (w.afterCall number (w.called number name arguments env).2).callFailed number name d
      | none => w.afterCall number (w.called number name arguments env).2 := by
  simp only [call, hl, henv]
  rcases hcalled : w.called number name arguments env with ⟨result, after⟩
  rw [called, callState] at hcalled
  rw [hcalled]
  rcases result with (f | e) | v <;> rfl

/-- what the host receives from a call of a loaded script -/
theorem call_result {w : Workspace} {number : Nat} {env : Env} (hl : (w.script number).loaded = true)
    (henv : (w.script number).env = some env) (name : String) (arguments : List Val) :
    (w.call number name arguments).1 = match (w.called number name arguments env).1 with
      | .ok v => .ok v
      | .error (.fault f) => .ok (.error f.cause.message)
      | .error (.host e) => .error e := by
  simp only [call, hl, henv]
  rcases hcalled : w.called number name arguments env with ⟨result, after⟩
  rw [called, callState] at hcalled
  rw [hcalled]
  rcases result with (f | e) | v <;> rfl

theorem heap_call_loaded {w : Workspace} {number : Nat} {env : Env} (hl : (w.script number).loaded = true)
    (henv : (w.script number).env = some env) (name : String) (arguments : List Val) :
    (w.call number name arguments).2.heap = (w.called number name arguments env).2.heap := by
  rw [call_loaded hl henv]
  split <;> rfl

theorem output_call_loaded {w : Workspace} {number : Nat} {env : Env} (hl : (w.script number).loaded = true)
    (henv : (w.script number).env = some env) (name : String) (arguments : List Val) :
    (w.call number name arguments).2.output = (w.called number name arguments env).2.output := by
  rw [call_loaded hl henv]
  split <;> rfl

theorem call_unloaded {w : Workspace} {number : Nat}
    (h : (w.script number).loaded = false ∨ (w.script number).env = none) (name : String) (arguments : List Val) :
    ∃ d, (w.call number name arguments).2 =
      (w.modifyScript number fun s => { s with lastError := some d }).callFailed number name d := by
  refine ⟨(Fault.mk (.notLoaded (w.script number).path) none).diagnostic, ?_⟩
  unfold call
  dsimp only
  split
  · simp_all
  · rfl

/-- a call of a loaded script leaves it in the state at the end of the call -/
theorem script_call_loaded {w : Workspace} {number : Nat} {env : Env} (hl : (w.script number).loaded = true)
    (henv : (w.script number).env = some env) (name : String) (arguments : List Val) (k : Nat) :
    (w.call number name arguments).2.script k =
      if k = number then (w.script number).leftIn (w.called number name arguments env).2 else w.script k := by
  have hafter (after : State) : (w.afterCall number after).script k =
      if k = number then (w.script number).leftIn after else w.script k := by
    split_ifs with hk
    · subst hk
      exact script_modifyScript_self (lt_size_of_env henv) _
    · exact script_modifyScript_of_ne hk _ _
  rw [call_loaded hl henv]
  split <;> simp [hafter]

/-- a call of any other script changes no more than its last error -/
theorem script_call_unloaded {w : Workspace} {number : Nat}
    (h : (w.script number).loaded = false ∨ (w.script number).env = none) (name : String) (arguments : List Val)
    (k : Nat) : ∃ d, (w.call number name arguments).2.script k = { w.script k with lastError := d } := by
  obtain ⟨d, hd⟩ := call_unloaded h name arguments
  rw [hd, script_callFailed]
  exact script_modifyScript_lastError w number _ k

theorem loaded_call (w : Workspace) (number : Nat) (name : String) (arguments : List Val) (k : Nat) :
    ((w.call number name arguments).2.script k).loaded = (w.script k).loaded := by
  rcases w.callable_or_not number with ⟨env, hl, henv⟩ | h
  · rw [script_call_loaded hl henv]
    split_ifs with hk
    · rw [hk]
      rfl
    · rfl
  · obtain ⟨d, hd⟩ := script_call_unloaded h name arguments k
    rw [hd]

theorem natives_call (w : Workspace) (number : Nat) (name : String) (arguments : List Val) :
    (w.call number name arguments).2.natives = w.natives := by
  rcases w.callable_or_not number with ⟨env, hl, henv⟩ | h
  · rw [call_loaded hl henv]
    split <;> rfl
  · obtain ⟨d, hd⟩ := call_unloaded h name arguments
    rw [hd]
    rfl

/-- loading runs the statements of a source text; what holds after each of them holds wherever it stops -/
theorem kept_runTokens {P : State → Prop} {setting : Setting} (h : ∀ stmt s, P s → P (execTop setting stmt s).2)
    (bound : Nat) (tokens : List Token) {s : State} (hs : P s) : P (runTokens setting bound tokens s).state := by
  induction bound generalizing tokens s with
  | zero => exact hs
  | succ bound ih =>
    unfold runTokens
    split_ifs
    · exact hs
    · rcases parseStatement setting.depths tokens with _ | ⟨stmt, rest⟩
      · exact hs
      · have hstmt := h stmt s hs
        dsimp only
        rcases hrun : execTop setting stmt s with ⟨_ | _, t⟩ <;> rw [hrun] at hstmt
        · exact hstmt
        · exact ih rest hstmt

theorem keeps_runTokens {R : State → State → Prop} [IsPreorder State R] {setting : Setting}
    (h : ∀ stmt, Eval.Keeps R (execTop setting stmt)) (bound : Nat) (tokens : List Token) (s : State) :
    R s (runTokens setting bound tokens s).state :=
  kept_runTokens (P := R s) (fun stmt t ht => trans_of R ht (h stmt t)) bound tokens (refl s)

/-- a call with named arguments is a call, or changes no more than a last error -/
theorem generate_cases (w : Workspace) (number : Nat) (arguments : List Generator.Argument) (function : String) :
    (∃ values, (w.generate number arguments function).2 = (w.call number function values).2) ∨
      (w.generate number arguments function).2.natives = w.natives ∧
        ∀ k, ∃ d, (w.generate number arguments function).2.script k = { w.script k with lastError := d } := by
  unfold generate
  dsimp only
  split
  · exact .inl ⟨_, rfl⟩
  · exact .inr ⟨rfl, script_modifyScript_lastError w number _⟩

/-- an installed function is bound in the globals of its script -/
theorem script_setNative (w : Workspace) (number : Nat) (name ownName : String) (f : HostFunction) (k : Nat) :
    (w.setNative number name ownName f).2.script k =
      if k = number then
        { w.script number with env := (w.script number).env.map fun env =>
            { env with globals := env.globals.set name (.native (.host w.natives.size ownName)) } }
      else w.script k := by
  unfold setNative
  rcases henv : (w.script number).env with _ | env
  · dsimp only
    split_ifs with hk
    · rw [hk, Option.map_none, ← henv]
    · rfl
  · dsimp only
    split_ifs with hk
    · subst hk
      exact script_modifyScript_self (lt_size_of_env henv) _
    · exact script_modifyScript_of_ne hk _ _

theorem natives_setNative (w : Workspace) (number : Nat) (name ownName : String) (f : HostFunction) :
    (w.setNative number name ownName f).2.natives = w.natives ∨
      (w.setNative number name ownName f).2.natives = w.natives.push f := by
  unfold setNative
  split
  · exact .inl rfl
  · exact .inr rfl

/-! ## Reachable workspaces -/

namespace Obeys

variable {m : Manners} {w : Workspace} (h : w.Obeys m)

include h

theorem load (path source : String) (dynamic : Bool) : (w.load path source dynamic).2.Obeys m := by
  rwa [Obeys, natives_load]

theorem unload (number : Nat) : (w.unload number).Obeys m := by
  rwa [Obeys, natives_unload]

theorem call (number : Nat) (name : String) (arguments : List Val) : (w.call number name arguments).2.Obeys m := by
  rwa [Obeys, natives_call]

theorem setNative {f : HostFunction} (hf : HostFunction.Obeys m f) (number : Nat) (name ownName : String) :
    (w.setNative number name ownName f).2.Obeys m := by
  rcases natives_setNative w number name ownName f with hsame | hpush
  · rwa [Obeys, hsame]
  · rw [Obeys, hpush]
    intro g hg
    rcases Array.mem_push.1 hg with hg | rfl
    · exact h g hg
    · exact hf

theorem generate (number : Nat) (arguments : List Generator.Argument) (function : String) :
    (w.generate number arguments function).2.Obeys m := by
  rcases w.generate_cases number arguments function with ⟨values, hcall⟩ | ⟨hsame, -⟩
  · rw [hcall]
    exact h.call _ _ _
  · rwa [Obeys, hsame]

end Obeys

/-- the workspaces that a host on any platform comes to by loading, unloading and calling scripts, installing functions of
its own, and changing lists, the registry and the log -/
inductive Reachable (m : Manners) : Workspace → Prop where
  | start {platform : Platform} : Reachable m { platform := platform }
  | load {w : Workspace} {path source : String} {dynamic : Bool} :
      Reachable m w → Reachable m (w.load path source dynamic).2
  | unload {w : Workspace} {number : Nat} : Reachable m w → Reachable m (w.unload number)
  | call {w : Workspace} {number : Nat} {name : String} {arguments : List Val} :
      Reachable m w → Reachable m (w.call number name arguments).2
  | setNative {w : Workspace} {number : Nat} {name ownName : String} {f : HostFunction} :
      Reachable m w → HostFunction.Obeys m f → Reachable m (w.setNative number name ownName f).2
  | generate {w : Workspace} {number : Nat} {arguments : List Generator.Argument} {function : String} :
      Reachable m w → Reachable m (w.generate number arguments function).2
  | other {w w' : Workspace} : Reachable m w → w'.scripts = w.scripts → w'.natives = w.natives → Reachable m w'

/-- every function that a host has installed obeys -/
theorem Reachable.obeys {m : Manners} {w : Workspace} (h : Reachable m w) : w.Obeys m := by
  induction h with
  | start => exact fun f hf => absurd hf (by simp)
  | load _ ih => exact ih.load _ _ _
  | unload _ ih => exact ih.unload _
  | call _ ih => exact ih.call _ _ _
  | setNative _ hf ih => exact ih.setNative hf _ _ _
  | generate _ ih => exact ih.generate _ _ _
  | other _ _ hsame ih => rwa [Obeys, hsame]

/-- a property that scripts keep under every operation of the host -/
structure ScriptInvariant (m : Manners) (P : Script → Prop) : Prop where
  unloaded : ∀ s : Script, P s.unloaded
  loads : ∀ {w : Workspace} {path source dynamic}, w.Obeys m →
    P { w.ranScript path source dynamic with loaded := true }
  called : ∀ {w : Workspace} {number name arguments env}, w.Obeys m → P (w.script number) →
    (w.script number).env = some env → P ((w.script number).leftIn (w.called number name arguments env).2)
  failed : ∀ {s : Script} {d}, P s → P { s with lastError := d }
  installed : ∀ {s : Script} {name f}, P s →
    P { s with env := s.env.map fun env => { env with globals := env.globals.set name (.native f) } }

theorem ScriptInvariant.call {m : Manners} {P : Script → Prop} (h : ScriptInvariant m P) {w : Workspace}
    (hw : w.Obeys m) {number : Nat} (hP : P (w.script number)) (k : Nat) (name : String) (arguments : List Val) :
    P ((w.call k name arguments).2.script number) := by
  rcases w.callable_or_not k with ⟨env, hl, henv⟩ | hl
  · rw [script_call_loaded hl henv]
    split_ifs with hk
    · subst hk
      exact h.called hw hP henv
    · exact hP
  · obtain ⟨d, hd⟩ := script_call_unloaded hl name arguments number
    rw [hd]
    exact h.failed hP

/-- the scripts of every reachable workspace have the property -/
theorem ScriptInvariant.reachable {m : Manners} {P : Script → Prop} (h : ScriptInvariant m P) {w : Workspace}
    (hw : w.Reachable m) (number : Nat) : P (w.script number) := by
  induction hw with
  | start => exact h.unloaded default
  | @load w path source dynamic hw ih =>
    rw [script_load]
    split_ifs with hk
    · split
      · exact h.loads hw.obeys
      · exact h.unloaded _
    · exact ih
  | @unload w k hw ih =>
    by_cases hk : number = k
    · subst hk
      rw [script_unload_self]
      exact h.unloaded _
    · rw [script_unload_of_ne hk]
      exact ih
  | call hw ih => exact h.call hw.obeys ih _ _ _
  | @setNative w k name ownName f hw hf ih =>
    rw [script_setNative]
    split_ifs with hk
    · subst hk
      exact h.installed ih
    · exact ih
  | @generate w k arguments function hw ih =>
    rcases w.generate_cases k arguments function with ⟨values, hcall⟩ | ⟨-, hsame⟩
    · rw [hcall]
      exact h.call hw.obeys ih _ _ _
    · obtain ⟨d, hd⟩ := hsame number
      rw [hd]
      exact h.failed ih
  | other _ hscripts _ ih => rwa [script, hscripts]

end Workspace

end LevelScript
