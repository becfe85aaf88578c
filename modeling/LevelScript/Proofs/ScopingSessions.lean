/-
Sessions with a script in the two ways of calling functions.

A host loads a script, calls its functions and installs functions of its own. The session is uncaptured if the load and
all calls, run lexically and watched, come to an end, that is, never look up a name that a suspended caller binds and
the activation itself does not. `scoping_modes_agree`: then a session with the script loaded for dynamic calls gives
the same answers as one with the script loaded for lexical calls, and the same workspaces but for the way of calling.
-/
import LevelScript.Proofs.ScopingModes

namespace LevelScript

open LevelScript.Syntax

/-- the function of the host that takes the steps of a guest -/
def Guest.function (f : List Val → Guest) : HostFunction := fun callBack arguments => (f arguments).routine.run callBack

namespace Workspace

/-- what the installed functions do, by number and arguments -/
def guests (installed : Array (List Val → Guest)) : Guests := fun number arguments =>
  (installed[number]?.map (· arguments)).getD (.reply (.noValue "NoneType"))

/-- the installed functions take the steps of the given guests -/
def Hosts (w : Workspace) (installed : Array (List Val → Guest)) : Prop := w.natives = installed.map Guest.function

/-- the workspace in which the script calls its functions dynamically -/
def dynamically (w : Workspace) (number : Nat) : Workspace := w.modifyScript number fun s => { s with dynamic := true }

/-! ## Sessions -/

inductive Act where
  | call (name : String) (arguments : List Val)
  | install (name ownName : String) (f : List Val → Guest)

/-- the answer to an act, and the workspace after it -/
def act (w : Workspace) (number : Nat) : Act → Except HostError Val × Workspace
  | .call name arguments => w.call number name arguments
  | .install name ownName f => w.setNative number name ownName (Guest.function f)

/-- the answers to the acts of a session, each with the workspace after it -/
def session (w : Workspace) (number : Nat) : List Act → List (Except HostError Val × Workspace)
  | [] => []
  | a :: acts => w.act number a :: (w.act number a).2.session number acts

/-- the installed functions after an act -/
def installedAfter (w : Workspace) (number : Nat) (installed : Array (List Val → Guest)) :
    Act → Array (List Val → Guest)
  | .call .. => installed
  | .install _ _ f => if (w.script number).env.isSome then installed.push f else installed

/-- the watched run of the statements of a new script comes to an end -/
def loadUncaptured (w : Workspace) (installed : Array (List Val → Guest)) (path source : String) : Bool :=
  match tokenize source (some path) with
  | .error _ => true
  | .ok tokens =>
    (Watch.runTokens ((w.opened path source false).setting w.scripts.size) (guests installed) tokens.length tokens
      (w.loadState path source false)).isSome

def actUncaptured (w : Workspace) (number : Nat) (installed : Array (List Val → Guest)) : Act → Bool
  | .call name arguments => match (w.script number).env with
    | none => true
    | some env => (Watch.callByName (w.setting number) (guests installed) w.platform.evaluation name arguments []
        (w.callState number env)).isSome
  | .install .. => true

def sessionUncaptured (w : Workspace) (number : Nat) (installed : Array (List Val → Guest)) : List Act → Bool
  | [] => true
  | a :: acts => w.actUncaptured number installed a &&
      (w.act number a).2.sessionUncaptured number (w.installedAfter number installed a) acts

/-! ## Installed functions -/

theorem Hosts.setting {w : Workspace} {installed : Array (List Val → Guest)} (h : w.Hosts installed) (number : Nat) :
    (w.setting number).Hosts (guests installed) := by
  intro n arguments callBack
  simp only [Workspace.setting, guests, show w.natives = _ from h, Array.getElem?_map]
  rcases installed[n]? with _ | f <;> rfl

theorem Hosts.act {w : Workspace} {installed : Array (List Val → Guest)} (h : w.Hosts installed) (number : Nat)
    (a : Act) : (w.act number a).2.Hosts (w.installedAfter number installed a) := by
  cases a with
  | call name arguments => exact (natives_call w number name arguments).trans h
  | install name ownName f =>
    simp only [Hosts, Workspace.act, installedAfter, setNative]
    rcases (w.script number).env with _ | env
    · exact h
    · simp [show w.natives = _ from h]

/-! ## Operations on a script that calls dynamically -/

theorem modify_modify {α : Type} (a : Array α) (i : Nat) (f g : α → α) :
    (a.modify i f).modify i g = a.modify i (g ∘ f) := by
  apply Array.ext
  · simp
  · intro k hk _
    simp only [Array.getElem_modify]
    split_ifs <;> rfl

section Dynamically

variable (w : Workspace) (number : Nat)

/-- a change that has nothing to do with the way of calling -/
theorem dynamically_modifyScript {change : Script → Script}
    (h : ∀ s, change { s with dynamic := true } = { change s with dynamic := true }) :
    (w.dynamically number).modifyScript number change = (w.modifyScript number change).dynamically number := by
  simp only [dynamically, modifyScript, modify_modify]
  exact congrArg (fun f => { w with scripts := w.scripts.modify number f }) (funext h)

theorem script_dynamically (k : Nat) :
    ∃ dynamic, (w.dynamically number).script k = { w.script k with dynamic := dynamic } := by
  rcases w.script_modifyScript_or number (fun s => { s with dynamic := true }) k with h | h
  · exact ⟨_, h⟩
  · exact ⟨true, h⟩

@[simp] theorem path_dynamically (k : Nat) : ((w.dynamically number).script k).path = (w.script k).path := by
  obtain ⟨dynamic, h⟩ := w.script_dynamically number k
  rw [h]

@[simp] theorem env_dynamically (k : Nat) : ((w.dynamically number).script k).env = (w.script k).env := by
  obtain ⟨dynamic, h⟩ := w.script_dynamically number k
  rw [h]

@[simp] theorem loaded_dynamically (k : Nat) : ((w.dynamically number).script k).loaded = (w.script k).loaded := by
  obtain ⟨dynamic, h⟩ := w.script_dynamically number k
  rw [h]

@[simp] theorem owned_dynamically (k : Nat) : ((w.dynamically number).script k).owned = (w.script k).owned := by
  obtain ⟨dynamic, h⟩ := w.script_dynamically number k
  rw [h]

theorem callState_dynamically (env : Env) : (w.dynamically number).callState number env = w.callState number env := by
  obtain ⟨dynamic, h⟩ := w.script_dynamically number number
  simp only [callState, h]
  rfl

theorem setting_dynamically {number : Nat} (h : number < w.scripts.size) :
    (w.dynamically number).setting number = (w.setting number).calling true := by
  have hscript : (w.dynamically number).script number = { w.script number with dynamic := true } :=
    script_modifyScript_self h _
  simp only [setting, hscript]
  rfl

theorem callFailed_dynamically (name : String) (d : Diagnostic) :
    (w.dynamically number).callFailed number name d = (w.callFailed number name d).dynamically number := by
  simp only [callFailed, path_dynamically]
  rfl

theorem register_dynamically :
    (w.dynamically number).register number = (w.register number).dynamically number := by
  simp only [register, show (w.dynamically number).registered = w.registered from rfl]
  split_ifs
  · exact congrArg (fun path => (w.dynamically number).note .debug ("Registered script " ++ path))
      (w.path_dynamically number number)
  · exact congrArg (fun path => ({ w.dynamically number with registered := w.registered ++ [number] }.note .debug
      ("Registered script " ++ path))) (w.path_dynamically number number)

theorem unregister_dynamically :
    (w.dynamically number).unregister number = ((w.unregister number).1, (w.unregister number).2.dynamically number) := by
  simp only [unregister, show (w.dynamically number).registered = w.registered from rfl]
  split_ifs
  · have hpath := w.path_dynamically number number
    exact congrArg (fun path => (true, ({ w.dynamically number with registered := w.registered.erase number }.note .debug
      ("Unregistered script " ++ path)))) hpath
  · rfl

theorem unload_dynamically : (w.dynamically number).unload number = (w.unload number).dynamically number := by
  simp only [unload, unregister_dynamically, owned_dynamically]
  exact dynamically_modifyScript { (w.unregister number).2 with heap := _ } number fun _ => rfl

end Dynamically

/-! ## Acts -/

section Acts

variable {w : Workspace} {number : Nat} {installed : Array (List Val → Guest)}

theorem calling_self (setting : Setting) : setting.calling setting.dynamic = setting := rfl

/-- an uncaptured call ends in the same way in both modes -/
theorem called_dynamically (hw : w.Hosts installed) (hlexical : (w.script number).dynamic = false) {env : Env}
    (henv : (w.script number).env = some env) {name : String} {arguments : List Val}
    (h : w.actUncaptured number installed (.call name arguments) = true) :
    (w.dynamically number).called number name arguments env = w.called number name arguments env := by
  simp only [actUncaptured, henv] at h
  obtain ⟨ending, hend⟩ := Option.isSome_iff_exists.1 h
  obtain ⟨hl, hd⟩ := ((Watch.coversRuns (hw.setting number) w.platform.evaluation).callByName name arguments).modes hend
  have hsetting : (w.setting number).calling false = w.setting number :=
    (congrArg (w.setting number).calling hlexical.symm).trans (calling_self _)
  rw [hsetting] at hl
  calc (w.dynamically number).called number name arguments env
      = callByName ((w.setting number).calling true) w.platform.evaluation name arguments (w.callState number env) := by
        rw [called, setting_dynamically w (lt_size_of_env henv), callState_dynamically]
        rfl
    _ = ending := hd
    _ = w.called number name arguments env := hl.symm

theorem call_dynamically (hw : w.Hosts installed) (hlexical : (w.script number).dynamic = false) {name : String}
    {arguments : List Val} (h : w.actUncaptured number installed (.call name arguments) = true) :
    (w.dynamically number).call number name arguments =
      ((w.call number name arguments).1, (w.call number name arguments).2.dynamically number) := by
  rcases w.callable_or_not number with ⟨env, hl, henv⟩ | hun
  · have hl' := (w.loaded_dynamically number number).trans hl
    have henv' := (w.env_dynamically number number).trans henv
    have hcalled := called_dynamically hw hlexical henv h
    have hafter (after : State) :
        (w.dynamically number).afterCall number after = (w.afterCall number after).dynamically number :=
      dynamically_modifyScript { w with heap := after.heap, output := after.output } number fun _ => rfl
    refine Prod.ext ?_ ?_
    · rw [call_result hl' henv', call_result hl henv, hcalled]
    · rw [call_loaded hl' henv', call_loaded hl henv, hcalled]
      split
      · rw [hafter, callFailed_dynamically]
      · rw [hafter]
  · unfold call
    simp only [loaded_dynamically, env_dynamically, path_dynamically]
    split
    · simp_all
    · refine Prod.ext rfl ?_
      rw [dynamically_modifyScript w number fun _ => rfl, callFailed_dynamically]

theorem act_dynamically (hw : w.Hosts installed) (hlexical : (w.script number).dynamic = false) (a : Act)
    (h : w.actUncaptured number installed a = true) :
    (w.dynamically number).act number a = ((w.act number a).1, (w.act number a).2.dynamically number) := by
  cases a with
  | call name arguments => exact call_dynamically hw hlexical h
  | install name ownName f =>
    simp only [act, setNative, env_dynamically]
    rcases (w.script number).env with _ | env
    · rfl
    · refine Prod.ext rfl ?_
      exact dynamically_modifyScript { w with natives := w.natives.push (Guest.function f) } number fun _ => rfl

/-- no act changes the way of calling -/
theorem dynamic_act (w : Workspace) (number : Nat) (a : Act) :
    ((w.act number a).2.script number).dynamic = (w.script number).dynamic := by
  cases a with
  | call name arguments =>
    rcases w.callable_or_not number with ⟨env, hl, henv⟩ | hun
    · rw [act, script_call_loaded hl henv, if_pos rfl]
      rfl
    · obtain ⟨d, hd⟩ := script_call_unloaded hun name arguments number
      rw [act, hd]
  | install name ownName f => rw [act, script_setNative, if_pos rfl]

/-- the acts of an uncaptured session do the same in both modes, by induction on the acts -/
theorem session_dynamically (hw : w.Hosts installed) (hlexical : (w.script number).dynamic = false) (acts : List Act)
    (h : w.sessionUncaptured number installed acts = true) :
    (w.dynamically number).session number acts =
      (w.session number acts).map fun (answer, v) => (answer, v.dynamically number) := by
  induction acts generalizing w installed with
  | nil => rfl
  | cons a acts ih =>
    obtain ⟨hact, hrest⟩ := Bool.and_eq_true_iff.1 h
    have hafter := ih (hw.act number a) ((dynamic_act w number a).trans hlexical) hrest
    simp only [session, act_dynamically hw hlexical a hact, hafter, List.map_cons]

end Acts

/-! ## Loads -/

section Loads

variable {w : Workspace} {installed : Array (List Val → Guest)} {path source : String}

theorem opened_dynamically (w : Workspace) (path source : String) :
    w.opened path source true = (w.opened path source false).dynamically w.scripts.size := by
  have hpush : { w with scripts := w.scripts.push { path := path, source := source, dynamic := true, env := some {} } } =
      { w with scripts := w.scripts.push { path := path, source := source, env := some {} } }.dynamically
        w.scripts.size := by
    simp only [dynamically, modifyScript, modify_push]
  rw [opened, hpush, register_dynamically]
  rfl

theorem setting_opened (w : Workspace) (path source : String) (dynamic : Bool) :
    (w.opened path source dynamic).setting w.scripts.size =
      ((w.opened path source false).setting w.scripts.size).calling dynamic := by
  have hscript (dynamic : Bool) : (w.opened path source dynamic).script w.scripts.size =
      { path := path, source := source, dynamic := dynamic, env := some {} } := by
    rw [opened, script_register]
    simp [script]
  simp only [setting, hscript, natives_opened, platform_opened]
  rfl

/-- an uncaptured load reads and runs the same statements in both modes -/
theorem loading_dynamically (hw : w.Hosts installed) (h : w.loadUncaptured installed path source = true) :
    w.loading path source true = w.loading path source false := by
  have hhosts : ((w.opened path source false).setting w.scripts.size).Hosts (guests installed) :=
    Hosts.setting ((natives_opened w path source false).trans hw) _
  unfold loadUncaptured at h
  simp only [loading, runSource, setting_opened w path source true, heap_opened, output_opened]
  rcases htokens : tokenize source (some path) with fault | tokens
  · rfl
  · rw [htokens] at h
    obtain ⟨ending, hend⟩ := Option.isSome_iff_exists.1 h
    obtain ⟨hl, hd⟩ := Watch.runTokens_modes hhosts tokens.length tokens hend
    rw [← setting_opened] at hl
    simp only [loadState, heap_opened, output_opened] at hl hd
    exact congrArg (tokens, ·) (hd.trans hl.symm)

theorem ran_dynamically (hw : w.Hosts installed) (h : w.loadUncaptured installed path source = true) :
    w.ran path source true = (w.ran path source false).dynamically w.scripts.size := by
  simp only [ran, loading_dynamically hw h, opened_dynamically]
  exact dynamically_modifyScript { w.opened path source false with heap := _, output := _ } w.scripts.size fun _ => rfl

/-- an uncaptured load does the same in both modes, but for the way of calling -/
theorem load_dynamically (hw : w.Hosts installed) (h : w.loadUncaptured installed path source = true) :
    w.load path source true =
      ((w.load path source false).1, (w.load path source false).2.dynamically w.scripts.size) := by
  rw [load_eq, load_eq, loading_dynamically hw h, ran_dynamically hw h]
  rcases (w.loading path source false).2.fault with _ | fault
  · refine Prod.ext rfl ?_
    dsimp only
    rw [dynamically_modifyScript _ w.scripts.size fun _ => rfl]
    rfl
  · exact Prod.ext rfl (unload_dynamically ((w.ran path source false).note _ _) w.scripts.size)

end Loads

/-- **Dynamic and lexical calls agree where nothing is captured.** If the load of a script and every act of a session with
it, run for lexical calls, look up no name that a suspended caller binds and the activation itself does not, then the
same load and session with dynamic calls give the same answers. Each workspace on the way is the same, too: the values
and errors, the output, the log, the globals and the lists; only the script itself is marked as one that calls its
functions dynamically. -/
theorem scoping_modes_agree {w : Workspace} {installed : Array (List Val → Guest)} (hw : w.Hosts installed)
    {path source : String} (hload : w.loadUncaptured installed path source = true) {acts : List Act}
    (hacts : (w.load path source false).2.sessionUncaptured w.scripts.size installed acts = true) :
    w.load path source true =
        ((w.load path source false).1, (w.load path source false).2.dynamically w.scripts.size) ∧
      (w.load path source true).2.session w.scripts.size acts =
        ((w.load path source false).2.session w.scripts.size acts).map fun (answer, v) =>
          (answer, v.dynamically w.scripts.size) := by
  have hboth := load_dynamically hw hload
  have hhosts : (w.load path source false).2.Hosts installed := (natives_load w path source false).trans hw
  have hlexical : ((w.load path source false).2.script w.scripts.size).dynamic = false := by
    rw [script_load, if_pos rfl]
    split <;> rfl
  refine ⟨hboth, ?_⟩
  rw [hboth]
  exact session_dynamically hhosts hlexical acts hacts

/-- a recursive function changes a global, also in a call that fails later; a function of the host looks the global up
and calls back -/
theorem scoping_modes_agree_sink :
    let source := "int t = 5; int sink(int n) { t = t - n; if (n == 1) { return 6 / t; } return sink(n - 1); } " ++
      "int ask() { return host(); }"
    let guest : List Val → Guest := fun _ => .find "t" fun found => .call "sink" [.int 1] fun called =>
      .reply (.value (match found, called with
        | some (.int n), .ok (.int k) => .int (n * k)
        | _, _ => .void))
    let acts : List Act := [.call "sink" [.int 2], .install "host" "host" guest, .call "ask" [], .call "sink" [.int 1]]
    let w : Workspace := {}
    let int? (answer : Except HostError Val × Workspace) : Option Int := match answer.1 with
      | .ok (.int n) => some n
      | _ => none
    (w.load "level" source true).2.session 0 acts = ((w.load "level" source false).2.session 0 acts).map
        (fun (answer, v) => (answer, v.dynamically 0)) ∧
      ((w.load "level" source true).2.session 0 acts).map int? = [some 3, none, some 12, none] := by
  intro source guest acts w int?
  have hhosts : w.Hosts #[] := by simp [w, Hosts]
  have hload : w.loadUncaptured #[] "level" source = true := by decide +kernel
  have hacts : (w.load "level" source false).2.sessionUncaptured 0 #[] acts = true := by decide +kernel
  exact ⟨(scoping_modes_agree hhosts hload hacts).2, by decide +kernel⟩

/-- a function that reads a local name of its caller: the load is broken off, fails lexically and succeeds dynamically -/
example :
    let source := "int p() { return s; } int o() { int s = 7; return p(); } int r = o();"
    let w : Workspace := {}
    w.loadUncaptured #[] "level" source = false ∧ (w.load "level" source false).1.toBool = false ∧
      (w.load "level" source true).1.toBool = true := by
  decide +kernel

end Workspace

end LevelScript
