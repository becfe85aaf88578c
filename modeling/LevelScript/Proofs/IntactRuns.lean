/-
Lists in use have been made.

Every statement, expression and call leaves an intact state (`intactness`, a judgement), if the functions
of the host store and give back no lists but those that have been made. So do the operations of a host that hands over
no others: `lists_have_been_made`. In particular the state in which an assignment looks for its slot is closed
(`closed_eval`).
-/
import LevelScript.Proofs.Addresses
import LevelScript.Proofs.Hosting
import LevelScript.Proofs.Judgement

namespace LevelScript

open LevelScript.Syntax Eval

/-! ## Native functions -/

def Reply.Within (size : Nat) : Reply → Prop
  | .value v => v.Within size
  | .noValue _ => True

/-- functions that can be called by name, which fail or give back lists that have been made -/
def IntactCalls (call : String → List Val → Eval Val) : Prop :=
  ∀ name least arguments, (∀ v ∈ arguments, v.Within least) → Intact Val.Within least (call name arguments)

/-- a function of the host that stores and gives back no lists but those that have been made -/
def HostFunction.Intact (f : HostFunction) : Prop := ∀ callBack, IntactCalls callBack →
  ∀ least arguments, (∀ v ∈ arguments, v.Within least) → Eval.Intact Reply.Within least (f callBack arguments)

def Setting.Intact (setting : Setting) : Prop := ∀ number, (setting.host number).Intact

/-! ## Runs -/

/-- what a computation in such a setting may do with lists, as a judgement: a value is allowed if it fits the number of
lists -/
def intactness {setting : Setting} (hs : setting.Intact) : Judgement Nat setting where
  Admits size v := v.Within size
  Holds least within c := Eval.Intact within least c
  mono := Val.Within.mono
  plain h := Val.within_of_type h.type_ne_list _
  pure := intact_pure
  throw := intact_throw
  bind := Intact.bind
  tryCatch := Intact.tryCatch
  look _ h := Intact.bind safe_get fun _ s hle _ => (h s).mono hle
  lookup := intact_lookup
  items _ := intact_items _
  isReturning := safe_isReturning
  declare := safe_declare
  assign := safe_assign
  newList := intact_newList
  newString := intact_newString
  modifyList _ h := safe_modifyList h _
  startReturn := safe_startReturn
  write := safe_write
  clearReturn := safe_clearReturn
  setLastError := safe_setLastError
  inFrame := Intact.inFrame
  inCall h hbody decl dynamic := Safe.inCall hbody (within_argumentFrame h decl) dynamic
  host {callBack} hcall number least arguments h := by
    have hintact : IntactCalls callBack := fun name least arguments h =>
      (hcall name least arguments h).imp fun size v hv => by
        cases v with
        | list => exact hv nofun
        | _ => trivial
    refine (hs number callBack hintact least arguments h).imp fun size r hr v hv _ => ?_
    cases hv
    exact hr

/-- where an expression has been evaluated, no name and no list refers to a list that has not been made -/
theorem closed_eval {setting : Setting} (hs : setting.Intact) (depth : Nat) (e : Expr) {n : Nat} {s : State}
    (h : s.Intact n) : (eval setting depth e s).2.Closed :=
  (((intactness hs).run depth).eval e n n le_rfl s h).1.closed

/-- the statements of a source text leave an intact state, wherever they stop -/
theorem intact_runTokens {setting : Setting} (hs : setting.Intact) (bound : Nat) (tokens : List Token) {n : Nat}
    {s : State} (h : s.Intact n) : (runTokens setting bound tokens s).state.Intact n :=
  Workspace.kept_runTokens (fun stmt s hstate => ((intactness hs).execTop stmt n n le_rfl s hstate).1) bound tokens h

/-! ## Scripts of a host -/

/-- the built-in names mean plain values -/
theorem all_builtinFrame {P : Val → Prop} (h : ∀ v : Val, v.Plain → P v) (script : Nat) : (builtinFrame script).All P := by
  refine Frame.All.ofBindings _ fun b hb => h b.2 ?_
  rcases List.mem_append.1 hb with hb | hb
  · simp only [constants, List.mem_cons, List.not_mem_nil, or_false] at hb
    rcases hb with rfl | rfl | rfl <;> trivial
  · obtain ⟨builtin, -, rfl⟩ := List.mem_map.1 hb
    trivial

theorem within_builtinFrame (script size : Nat) : (builtinFrame script).Within size :=
  all_builtinFrame (fun _ h => Val.within_of_type h.type_ne_list _) script

structure Script.Within (size : Nat) (s : Script) : Prop where
  env : ∀ env, s.env = some env → env.Within size
  returning : ∀ v, s.returning = some v → v.Within size

theorem Script.Within.mono {size size' : Nat} {s : Script} (h : s.Within size) (hle : size ≤ size') :
    s.Within size' :=
  ⟨fun env henv => (h.env env henv).mono hle, fun v hv => (h.returning v hv).mono hle⟩

theorem Script.within_unloaded (s : Script) (size : Nat) : s.unloaded.Within size := ⟨nofun, nofun⟩

namespace Workspace

/-- every list that a script or another list refers to has been made, and no function of the host stores or gives back
any other -/
structure Intact (w : Workspace) : Prop where
  natives : ∀ f ∈ w.natives, HostFunction.Intact f
  heap : w.heap.Intact
  scripts : ∀ k, (w.script k).Within w.heap.cells.size

theorem setting_intact {w : Workspace} (h : ∀ f ∈ w.natives, HostFunction.Intact f) (number : Nat) :
    (w.setting number).Intact :=
  setting_host (fun _ _ _ _ _ => intact_pure fun _ _ => trivial) h number

section Operations

variable {w : Workspace}

theorem Intact.logged (h : w.Intact) (log : Array Record) : Intact { w with log := log } :=
  ⟨h.natives, h.heap, h.scripts⟩

theorem Intact.modifyScript (h : w.Intact) (number : Nat) (change : Script → Script)
    (hchange : ∀ s, (change s).env = s.env ∧ (change s).returning = s.returning) :
    (w.modifyScript number change).Intact := by
  refine ⟨h.natives, h.heap, fun k => ?_⟩
  have hsame : ((w.modifyScript number change).script k).env = (w.script k).env ∧
      ((w.modifyScript number change).script k).returning = (w.script k).returning := by
    rcases w.script_modifyScript_or number change k with hscript | hscript <;> rw [hscript]
    · exact ⟨rfl, rfl⟩
    · exact hchange _
  exact ⟨hsame.1 ▸ (h.scripts k).env, hsame.2 ▸ (h.scripts k).returning⟩

theorem Intact.unload (h : w.Intact) (number : Nat) : (w.unload number).Intact := by
  refine ⟨natives_unload w number ▸ h.natives, ?_, fun k => ?_⟩
  · rw [heap_unload]
    exact h.heap.empty _
  · rw [heap_unload, Heap.size_empty]
    by_cases hk : k = number
    · rw [hk, script_unload_self]
      exact Script.within_unloaded _ _
    · rw [script_unload_of_ne hk]
      exact h.scripts k

/-- the run of a new script ends in an intact state, which still has the lists that there were before -/
theorem Intact.loading (h : w.Intact) (path source : String) (dynamic : Bool) :
    (w.loading path source dynamic).2.state.Intact w.heap.cells.size := by
  have hnatives := natives_opened w path source dynamic ▸ h.natives
  have hsetting := setting_intact hnatives w.scripts.size
  have hstart (env : Env) (henv : env.Within w.heap.cells.size) :
      State.Intact w.heap.cells.size
        { env, heap := (w.opened path source dynamic).heap, output := (w.opened path source dynamic).output } := by
    rw [heap_opened]
    exact ⟨le_rfl, henv, nofun, h.heap⟩
  unfold Workspace.loading runSource
  rcases tokenize source (some path) with fault | tokens
  · exact hstart {} ⟨Frame.All.empty _, nofun⟩
  · exact intact_runTokens hsetting _ tokens (hstart _ ⟨within_builtinFrame _ _, nofun⟩)

theorem Intact.ran (h : w.Intact) (path source : String) (dynamic : Bool) : (w.ran path source dynamic).Intact := by
  have hloading := h.loading path source dynamic
  refine ⟨natives_ran w path source dynamic ▸ h.natives, hloading.heap, fun k => ?_⟩
  rw [script_ran]
  split_ifs
  · refine ⟨fun env henv => ?_, hloading.returning⟩
    cases henv
    exact hloading.env
  · exact (h.scripts k).mono hloading.size

theorem Intact.load (h : w.Intact) (path source : String) (dynamic : Bool) :
    (w.load path source dynamic).2.Intact := by
  have hran := h.ran path source dynamic
  rw [load_eq]
  split
  · exact (hran.logged _).unload _
  · exact (hran.modifyScript w.scripts.size (fun s => { s with loaded := true }) fun _ => ⟨rfl, rfl⟩).logged _

/-- a call that is handed no lists but those that have been made leaves an intact state -/
theorem Intact.called (h : w.Intact) {number : Nat} {env : Env} (henv : (w.script number).env = some env)
    (name : String) {arguments : List Val} (harguments : ∀ v ∈ arguments, v.Within w.heap.cells.size) :
    (w.called number name arguments env).2.Intact w.heap.cells.size :=
  have hstart : (w.callState number env).Intact w.heap.cells.size :=
    ⟨le_rfl, (h.scripts number).env env henv, (h.scripts number).returning, h.heap⟩
  (((intactness (setting_intact h.natives number)).run _).callByName name _ arguments harguments _ le_rfl _ hstart).1

theorem Intact.call (h : w.Intact) (number : Nat) (name : String) {arguments : List Val}
    (harguments : ∀ v ∈ arguments, v.Within w.heap.cells.size) : (w.call number name arguments).2.Intact := by
  rcases w.callable_or_not number with ⟨env, hl, henv⟩ | hl
  · have hcalled := h.called henv name harguments
    have hheap := heap_call_loaded hl henv name arguments
    refine ⟨natives_call w number name arguments ▸ h.natives, hheap ▸ hcalled.heap, fun k => ?_⟩
    rw [script_call_loaded hl henv, hheap]
    split_ifs
    · refine ⟨fun env' henv' => ?_, hcalled.returning⟩
      cases henv'
      exact hcalled.env
    · exact (h.scripts k).mono hcalled.size
  · obtain ⟨d, hd⟩ := call_unloaded hl name arguments
    rw [hd]
    exact (h.modifyScript number (fun s => { s with lastError := some d }) fun _ => ⟨rfl, rfl⟩).logged _

theorem Intact.setNative (h : w.Intact) {f : HostFunction} (hf : f.Intact) (number : Nat) (name ownName : String) :
    (w.setNative number name ownName f).2.Intact := by
  have hheap : (w.setNative number name ownName f).2.heap = w.heap := by
    unfold Workspace.setNative
    split <;> rfl
  refine ⟨?_, hheap ▸ h.heap, fun k => ?_⟩
  · rcases natives_setNative w number name ownName f with hsame | hpush
    · exact hsame ▸ h.natives
    · rw [hpush]
      intro g hg
      rcases Array.mem_push.1 hg with hg | rfl
      · exact h.natives g hg
      · exact hf
  · rw [script_setNative, hheap]
    split_ifs
    · refine ⟨fun env henv => ?_, (h.scripts number).returning⟩
      obtain ⟨before, hbefore, rfl⟩ := Option.map_eq_some_iff.1 henv
      have hwithin := (h.scripts number).env before hbefore
      have hnative : (Val.native (.host w.natives.size ownName)).Within w.heap.cells.size := trivial
      exact ⟨hwithin.all.globals.set hnative name, hwithin.locals⟩
    · exact h.scripts k

/-- the values for the parameters are those of the arguments -/
theorem mem_of_bind {params : List Generator.Parameter} {arguments : List Generator.Argument} {values : List Val}
    (h : Generator.bind params arguments = .ok values) {v : Val} (hv : v ∈ values) : ∃ a ∈ arguments, a.val = v := by
  induction params generalizing values with
  | nil =>
    cases h
    cases hv
  | cons p ps ih =>
    rw [Generator.bind, List.mapM_cons] at h
    rcases hfind : Generator.find? arguments p.name with _ | a
    · rw [hfind] at h
      cases h
    · rw [hfind] at h
      dsimp only at h
      split_ifs at h
      · change (do return a.val :: (← Generator.bind ps arguments)) = Except.ok values at h
        rcases hrest : Generator.bind ps arguments with cause | vs <;> rw [hrest] at h <;> cases h
        rcases List.mem_cons.1 hv with rfl | hv
        · exact ⟨a, by simpa using List.mem_of_find?_eq_some hfind, rfl⟩
        · exact ih hrest hv
      · cases h

theorem Intact.generate (h : w.Intact) (number : Nat) {arguments : List Generator.Argument}
    (harguments : ∀ a ∈ arguments, a.val.Within w.heap.cells.size) (function : String) :
    (w.generate number arguments function).2.Intact := by
  unfold Workspace.generate
  dsimp only
  split
  · rename_i values hvalues
    refine h.call number function fun v hv => ?_
    obtain ⟨a, ha, rfl⟩ := mem_of_bind hvalues hv
    exact harguments a ha
  · exact (h.modifyScript number (fun s => { s with lastError := some _ }) fun _ => ⟨rfl, rfl⟩).logged _

end Operations

/-- the workspaces that a host comes to that hands over no lists but those that have been made, and whose functions
store and give back no others; it may also make lists, change lists, and change the registry and the log -/
inductive Honest : Workspace → Prop where
  | start {platform : Platform} : Honest { platform := platform }
  | load {w : Workspace} {path source : String} {dynamic : Bool} : Honest w → Honest (w.load path source dynamic).2
  | unload {w : Workspace} {number : Nat} : Honest w → Honest (w.unload number)
  | call {w : Workspace} {number : Nat} {name : String} {arguments : List Val} :
      Honest w → (∀ v ∈ arguments, v.Within w.heap.cells.size) → Honest (w.call number name arguments).2
  | setNative {w : Workspace} {number : Nat} {name ownName : String} {f : HostFunction} :
      Honest w → f.Intact → Honest (w.setNative number name ownName f).2
  | generate {w : Workspace} {number : Nat} {arguments : List Generator.Argument} {function : String} :
      Honest w → (∀ a ∈ arguments, a.val.Within w.heap.cells.size) → Honest (w.generate number arguments function).2
  | other {w w' : Workspace} : Honest w → w'.scripts = w.scripts → w'.natives = w.natives → w'.heap.Intact →
      w.heap.cells.size ≤ w'.heap.cells.size → Honest w'

/-- **Lists in use have been made.** Whatever a host does that hands over no other lists: no frame of a script, no
value under return and no list refers to a list that has not been made. So all that runs in these scripts starts from
an intact state, and leaves one. -/
theorem lists_have_been_made {w : Workspace} (h : w.Honest) : w.Intact := by
  induction h with
  | start => exact ⟨by simp, fun a v hv => by simp [Heap.items] at hv, fun k => Script.within_unloaded default _⟩
  | load _ ih => exact ih.load _ _ _
  | unload _ ih => exact ih.unload _
  | call _ harguments ih => exact ih.call _ _ harguments
  | setNative _ hf ih => exact ih.setNative hf _ _ _
  | generate _ harguments ih => exact ih.generate _ harguments _
  | other _ hscripts hnatives hheap hsize ih =>
    refine ⟨hnatives ▸ ih.natives, hheap, fun k => ?_⟩
    rw [script, hscripts]
    exact (ih.scripts k).mono hsize

end Workspace

end LevelScript
