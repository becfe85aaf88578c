/-
The frames of a script are the same ones after every run.

Blocks, loops and calls put frames on the environment and take them off again. `frames_stay`: however a statement or an
expression ends, the frames afterwards are those from before, in the same order. A statement adds names to the
innermost of them only, an expression adds no names, and no frame loses a name. So the environment of a script that is
not being executed is the frame of its globals alone, after any sequence of loads and calls from the host.
-/
import Mathlib.Data.List.ModifyLast
import LevelScript.Proofs.Evolution
import LevelScript.Proofs.Frames
import LevelScript.Proofs.Hosting

namespace LevelScript

open LevelScript.Syntax Eval

/-! ## Outlines -/

/-- a frame without its values: what it is called, and the names that it binds in order -/
def Frame.outline (f : Frame) : String × List String := (f.name, f.names)

def Env.outline (e : Env) : List (String × List String) := e.frames.map Frame.outline

/-- a frame that has gained names -/
def gaining (names : List String) (f : String × List String) : String × List String := (f.1, f.2 ++ names)

/-- the host functions may call functions of the script, but they bind no names -/
def Manners.callers : Manners := { calls := True, installs := False }

theorem modifyLast_gaining_nil (l : List (String × List String)) : l.modifyLast (gaining []) = l := by
  rcases List.eq_nil_or_concat l with rfl | ⟨init, x, rfl⟩
  · rfl
  · simp [List.modifyLast_concat, gaining]

theorem modifyLast_gaining_append (a b : List String) (l : List (String × List String)) :
    (l.modifyLast (gaining a)).modifyLast (gaining b) = l.modifyLast (gaining (a ++ b)) := by
  rcases List.eq_nil_or_concat l with rfl | ⟨init, x, rfl⟩
  · rfl
  · simp [List.modifyLast_concat, gaining]

namespace Env

theorem outline_eq (e : Env) : e.outline = e.globals.outline :: (e.locals.map Frame.outline).reverse := by
  simp [outline, frames]

theorem outline_push (e : Env) (f : Frame) : (e.push f).outline = e.outline ++ [f.outline] := by
  simp [outline_eq, push]

theorem length_outline (e : Env) : e.outline.length = e.locals.length + 1 := by
  simp [outline_eq]

/-- a frame comes off again if the frames below it are the same -/
theorem outline_pop {e f : Env} {x : String × List String} (h : f.outline = e.outline ++ [x]) :
    f.pop.outline = e.outline := by
  rcases hf : f.locals with _ | ⟨g, gs⟩
  · have := congrArg List.length h
    simp [length_outline, hf] at this
  · have hlast : f.outline = f.pop.outline ++ [g.outline] := by simp [outline_eq, pop, hf]
    exact (List.append_inj' (hlast.symm.trans h) rfl).1

theorem outline_set {f : Frame} {name : String} {old : Val} (h : f.get? name = some old) (v : Val) :
    (f.set name v).outline = f.outline := by
  simp [Frame.outline, Frame.names_set, Frame.binds_of_get? h]

theorem outline_assign {e : Env} {name : String} {old : Val} (h : e.lookup? name = some old) (v : Val) :
    (e.assign name v).outline = e.outline := by
  rcases assign_cases h v with ⟨hold, he⟩ | ⟨inner, f, outer, hfs, hold, he⟩
  · simp [he, outline_eq, outline_set hold]
  · simp [he, outline_eq, hfs, outline_set hold]

theorem outline_declare {e f : Env} {name : String} {v : Val} (h : e.declare? name v = some f) :
    f.outline = e.outline.modifyLast (gaining [name]) := by
  obtain ⟨hfree, rfl⟩ := declare_eq_some h
  unfold current at hfree
  unfold modifyCurrent
  rcases hl : e.locals with _ | ⟨g, gs⟩
  · rw [hl, List.headD_nil] at hfree
    have hsingle : e.outline = [] ++ [e.globals.outline] := by simp [outline_eq, hl]
    rw [hsingle, List.modifyLast_concat]
    simp [outline_eq, Frame.outline, Frame.names_set, hfree, gaining]
  · rw [hl, List.headD_cons] at hfree
    have hsplit : e.outline = (e.globals.outline :: (gs.map Frame.outline).reverse) ++ [g.outline] := by
      simp [outline_eq, hl]
    rw [hsplit, List.modifyLast_concat]
    simp [outline_eq, Frame.outline, Frame.names_set, hfree, gaining]

/-- the innermost frame has gained the declared names, and nothing else has happened to the frames -/
def Gained (a : List (String × Ty)) (e f : Env) : Prop := f.outline = e.outline.modifyLast (gaining (a.map (·.1)))

theorem gained_nil {e f : Env} : Gained [] e f ↔ f.outline = e.outline := by
  rw [Gained, List.map_nil, modifyLast_gaining_nil]

theorem Gained.pop {a : List (String × Ty)} {e f : Env} {g : Frame} (h : Gained a (e.push g) f) :
    f.pop.outline = e.outline := by
  rw [Gained, outline_push, List.modifyLast_concat] at h
  exact outline_pop h

theorem Gained.leave {a : List (String × Ty)} {e f : Env} {arguments : Frame} {dynamic : Bool}
    (h : Gained a (e.enter arguments dynamic) f) : (leave e f dynamic).outline = e.outline := by
  cases dynamic with
  | true => exact h.pop
  | false =>
    -- the globals are the first of two frames, and only the second one gains names
    have hframes : (e.enter arguments false).outline = [e.globals.outline] ++ [arguments.outline] := by
      simp [outline_eq, enter]
    rw [Gained, hframes, List.modifyLast_concat, outline_eq f] at h
    have hglobals : f.globals.outline = e.globals.outline := List.head_eq_of_cons_eq h
    simp [Env.leave, outline_eq, hglobals]

end Env

theorem gained_evolution : Evolution .callers Env.Gained where
  same e := Env.gained_nil.2 rfl
  andThen := by
    intro a b e f g hef hfg
    rw [Env.Gained, hfg, hef, modifyLast_gaining_append, List.map_append]
  assign hold _ := Env.gained_nil.2 (Env.outline_assign hold _)
  declare hf := Env.outline_declare hf
  frame hf := Env.gained_nil.2 hf.pop
  call hf := Env.gained_nil.2 hf.leave
  install hm := hm.elim

/-! ## Scripts at rest -/

/-- the same number of frames -/
def SameHeight (s t : State) : Prop := t.env.locals.length = s.env.locals.length

instance : IsPreorder State SameHeight where
  refl _ := rfl
  trans _ _ _ h k := k.trans h

theorem height_evolution (m : Manners) : Evolution m fun _ e f => f.locals.length = e.locals.length where
  same _ := rfl
  andThen hef hfg := hfg.trans hef
  assign _ _ := Env.length_assign _ _ _
  declare hf := Env.length_declare hf
  frame {_ e f _} hf := by
    simp only [Env.push, List.length_cons] at hf
    simp [Env.pop, hf]
  call {_ e f arguments dynamic} hf := by
    cases dynamic with
    | true =>
      simp only [Env.enter, Env.push, if_true, List.length_cons] at hf
      simp [Env.leave, Env.pop, hf]
    | false => rfl
  install _ _ _ _ _ := rfl

/-- whatever a statement does, there are as many frames afterwards -/
theorem sameHeight_exec {m : Manners} {setting : Setting} (hs : setting.Obeys m) (depth : Nat) (stmt : Stmt) :
    Keeps SameHeight (exec setting depth stmt) := fun s => ((height_evolution m).run hs depth).exec stmt s

theorem sameHeight_execTop {m : Manners} {setting : Setting} (hs : setting.Obeys m) (stmt : Stmt) :
    Keeps SameHeight (execTop setting stmt) := by
  intro s
  rw [SameHeight, env_execTop]
  exact sameHeight_exec hs setting.evaluation stmt s

theorem sameHeight_callByName {m : Manners} {setting : Setting} (hs : setting.Obeys m) (depth : Nat) (name : String)
    (arguments : List Val) : Keeps SameHeight (callByName setting depth name arguments) := fun s =>
  ((height_evolution m).run hs depth).callByName name arguments s

/-- the script has no frames but its globals, and it has these while it is loaded -/
structure Script.AtRest (s : Script) : Prop where
  loaded : s.loaded = true → ∃ env, s.env = some env
  locals : ∀ env, s.env = some env → env.locals = []

/-- the frames of the script are the one of its globals alone -/
def Script.AtGlobals (s : Script) : Prop := ∃ env, s.env = some env ∧ env.frames = [env.globals]

theorem Script.AtRest.atGlobals {s : Script} (h : s.AtRest) (hl : s.loaded = true) : s.AtGlobals := by
  obtain ⟨env, henv⟩ := h.loaded hl
  exact ⟨env, henv, by simp [Env.frames, h.locals env henv]⟩

namespace Workspace

variable {m : Manners}

theorem ranScript_locals {w : Workspace} (h : w.Obeys m) (path source : String) (dynamic : Bool) {env : Env}
    (henv : (w.ranScript path source dynamic).env = some env) : env.locals = [] := by
  simp only [ranScript, loading, runSource, Option.some.injEq] at henv
  subst henv
  split
  · rfl
  · exact List.eq_nil_of_length_eq_zero (keeps_runTokens (sameHeight_execTop (h.opened path source dynamic)) _ _ _)

theorem called_locals {w : Workspace} (h : w.Obeys m) {number : Nat} {env : Env} (henv : env.locals = [])
    (name : String) (arguments : List Val) : (w.called number name arguments env).2.env.locals = [] := by
  have hheight := sameHeight_callByName (h.setting number) w.platform.evaluation name arguments (w.callState number env)
  refine List.eq_nil_of_length_eq_zero (hheight.trans ?_)
  simp [callState, henv]

/-- between the operations of a host scripts are at rest, whatever its functions may do -/
theorem rests (m : Manners) : ScriptInvariant m Script.AtRest where
  unloaded _ := ⟨nofun, nofun⟩
  loads hw := ⟨fun _ => ⟨_, rfl⟩, fun _ henv => ranScript_locals hw _ _ _ henv⟩
  called hw hrest henv := by
    refine ⟨fun _ => ⟨_, rfl⟩, fun after hafter => ?_⟩
    cases hafter
    exact called_locals hw (hrest.locals _ henv) _ _
  failed h := ⟨h.loaded, h.locals⟩
  installed h := by
    refine ⟨fun hl => ?_, fun after hafter => ?_⟩
    · obtain ⟨env, henv⟩ := h.loaded hl
      exact ⟨_, by rw [henv]; rfl⟩
    · obtain ⟨env, henv, rfl⟩ := Option.map_eq_some_iff.1 hafter
      exact h.locals env henv

theorem atRest_invariant : ScriptInvariant .callers Script.AtRest := rests .callers

end Workspace

/-- **Every run leaves the frames that it found.** However a statement or an expression ends, the frames afterwards are
those from before, in their order and with their names; a statement may have added names to the innermost one. So the
globals are the only frame of a script that has been loaded, and of a loaded script after every call from the host. -/
theorem frames_stay :
    (∀ setting : Setting, setting.Obeys .callers → ∀ depth s,
      (∀ stmt, ∃ names, (exec setting depth stmt s).2.env.outline = s.env.outline.modifyLast (gaining names)) ∧
        ∀ e, (eval setting depth e s).2.env.outline = s.env.outline) ∧
    ∀ w : Workspace, w.Reachable .callers →
      (∀ path source dynamic number, (w.load path source dynamic).1 = .ok number →
        ((w.load path source dynamic).2.script number).AtGlobals) ∧
      ∀ number name arguments, (w.script number).loaded = true →
        ((w.call number name arguments).2.script number).AtGlobals := by
  have hrest := Workspace.atRest_invariant
  refine ⟨fun setting hs depth s => ?_, fun w hw => ⟨fun path source dynamic number hload => ?_, ?_⟩⟩
  · have hrun := gained_evolution.run hs depth
    exact ⟨fun stmt => ⟨_, hrun.exec stmt s⟩, fun e => Env.gained_nil.1 (hrun.eval e s)⟩
  · exact (hrest.reachable hw.load number).atGlobals (Workspace.loaded_of_load hload).2.2
  · intro number name arguments hl
    exact (hrest.reachable hw.call number).atGlobals (by rwa [Workspace.loaded_call])

/-- a call fails inside of a loop in the middle of a recursion -/
theorem frames_stay_recursion :
    let source := "int f(int n) { for (int i = 0; i < 1; i = i + 1) { if (n < 1) { missing; } } f(n - 1); }"
    let w := (({} : Workspace).load "level" source).2
    ((w.script 0).AtGlobals ∧ ((w.call 0 "f" [.int 2]).2.script 0).AtGlobals) ∧
      (∀ depth e s, (eval {} depth e s).2.env.outline = s.env.outline) := by
  intro source w
  have hstart : Workspace.Reachable .callers {} := .start
  have hload : (({} : Workspace).load "level" source).1 = .ok 0 := by decide +kernel
  have hl : (w.script 0).loaded = true := by decide +kernel
  exact ⟨⟨(frames_stay.2 _ hstart).1 _ _ _ _ hload, (frames_stay.2 w hstart.load).2 0 "f" [.int 2] hl⟩,
    fun depth e s => (frames_stay.1 {} (Setting.obeys_default _) depth s).2 e⟩

end LevelScript
