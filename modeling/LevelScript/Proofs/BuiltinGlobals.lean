/-
The built-in names of a script while it runs.

The constants and the built-in functions are ordinary bindings of the globals: a script may assign to them like to its
own variables, and only the types of their values are safe (`builtins_stay_bound`). As long as no assignment overwrites
the global of a built-in name it keeps the very value that it was installed with, so that it means that value wherever no
frame above the globals binds the name.
-/
import LevelScript.Proofs.RetainedGlobals

namespace LevelScript

open LevelScript.Syntax Eval

/-! ## Types of globals -/

def SameType (_ : String) (old new : Val) : Prop := new.type = old.type

instance (name : String) : IsPreorder Val (SameType name) where
  refl _ := rfl
  trans _ _ _ h k := Eq.trans k h

/-- an assignment keeps the type of a global, whichever binding it changes -/
theorem Env.Assigned.sameType {e f : Env} (h : e.Assigned f) {name : String} {old new : Val}
    (hold : e.globals.get? name = some old) (hnew : f.globals.get? name = some new) : SameType name old new := by
  rcases h with rfl | ⟨target, current, stored, hcurrent, htype, rfl⟩
  · rw [hold] at hnew
    cases hnew
    rfl
  · rcases Env.assign_cases hcurrent stored with ⟨hglobal, hassign⟩ | ⟨inner, f, outer, -, -, hassign⟩
    · rw [hassign, Frame.get?_set] at hnew
      split_ifs at hnew with hname
      · subst hname
        rw [hold] at hglobal
        cases hglobal
        cases hnew
        exact htype
      · rw [hold] at hnew
        cases hnew
        rfl
    · rw [hassign, hold] at hnew
      cases hnew
      rfl

/-- every run spares the types of the globals -/
theorem spares_sameType {m : Manners} (setting : Setting) (p : Position m) : p.Spares setting SameType := by
  intro q name old new _ hoverwrites
  cases hoverwrites with
  | @assign types depth token target value s v t name u old given w new hv hslot hfree hold hstore hnew =>
    have hassigned := store_assigned (resolve_fits hslot) v value.span
    rw [hstore] at hassigned
    exact hassigned.sameType hold hnew

/-! ## Built-in names -/

/-- the new value of the name is the old one; other names may have any values -/
def KeepsName (kept : String) (name : String) (old new : Val) : Prop := name = kept → new = old

instance (kept name : String) : IsPreorder Val (KeepsName kept name) where
  refl _ _ := rfl
  trans _ _ _ h k hname := (k hname).trans (h hname)

def builtinBindings (script : Nat) : List (String × Val) :=
  constants ++ Builtin.all.map fun b => (b.name, .native (.builtin script b))

theorem names_builtinBindings (script : Nat) : ((builtinBindings script).map (·.1)).Nodup := by
  have hnames : (builtinBindings script).map (·.1) = builtinNames := by
    simp [builtinBindings, builtinNames, Function.comp_def]
  rw [hnames]
  decide

theorem bindings_builtinFrame (script : Nat) : (builtinFrame script).bindings = builtinBindings script :=
  Frame.bindings_ofBindings "global" (names_builtinBindings script)

theorem nodup_builtinFrame (script : Nat) : (builtinFrame script).names.Nodup := by
  rw [Frame.names, bindings_builtinFrame]
  exact names_builtinBindings script

theorem builtinFrame_get? {script : Nat} {name : String} {v : Val} (h : (name, v) ∈ builtinBindings script) :
    (builtinFrame script).get? name = some v :=
  Frame.get?_of_mem (nodup_builtinFrame script) (by rwa [bindings_builtinFrame])

/-- a host finds each built-in function under its name, with its documentation, and nothing under other names -/
theorem Builtin.find?_eq_some_iff {name doc : String} {b : Builtin} :
    Builtin.find? name = some (b, doc) ↔ name = b.name ∧ doc = b.doc := by
  constructor
  · intro h
    obtain ⟨found, hfound, hpair⟩ := Option.map_eq_some_iff.1 h
    have hname := List.find?_some hfound
    cases hpair
    exact ⟨(of_decide_eq_true hname).symm, rfl⟩
  · rintro ⟨rfl, rfl⟩
    cases b <;> rfl

/-- **Built-in names stay bound.** In every state that a script comes to, while its statements run, between calls of its
functions and during calls, each constant and each built-in function is bound in the globals to a value of the type that
it was installed with. If no assignment gives the global of the name another value, it is the very value that was
installed, and the name means that value wherever no frame above the globals binds it. -/
theorem builtins_stay_bound (m : Manners) {number : Nat} {name : String} {v : Val}
    (h : (name, v) ∈ builtinBindings number) :
    (∀ s, Workspace.Visits m (fun _ _ => True) number s →
      ∃ u, s.env.globals.get? name = some u ∧ u.type = v.type) ∧
    ∀ s, Workspace.Visits m (fun setting p => p.Spares setting (KeepsName name)) number s →
      s.env.globals.get? name = some v ∧
      ((∀ f ∈ s.env.locals, f.binds name = false) →
        ∀ setting depth token, eval setting (depth + 1) (.symbol token name) s = (.ok v, s)) := by
  have hinstalled := builtinFrame_get? h
  refine ⟨fun s hs => ?_, fun s hs => ?_⟩
  · have hretains := (hs.mono fun setting p _ => spares_sameType setting p).retains
    exact hretains name v hinstalled
  · obtain ⟨u, hu, hsame⟩ := hs.retains name v hinstalled
    obtain rfl : u = v := hsame rfl
    refine ⟨hu, fun hfree setting depth token => ?_⟩
    have hlocals := Env.findSome?_of_free hfree []
    rw [List.append_nil] at hlocals
    have hlookup : lookup? name s = (.ok (some u), s) := by
      simp only [lookup?, Env.lookup?, hlocals, hu]
      rfl
    simp only [eval]
    rw [run_bind_ok hlookup]
    rfl

/-- a script that only declares a function reads the constants as they were installed -/
theorem builtins_stay_bound_true :
    let source := "bool on() { return true; }"
    let w := (({} : Workspace).load "level" source).2
    ∃ env, (w.script 0).env = some env ∧ env.globals.get? "true" = some (.bool true) := by
  intro source w
  have hhost : ({} : Workspace).Obeys ⟨True, True⟩ := fun f hf => absurd hf (by simp)
  have hload : (({} : Workspace).load "level" source).1 = .ok 0 := by decide +kernel
  have hhistory : w.History ⟨True, True⟩ (fun setting p => p.Spares setting (KeepsName "true")) 0 :=
    .loaded hhost hload (spares_functions (by decide +kernel))
  obtain ⟨env, henv, -⟩ := hhistory.retains
  have hbuiltin : ("true", .bool true) ∈ builtinBindings 0 := by simp [builtinBindings, constants]
  exact ⟨env, henv, ((builtins_stay_bound ⟨True, True⟩ hbuiltin).2 _ (.between hhistory henv)).1⟩

/-- assignments reach the constants like any other global -/
theorem constant_overwritten :
    let w := (({} : Workspace).load "level" "true = false;").2
    let bool? (found : Option Val) : Option Bool := match found with
      | some (.bool b) => some b
      | _ => none
    bool? ((builtinFrame 0).get? "true") = some true ∧ bool? ((w.script 0).get? "true") = some false := by
  decide +kernel

end LevelScript
