/-
Frames and environments under the operations of a running script.

A frame that gets a value under a bound name keeps its names; a free name comes last. An assignment changes the
innermost frame that binds the name (`Env.assign_cases`), a declaration the innermost frame of all
(`Env.declare_eq_some`). What holds of all values in the frames and of a new value holds afterwards (`Frame.All`,
`Env.All`).
-/
import Mathlib.Tactic
import LevelScript.Evaluation.Machine

namespace LevelScript

namespace Frame

theorem find?_setIn (name : String) (v : Val) (bs : List (String × Val)) (x : String) :
    (setIn name v bs).find? (·.1 = x) = if x = name then some (name, v) else bs.find? (·.1 = x) := by
  induction bs with
  | nil =>
    by_cases hx : x = name
    · simp [setIn, hx]
    · simp [setIn, hx, Ne.symm hx]
  | cons b bs ih =>
    by_cases hb : b.1 = name
    · simp only [setIn, List.find?_cons, hb]
      by_cases hx : x = name
      · simp [hx]
      · simp [hx, Ne.symm hx]
    · simp only [setIn, if_neg hb, List.find?_cons, ih]
      by_cases hx : x = name
      · simp [hx, hb]
      · simp [hx]

theorem get?_set (f : Frame) (name : String) (v : Val) (x : String) :
    (f.set name v).get? x = if x = name then some v else f.get? x := by
  simp only [get?, set, find?_setIn]
  split_ifs <;> rfl

@[simp] theorem get?_set_self (f : Frame) (name : String) (v : Val) : (f.set name v).get? name = some v := by
  simp [get?_set]

@[simp] theorem name_set (f : Frame) (name : String) (v : Val) : (f.set name v).name = f.name := rfl

theorem binds_eq_isSome (f : Frame) (name : String) : f.binds name = (f.get? name).isSome := by
  rw [binds, get?, Option.isSome_map, List.isSome_find?]

theorem binds_of_get? {f : Frame} {name : String} {v : Val} (h : f.get? name = some v) : f.binds name = true := by
  rw [binds_eq_isSome, h, Option.isSome_some]

theorem map_setIn (name : String) (v : Val) (bs : List (String × Val)) :
    (setIn name v bs).map (·.1) =
      if bs.any (·.1 = name) then bs.map (·.1) else bs.map (·.1) ++ [name] := by
  induction bs with
  | nil => rfl
  | cons b bs ih =>
    by_cases hb : b.1 = name
    · simp [setIn, hb]
    · simp only [setIn, hb, if_false, List.map_cons, ih, List.any_cons, decide_false, Bool.false_or]
      split_ifs <;> rfl

/-- a new value leaves the names of a frame; a free name comes last -/
theorem names_set (f : Frame) (name : String) (v : Val) :
    (f.set name v).names = if f.binds name then f.names else f.names ++ [name] :=
  map_setIn name v f.bindings

theorem mem_of_get? {f : Frame} {name : String} {v : Val} (h : f.get? name = some v) : (name, v) ∈ f.bindings := by
  obtain ⟨b, hb, rfl⟩ := Option.map_eq_some_iff.1 h
  obtain rfl : b.1 = name := by simpa using List.find?_some hb
  exact List.mem_of_find?_eq_some hb

theorem find?_of_mem {bs : List (String × Val)} (hnodup : (bs.map (·.1)).Nodup) {name : String} {v : Val}
    (h : (name, v) ∈ bs) : bs.find? (·.1 = name) = some (name, v) := by
  induction bs with
  | nil => cases h
  | cons b bs ih =>
    obtain ⟨hfirst, hrest⟩ := List.nodup_cons.1 hnodup
    rcases List.mem_cons.1 h with rfl | hmem
    · simp
    · have hne : b.1 ≠ name := by
        rintro rfl
        exact hfirst (List.mem_map.2 ⟨_, hmem, rfl⟩)
      rw [List.find?_cons_of_neg (by simpa using hne)]
      exact ih hrest hmem

theorem get?_of_mem {f : Frame} (hnodup : f.names.Nodup) {name : String} {v : Val} (h : (name, v) ∈ f.bindings) :
    f.get? name = some v := by
  rw [get?, find?_of_mem hnodup h, Option.map_some]

theorem setIn_of_free {name : String} (v : Val) {bs : List (String × Val)} (h : name ∉ bs.map (·.1)) :
    setIn name v bs = bs ++ [(name, v)] := by
  induction bs with
  | nil => rfl
  | cons b bs ih =>
    rw [List.map_cons, List.mem_cons, not_or] at h
    rw [setIn, if_neg (Ne.symm h.1), ih h.2, List.cons_append]

/-- a frame of bindings for different names has these bindings -/
theorem bindings_ofBindings (name : String) {bs : List (String × Val)} (h : (bs.map (·.1)).Nodup) :
    (ofBindings name bs).bindings = bs := by
  have hfold (rest : List (String × Val)) (f : Frame) (hrest : (f.names ++ rest.map (·.1)).Nodup) :
      (rest.foldl (fun f b => f.set b.1 b.2) f).bindings = f.bindings ++ rest := by
    induction rest generalizing f with
    | nil => rw [List.foldl_nil, List.append_nil]
    | cons b rest ih =>
      have hfree : b.1 ∉ f.names := fun hmem => (List.nodup_append.1 hrest).2.2 b.1 hmem b.1 (by simp) rfl
      have hset : (f.set b.1 b.2).bindings = f.bindings ++ [b] := setIn_of_free b.2 hfree
      rw [List.foldl_cons, ih, hset, List.append_assoc, List.singleton_append]
      rw [names, hset, List.map_append, List.append_assoc]
      exact hrest
  exact hfold bs ⟨name, []⟩ h

end Frame

namespace Env

theorem assignIn?_cases (name : String) (v : Val) (fs : List Frame) :
    ((∀ f ∈ fs, f.binds name = false) ∧ assignIn? name v fs = none) ∨
      ∃ inner f outer, fs = inner ++ f :: outer ∧ (∀ g ∈ inner, g.binds name = false) ∧ f.binds name = true ∧
        assignIn? name v fs = some (inner ++ f.set name v :: outer) := by
  induction fs with
  | nil => exact .inl ⟨by simp, rfl⟩
  | cons f fs ih =>
    by_cases hf : f.binds name = true
    · exact .inr ⟨[], f, fs, rfl, by simp, hf, by simp [assignIn?, hf]⟩
    · rcases ih with ⟨hfree, hnone⟩ | ⟨inner, g, outer, rfl, hfree, hg, hsome⟩
      · refine .inl ⟨?_, by simp [assignIn?, hf, hnone]⟩
        intro g hg
        rcases List.mem_cons.1 hg with rfl | hg
        · simpa using hf
        · exact hfree g hg
      · refine .inr ⟨f :: inner, g, outer, rfl, ?_, hg, by simp [assignIn?, hf, hsome]⟩
        intro k hk
        rcases List.mem_cons.1 hk with rfl | hk
        · simpa using hf
        · exact hfree k hk

theorem findSome?_of_free {name : String} {inner : List Frame} (h : ∀ f ∈ inner, f.binds name = false)
    (fs : List Frame) : (inner ++ fs).findSome? (·.get? name) = fs.findSome? (·.get? name) := by
  induction inner with
  | nil => rfl
  | cons f inner ih =>
    have hf : f.get? name = none := by
      have := h f List.mem_cons_self
      rwa [Frame.binds_eq_isSome, Option.isSome_eq_false_iff, Option.isNone_iff_eq_none] at this
    rw [List.cons_append, List.findSome?_cons, hf]
    exact ih fun g hg => h g (List.mem_cons_of_mem f hg)

/-- an assignment changes the frame that the name is looked up in: the innermost one that binds it -/
theorem assign_cases {e : Env} {name : String} {old : Val} (h : e.lookup? name = some old) (v : Val) :
    (e.globals.get? name = some old ∧ e.assign name v = { e with globals := e.globals.set name v }) ∨
      ∃ inner f outer, e.locals = inner ++ f :: outer ∧ f.get? name = some old ∧
        e.assign name v = { e with locals := inner ++ f.set name v :: outer } := by
  rcases assignIn?_cases name v e.locals with ⟨hfree, hnone⟩ | ⟨inner, f, outer, hfs, hfree, hf, hsome⟩
  · left
    have hlocals := findSome?_of_free hfree []
    rw [List.append_nil] at hlocals
    rw [lookup?, hlocals] at h
    exact ⟨h, by rw [assign, hnone]⟩
  · right
    rw [Frame.binds_eq_isSome, Option.isSome_iff_exists] at hf
    obtain ⟨w, hw⟩ := hf
    rw [lookup?, hfs, findSome?_of_free hfree, List.findSome?_cons, hw] at h
    cases h
    exact ⟨inner, f, outer, hfs, hw, by rw [assign, hsome]⟩

theorem declare_eq_some {e f : Env} {name : String} {v : Val} (h : e.declare? name v = some f) :
    e.current.binds name = false ∧ f = e.modifyCurrent (·.set name v) := by
  unfold declare? at h
  split_ifs at h with hbound
  exact ⟨by simpa using hbound, by simpa using h.symm⟩

theorem get?_current_declare {e f : Env} {name : String} {v : Val} (h : e.declare? name v = some f) :
    f.current.get? name = some v := by
  obtain ⟨-, rfl⟩ := declare_eq_some h
  rcases e with ⟨globals, _ | ⟨g, gs⟩⟩ <;> exact Frame.get?_set_self _ name v

theorem length_assign (e : Env) (name : String) (v : Val) : (e.assign name v).locals.length = e.locals.length := by
  rcases assignIn?_cases name v e.locals with ⟨-, hnone⟩ | ⟨inner, f, outer, hfs, -, -, hsome⟩
  · rw [assign, hnone]
  · rw [assign, hsome, hfs]
    simp

theorem length_declare {e f : Env} {name : String} {v : Val} (h : e.declare? name v = some f) :
    f.locals.length = e.locals.length := by
  obtain ⟨-, rfl⟩ := declare_eq_some h
  unfold modifyCurrent
  split
  · rfl
  · rename_i hfs
    simp [hfs]

end Env

/-! ## All values of the frames -/

/-- the values that the names of the frame mean have the property -/
def Frame.All (P : Val → Prop) (f : Frame) : Prop := ∀ name v, f.get? name = some v → P v

namespace Frame.All

variable {P Q : Val → Prop} {f : Frame}

theorem imp (h : f.All P) (hPQ : ∀ v, P v → Q v) : f.All Q := fun name v hv => hPQ v (h name v hv)

theorem empty (name : String) : Frame.All P ⟨name, []⟩ := nofun

theorem set (h : f.All P) {v : Val} (hv : P v) (name : String) : (f.set name v).All P := by
  intro x w hw
  rw [get?_set] at hw
  split_ifs at hw
  · cases hw
    exact hv
  · exact h x w hw

theorem ofBindings (name : String) {bindings : List (String × Val)} (h : ∀ b ∈ bindings, P b.2) :
    (Frame.ofBindings name bindings).All P := by
  have hall (bs : List (String × Val)) (hbs : ∀ b ∈ bs, P b.2) (f : Frame) (hf : f.All P) :
      (bs.foldl (fun f b => f.set b.1 b.2) f).All P := by
    induction bs generalizing f with
    | nil => exact hf
    | cons b bs ih =>
      have hset := hf.set (hbs b List.mem_cons_self) b.1
      exact ih (fun c hc => hbs c (List.mem_cons_of_mem b hc)) _ hset
  exact hall bindings h _ (empty name)

end Frame.All

theorem all_argumentFrame {P : Val → Prop} {arguments : List Val} (h : ∀ v ∈ arguments, P v) (decl : Syntax.Function) :
    (argumentFrame decl arguments).All P :=
  Frame.All.ofBindings _ fun b hb => h b.2 (List.of_mem_zip (a := b.1) (b := b.2) hb).2

structure Env.All (P : Val → Prop) (e : Env) : Prop where
  globals : e.globals.All P
  locals : ∀ f ∈ e.locals, f.All P

namespace Env.All

variable {P Q : Val → Prop} {e f : Env}

theorem imp (h : e.All P) (hPQ : ∀ v, P v → Q v) : e.All Q :=
  ⟨h.globals.imp hPQ, fun f hf => (h.locals f hf).imp hPQ⟩

theorem lookup (h : e.All P) {name : String} {v : Val} (hv : e.lookup? name = some v) : P v := by
  rcases Option.or_eq_some_iff.1 hv with hlocal | ⟨-, hglobal⟩
  · obtain ⟨f, hf, hfv⟩ := List.exists_of_findSome?_eq_some hlocal
    exact h.locals f hf name v hfv
  · exact h.globals name v hglobal

theorem declare (h : e.All P) {name : String} {v : Val} (hv : P v) (hf : e.declare? name v = some f) : f.All P := by
  obtain ⟨-, rfl⟩ := Env.declare_eq_some hf
  obtain ⟨hglobals, hlocals⟩ := h
  rcases e with ⟨globals, _ | ⟨g, gs⟩⟩
  · exact ⟨hglobals.set hv name, hlocals⟩
  · obtain ⟨hg, hgs⟩ := List.forall_mem_cons.1 hlocals
    exact ⟨hglobals, List.forall_mem_cons.2 ⟨hg.set hv name, hgs⟩⟩

theorem assign (h : e.All P) {v : Val} (hv : P v) (name : String) : (e.assign name v).All P := by
  rcases assignIn?_cases name v e.locals with ⟨-, hnone⟩ | ⟨inner, g, outer, hfs, -, -, hsome⟩
  · rw [Env.assign, hnone]
    exact ⟨h.globals.set hv name, h.locals⟩
  · rw [Env.assign, hsome]
    have hlocals := h.locals
    rw [hfs] at hlocals
    obtain ⟨hinner, hrest⟩ := List.forall_mem_append.1 hlocals
    obtain ⟨hg, houter⟩ := List.forall_mem_cons.1 hrest
    exact ⟨h.globals, List.forall_mem_append.2 ⟨hinner, List.forall_mem_cons.2 ⟨hg.set hv name, houter⟩⟩⟩

theorem push (h : e.All P) {g : Frame} (hg : g.All P) : (e.push g).All P :=
  ⟨h.globals, List.forall_mem_cons.2 ⟨hg, h.locals⟩⟩

theorem pop (h : e.All P) : e.pop.All P :=
  ⟨h.globals, fun f hf => h.locals f (List.mem_of_mem_tail hf)⟩

theorem enter (h : e.All P) {arguments : Frame} (hg : arguments.All P) (dynamic : Bool) :
    (e.enter arguments dynamic).All P := by
  cases dynamic with
  | true => exact h.push hg
  | false => exact ⟨h.globals, List.forall_mem_singleton.2 hg⟩

theorem leave (hcaller : e.All P) (hcallee : f.All P) (dynamic : Bool) : (Env.leave e f dynamic).All P := by
  cases dynamic with
  | true => exact hcallee.pop
  | false => exact ⟨hcallee.globals, hcaller.locals⟩

end Env.All

end LevelScript
