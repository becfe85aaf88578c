/-
Default arguments, and what becomes of a run with them.

`defaultArguments` walks the parameters by their places and gives each the initial value of its type; binding asks for
arguments by name and takes the last one. The two views agree exactly if parameters of one name have one type
(`Agreeing`). Then a run with the defaults starts the body with an initial value for every parameter. If two parameters
share a name but not a type, nothing keeps such a function from being declared, loaded and called with values, but the
default of the later one stands in for the earlier one and binding refuses it.
-/
import LevelScript.Proofs.DeclaredFunctions
import LevelScript.Proofs.GeneratorCalls

namespace LevelScript

open LevelScript.Syntax LevelScript.Generator

/-! ## Initial values -/

/-- the heap has all lists of another one as they are there, and perhaps more -/
structure Heap.Extends (before after : Heap) : Prop where
  size : before.cells.size ≤ after.cells.size
  items : ∀ a < before.cells.size, after.items a = before.items a

theorem Heap.Extends.refl (h : Heap) : h.Extends h := ⟨le_rfl, fun _ _ => rfl⟩

theorem Heap.Extends.trans {f g h : Heap} (hfg : f.Extends g) (hgh : g.Extends h) : f.Extends h :=
  ⟨hfg.size.trans hgh.size, fun a ha => (hgh.items a (ha.trans_le hfg.size)).trans (hfg.items a ha)⟩

theorem Heap.extends_insert (h : Heap) (items : Array Val) : h.Extends (h.insert items).2 := by
  refine ⟨by simp, fun a ha => ?_⟩
  rw [Heap.items_insert, if_neg ha.ne]

/-- the value that a type starts with: nothing, a falsehood, a zero in every component, no characters, or a new list
without items -/
inductive Initial (before after : Heap) : Ty → Val → Prop
  | void : Initial before after .void .void
  | bool : Initial before after .bool (.bool false)
  | int : Initial before after .int (.int 0)
  | float : Initial before after .float (.float 0.0)
  | vec2 : Initial before after .vec2 (.vec2 0.0 0.0)
  | vec3 : Initial before after .vec3 (.vec3 0.0 0.0 0.0)
  | string : Initial before after .string (.string "")
  | list {a : Nat} : before.cells.size ≤ a → a < after.cells.size → after.items a = #[] →
      Initial before after .list (.list a)

namespace Initial

variable {before middle after : Heap} {t : Ty} {v : Val}

theorem type_eq (h : Initial before after t v) : v.type = t := by
  cases h <;> rfl

/-- what happens to the heap before and after does not touch a new list -/
theorem mono {start : Heap} (h : Initial middle after t v) (hstart : start.Extends middle) {last : Heap}
    (hlast : after.Extends last) : Initial start last t v := by
  cases h with
  | list hnew hin hempty =>
    exact .list (hstart.size.trans hnew) (hin.trans_le hlast.size) ((hlast.items _ hin).trans hempty)
  | _ => constructor

end Initial

/-- a type that a script can name has an initial value -/
theorem Heap.defaultVal?_initial (h : Heap) {t : Ty} (ht : t ∈ Ty.declarable) :
    ∃ v after, h.defaultVal? t = some (v, after) ∧ Initial h after t v ∧ h.Extends after := by
  cases t with
  | void => exact ⟨_, _, rfl, .void, .refl h⟩
  | bool => exact ⟨_, _, rfl, .bool, .refl h⟩
  | int => exact ⟨_, _, rfl, .int, .refl h⟩
  | float => exact ⟨_, _, rfl, .float, .refl h⟩
  | vec2 => exact ⟨_, _, rfl, .vec2, .refl h⟩
  | vec3 => exact ⟨_, _, rfl, .vec3, .refl h⟩
  | string => exact ⟨_, _, rfl, .string, .refl h⟩
  | list =>
    have hempty : (h.insert #[]).2.items h.cells.size = #[] := by rw [Heap.items_insert, if_pos rfl]
    exact ⟨_, _, rfl, .list le_rfl (by simp) hempty, h.extends_insert #[]⟩
  | fn | nativeFn | error => simp [Ty.declarable] at ht

namespace Generator

/-! ## The arguments -/

/-- an argument for each parameter in its place, with the initial value of its type -/
def Defaults (before after : Heap) (params : List Parameter) (arguments : List Argument) : Prop :=
  List.Forall₂ (fun p a => Argument.name a = Parameter.name p ∧ Initial before after p.type a.val) params arguments

/-- every parameter gets a default argument, and lists that were there stay as they are -/
theorem defaultArguments_defaults (h : Heap) {params : List Parameter} (htypes : ∀ p ∈ params, p.type ∈ Ty.declarable) :
    ∃ arguments after, defaultArguments h params = .ok (arguments, after) ∧ Defaults h after params arguments ∧
      h.Extends after := by
  induction params generalizing h with
  | nil => exact ⟨[], h, rfl, .nil, .refl h⟩
  | cons p params ih =>
    obtain ⟨htype, hothers⟩ := List.forall_mem_cons.1 htypes
    obtain ⟨v, middle, hv, hinitial, hfirst⟩ := h.defaultVal?_initial htype
    obtain ⟨arguments, after, hrest, hdefaults, hgrown⟩ := ih middle hothers
    refine ⟨⟨p.name, v⟩ :: arguments, after, ?_, .cons ⟨rfl, hinitial.mono (.refl h) hgrown⟩ ?_, hfirst.trans hgrown⟩
    · simp only [defaultArguments, hv, hrest]
      rfl
    · exact hdefaults.imp fun _ _ hp => ⟨hp.1, hp.2.mono hfirst (.refl after)⟩

section Binding

variable {before after : Heap} {params : List Parameter} {arguments : List Argument} {p : Parameter} {v : Val}
  {cause : Cause}

/-- the default argument that is found under the name of a parameter is that of a parameter of this name -/
theorem Defaults.find? (h : Defaults before after params arguments) (hp : p ∈ params) :
    ∃ q ∈ params, ∃ a, q.name = p.name ∧ Generator.find? arguments p.name = some a ∧ Initial before after q.type a.val := by
  induction h with
  | nil => cases hp
  | @cons q a params arguments hhead hrest ih =>
    rw [find?_cons]
    rcases hfound : Generator.find? arguments p.name with _ | b
    · -- no later argument has the name, so the parameter is the first one
      rcases List.mem_cons.1 hp with rfl | hp
      · exact ⟨p, List.mem_cons_self, a, rfl, by simp [hhead.1], hhead.2⟩
      · obtain ⟨_, _, b, _, hb, _⟩ := ih hp
        rw [hfound] at hb
        cases hb
    · obtain ⟨hb, hname⟩ := mem_of_find? hfound
      obtain ⟨r, hr, hrname, hinitial⟩ : ∃ r ∈ params, b.name = r.name ∧ Initial before after r.type b.val :=
        counterpart hrest.flip hb
      exact ⟨r, List.mem_cons_of_mem _ hr, b, hrname.symm.trans hname, rfl, hinitial⟩

/-- what the defaults give a parameter is an initial value of its type -/
theorem Defaults.initial (h : Defaults before after params arguments) (hp : p ∈ params) (hgives : Gives arguments p v) :
    Initial before after p.type v := by
  obtain ⟨q, -, a, -, hfound, hinitial⟩ := h.find? hp
  obtain ⟨b, hb, htype, rfl⟩ := hgives
  cases hfound.symm.trans hb
  rwa [← show q.type = p.type from hinitial.type_eq.symm.trans htype]

/-- the defaults give a parameter no value only if another one of its name has another type -/
theorem Defaults.unbound (h : Defaults before after params arguments) (hp : p ∈ params)
    (hunbound : Unbound arguments p cause) :
    ∃ q ∈ params, q.name = p.name ∧ q.type ≠ p.type ∧ cause = .argumentType p.name p.type q.type := by
  obtain ⟨q, hq, a, hname, hfound, hinitial⟩ := h.find? hp
  have htype : a.type = q.type := hinitial.type_eq
  cases hunbound with
  | missing hnone => cases hfound.symm.trans hnone
  | mistyped hb hne =>
    cases hfound.symm.trans hb
    exact ⟨q, hq, hname, htype ▸ hne, by rw [htype]⟩

/-- parameters of one name have one type -/
def Agreeing (params : List Parameter) : Prop :=
  ∀ p ∈ params, ∀ q ∈ params, p.name = q.name → p.type = q.type

instance (params : List Parameter) : Decidable (Agreeing params) :=
  inferInstanceAs (Decidable (∀ p ∈ params, ∀ q ∈ params, p.name = q.name → p.type = q.type))

/-- parameters that any arguments can be bound to agree -/
theorem agreeing_of_bind {values : List Val} (h : bind params arguments = .ok values) : Agreeing params := by
  have hgives (p : Parameter) (hp : p ∈ params) : ∃ v, Gives arguments p v := by
    obtain ⟨v, -, hv⟩ := counterpart (bind_eq_ok.1 h) hp
    exact ⟨v, hv⟩
  intro p hp q hq hname
  obtain ⟨_, a, ha, hatype, -⟩ := hgives p hp
  obtain ⟨_, b, hb, hbtype, -⟩ := hgives q hq
  rw [hname, hb] at ha
  cases ha
  exact hatype.symm.trans hbtype

/-- defaults of parameters that agree can be bound, to an initial value for each -/
theorem Defaults.bind (h : Defaults before after params arguments) (hagree : Agreeing params) :
    ∃ values, Generator.bind params arguments = .ok values ∧
      List.Forall₂ (fun p v => Initial before after (Parameter.type p) v) params values := by
  rcases hbound : Generator.bind params arguments with cause | values
  · obtain ⟨front, p, back, hparams, -, hunbound⟩ := bind_eq_error.1 hbound
    have hp : p ∈ params := by simp [hparams]
    obtain ⟨q, hq, hname, hne, -⟩ := h.unbound hp hunbound
    exact absurd (hagree q hq p hp hname) hne
  · have hgives := bind_eq_ok.1 hbound
    refine ⟨values, rfl, List.forall₂_iff_get.2 ⟨hgives.length_eq, fun i hi hi' => ?_⟩⟩
    exact h.initial (List.getElem_mem hi) (hgives.get hi hi')

/-- defaults of parameters that do not agree cannot be bound -/
theorem Defaults.not_bind (h : Defaults before after params arguments) (hagree : ¬Agreeing params) :
    ∃ p ∈ params, ∃ q ∈ params, q.name = p.name ∧ q.type ≠ p.type ∧
      Generator.bind params arguments = .error (.argumentType p.name p.type q.type) := by
  rcases hbound : Generator.bind params arguments with cause | values
  · obtain ⟨front, p, back, hparams, -, hunbound⟩ := bind_eq_error.1 hbound
    have hp : p ∈ params := by simp [hparams]
    obtain ⟨q, hq, hname, hne, rfl⟩ := h.unbound hp hunbound
    exact ⟨p, hp, q, hq, hname, hne, rfl⟩
  · exact absurd (agreeing_of_bind hbound) hagree

end Binding

end Generator

/-! ## Runs with defaults -/

namespace Workspace

/-- **Defaults bind if the types of namesakes agree.** For every function that a loaded script declares and has under a
name: there is a default argument for each parameter. If parameters of one name have one type, the defaults are bound to
an initial value for every parameter, and the run answers with the end of the body. If they have not, binding fails at
a parameter that has a namesake of another type, and the body is not run. -/
theorem defaults_bind_if_types_agree {m : Manners} {w : Workspace} (hw : w.Reachable m) {number : Nat}
    (hl : (w.script number).loaded = true) {function : String} {owner : Nat} {decl : Function}
    (hname : (w.script number).get? function = some (.fn owner decl)) (hdecl : (w.script number).Declares decl) :
    let params := (w.script number).generatorParams function
    ∃ defaults heap, defaultArguments w.heap params = .ok (defaults, heap) ∧ w.heap.Extends heap ∧
      let start : Workspace := { w with heap := heap }
      let answer := start.generate number defaults function
      (Agreeing params → ∃ values env, Generator.bind params defaults = .ok values ∧
        List.Forall₂ (fun p v => Initial w.heap heap (Parameter.type p) v) params values ∧
        (w.script number).env = some env ∧ Tells answer number (start.bodyRun number env decl values)) ∧
      (¬Agreeing params → ∃ p ∈ params, ∃ q ∈ params, q.name = p.name ∧ q.type ≠ p.type ∧
        Generator.bind params defaults = .error (.argumentType p.name p.type q.type) ∧
        Refuses start number (.argumentType p.name p.type q.type) answer) := by
  intro params
  have hrest : (w.script number).AtRest := (rests m).reachable hw number
  have hparams : params = parametersOf decl.params := Script.generatorParams_of_get? hname
  have htypes : ∀ p ∈ params, p.type ∈ Ty.declarable := by
    have hall := hdecl.declarable ((reads m).reachable hw number)
    simpa [hparams, parametersOf] using hall
  obtain ⟨env, henv⟩ := hrest.loaded hl
  obtain ⟨defaults, heap, hdefaults, hinitial, hextends⟩ := defaultArguments_defaults w.heap htypes
  refine ⟨defaults, heap, hdefaults, hextends, fun hagree => ?_, fun hagree => ?_⟩
  · obtain ⟨values, hbound, hvalues⟩ := hinitial.bind hagree
    refine ⟨values, env, hbound, hvalues, henv, ?_⟩
    rw [generate_bound (w := { w with heap := heap }) hbound]
    have hsuits : Suits values decl.params := suits_of_bind (hparams ▸ hbound)
    exact call_tells_bodyRun (w := { w with heap := heap }) hl henv (hrest.locals env henv) hname hsuits
  · obtain ⟨p, hp, q, hq, hsame, hne, hbound⟩ := hinitial.not_bind hagree
    exact ⟨p, hp, q, hq, hsame, hne, hbound, generate_refuses hbound⟩

/-- two list parameters of one name start with one new list; an integer and a floating-point parameter of one name
cannot both have the default that is found -/
theorem defaults_bind_if_types_agree_namesakes :
    let agreeing := "list f(list xs, vec3 v, list xs) { return xs; }"
    let unlike := "int f(int a, float a) { return 1; }"
    let w := (({} : Workspace).load "level" agreeing).2
    let w' := (({} : Workspace).load "level" unlike).2
    (∃ defaults heap values, defaultArguments w.heap ((w.script 0).generatorParams "f") = .ok (defaults, heap) ∧
        Generator.bind ((w.script 0).generatorParams "f") defaults = .ok values ∧
        List.Forall₂ (Initial w.heap heap) [.list, .vec3, .list] values) ∧
      ∃ defaults heap cause, defaultArguments w'.heap ((w'.script 0).generatorParams "f") = .ok (defaults, heap) ∧
        Refuses { w' with heap := heap } 0 cause (({ w' with heap := heap } : Workspace).generate 0 defaults "f") := by
  intro agreeing unlike w w'
  have hstart : Workspace.Reachable .callers {} := .start
  have hsole (source : String) (types : List Parameter)
      (h : (soleFunction? .standard "level" source).map (fun decl => (decl.name, parametersOf decl.params)) = some ("f", types)) :
      let w := (({} : Workspace).load "level" source).2
      ∃ decl, (w.script 0).loaded = true ∧ (w.script 0).get? "f" = some (.fn 0 decl) ∧ (w.script 0).Declares decl ∧
        (w.script 0).generatorParams "f" = types := by
    intro w
    obtain ⟨decl, hdecl, hboth⟩ := Option.map_eq_some_iff.1 h
    obtain ⟨hname, rfl⟩ := Prod.mk.inj hboth
    obtain ⟨-, -, hl, hstatements, hget⟩ := load_soleFunction {} hdecl (by rw [hname]; decide +kernel) false
    rw [hname] at hget
    exact ⟨decl, hl, hget, ⟨_, hstatements ▸ List.mem_singleton_self _, .here decl⟩, Script.generatorParams_of_get? hget⟩
  constructor
  · obtain ⟨decl, hl, hget, hdeclares, hparams⟩ :=
      hsole agreeing [⟨"xs", .list⟩, ⟨"v", .vec3⟩, ⟨"xs", .list⟩] (by decide +kernel)
    obtain ⟨defaults, heap, hdefaults, -, hbinds, -⟩ := defaults_bind_if_types_agree hstart.load hl hget hdeclares
    obtain ⟨values, -, hbound, hvalues, -⟩ := hbinds (by rw [hparams]; decide)
    rw [hparams] at hvalues
    exact ⟨defaults, heap, values, hdefaults, hbound, List.forall₂_map_left_iff.2 hvalues⟩
  · obtain ⟨decl, hl, hget, hdeclares, hparams⟩ := hsole unlike [⟨"a", .int⟩, ⟨"a", .float⟩] (by decide +kernel)
    obtain ⟨defaults, heap, hdefaults, -, -, hfails⟩ := defaults_bind_if_types_agree hstart.load hl hget hdeclares
    obtain ⟨p, -, q, -, -, -, -, hrefuses⟩ := hfails (by rw [hparams]; decide)
    exact ⟨defaults, heap, _, hdefaults, hrefuses⟩

/-- a function whose two parameters share a name, but not a type, is loaded, and can be called with values; its defaults
cannot be bound, since the later one stands in for both -/
theorem unlike_namesakes_have_no_defaults :
    let w := (({} : Workspace).load "level" "int f(int a, float a) { return 1; }").2
    let params := (w.script 0).generatorParams "f"
    (w.script 0).loaded = true ∧ params = [⟨"a", .int⟩, ⟨"a", .float⟩] ∧
      (w.call 0 "f" [.int 0, .float 0.0]).1 = .ok (.int 1) ∧
      defaultArguments w.heap params = .ok ([⟨"a", .int 0⟩, ⟨"a", .float 0.0⟩], w.heap) ∧
      (∀ values, Generator.bind params [⟨"a", .int 0⟩, ⟨"a", .float 0.0⟩] ≠ .ok values) ∧
      (w.generate 0 [⟨"a", .int 0⟩, ⟨"a", .float 0.0⟩] "f").1 =
        .ok (.error "Invalid type for argument a: expected int, got float") := by
  intro w params
  have hparams : params = [⟨"a", .int⟩, ⟨"a", .float⟩] := by decide +kernel
  have hbound : Generator.bind params [⟨"a", .int 0⟩, ⟨"a", .float 0.0⟩] =
      .error (.argumentType "a" .int .float) := by
    rw [hparams]
    rfl
  refine ⟨by decide +kernel, hparams, ?_, ?_, ?_, (generate_refuses hbound).value⟩
  · have hequal : ((w.call 0 "f" [.int 0, .float 0.0]).1.bind fun v => w.heap.equal 1 v (.int 1)) = .ok true := by
      decide +kernel
    rcases hcall : (w.call 0 "f" [.int 0, .float 0.0]).1 with e | v
    · rw [hcall] at hequal
      cases hequal
    · rw [hcall] at hequal
      -- only the integer itself compares equal to it
      cases v with
      | int n =>
        have hn : n = 1 := of_decide_eq_true (Except.ok.inj hequal)
        rw [hn]
      | _ => cases hequal
  · rw [hparams]
    rfl
  · intro values h
    rw [hbound] at h
    cases h

end Workspace

end LevelScript
