/-
Frames and the declared types of their names.

`Types` are the names that declarations have bound in each frame, with the declared types; it is not part of a state
but what a reader of the program knows. An environment fits if each of these names has a value of exactly its declared
type in its own frame. Whatever a script does, an environment that fits goes on to fit (`fits_evolution`), and the
argument frame of a call fits the parameters of the function.
-/
import LevelScript.Proofs.Evolution
import LevelScript.Proofs.Frames

namespace LevelScript

open LevelScript.Syntax Eval

/-- the declared names of the globals and, innermost first, of the frames above them, with their types -/
structure Types where
  globals : List (String × Ty) := []
  locals : List (List (String × Ty)) := []

namespace Types

/-- more declarations in the innermost frame -/
def add (types : Types) (declarations : List (String × Ty)) : Types :=
  match types.locals with
  | [] => { types with globals := types.globals ++ declarations }
  | frame :: frames => { types with locals := (frame ++ declarations) :: frames }

def push (types : Types) (declarations : List (String × Ty)) : Types :=
  { types with locals := declarations :: types.locals }

/-- the frames of a call with the given declarations of arguments -/
def enter (types : Types) (declarations : List (String × Ty)) (dynamic : Bool) : Types :=
  if dynamic then types.push declarations else { types with locals := [declarations] }

@[simp] theorem add_nil (types : Types) : types.add [] = types := by
  unfold add
  rcases types with ⟨globals, _ | ⟨frame, frames⟩⟩ <;> simp

theorem add_append (types : Types) (a b : List (String × Ty)) : (types.add a).add b = types.add (a ++ b) := by
  rcases types with ⟨globals, _ | ⟨frame, frames⟩⟩ <;> simp [add]

end Types

/-- every declared name has a value of exactly its declared type in the frame -/
def Frame.Holds (f : Frame) (declarations : List (String × Ty)) : Prop :=
  ∀ name type, (name, type) ∈ declarations → ∃ v, f.get? name = some v ∧ v.type = type

/-- every declared name has a value of exactly its declared type in its own frame -/
structure Types.Fits (types : Types) (e : Env) : Prop where
  globals : e.globals.Holds types.globals
  locals : List.Forall₂ (fun declarations f => Frame.Holds f declarations) types.locals e.locals

namespace Frame

theorem holds_nil (f : Frame) : f.Holds [] := fun _ _ h => nomatch h

/-- a value of the same type can take the place of another -/
theorem Holds.set_same {f : Frame} {declarations : List (String × Ty)} (h : f.Holds declarations) {name : String}
    {old new : Val} (hold : f.get? name = some old) (htype : new.type = old.type) :
    (f.set name new).Holds declarations := by
  intro x type hx
  obtain ⟨v, hv, hvtype⟩ := h x type hx
  rw [get?_set]
  split_ifs with heq
  · rw [heq, hold] at hv
    cases hv
    exact ⟨new, rfl, htype.trans hvtype⟩
  · exact ⟨v, hv, hvtype⟩

/-- a free name is none of the declared ones -/
theorem Holds.set_free {f : Frame} {declarations : List (String × Ty)} (h : f.Holds declarations) {name : String}
    (hfree : f.binds name = false) (v : Val) : (f.set name v).Holds declarations := by
  intro x type hx
  obtain ⟨w, hw, hwtype⟩ := h x type hx
  have hne : x ≠ name := by
    rintro rfl
    rw [binds_of_get? hw] at hfree
    cases hfree
  exact ⟨w, by rw [get?_set, if_neg hne, hw], hwtype⟩

theorem Holds.declare {f : Frame} {declarations : List (String × Ty)} (h : f.Holds declarations) {name : String}
    (hfree : f.binds name = false) (v : Val) : (f.set name v).Holds (declarations ++ [(name, v.type)]) := by
  intro x type hx
  rcases List.mem_append.1 hx with hx | hx
  · exact h.set_free hfree v x type hx
  · cases List.mem_singleton.1 hx
    exact ⟨v, get?_set_self f name v, rfl⟩

end Frame

theorem forall₂_replace {α β : Type} {R : α → β → Prop} {b b' : β} (hb : ∀ a, R a b → R a b') {before after : List β}
    {as : List α} (h : List.Forall₂ R as (before ++ b :: after)) : List.Forall₂ R as (before ++ b' :: after) := by
  induction before generalizing as with
  | nil =>
    cases h with
    | cons hhead htail => exact .cons (hb _ hhead) htail
  | cons c before ih =>
    cases h with
    | cons hhead htail => exact .cons hhead (ih htail)

namespace Types.Fits

variable {types : Types} {e f : Env}

theorem push (h : types.Fits e) {frame : Frame} {declarations : List (String × Ty)}
    (hframe : frame.Holds declarations) :
    (types.push declarations).Fits (e.push frame) :=
  ⟨h.globals, .cons hframe h.locals⟩

theorem pop {declarations added : List (String × Ty)} (h : ((types.push declarations).add added).Fits f) :
    types.Fits f.pop := by
  obtain ⟨hglobals, hlocals⟩ := h
  refine ⟨hglobals, ?_⟩
  rw [Env.pop]
  rcases hfs : f.locals with _ | ⟨g, gs⟩ <;> rw [hfs] at hlocals
  · cases hlocals
  · exact (List.forall₂_cons.1 hlocals).2

theorem enter (h : types.Fits e) {frame : Frame} {declarations : List (String × Ty)} (hframe : frame.Holds declarations)
    (dynamic : Bool) : (types.enter declarations dynamic).Fits (e.enter frame dynamic) := by
  cases dynamic with
  | true => exact h.push hframe
  | false => exact ⟨h.globals, .cons hframe .nil⟩

theorem assign (h : types.Fits e) {name : String} {old new : Val} (hold : e.lookup? name = some old)
    (htype : new.type = old.type) : types.Fits (e.assign name new) := by
  obtain ⟨hglobals, hlocals⟩ := h
  rcases Env.assign_cases hold new with ⟨hget, he⟩ | ⟨inner, g, outer, hfs, hget, he⟩ <;> rw [he]
  · exact ⟨hglobals.set_same hget htype, hlocals⟩
  · refine ⟨hglobals, ?_⟩
    rw [hfs] at hlocals
    exact forall₂_replace (fun _ hg => hg.set_same hget htype) hlocals

theorem declare (h : types.Fits e) {name : String} {v : Val} (hf : e.declare? name v = some f) :
    (types.add [(name, v.type)]).Fits f := by
  obtain ⟨hfree, rfl⟩ := Env.declare_eq_some hf
  obtain ⟨hglobals, hlocals⟩ := h
  rcases types with ⟨globals, _ | ⟨frame, frames⟩⟩ <;> rcases e with ⟨base, _ | ⟨g, gs⟩⟩
  · exact ⟨hglobals.declare hfree v, .nil⟩
  · cases hlocals
  · cases hlocals
  · obtain ⟨hg, hgs⟩ := List.forall₂_cons.1 hlocals
    exact ⟨hglobals, .cons (hg.declare hfree v) hgs⟩

theorem leave {declarations added : List (String × Ty)} {dynamic : Bool} (he : types.Fits e)
    (h : ((types.enter declarations dynamic).add added).Fits f) : types.Fits (.leave e f dynamic) := by
  cases dynamic with
  | true => exact h.pop
  | false => exact ⟨h.globals, he.locals⟩

end Types.Fits

/-- an environment that fits goes on to fit, with what has been declared in between -/
theorem fits_evolution (m : Manners) :
    Evolution m fun declarations e f => ∀ types : Types, types.Fits e → (types.add declarations).Fits f where
  same e types h := by rwa [types.add_nil]
  andThen hef hfg types h := by
    rw [← Types.add_append]
    exact hfg _ (hef types h)
  assign hold htype types h := by
    rw [types.add_nil]
    exact h.assign hold htype
  declare hf types h := h.declare hf
  frame hf types h := by
    rw [types.add_nil]
    exact (hf _ (h.push (Frame.holds_nil _))).pop
  call hf types h := by
    rw [types.add_nil]
    exact h.leave (hf _ (h.enter (Frame.holds_nil _) _))
  install _ _ _ _ hfree types h := by
    rw [types.add_nil]
    exact ⟨h.globals.set_free hfree _, h.locals⟩

/-! ## Arguments -/

/-- the names and types that parameters declare; of several with one name, the last counts -/
def declaredParams : List Param → List (String × Ty)
  | [] => []
  | p :: ps =>
    if ps.any (·.name.name = p.name.name) then declaredParams ps else (p.name.name, p.type) :: declaredParams ps

/-- the arguments have exactly the types of the parameters -/
def Suits (arguments : List Val) (params : List Param) : Prop :=
  List.Forall₂ (fun v p => Val.type v = Param.type p) arguments params

theorem get?_bindAll_of_free {ps : List Param} {name : String} (h : ps.any (·.name.name = name) = false) (f : Frame)
    (vs : List Val) :
    (((ps.map (·.name.name)).zip vs).foldl (fun f b => f.set b.1 b.2) f).get? name = f.get? name := by
  induction ps generalizing f vs with
  | nil => rfl
  | cons p ps ih =>
    rw [List.any_cons, Bool.or_eq_false_iff] at h
    cases vs with
    | nil => rfl
    | cons v vs =>
      have hne : name ≠ p.name.name := fun heq => by simp [heq] at h
      rw [List.map_cons, List.zip_cons_cons, List.foldl_cons, ih h.2, Frame.get?_set, if_neg hne]

theorem holds_bindAll {ps : List Param} {vs : List Val} (h : Suits vs ps) (f : Frame) :
    (((ps.map (·.name.name)).zip vs).foldl (fun f b => f.set b.1 b.2) f).Holds (declaredParams ps) := by
  induction h generalizing f with
  | nil => exact Frame.holds_nil _
  | @cons v p vs ps hv hvs ih =>
    rw [List.map_cons, List.zip_cons_cons, List.foldl_cons, declaredParams]
    split_ifs with hlater
    · exact ih _
    · intro name type hmem
      rcases List.mem_cons.1 hmem with heq | hmem
      · cases heq
        refine ⟨v, ?_, hv⟩
        rw [get?_bindAll_of_free (by simpa using hlater), Frame.get?_set_self]
      · exact ih _ name type hmem

theorem holds_argumentFrame {decl : Function} {arguments : List Val} (h : Suits arguments decl.params) :
    (argumentFrame decl arguments).Holds (declaredParams decl.params) := holds_bindAll h _

/-- a call from the host goes ahead only with arguments of exactly the declared types -/
theorem suits_of_hostCallCause {name : String} {params : List Param} {arguments : List Val}
    (h : hostCallCause? name params arguments = none) : Suits arguments params := by
  unfold hostCallCause? at h
  split_ifs at h with hlength
  rw [List.findSome?_eq_none_iff] at h
  refine List.forall₂_iff_zip.2 ⟨not_not.1 hlength, fun {v p} hmem => ?_⟩
  have := h (v, p) hmem
  simpa using this

/-- the arguments of a call from a script, cast to the types of the parameters -/
def Eval.castAll (value : Expr → Eval Val) (arguments : List Expr) (params : List Param) : Eval (List Val) :=
  (arguments.zip params).mapM fun (e, p) => do Eval.ofExcept ((← value e).cast p.type e.span)

theorem keeps_castAll {R : State → State → Prop} [IsPreorder State R] {value : Expr → Eval Val}
    (h : ∀ e, Keeps R (value e)) (arguments : List Expr) (params : List Param) :
    Keeps R (castAll value arguments params) := by
  refine keeps_mapM fun p _ => ?_
  exact (h p.1).bind fun _ => keeps_ofExcept _

/-- a call from a script goes ahead only with arguments of exactly the declared types -/
theorem suits_of_castAll {value : Expr → Eval Val} {arguments : List Expr} {params : List Param} {s t : State}
    {values : List Val} (hlength : arguments.length = params.length)
    (h : castAll value arguments params s = (.ok values, t)) : Suits values params := by
  induction arguments generalizing params s values with
  | nil =>
    cases params with
    | nil =>
      cases h
      exact .nil
    | cons => cases hlength
  | cons e arguments ih =>
    cases params with
    | nil => cases hlength
    | cons p params =>
      rw [castAll, List.zip_cons_cons, List.mapM_cons] at h
      obtain ⟨v, u, hv, h⟩ := bind_eq_ok h
      obtain ⟨w, u', -, hw⟩ := bind_eq_ok hv
      obtain ⟨vs, r, hvs, h⟩ := bind_eq_ok h
      cases h
      exact .cons (Val.cast_type (congrArg Prod.fst hw)) (ih (by simpa using hlength) hvs)

end LevelScript
