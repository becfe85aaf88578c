/-
The targets of assignments: what reading one and writing to it have in common, and where they part.

Both evaluate the list and the index of the target in the same way and the same order: `locate` does this alone, and
`resolve_eq` and `eval_eq` say that resolving a target is locating it and then taking the slot, and that evaluating it is
locating it and then reading there. A member of a member is the exception: writing to it skips the inner member.
-/
import LevelScript.Proofs.SteadyExpressions

namespace LevelScript

open LevelScript.Syntax Eval

/-- what a target names when its list and its index have been evaluated -/
inductive Place where
  | named (token : Token) (name : String)
  | item (address : Nat) (index : Val) (span : Span)

/-- evaluate the list and the index in a target; a member is in the place of its owner -/
def locate (setting : Setting) : Nat → Expr → Eval Place
  | 0, _ => throw (.host .tooDeep)
  | depth + 1, target => match target with
    | .symbol token name => return .named token name
    | .member _ owner _ => locate setting depth owner
    | .index _ owner place => do
      match ← eval setting depth owner with
      | .list a => return .item a (← eval setting depth place) place.span
      | v => Eval.fail (.expectedList v.type) owner.span
    | other => Eval.fail .invalidTarget other.span

namespace Place

/-- the slot of a place; a list grows to hold it -/
def slot : Place → Eval Slot
  | .named token name => do
    if (← Eval.lookup? name).isSome then return .binding name else Eval.fail (.undefinedSymbol name) token.span
  | .item a index span => growSlot a index span

def read : Place → Eval Val
  | .named token name => do
    match ← Eval.lookup? name with
    | some v => return v
    | none => Eval.fail (.undefinedSymbol name) token.span
  | .item a index span => readItem a index span

end Place

/-- what a target stands for in its place: the value there, or the member of it -/
def readTarget (target : Expr) (place : Place) : Eval Val :=
  match target with
  | .member token _ name => do readMember (← place.read) name token.span
  | _ => place.read

/-- a target built from names, members and indices, with indices that call nothing and assign nothing; if an index or a
member asks for the length of a list, `lengths` holds -/
inductive Syntax.Expr.Located (lengths : Prop) : Expr → Prop where
  | symbol {token : Token} {name : String} : Located lengths (.symbol token name)
  | member {token name : Token} {owner : Expr} :
      (name.name = "length" → lengths) → Located lengths owner → Located lengths (.member token owner name)
  | index {token : Token} {owner place : Expr} :
      Located lengths owner → place.Steady lengths → Located lengths (.index token owner place)

/-- a member of a member -/
def Syntax.Expr.nested : Expr → Bool
  | .member _ (.member ..) _ => true
  | _ => false

/-! ## Locating a target -/

section

variable {lengths : Prop}

/-- resolving a target is locating it and taking the slot there -/
theorem resolve_eq (setting : Setting) (depth : Nat) (target : Expr) :
    resolve setting depth target = locate setting depth target >>= Place.slot := by
  induction depth generalizing target with
  | zero => rfl
  | succ depth ih =>
    cases target with
    | symbol token name => rfl
    | member token owner name => exact ih owner
    | index token owner place =>
      simp only [resolve, locate, bind_assoc]
      congr 1
      funext v
      cases v with
      | list a => simp only [bind_assoc, pure_bind, Place.slot]
      | _ => rfl
    | _ => rfl

/-- evaluating a name or an item of a list is locating it and reading there -/
theorem eval_eq_read (setting : Setting) (depth : Nat) {target : Expr} (h : target.Located lengths)
    (hmember : ∀ token owner name, target ≠ .member token owner name) :
    eval setting depth target = locate setting depth target >>= Place.read := by
  cases depth with
  | zero => rfl
  | succ depth =>
    cases h with
    | symbol => rfl
    | member => exact absurd rfl (hmember _ _ _)
    | index =>
      simp only [eval, locate, bind_assoc]
      congr 1
      funext v
      cases v with
      | list a => simp only [bind_assoc, pure_bind, Place.read]
      | _ => rfl

/-- evaluating a target is locating it and reading there, unless it is a member of a member -/
theorem eval_eq (setting : Setting) (depth : Nat) {target : Expr} (h : target.Located lengths)
    (hsingle : target.nested = false) :
    eval setting depth target = locate setting depth target >>= readTarget target := by
  have hread := eval_eq_read setting depth h
  cases h with
  | symbol => exact hread nofun
  | index => exact hread nofun
  | @member token name owner _ ho =>
    cases depth with
    | zero => rfl
    | succ depth =>
      have howner : ∀ token inner name, owner ≠ .member token inner name := by
        rintro token inner name rfl
        cases hsingle
      calc eval setting (depth + 1) (.member token owner name)
          = eval setting depth owner >>= fun v => readMember v name token.span := rfl
        _ = (locate setting depth owner >>= Place.read) >>= fun v => readMember v name token.span := by
          rw [eval_eq_read setting depth ho howner]
        _ = locate setting (depth + 1) (.member token owner name) >>= readTarget (.member token owner name) := by
          rw [bind_assoc]
          rfl

theorem Syntax.Expr.Located.steady {e : Expr} (h : e.Located lengths) : e.Steady lengths := by
  induction h with
  | symbol => exact .symbol
  | member hlength _ ih => exact .member hlength ih
  | index _ hp ih => exact .index ih hp

/-- locating a target only makes lists -/
theorem appends_locate (setting : Setting) (depth : Nat) {target : Expr} (h : target.Located lengths) :
    Keeps Appends (locate setting depth target) := by
  induction depth generalizing target with
  | zero => exact keeps_throw _
  | succ depth ih =>
    cases h with
    | symbol => exact keeps_pure _
    | member _ ho => exact ih ho
    | index ho hp =>
      refine (appends_eval setting depth ho.steady).bind fun v => ?_
      split
      · exact (appends_eval setting depth hp).bind fun i => keeps_pure _
      · exact keeps_fail _ _

end

/-! ## The slot and the value in a place -/

/-- taking the slot of a place makes lists grow, and that is all -/
theorem grows_slot {place : Place} {slot : Slot} {s t : State} (h : place.slot s = (.ok slot, t)) : Grows s t := by
  cases place with
  | named token name =>
    obtain ⟨found, u, hu, hslot⟩ := bind_eq_ok h
    cases hu
    split_ifs at hslot
    · cases hslot
      exact ⟨rfl, le_rfl, fun _ _ _ _ h => h⟩
    · cases hslot
  | item a index span =>
    obtain ⟨m, -, -, -, -, rfl⟩ := growSlot_eq_ok h
    refine ⟨rfl, (Heap.size_modify _ _ _).ge, fun b hb i v hv => ?_⟩
    rw [Heap.items_modify]
    split_ifs
    · exact getElem?_grown _ hv
    · exact hv

/-- a named place, or an item of a list that has been made -/
def Place.Within (size : Nat) : Place → Prop
  | .named .. => True
  | .item a .. => a < size

/-- **One place.** The slot of a place holds the value that is read there when the slot has been taken. -/
theorem slot_holds_read {place : Place} {slot : Slot} {s t : State} (h : place.slot s = (.ok slot, t))
    (hwithin : place.Within s.heap.cells.size) : ∃ v, slot.get t = (.ok v, t) ∧ place.read t = (.ok v, t) := by
  cases place with
  | named token name =>
    obtain ⟨found, u, hu, hslot⟩ := bind_eq_ok h
    cases hu
    split_ifs at hslot with hsome
    · cases hslot
      obtain ⟨v, hv⟩ := Option.isSome_iff_exists.1 hsome
      have hlookup : lookup? name s = (.ok (some v), s) := congrArg (fun found => (Except.ok found, s)) hv
      exact ⟨v, run_bind_ok hlookup _, run_bind_ok hlookup _⟩
    · cases hslot
  | item a index span =>
    obtain ⟨m, hm, hpos, -, rfl, rfl⟩ := growSlot_eq_ok h
    have hitems : (s.heap.modify a (grown m.toNat)).items a = grown m.toNat (s.heap.items a) := by
      rw [Heap.items_modify, if_pos ⟨rfl, hwithin⟩]
    obtain ⟨v, hv⟩ : ∃ v, (grown m.toNat (s.heap.items a))[m.toNat]? = some v :=
      ⟨_, Array.getElem?_eq_getElem (lt_size_grown m.toNat (s.heap.items a))⟩
    rw [← hitems] at hv
    refine ⟨v, ?_, readItem_eq_ok.2 ⟨m, hm, hpos, hv, rfl⟩⟩
    rw [Slot.get, run_bind_ok (m := items a) rfl, hv]
    rfl


end LevelScript
