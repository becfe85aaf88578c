/-
Plain values.

Operators, built-in functions and casts to another type compute with numbers, truth values and vectors: they make no
lists and no strings, and no error values (`plain_apply`, `Builtin.plain_call`, `Val.cast_cases`).
-/
import Mathlib.Tactic
import LevelScript.Evaluation.Machine

namespace LevelScript

open LevelScript.Syntax

namespace Val

/-- neither a list nor a string nor an error value -/
def Plain : Val → Prop
  | .list _ | .string _ | .error _ => False
  | _ => True

variable {v w : Val}

theorem Plain.type_ne_list (h : v.Plain) : v.type ≠ .list := by
  cases v with
  | list => exact h.elim
  | _ => exact nofun

/-- a cast keeps a value as it is, or makes a number of a number -/
theorem cast_cases {ty : Ty} {span : Option Span} (h : v.cast ty span = .ok w) : w = v ∨ v.Plain ∧ w.Plain := by
  unfold cast at h
  split_ifs at h with hty
  · cases h
    exact .inl rfl
  · right
    split at h
    · split at h <;> cases h
      exact ⟨trivial, trivial⟩
    · split at h <;> cases h
      exact ⟨trivial, trivial⟩
    · cases h

theorem plain_of_isVector (h : v.type.isVector = true) : v.Plain := by
  cases v with
  | list | string | error => cases h
  | _ => trivial

end Val

/-! ## Operators -/

/-- a result that is plain if there is one -/
def PlainResult (r : Except Interrupt (Option Val)) : Prop := ∀ v, r = .ok (some v) → v.Plain

theorem plain_ok {found : Option Val} (h : ∀ v, found = some v → v.Plain) : PlainResult (.ok found) := by
  intro v hv
  exact h v (Except.ok.inj hv)

theorem plain_none : PlainResult (.ok none) := plain_ok nofun

theorem plain_error (e : Interrupt) : PlainResult (.error e) := nofun

theorem plain_combine (whole : Int → Int → Int) (real : Float → Float → Float) (a b : Number) :
    PlainResult (some <$> a.combine whole real b) := by
  intro v hv
  cases a <;> cases b <;> simp only [Number.combine, Number.toFloat] at hv
  all_goals
    repeat' split at hv
    all_goals cases hv
    all_goals trivial

theorem plain_scaled (scale : Float → Float → Float) (n : Number) (v : Val) :
    PlainResult (do let x ← n.toFloat; return v.mapVector? (scale x)) := by
  intro w hw
  rcases hx : n.toFloat with e | x
  · rw [hx] at hw
    cases hw
  · rw [hx] at hw
    cases v <;> cases hw <;> trivial

theorem plain_zipped (f : Float → Float → Float) (a b : Val) : PlainResult (.ok (a.zipVector? f b)) := by
  refine plain_ok fun v hv => ?_
  cases a <;> cases b <;> cases hv <;> trivial

theorem plain_add (a b : Val) : PlainResult (a.add b) := by
  unfold Val.add
  split
  · exact plain_combine _ _ _ _
  · exact plain_zipped _ _ _

theorem plain_subtract (a b : Val) : PlainResult (a.subtract b) := by
  unfold Val.subtract
  split
  · exact plain_combine _ _ _ _
  · exact plain_zipped _ _ _

theorem plain_multiply (a b : Val) : PlainResult (a.multiply b) := by
  unfold Val.multiply
  split
  · exact plain_combine _ _ _ _
  · split_ifs
    · exact plain_scaled (fun x y => y * x) _ _
    · exact plain_none
  · split_ifs
    · exact plain_scaled (fun x y => x * y) _ _
    · exact plain_none
  · exact plain_none

theorem plain_divide (a b : Val) (span : Span) : PlainResult (a.divide b span) := by
  unfold Val.divide
  split
  · split_ifs
    · exact plain_error _
    · exact plain_combine _ _ _ _
  · split_ifs
    · exact plain_error _
    · exact plain_scaled (fun x y => y / x) _ _
    · exact plain_none
  · exact plain_none

theorem plain_compareWith (op : Operator) (a b : Val) : PlainResult (.ok (a.compareWith op b)) := by
  refine plain_ok fun v hv => ?_
  unfold Val.compareWith at hv
  repeat' split at hv
  all_goals cases hv
  all_goals trivial

theorem plain_operator (op : Operator) (a b : Val) (span : Span) : PlainResult <| op.apply? a b span := by
  cases op with
  | add => exact plain_add a b
  | sub => exact plain_subtract a b
  | mul => exact plain_multiply a b
  | div => exact plain_divide a b span
  | lt | gt | le | ge | eq => exact plain_compareWith _ a b

theorem plain_apply {op : Operator} {a b v : Val} {span : Span} (h : op.apply a b span = .ok v) : v.Plain := by
  unfold Operator.apply at h
  rcases hr : op.apply? a b span with e | found
  · rw [hr] at h
    cases h
  · rw [hr] at h
    cases found with
    | none => cases h
    | some w =>
      cases h
      exact plain_operator op a b span v hr

/-! ## Built-in functions -/

namespace Builtin

variable {norm : Float → Float → Float → Float}

theorem plain_inDomain {name : String} {f : Float → Float} {x : Float} {v : Val} (h : inDomain name f x = .ok v) :
    v.Plain := by
  simp only [inDomain] at h
  split_ifs at h
  cases h
  trivial

theorem plain_compute {b : Builtin} {arguments : List Val} {v : Val} (h : b.compute norm arguments = .ok v) :
    v.Plain := by
  unfold compute at h
  split at h
  case h_4 x y z =>
    simp only at h
    split_ifs at h <;> cases h <;> trivial
  case h_6 x =>
    split at h
    · exact plain_inDomain h
    · cases h
      trivial
  all_goals
    cases h
    trivial

/-- built-in functions give numbers, vectors or nothing -/
theorem plain_call {b : Builtin} {h : Heap} {depth : Nat} {arguments : List Val} {v : Val} {text : String}
    (hcall : b.call h depth arguments norm = .ok (v, text)) : v.Plain := by
  unfold call at hcall
  split at hcall
  · split at hcall
    · cases hcall
      trivial
    · cases hcall
  · rcases hcast : checkSignature b.name arguments b.signature with e | cast
    · rw [hcast] at hcall
      cases hcall
    · rcases hw : b.compute norm cast with e | w
      · simp only [hcast, hw, bind, Except.bind] at hcall
        cases hcall
      · simp only [hcast, hw, bind, Except.bind] at hcall
        cases hcall
        exact plain_compute hw

end Builtin

end LevelScript
