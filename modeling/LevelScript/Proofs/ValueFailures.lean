/-
How casts and operators fail.

Conversions fail for a whole number beyond the range of floating-point numbers. All other failures of casts and
operators are faults, and their place is the one that the cast or the operator was given.
-/
import Mathlib.Tactic
import LevelScript.Value.Arithmetic

namespace LevelScript

open LevelScript.Syntax

/-- the result is a value, a failed conversion, or a fault at the given place -/
inductive FailsAt {α : Type} (span : Option Span) : Except Interrupt α → Prop where
  | ok (a : α) : FailsAt span (.ok a)
  | intTooLarge : FailsAt span (.error (.host .intTooLarge))
  | fault (cause : Cause) : FailsAt span (.error (.fault ⟨cause, span⟩))

namespace FailsAt

variable {α β : Type} {span : Option Span} {r : Except Interrupt α}

theorem bind {f : α → Except Interrupt β} (h : FailsAt span r) (hf : ∀ a, FailsAt span (f a)) :
    FailsAt span (r >>= f) := by
  cases h with
  | ok a => exact hf a
  | intTooLarge => exact .intTooLarge
  | fault cause => exact .fault cause

theorem map (h : FailsAt span r) (f : α → β) : FailsAt span (f <$> r) := by
  cases h with
  | ok a => exact .ok (f a)
  | intTooLarge => exact .intTooLarge
  | fault cause => exact .fault cause

end FailsAt

theorem Val.failsAt_cast (v : Val) (target : Ty) (span : Option Span) : FailsAt span (v.cast target span) := by
  unfold Val.cast
  split_ifs
  · exact .ok _
  · split
    · split
      · exact .ok _
      · exact .intTooLarge
    · split
      · exact .ok _
      · exact .fault _
    · exact .fault _

/-! ## Operators -/

section Operators

variable {span : Option Span} (a b : Val)

theorem Number.failsAt_toFloat (n : Number) : FailsAt span n.toFloat := by
  unfold Number.toFloat
  split
  · split
    · exact .ok _
    · exact .intTooLarge
  · exact .ok _

theorem Number.failsAt_combine (whole : Int → Int → Int) (real : Float → Float → Float) (m n : Number) :
    FailsAt span (some <$> m.combine whole real n) := by
  refine FailsAt.map ?_ some
  unfold Number.combine
  split
  · exact .ok _
  · exact (failsAt_toFloat _).bind fun x => (failsAt_toFloat _).bind fun y => .ok _

/-- a vector times or by a number, which is converted first -/
theorem Number.failsAt_scale (n : Number) (scale : Float → Option Val) :
    FailsAt span (do let x ← n.toFloat; return scale x) :=
  n.failsAt_toFloat.bind fun x => .ok (scale x)

theorem Val.failsAt_add : FailsAt span (a.add b) := by
  unfold Val.add
  split
  · exact Number.failsAt_combine _ _ _ _
  · exact .ok _

theorem Val.failsAt_subtract : FailsAt span (a.subtract b) := by
  unfold Val.subtract
  split
  · exact Number.failsAt_combine _ _ _ _
  · exact .ok _

theorem Val.failsAt_multiply : FailsAt span (a.multiply b) := by
  unfold Val.multiply
  split
  · exact Number.failsAt_combine _ _ _ _
  · split_ifs
    · exact Number.failsAt_scale _ _
    · exact .ok _
  · split_ifs
    · exact Number.failsAt_scale _ _
    · exact .ok _
  · exact .ok _

theorem Val.failsAt_divide (span : Span) : FailsAt span (a.divide b span) := by
  unfold Val.divide
  split
  · split_ifs
    · exact .fault _
    · exact Number.failsAt_combine _ _ _ _
  · split_ifs
    · exact .fault _
    · exact Number.failsAt_scale _ _
    · exact .ok _
  · exact .ok _

theorem Syntax.Operator.failsAt_apply (op : Operator) (span : Span) : FailsAt span (op.apply a b span) := by
  have hfound : FailsAt span <| op.apply? a b span := by
    cases op with
    | add => exact a.failsAt_add b
    | sub => exact a.failsAt_subtract b
    | mul => exact a.failsAt_multiply b
    | div => exact a.failsAt_divide b span
    | lt | gt | le | ge | eq => exact .ok _
  refine hfound.bind fun found => ?_
  cases found with
  | some v => exact .ok v
  | none => exact .fault _

end Operators

end LevelScript
