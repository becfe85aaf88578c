/-
Division.

What truncates a quotient is one number, whichever way it is found (`Truncates.unique`): by rounding toward zero, or from the
magnitudes and a test of the signs. Division by a number fails with the fault of its own exactly if the number is a zero, and
of the three zeros two are floating-point ones, which only their sign bit tells apart.
-/
import Mathlib
import LevelScript.Proofs.StaticTypes

namespace LevelScript

open LevelScript.Syntax Eval

/-! ## Quotients of whole numbers -/

section Quotients

variable {a b q q' : Int}

/-- the quotient without its fraction: what remains of the dividend is smaller than the divisor and has the sign of the
dividend, unless nothing remains -/
def Truncates (a b q : Int) : Prop :=
  ∃ r, a = q * b + r ∧ |r| < |b| ∧ (r = 0 ∨ r.sign = a.sign)

/-- what remains lies between zero and the dividend -/
theorem Truncates.between (h : Truncates a b q) : (0 ≤ a → 0 ≤ a - q * b) ∧ (a ≤ 0 → a - q * b ≤ 0) := by
  obtain ⟨r, hsplit, -, hsign⟩ := h
  have hr : a - q * b = r := by omega
  rw [hr]
  rcases hsign with rfl | hsign
  · simp
  · exact ⟨fun ha => Int.sign_nonneg_iff.1 (hsign ▸ Int.sign_nonneg_iff.2 ha),
      fun ha => Int.sign_nonpos_iff.1 (hsign ▸ Int.sign_nonpos_iff.2 ha)⟩

theorem Truncates.unique (h : Truncates a b q) (h' : Truncates a b q') : q = q' := by
  obtain ⟨hpos, hneg⟩ := h.between
  obtain ⟨hpos', hneg'⟩ := h'.between
  obtain ⟨r, hsplit, hr, -⟩ := h
  obtain ⟨r', hsplit', hr', -⟩ := h'
  -- both remainders lie on the same side of zero, so they differ by less than the divisor
  have hdiff : |r - r'| < |b| := by
    rcases Int.le_total 0 a with ha | ha
    · have := hpos ha
      have := hpos' ha
      rw [abs_lt] at hr hr' ⊢
      omega
    · have := hneg ha
      have := hneg' ha
      rw [abs_lt] at hr hr' ⊢
      omega
  have hmul : (q' - q) * b = r - r' := by
    rw [Int.sub_mul]
    omega
  have hzero : q' - q = 0 := by
    by_contra hne
    have hone : 1 ≤ |q' - q| := Int.one_le_abs hne
    rw [← hmul, abs_mul] at hdiff
    exact hdiff.not_ge (le_mul_of_one_le_left (abs_nonneg b) hone)
  omega

theorem truncates_tdiv (a : Int) (hb : b ≠ 0) : Truncates a b (a.tdiv b) := by
  refine ⟨a.tmod b, ?_, ?_, ?_⟩
  · rw [Int.mul_comm, Int.mul_tdiv_add_tmod]
  · rw [Int.abs_eq_natAbs, Int.abs_eq_natAbs, Int.natAbs_tmod]
    exact_mod_cast Nat.mod_lt _ (Int.natAbs_pos.2 hb)
  · by_cases hdvd : b ∣ a
    · exact .inl (Int.tmod_eq_zero_of_dvd hdvd)
    · exact .inr (by rw [Int.sign_tmod, if_neg hdvd])

theorem truncates_neg_left (h : Truncates a b q) : Truncates (-a) b (-q) := by
  obtain ⟨r, rfl, hr, hsign⟩ := h
  refine ⟨-r, by rw [Int.neg_mul]; omega, by rwa [abs_neg], ?_⟩
  rcases hsign with rfl | hsign
  · exact .inl rfl
  · exact .inr (by rw [Int.sign_neg, Int.sign_neg, hsign])

theorem truncates_neg_right (h : Truncates a b q) : Truncates a (-b) (-q) := by
  obtain ⟨r, hsplit, hr, hsign⟩ := h
  exact ⟨r, by rwa [Int.neg_mul_neg], by rwa [abs_neg], hsign⟩

/-- the test of the signs is right in all four quadrants, and for a dividend that is zero -/
theorem truncates_quotientOfMagnitudes (a : Int) (hb : b ≠ 0) : Truncates a b (quotientOfMagnitudes a b) := by
  rcases eq_or_ne a 0 with rfl | hne
  · exact ⟨0, by simp [quotientOfMagnitudes], by simpa using hb, .inl rfl⟩
  have hmagnitudes : Truncates |a| |b| (a.natAbs / b.natAbs : Nat) := by
    rw [Int.natCast_ediv, ← Int.abs_eq_natAbs, ← Int.abs_eq_natAbs, ← Int.tdiv_eq_ediv_of_nonneg (abs_nonneg a)]
    exact truncates_tdiv _ (abs_ne_zero.2 hb)
  simp only [quotientOfMagnitudes]
  rcases Int.le_total 0 a with ha | ha <;> rcases Int.le_total 0 b with hb' | hb'
  · rw [if_pos (by omega)]
    rwa [abs_of_nonneg ha, abs_of_nonneg hb'] at hmagnitudes
  · rw [if_neg (by omega)]
    rw [abs_of_nonneg ha, abs_of_nonpos hb'] at hmagnitudes
    simpa using truncates_neg_right hmagnitudes
  · rw [if_neg (by omega)]
    rw [abs_of_nonpos ha, abs_of_nonneg hb'] at hmagnitudes
    simpa using truncates_neg_left hmagnitudes
  · rw [if_pos (by omega)]
    rw [abs_of_nonpos ha, abs_of_nonpos hb'] at hmagnitudes
    simpa using truncates_neg_left (truncates_neg_right hmagnitudes)

/-- rounding toward zero and testing the signs are one -/
theorem tdiv_eq_quotientOfMagnitudes (a : Int) (hb : b ≠ 0) : a.tdiv b = quotientOfMagnitudes a b :=
  (truncates_tdiv a hb).unique (truncates_quotientOfMagnitudes a hb)

theorem quotientOfMagnitudes_neg_left (a : Int) (hb : b ≠ 0) : quotientOfMagnitudes (-a) b = -quotientOfMagnitudes a b := by
  rw [← tdiv_eq_quotientOfMagnitudes _ hb, ← tdiv_eq_quotientOfMagnitudes _ hb, Int.neg_tdiv]

theorem quotientOfMagnitudes_neg_right (a : Int) (hb : b ≠ 0) : quotientOfMagnitudes a (-b) = -quotientOfMagnitudes a b := by
  rw [← tdiv_eq_quotientOfMagnitudes _ (Int.neg_ne_zero.2 hb), ← tdiv_eq_quotientOfMagnitudes _ hb, Int.tdiv_neg]

end Quotients

/-! ## Zeros -/

def zeros : List Val := [.int 0, .float 0.0, .float (-0.0)]

/-- just the two zeros are equal to zero -/
theorem beq_zero_iff {x : Float} : (x == 0.0) = true ↔ x = 0.0 ∨ x = -0.0 := by
  rw [Float.beq_iff_ne_nan_and_eq]
  constructor
  · rintro ⟨-, -, heq | ⟨-, hzero⟩ | ⟨heq, -⟩⟩
    · exact .inl heq
    · cases hzero
    · exact .inr heq
  · rintro (rfl | rfl)
    · exact ⟨by decide, by decide, .inl rfl⟩
    · exact ⟨by decide, by decide, .inr (.inr ⟨rfl, rfl⟩)⟩

theorem isZero_iff {v : Val} : v.IsZero ↔ v ∈ zeros := by
  cases v with
  | int n => simp [Val.IsZero, Val.number?, Number.isZero, zeros]
  | float x => simp [Val.IsZero, Val.number?, Number.isZero, zeros, beq_zero_iff]
  | _ => simp [Val.IsZero, Val.number?, zeros]

/-! ## Quotients of values -/

section Values

variable {v w : Val} {span : Span}

def Raises (code : String) (result : Except Interrupt Val) : Prop :=
  ∃ f, result = .error (.fault f) ∧ f.cause.code = code

/-- what can be divided: numbers and vectors -/
def Val.Divisible (v : Val) : Prop := v.type = .int ∨ v.type = .float ∨ v.type.isVector = true

theorem apply_div_ints {a b : Int} (hb : b ≠ 0) :
    Operator.div.apply (.int a) (.int b) span = .ok (.int (quotientOfMagnitudes a b)) := by
  refine apply_of_some ?_
  have hzero : (Number.int b).isZero = false := by simpa [Number.isZero] using hb
  simp only [Val.divide, Operator.apply?, Val.number?, hzero, Bool.false_eq_true, if_false]
  rfl

theorem apply_div_zero (hv : v.Divisible) (hw : w.IsZero) :
    Operator.div.apply v w span = .error (.at .divisionByZero span) := by
  obtain ⟨n, hn, hzero⟩ := hw
  refine apply_of_error ?_
  rcases hnumber : v.number? with _ | m
  · have hvector : v.type.isVector = true := by
      rcases hv with hint | hfloat | hvector
      · cases v <;> cases hint
        cases hnumber
      · cases v <;> cases hfloat
        cases hnumber
      · exact hvector
    simp only [Val.divide, Operator.apply?, hnumber, hn, hvector, hzero, if_true]
  · simp only [Val.divide, Operator.apply?, hnumber, hn, hzero, if_true]

/-- division by anything but a zero can only fail because of the types of its operands, or of a whole number that is too
large -/
theorem not_raises_div (hw : ¬w.IsZero) : ¬Raises Cause.divisionByZero.code (Operator.div.apply v w span) := by
  rintro ⟨f, hf, hcode⟩
  by_cases htyped : ∃ t, Operator.div.Yields v.type w.type t
  · obtain ⟨t, ht⟩ := htyped
    rcases apply_typed ht span with ⟨v', hok, -⟩ | ⟨-, hzero, -⟩ | ⟨-, hlarge⟩
    · rw [hok] at hf
      cases hf
    · exact hw hzero
    · rw [hlarge] at hf
      cases hf
  · rw [apply_untyped (not_exists.1 htyped) span] at hf
    cases hf
    have hcodes : "E204" = "E209" := hcode
    exact absurd hcodes (by decide)

theorem apply_sub_from_zero (a : Int) : Operator.sub.apply (.int 0) (.int a) span = .ok (.int (-a)) := by
  refine apply_of_some ?_
  simp only [Val.subtract, Operator.apply?, Val.number?, Number.negated, Number.combine, Int.zero_add]

end Values

/-! ## Quotients in scripts -/

section Runs

variable {setting : Setting} {depth : Nat} {left right : Expr} {s t u : State} {v w : Val}

theorem eval_binary (hleft : eval setting depth left s = (.ok v, t)) (hright : eval setting depth right t = (.ok w, u))
    (token : Token) (op : Operator) :
    eval setting (depth + 1) (.binary token left op right) s = (op.apply v w token.span, u) := by
  rw [eval, run_bind_ok hleft, run_bind_ok hright, run_ofExcept]

/-- nothing can be divided by a zero -/
theorem eval_div_zero (hleft : eval setting depth left s = (.ok v, t)) (hright : eval setting depth right t = (.ok w, u))
    (hv : v.Divisible) (hw : w ∈ zeros) (token : Token) :
    eval setting (depth + 1) (.binary token left .div right) s = (.error (.at .divisionByZero token.span), u) := by
  rw [eval_binary hleft hright, apply_div_zero hv (isZero_iff.2 hw)]

theorem eval_zero (s : State) (zero : Token) : eval setting (depth + 1) (.int zero 0) s = (.ok (.int 0), s) := by
  rw [eval]
  rfl

/-- a whole number taken from nothing -/
theorem eval_negated {e : Expr} {a : Int} (h : eval setting depth e s = (.ok (.int a), t)) (minus zero : Token) :
    eval setting (depth + 1) (.binary minus (.int zero 0) .sub e) s = (.ok (.int (-a)), t) := by
  cases depth with
  | zero => cases h
  | succ depth => rw [eval_binary (eval_zero s zero) h, apply_sub_from_zero]

/-- the ways to write a negated quotient: with the dividend, the divisor or the quotient taken from nothing -/
inductive NegatedQuotient (left right : Expr) : Expr → Prop
  | dividend (token minus zero : Token) :
      NegatedQuotient left right (.binary token (.binary minus (.int zero 0) .sub left) .div right)
  | divisor (token minus zero : Token) :
      NegatedQuotient left right (.binary token left .div (.binary minus (.int zero 0) .sub right))
  | quotient (token minus zero : Token) :
      NegatedQuotient left right (.binary minus (.int zero 0) .sub (.binary token left .div right))

section Negation

variable {a b : Int} {e : Expr} (hleft : eval setting depth left s = (.ok (.int a), t))
  (hleft' : eval setting (depth + 1) left s = (.ok (.int a), t))
  (hright : eval setting depth right t = (.ok (.int b), u))
  (hright' : eval setting (depth + 1) right t = (.ok (.int b), u))

include hleft hleft' hright hright'

theorem eval_negatedQuotient (h : NegatedQuotient left right e) (hb : b ≠ 0) :
    eval setting (depth + 2) e s = (.ok (.int (-quotientOfMagnitudes a b)), u) := by
  cases h with
  | dividend token minus zero =>
    rw [eval_binary (eval_negated hleft minus zero) hright', apply_div_ints hb,
      quotientOfMagnitudes_neg_left a hb]
  | divisor token minus zero =>
    rw [eval_binary hleft' (eval_negated hright minus zero), apply_div_ints (Int.neg_ne_zero.2 hb),
      quotientOfMagnitudes_neg_right a hb]
  | quotient token minus zero =>
    refine eval_negated ?_ minus zero
    rw [eval_binary hleft hright, apply_div_ints hb]

theorem raises_negatedQuotient (h : NegatedQuotient left right e) (hb : b = 0) :
    Raises "E209" (eval setting (depth + 2) e s).1 := by
  subst hb
  have hzero : Val.int 0 ∈ zeros := List.mem_cons_self
  cases h with
  | dividend token minus zero =>
    rw [eval_div_zero (eval_negated hleft minus zero) hright' (.inl rfl) hzero]
    exact ⟨_, rfl, rfl⟩
  | divisor token minus zero =>
    rw [eval_div_zero hleft' (eval_negated hright minus zero) (.inl rfl) hzero]
    exact ⟨_, rfl, rfl⟩
  | quotient token minus zero =>
    rw [eval, run_bind_ok (eval_zero s zero), run_bind_error (eval_div_zero hleft hright (.inl rfl) hzero token)]
    exact ⟨_, rfl, rfl⟩

end Negation

/-- **Division truncates toward zero.** Of two whole numbers, the second not zero, a quotient is the whole number that
truncates it. A number or a vector through the whole number zero, or through a floating-point zero of either sign, raises
E209, and through any other number nothing does. So a quotient of whole numbers can be negated in its dividend, in its divisor
or as a whole: all three come to one number, or all three raise E209. -/
theorem division_truncates_toward_zero (hleft : eval setting depth left s = (.ok v, t))
    (hright : eval setting depth right t = (.ok w, u)) (token : Token) :
    (∀ a b, v = .int a → w = .int b → b ≠ 0 →
      ∃ q, Truncates a b q ∧ eval setting (depth + 1) (.binary token left .div right) s = (.ok (.int q), u)) ∧
    (w ∈ zeros → v.Divisible → Raises "E209" (eval setting (depth + 1) (.binary token left .div right) s).1) ∧
    (w ∉ zeros → ¬Raises "E209" (eval setting (depth + 1) (.binary token left .div right) s).1) ∧
    (∀ a b, v = .int a → w = .int b → eval setting (depth + 1) left s = (.ok v, t) →
      eval setting (depth + 1) right t = (.ok w, u) →
        (b ≠ 0 → ∃ q, ∀ e, NegatedQuotient left right e → eval setting (depth + 2) e s = (.ok (.int q), u)) ∧
        (b = 0 → ∀ e, NegatedQuotient left right e → Raises "E209" (eval setting (depth + 2) e s).1)) := by
  refine ⟨?_, fun hw hv => ?_, fun hw => ?_, ?_⟩
  · rintro a b rfl rfl hb
    exact ⟨_, truncates_quotientOfMagnitudes a hb, by rw [eval_binary hleft hright, apply_div_ints hb]⟩
  · rw [eval_div_zero hleft hright hv hw]
    exact ⟨_, rfl, rfl⟩
  · rw [eval_binary hleft hright]
    exact not_raises_div (mt isZero_iff.1 hw)
  · rintro a b rfl rfl hleft' hright'
    exact ⟨fun hb => ⟨_, fun e he => eval_negatedQuotient hleft hleft' hright hright' he hb⟩,
      fun hb e he => raises_negatedQuotient hleft hleft' hright hright' he hb⟩

/-- `(0 - 7) / 2` is -3 -/
theorem division_truncates_minus_seven_halves :
    eval {} 3 (.binary default (.binary default (.int default 0) .sub (.int default 7)) .div (.int default 2)) {} =
      (.ok (.int (-3)), {}) := by
  have hleft : eval {} 2 (.binary default (.int default 0) .sub (.int default 7)) {} = (.ok (.int (-7)), {}) :=
    eval_negated (by rw [eval]; rfl) default default
  have hright : eval {} 2 (.int default 2) {} = (.ok (.int 2), {}) := by
    rw [eval]
    rfl
  obtain ⟨q, hq, hrun⟩ := (division_truncates_toward_zero hleft hright default).1 (-7) 2 rfl rfl (by decide)
  have hthree : Truncates (-7) 2 (-3) := ⟨-1, by decide, by decide, by decide⟩
  rw [hrun, hq.unique hthree]

end Runs

end LevelScript
