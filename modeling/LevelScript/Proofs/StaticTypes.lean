/-
Static types of formulas.

A formula is an expression of literals, variables, operators, casts, components and lengths of lists. `HasType` gives
formulas their types by the tables of operators, casts and members alone. `formulas_have_types` relates these types to
the evaluator, in any state that binds the variables as they are declared, by induction on the formula:

- a formula with a type comes to a value of this type, or it breaks: it divides by zero, casts an infinity or NaN to a
  whole number, or turns a whole number into a floating-point one that is too large for it. `Breaks` names the part of
  the formula where this happens and the value that it happens to;
- a formula without a type never comes to a value.

A run also ends without a value if the formula is higher than the depth that the run may spend, which for a script is
that of its platform: `tall_sum_has_no_value`.
-/
import LevelScript.Proofs.Slots

namespace LevelScript

open LevelScript.Syntax Eval

/-! ## The tables -/

namespace Syntax

def Operator.arithmetic : List Operator := [.add, .sub, .mul, .div]

def Operator.comparisons : List Operator := [.lt, .gt, .le, .ge, .eq]

/-- the type of the result of an operator on operands of two types -/
inductive Operator.Yields : Operator → Ty → Ty → Ty → Prop
  | numbers {op : Operator} {t u : Ty} : op ∈ Operator.arithmetic → t.isNumeric = true → u.isNumeric = true →
      Yields op t u (if t = .int ∧ u = .int then .int else .float)
  | vectors {op : Operator} {t : Ty} : op ∈ [Operator.add, .sub] → t.isVector = true → Yields op t t t
  | scaled {op : Operator} {t u : Ty} : op ∈ [Operator.mul, .div] → t.isVector = true → u.isNumeric = true →
      Yields op t u t
  | scaling {t u : Ty} : t.isNumeric = true → u.isVector = true → Yields .mul t u u
  | compared {op : Operator} {t u : Ty} : op ∈ Operator.comparisons → t.isNumeric = true → u.isNumeric = true →
      Yields op t u .bool
  | equal : Yields .eq .bool .bool .bool

end Syntax

/-- the casts that are defined: to the same type, and between the types of numbers -/
inductive Ty.CastsTo : Ty → Ty → Prop
  | same (t : Ty) : CastsTo t t
  | widened : CastsTo .int .float
  | truncated : CastsTo .float .int

/-- the components of the types of vectors -/
inductive Ty.HasComponent : Ty → String → Prop
  | pair {name : String} : name ∈ ["x", "y"] → HasComponent .vec2 name
  | triple {name : String} : name ∈ ["x", "y", "z"] → HasComponent .vec3 name

/-! ## Formulas and their types -/

/-- the types of the variables that a formula computes with -/
def scalarTypes : List Ty := [.bool, .int, .float, .vec2, .vec3]

namespace Syntax.Expr

/-- an expression of number literals, variables with the declared types `Γ`, operators, casts, components of vectors and
lengths of lists -/
inductive Formula (Γ : String → Option Ty) : Expr → Prop
  | int (token : Token) (n : Nat) : Formula Γ (.int token n)
  | float (token : Token) (x : Float) : Formula Γ (.float token x)
  | variable {token : Token} {name : String} {t : Ty} : Γ name = some t → t ∈ scalarTypes →
      Formula Γ (.symbol token name)
  | length {token own member : Token} {name : String} : Γ name = some .list → member.name = "length" →
      Formula Γ (.member token (.symbol own name) member)
  | binary {token : Token} {left right : Expr} {op : Operator} : Formula Γ left → Formula Γ right →
      Formula Γ (.binary token left op right)
  | cast {token : Token} {t : Ty} {e : Expr} : Formula Γ e → Formula Γ (.cast token t e)
  | component {token member : Token} {e : Expr} : Formula Γ e → member.name ∈ ["x", "y", "z"] →
      Formula Γ (.member token e member)

/-- the static type of an expression whose variables have the declared types `Γ` -/
inductive HasType (Γ : String → Option Ty) : Expr → Ty → Prop
  | int (token : Token) (n : Nat) : HasType Γ (.int token n) .int
  | float (token : Token) (x : Float) : HasType Γ (.float token x) .float
  | variable {token : Token} {name : String} {t : Ty} : Γ name = some t → t ∈ scalarTypes →
      HasType Γ (.symbol token name) t
  | length {token own member : Token} {name : String} : Γ name = some .list → member.name = "length" →
      HasType Γ (.member token (.symbol own name) member) .int
  | binary {token : Token} {left right : Expr} {op : Operator} {t u w : Ty} : HasType Γ left t → HasType Γ right u →
      op.Yields t u w → HasType Γ (.binary token left op right) w
  | cast {token : Token} {t u : Ty} {e : Expr} : HasType Γ e t → t.CastsTo u → HasType Γ (.cast token u e) u
  | component {token member : Token} {e : Expr} {t : Ty} : HasType Γ e t → t.HasComponent member.name →
      HasType Γ (.member token e member) .float

/-- how many levels of nesting a formula has -/
def height : Expr → Nat
  | .binary _ left _ right => max left.height right.height + 1
  | .cast _ _ e => e.height + 1
  | .member _ e _ => e.height + 1
  | _ => 1

end Syntax.Expr

/-- the state binds every declared variable to a value of its type -/
def State.Binds (s : State) (Γ : String → Option Ty) : Prop :=
  ∀ name t, Γ name = some t → ∃ v, s.env.lookup? name = some v ∧ v.type = t

def Val.IsZero (v : Val) : Prop := ∃ n, v.number? = some n ∧ n.isZero = true

/-- a whole number that no floating-point number is near -/
def Val.TooLarge (v : Val) : Prop := ∃ n, v = .int n ∧ Decimal.ofInt? n = none

/-- the part of a formula that has no value in a state, with the interrupt that tells why -/
inductive Breaks (setting : Setting) (s : State) : Expr → Interrupt → Prop
  | divided {token : Token} {left right : Expr} {depth : Nat} {v : Val} :
      eval setting depth right s = (.ok v, s) → v.IsZero →
      Breaks setting s (.binary token left .div right) (.at .divisionByZero token.span)
  | truncated {token : Token} {e : Expr} {depth : Nat} {x : Float} :
      eval setting depth e s = (.ok (.float x), s) → Decimal.truncate? x = none →
      Breaks setting s (.cast token .int e) (.at (.invalidCast .float .int) token.span)
  | widened {token : Token} {e : Expr} {depth : Nat} {v : Val} :
      eval setting depth e s = (.ok v, s) → v.TooLarge →
      Breaks setting s (.cast token .float e) (.host .intTooLarge)
  | leftTooLarge {token : Token} {left right : Expr} {op : Operator} {depth : Nat} {v : Val} :
      eval setting depth left s = (.ok v, s) → v.TooLarge →
      Breaks setting s (.binary token left op right) (.host .intTooLarge)
  | rightTooLarge {token : Token} {left right : Expr} {op : Operator} {depth : Nat} {v : Val} :
      eval setting depth right s = (.ok v, s) → v.TooLarge →
      Breaks setting s (.binary token left op right) (.host .intTooLarge)
  | left {token : Token} {left right : Expr} {op : Operator} {i : Interrupt} : Breaks setting s left i →
      Breaks setting s (.binary token left op right) i
  | right {token : Token} {left right : Expr} {op : Operator} {i : Interrupt} : Breaks setting s right i →
      Breaks setting s (.binary token left op right) i
  | operand {token : Token} {t : Ty} {e : Expr} {i : Interrupt} : Breaks setting s e i →
      Breaks setting s (.cast token t e) i
  | owner {token member : Token} {e : Expr} {i : Interrupt} : Breaks setting s e i →
      Breaks setting s (.member token e member) i

/-! ## Numbers -/

def Number.type : Number → Ty
  | .int _ => .int
  | .float _ => .float

/-- a whole number that no floating-point number is near -/
def Number.TooLarge (n : Number) : Prop := ∃ k, n = .int k ∧ Decimal.ofInt? k = none

theorem Val.number_of_isNumeric {v : Val} (h : v.type.isNumeric = true) : ∃ n, v.number? = some n ∧ n.type = v.type := by
  cases v with
  | int n => exact ⟨.int n, rfl, rfl⟩
  | float x => exact ⟨.float x, rfl, rfl⟩
  | _ => cases h

theorem Val.isNumeric_of_number {v : Val} {n : Number} (h : v.number? = some n) : v.type.isNumeric = true := by
  cases v with
  | int | float => rfl
  | _ => cases h

theorem Val.number_of_isVector {v : Val} (h : v.type.isVector = true) : v.number? = none := by
  cases v with
  | vec2 | vec3 => rfl
  | _ => cases h

theorem Val.tooLarge_of_number {v : Val} {n : Number} (h : v.number? = some n) (hn : n.TooLarge) : v.TooLarge := by
  obtain ⟨k, rfl, hk⟩ := hn
  cases v with
  | int =>
    cases h
    exact ⟨k, rfl, hk⟩
  | _ => cases h

theorem Number.type_negated (n : Number) : n.negated.type = n.type := by
  cases n <;> rfl

theorem Number.tooLarge_negated {n : Number} (h : n.negated.TooLarge) : n.TooLarge := by
  obtain ⟨k, hk, hlarge⟩ := h
  cases n with
  | float => cases hk
  | int m =>
    cases hk
    refine ⟨m, rfl, ?_⟩
    -- whether a number is within the range depends on its magnitude only
    unfold Decimal.ofInt? at hlarge ⊢
    rw [Int.natAbs_neg] at hlarge
    split_ifs at hlarge ⊢
    rfl

theorem Number.toFloat_cases (n : Number) :
    (∃ x, n.toFloat = .ok x) ∨ (n.TooLarge ∧ n.toFloat = .error (.host .intTooLarge)) := by
  cases n with
  | float x => exact .inl ⟨x, rfl⟩
  | int k =>
    rcases hk : Decimal.ofInt? k with _ | x
    · refine .inr ⟨⟨k, rfl, hk⟩, ?_⟩
      simp only [toFloat, hk]
    · refine .inl ⟨x, ?_⟩
      simp only [toFloat, hk]

/-- two numbers combine to a whole number if both are whole, else to a floating-point one, unless a whole number among
them is too large -/
theorem Number.combine_cases (whole : Int → Int → Int) (real : Float → Float → Float) (m n : Number) :
    (∃ v, m.combine whole real n = .ok v ∧ v.type = if m.type = .int ∧ n.type = .int then .int else .float) ∨
      ((m.TooLarge ∨ n.TooLarge) ∧ m.combine whole real n = .error (.host .intTooLarge)) := by
  have hmixed (h : ¬(m.type = .int ∧ n.type = .int))
      (hrun : m.combine whole real n = do return .float (real (← m.toFloat) (← n.toFloat))) :
      (∃ v, m.combine whole real n = .ok v ∧ v.type = if m.type = .int ∧ n.type = .int then .int else .float) ∨
        ((m.TooLarge ∨ n.TooLarge) ∧ m.combine whole real n = .error (.host .intTooLarge)) := by
    rw [if_neg h, hrun]
    rcases m.toFloat_cases with ⟨x, hx⟩ | ⟨hlarge, hx⟩
    · rcases n.toFloat_cases with ⟨y, hy⟩ | ⟨hlarge, hy⟩
      · exact .inl ⟨.float (real x y), by rw [hx, hy]; rfl, rfl⟩
      · exact .inr ⟨.inr hlarge, by rw [hx, hy]; rfl⟩
    · exact .inr ⟨.inl hlarge, by rw [hx]; rfl⟩
  cases m with
  | float x => exact hmixed (fun h => nomatch h.1) rfl
  | int a =>
    cases n with
    | float y => exact hmixed (fun h => nomatch h.2) rfl
    | int b => exact .inl ⟨.int (whole a b), rfl, rfl⟩

/-! ## Vectors -/

theorem Val.mapVector_some {v : Val} (h : v.type.isVector = true) (f : Float → Float) :
    ∃ w, v.mapVector? f = some w ∧ w.type = v.type := by
  cases v with
  | vec2 x y => exact ⟨.vec2 (f x) (f y), rfl, rfl⟩
  | vec3 x y z => exact ⟨.vec3 (f x) (f y) (f z), rfl, rfl⟩
  | _ => cases h

theorem Val.zipVector_some {v w : Val} (h : v.type.isVector = true) (hw : w.type = v.type)
    (f : Float → Float → Float) : ∃ u, v.zipVector? f w = some u ∧ u.type = v.type := by
  cases v with
  | vec2 a b =>
    cases w <;> cases hw
    exact ⟨_, rfl, rfl⟩
  | vec3 a b c =>
    cases w <;> cases hw
    exact ⟨_, rfl, rfl⟩
  | _ => cases h

theorem Val.zipVector_none {v w : Val} (h : ¬(v.type.isVector = true ∧ w.type = v.type)) (f : Float → Float → Float) :
    v.zipVector? f w = none := by
  cases v with
  | vec2 =>
    cases w with
    | vec2 => exact absurd ⟨rfl, rfl⟩ h
    | _ => rfl
  | vec3 =>
    cases w with
    | vec3 => exact absurd ⟨rfl, rfl⟩ h
    | _ => rfl
  | _ => rfl

/-! ## Operators -/

section Operators

variable {op : Operator} {a b : Val} {m n : Number} {span : Span}

theorem apply_of_some {r : Except Interrupt Val} (h : op.apply? a b span = some <$> r) : op.apply a b span = r := by
  unfold Operator.apply
  rw [h]
  cases r <;> rfl

theorem apply_of_found {v : Val} (h : op.apply? a b span = .ok (some v)) : op.apply a b span = .ok v := by
  unfold Operator.apply
  rw [h]
  rfl

theorem apply_of_error {i : Interrupt} (h : op.apply? a b span = .error i) : op.apply a b span = .error i := by
  unfold Operator.apply
  rw [h]
  rfl

theorem apply_of_none (h : op.apply? a b span = .ok none) :
    op.apply a b span = .error (.at (.operandTypes op a.type b.type) span) := by
  unfold Operator.apply
  rw [h]
  rfl

/-- a number times or through each component of a vector, unless the number is too large -/
theorem apply_scaled {v : Val} {scale : Float → Float → Float} (hv : v.type.isVector = true)
    (h : op.apply? a b span = do let x ← n.toFloat; return v.mapVector? (scale x)) :
    (∃ w, op.apply a b span = .ok w ∧ w.type = v.type) ∨
      (n.TooLarge ∧ op.apply a b span = .error (.host .intTooLarge)) := by
  rcases n.toFloat_cases with ⟨x, hx⟩ | ⟨hlarge, hx⟩
  · obtain ⟨w, hw, htype⟩ := Val.mapVector_some hv (scale x)
    rw [hx] at h
    exact .inl ⟨w, apply_of_found (h.trans (congrArg _ hw)), htype⟩
  · rw [hx] at h
    exact .inr ⟨hlarge, apply_of_error h⟩

/-- arithmetic on two numbers divides by zero, or combines the first with the second or its negation -/
theorem apply_numbers (hop : op ∈ Operator.arithmetic) (ha : a.number? = some m) (hb : b.number? = some n) (span : Span) :
    (op = .div ∧ b.IsZero ∧ op.apply a b span = .error (.at .divisionByZero span)) ∨
      ∃ whole real n', (n' = n ∨ n' = n.negated) ∧ op.apply a b span = m.combine whole real n' := by
  cases op with
  | add =>
    refine .inr ⟨(· + ·), (· + ·), n, .inl rfl, apply_of_some ?_⟩
    simp only [Val.add, Operator.apply?, ha, hb]
  | sub =>
    refine .inr ⟨(· + ·), (· + ·), n.negated, .inr rfl, apply_of_some ?_⟩
    simp only [Val.subtract, Operator.apply?, ha, hb]
  | mul =>
    refine .inr ⟨(· * ·), (· * ·), n, .inl rfl, apply_of_some ?_⟩
    simp only [Val.multiply, Operator.apply?, ha, hb]
  | div =>
    cases hzero : n.isZero with
    | true =>
      refine .inl ⟨rfl, ⟨n, hb, hzero⟩, apply_of_error ?_⟩
      simp only [Val.divide, Operator.apply?, ha, hb, hzero, if_true]
    | false =>
      refine .inr ⟨quotientOfMagnitudes, (· / ·), n, .inl rfl, apply_of_some ?_⟩
      simp only [Val.divide, Operator.apply?, ha, hb, hzero, Bool.false_eq_true, if_false]
  | _ => simp [Operator.arithmetic] at hop

/-- what an operator with a type for its operands comes to: a value of this type, a division by zero, or a whole number
that is too large -/
def Settles (op : Operator) (a b : Val) (span : Span) (w : Ty) : Prop :=
  (∃ v, op.apply a b span = .ok v ∧ v.type = w) ∨
    (op = .div ∧ b.IsZero ∧ op.apply a b span = .error (.at .divisionByZero span)) ∨
    ((a.TooLarge ∨ b.TooLarge) ∧ op.apply a b span = .error (.host .intTooLarge))

theorem settles_numbers (hop : op ∈ Operator.arithmetic) (hleft : a.type.isNumeric = true)
    (hright : b.type.isNumeric = true) (span : Span) :
    Settles op a b span (if a.type = .int ∧ b.type = .int then .int else .float) := by
  obtain ⟨m, hm, hmtype⟩ := Val.number_of_isNumeric hleft
  obtain ⟨n, hn, hntype⟩ := Val.number_of_isNumeric hright
  rcases apply_numbers hop hm hn span with ⟨rfl, hzero, hrun⟩ | ⟨whole, real, n', hn', hrun⟩
  · exact .inr (.inl ⟨rfl, hzero, hrun⟩)
  · have htype : n'.type = b.type := by
      rcases hn' with rfl | rfl
      · exact hntype
      · exact n.type_negated.trans hntype
    have hlarge (h : n'.TooLarge) : b.TooLarge := by
      rcases hn' with rfl | rfl
      · exact Val.tooLarge_of_number hn h
      · exact Val.tooLarge_of_number hn (Number.tooLarge_negated h)
    rw [Settles, hrun, ← hmtype, ← htype]
    rcases Number.combine_cases whole real m n' with hok | ⟨hlarges, hfails⟩
    · exact .inl hok
    · exact .inr (.inr ⟨hlarges.imp (Val.tooLarge_of_number hm) hlarge, hfails⟩)

theorem settles_vectors (hop : op ∈ [Operator.add, .sub]) (hvector : a.type.isVector = true) (htype : b.type = a.type)
    (span : Span) : Settles op a b span a.type := by
  have ha : a.number? = none := Val.number_of_isVector hvector
  have hzip (f : Float → Float → Float) (hrun : op.apply? a b span = .ok (a.zipVector? f b)) :
      ∃ v, op.apply a b span = .ok v ∧ v.type = a.type := by
    obtain ⟨v, hv, htype⟩ := Val.zipVector_some hvector htype f
    exact ⟨v, apply_of_found (hrun.trans (congrArg _ hv)), htype⟩
  simp only [List.mem_cons, List.not_mem_nil, or_false] at hop
  rcases hop with rfl | rfl
  · exact .inl (hzip (· + ·) (by simp only [Val.add, Operator.apply?, ha]))
  · exact .inl (hzip (fun x y => x + -y) (by simp only [Val.subtract, Operator.apply?, ha]))

theorem settles_scaled (hop : op ∈ [Operator.mul, .div]) (hvector : a.type.isVector = true)
    (hright : b.type.isNumeric = true) (span : Span) : Settles op a b span a.type := by
  have ha : a.number? = none := Val.number_of_isVector hvector
  obtain ⟨n, hn, -⟩ := Val.number_of_isNumeric hright
  have hscaled (scale : Float → Float → Float)
      (hrun : op.apply? a b span = do let x ← n.toFloat; return a.mapVector? (scale x)) : Settles op a b span a.type :=
    (apply_scaled hvector hrun).imp id fun h => .inr ⟨.inr (Val.tooLarge_of_number hn h.1), h.2⟩
  simp only [List.mem_cons, List.not_mem_nil, or_false] at hop
  rcases hop with rfl | rfl
  · exact hscaled (fun x y => y * x) (by simp only [Val.multiply, Operator.apply?, ha, hn, hvector, if_true])
  · cases hzero : n.isZero with
    | true =>
      refine .inr (.inl ⟨rfl, ⟨n, hn, hzero⟩, apply_of_error ?_⟩)
      simp only [Val.divide, Operator.apply?, ha, hn, hvector, hzero, if_true]
    | false =>
      refine hscaled (fun x y => y / x) ?_
      simp only [Val.divide, Operator.apply?, ha, hn, hvector, hzero, if_true, Bool.false_eq_true, if_false]

theorem settles_scaling (hleft : a.type.isNumeric = true) (hvector : b.type.isVector = true) (span : Span) :
    Settles .mul a b span b.type := by
  have hb : b.number? = none := Val.number_of_isVector hvector
  obtain ⟨m, hm, -⟩ := Val.number_of_isNumeric hleft
  have hrun : Operator.mul.apply? a b span = do let x ← m.toFloat; return b.mapVector? (x * ·) := by
    simp only [Val.multiply, Operator.apply?, hm, hb, hvector, if_true]
  rcases apply_scaled hvector hrun with hok | ⟨hlarge, hfails⟩
  · exact .inl hok
  · exact .inr (.inr ⟨.inl (Val.tooLarge_of_number hm hlarge), hfails⟩)

theorem settles_compared (hop : op ∈ Operator.comparisons) (hleft : a.type.isNumeric = true)
    (hright : b.type.isNumeric = true) (span : Span) : Settles op a b span .bool := by
  obtain ⟨m, hm, -⟩ := Val.number_of_isNumeric hleft
  obtain ⟨n, hn, -⟩ := Val.number_of_isNumeric hright
  have hrun : op.apply? a b span = .ok (some (.bool (op.holds (m.compare? n)))) := by
    cases op with
    | add | sub | mul | div => simp [Operator.comparisons] at hop
    | _ => simp only [Val.compareWith, Operator.apply?, hm, hn]
  exact .inl ⟨_, apply_of_found hrun, rfl⟩

/-- an operator with a type for its operands gives a value of this type, divides by zero, or meets a whole number that
is too large -/
theorem apply_typed {w : Ty} (h : op.Yields a.type b.type w) (span : Span) : Settles op a b span w := by
  generalize ht : a.type = t at h
  generalize hu : b.type = u at h
  cases h with
  | numbers hop hleft hright =>
    subst ht hu
    exact settles_numbers hop hleft hright span
  | vectors hop hvector =>
    subst ht
    exact settles_vectors hop hvector hu span
  | scaled hop hvector hright =>
    subst ht hu
    exact settles_scaled hop hvector hright span
  | scaling hleft hvector =>
    subst ht hu
    exact settles_scaling hleft hvector span
  | compared hop hleft hright =>
    subst ht hu
    exact settles_compared hop hleft hright span
  | equal =>
    cases a <;> cases ht
    cases b <;> cases hu
    exact .inl ⟨_, rfl, rfl⟩

/-- an operator without a type for its operands gives no value -/
theorem apply_untyped (h : ∀ w, ¬op.Yields a.type b.type w) (span : Span) :
    op.apply a b span = .error (.at (.operandTypes op a.type b.type) span) := by
  have hnumbers (hop : op ∈ Operator.arithmetic) (m n : Number) (ha : a.number? = some m) (hb : b.number? = some n) :
      False := h _ (.numbers hop (Val.isNumeric_of_number ha) (Val.isNumeric_of_number hb))
  have hscaled (hop : op ∈ [Operator.mul, .div]) (n : Number) (hb : b.number? = some n) : ¬a.type.isVector = true :=
    fun ha => h _ (.scaled hop ha (Val.isNumeric_of_number hb))
  have hzipped (hop : op ∈ [Operator.add, .sub]) : ¬(a.type.isVector = true ∧ b.type = a.type) := by
    rintro ⟨ha, hb⟩
    rw [hb] at h
    exact h _ (.vectors hop ha)
  refine apply_of_none ?_
  cases op with
  | add =>
    simp only [Val.add, Operator.apply?]
    split
    · rename_i m n ha hb
      exact (hnumbers (by decide) m n ha hb).elim
    · rw [Val.zipVector_none (hzipped (by decide))]
  | sub =>
    simp only [Val.subtract, Operator.apply?]
    split
    · rename_i m n ha hb
      exact (hnumbers (by decide) m n ha hb).elim
    · rw [Val.zipVector_none (hzipped (by decide))]
  | mul =>
    simp only [Val.multiply, Operator.apply?]
    split
    · rename_i m n ha hb
      exact (hnumbers (by decide) m n ha hb).elim
    · rename_i n ha hb
      rw [if_neg (hscaled (by decide) n hb)]
    · rename_i m ha hb
      rw [if_neg fun hvector => h _ (.scaling (Val.isNumeric_of_number ha) hvector)]
    · rfl
  | div =>
    simp only [Val.divide, Operator.apply?]
    split
    · rename_i m n ha hb
      exact (hnumbers (by decide) m n ha hb).elim
    · rename_i n ha hb
      rw [if_neg (hscaled (by decide) n hb)]
    · rfl
  | eq =>
    simp only [Val.compareWith, Operator.apply?]
    split
    · rename_i m n ha hb
      exact (h _ (.compared (by decide) (Val.isNumeric_of_number ha) (Val.isNumeric_of_number hb))).elim
    · split
      · exact (h _ .equal).elim
      · rfl
  | lt | gt | le | ge =>
    simp only [Val.compareWith, Operator.apply?]
    split
    · rename_i m n ha hb
      exact (h _ (.compared (by decide) (Val.isNumeric_of_number ha) (Val.isNumeric_of_number hb))).elim
    · rfl

end Operators

/-! ## Casts and components -/

theorem cast_typed {v : Val} {u : Ty} (h : v.type.CastsTo u) (span : Option Span) :
    (∃ w, v.cast u span = .ok w ∧ w.type = u) ∨
      (∃ x, v = .float x ∧ u = .int ∧ Decimal.truncate? x = none ∧
        v.cast u span = .error (.fault ⟨.invalidCast .float .int, span⟩)) ∨
      (v.TooLarge ∧ u = .float ∧ v.cast u span = .error (.host .intTooLarge)) := by
  generalize ht : v.type = t at h
  cases h with
  | same =>
    subst ht
    exact .inl ⟨v, if_pos rfl, rfl⟩
  | widened =>
    cases v <;> cases ht
    rename_i n
    rcases hn : Decimal.ofInt? n with _ | x
    · exact .inr (.inr ⟨⟨n, rfl, hn⟩, rfl, by simp [Val.cast, Val.type, hn]⟩)
    · exact .inl ⟨.float x, by simp [Val.cast, Val.type, hn], rfl⟩
  | truncated =>
    cases v <;> cases ht
    rename_i x
    rcases hx : Decimal.truncate? x with _ | n
    · exact .inr (.inl ⟨x, rfl, rfl, hx, by simp [Val.cast, Val.type, hx]⟩)
    · exact .inl ⟨.int n, by simp [Val.cast, Val.type, hx], rfl⟩

theorem castsTo_of_cast {v w : Val} {u : Ty} {span : Option Span} (h : v.cast u span = .ok w) : v.type.CastsTo u := by
  unfold Val.cast at h
  split_ifs at h with hsame
  · rw [hsame]
    exact .same u
  · split at h
    · exact .widened
    · exact .truncated
    · cases h

theorem componentIndex_of_hasComponent {t : Ty} {name : String} (h : t.HasComponent name) :
    ∃ place, componentIndex? t name = some place := by
  cases h with
  | pair hname =>
    simp only [List.mem_cons, List.not_mem_nil, or_false] at hname
    rcases hname with rfl | rfl <;> exact ⟨_, rfl⟩
  | triple hname =>
    simp only [List.mem_cons, List.not_mem_nil, or_false] at hname
    rcases hname with rfl | rfl | rfl <;> exact ⟨_, rfl⟩

theorem hasComponent_of_componentIndex {t : Ty} {name : String} {place : Nat} (h : componentIndex? t name = some place) :
    t.HasComponent name := by
  unfold componentIndex? at h
  split at h
  case h_6 => cases h
  · exact .pair (by decide)
  · exact .triple (by decide)
  · exact .pair (by decide)
  · exact .triple (by decide)
  · exact .triple (by decide)

/-- a component is read from the types of vectors that have it -/
theorem readMember_typed {v : Val} {name : Token} (h : v.type.HasComponent name.name) (span : Span) (s : State) :
    ∃ c, readMember v name span s = (.ok (.float c), s) := by
  obtain ⟨place, hplace⟩ := componentIndex_of_hasComponent h
  obtain ⟨c, hc⟩ := component_of_index hplace
  exact ⟨c, run_readMember hplace hc span s⟩

theorem hasComponent_of_readMember {v w : Val} {name : Token} (hname : name.name ∈ ["x", "y", "z"]) {span : Span}
    {s t : State} (h : readMember v name span s = (.ok w, t)) : v.type.HasComponent name.name := by
  rcases hplace : componentIndex? v.type name.name with _ | place
  · cases v with
    | vec2 | vec3 =>
      rw [readMember, hplace] at h
      cases h
    | list a =>
      have hlength : name.name ≠ "length" := by
        intro hlength
        rw [hlength] at hname
        revert hname
        decide
      simp only [readMember, if_neg hlength] at h
      cases h
    | _ => cases h
  · exact hasComponent_of_componentIndex hplace

/-! ## Runs of formulas -/

/-- how a run of a formula may end that has the type `t`: with a value of the type, at a part that breaks, or at the end
of its depth -/
inductive Comes (setting : Setting) (depth : Nat) (s : State) (e : Expr) (t : Ty) : Prop
  | value {v : Val} : eval setting depth e s = (.ok v, s) → v.type = t → Comes setting depth s e t
  | breaks {i : Interrupt} : eval setting depth e s = (.error i, s) → Breaks setting s e i → Comes setting depth s e t
  | tooDeep : eval setting depth e s = (.error (.host .tooDeep), s) → depth < e.height → Comes setting depth s e t

section Runs

variable {setting : Setting} {depth : Nat} {s : State} {Γ : String → Option Ty}

theorem Syntax.Expr.height_pos (e : Expr) : 0 < e.height := by
  cases e with
  | binary | cast | member => exact Nat.succ_pos _
  | _ => exact Nat.one_pos

theorem comes_at_limit {e : Expr} {t : Ty} : Comes setting 0 s e t := .tooDeep rfl e.height_pos

theorem eval_symbol {name : String} {v : Val} (h : s.env.lookup? name = some v) (token : Token) :
    eval setting (depth + 1) (.symbol token name) s = (.ok v, s) := by
  rw [eval]
  exact (run_bind_ok (show Eval.lookup? name s = (.ok (some v), s) from by rw [Eval.lookup?, h]) _).trans rfl

theorem comes_binary {token : Token} {left right : Expr} {op : Operator} {t u w : Ty}
    (hleft : Comes setting depth s left t) (hright : Comes setting depth s right u) (hop : op.Yields t u w) :
    Comes setting (depth + 1) s (.binary token left op right) w := by
  have heval : eval setting (depth + 1) (.binary token left op right) =
      (do let a ← eval setting depth left; let b ← eval setting depth right; Eval.ofExcept (op.apply a b token.span)) := by
    rw [eval]
  cases hleft with
  | breaks hrun hbreaks => exact .breaks (by rw [heval, run_bind_error hrun]) (.left hbreaks)
  | tooDeep hrun hdepth =>
    exact .tooDeep (by rw [heval, run_bind_error hrun]) (Nat.succ_lt_succ (hdepth.trans_le (le_max_left _ _)))
  | @value a ha hatype =>
    cases hright with
    | breaks hrun hbreaks => exact .breaks (by rw [heval, run_bind_ok ha, run_bind_error hrun]) (.right hbreaks)
    | tooDeep hrun hdepth =>
      exact .tooDeep (by rw [heval, run_bind_ok ha, run_bind_error hrun])
        (Nat.succ_lt_succ (hdepth.trans_le (le_max_right _ _)))
    | @value b hb hbtype =>
      have hends : eval setting (depth + 1) (.binary token left op right) s = (op.apply a b token.span, s) := by
        rw [heval, run_bind_ok ha, run_bind_ok hb, run_ofExcept]
      subst hatype hbtype
      rcases apply_typed hop token.span with ⟨v, hv, htype⟩ | ⟨rfl, hzero, hfails⟩ | ⟨hlarge, hfails⟩
      · exact .value (by rw [hends, hv]) htype
      · exact .breaks (by rw [hends, hfails]) (.divided hb hzero)
      · refine .breaks (by rw [hends, hfails]) ?_
        rcases hlarge with hlarge | hlarge
        · exact .leftTooLarge ha hlarge
        · exact .rightTooLarge hb hlarge

theorem comes_cast {token : Token} {e : Expr} {t u : Ty} (he : Comes setting depth s e t) (hcast : t.CastsTo u) :
    Comes setting (depth + 1) s (.cast token u e) u := by
  have heval : eval setting (depth + 1) (.cast token u e) =
      (do let v ← eval setting depth e; Eval.ofExcept (v.cast u token.span)) := by
    rw [eval]
  cases he with
  | breaks hrun hbreaks => exact .breaks (by rw [heval, run_bind_error hrun]) (.operand hbreaks)
  | tooDeep hrun hdepth => exact .tooDeep (by rw [heval, run_bind_error hrun]) (Nat.succ_lt_succ hdepth)
  | @value v hv hvtype =>
    have hends : eval setting (depth + 1) (.cast token u e) s = (v.cast u token.span, s) := by
      rw [heval, run_bind_ok hv, run_ofExcept]
    subst hvtype
    rcases cast_typed hcast (some token.span) with ⟨w, hw, htype⟩ | ⟨x, rfl, rfl, hx, hfails⟩ | ⟨hlarge, rfl, hfails⟩
    · exact .value (by rw [hends, hw]) htype
    · exact .breaks (by rw [hends, hfails]; rfl) (.truncated hv hx)
    · exact .breaks (by rw [hends, hfails]) (.widened hv hlarge)

theorem comes_component {token member : Token} {e : Expr} {t : Ty} (he : Comes setting depth s e t)
    (hcomponent : t.HasComponent member.name) : Comes setting (depth + 1) s (.member token e member) .float := by
  have heval : eval setting (depth + 1) (.member token e member) =
      (do readMember (← eval setting depth e) member token.span) := by
    rw [eval]
  cases he with
  | breaks hrun hbreaks => exact .breaks (by rw [heval, run_bind_error hrun]) (.owner hbreaks)
  | tooDeep hrun hdepth => exact .tooDeep (by rw [heval, run_bind_error hrun]) (Nat.succ_lt_succ hdepth)
  | @value v hv hvtype =>
    subst hvtype
    obtain ⟨c, hc⟩ := readMember_typed hcomponent token.span s
    exact .value (by rw [heval, run_bind_ok hv, hc]) rfl

theorem comes_length {token own member : Token} {name : String} {v : Val} (hv : s.env.lookup? name = some v)
    (htype : v.type = .list) (hmember : member.name = "length") :
    Comes setting depth s (.member token (.symbol own name) member) .int := by
  cases depth with
  | zero => exact comes_at_limit
  | succ depth =>
    have heval : eval setting (depth + 1) (.member token (.symbol own name) member) =
        (do readMember (← eval setting depth (.symbol own name)) member token.span) := by
      rw [eval]
    cases depth with
    | zero =>
      have hlimit : eval setting 0 (.symbol own name) s = (.error (.host .tooDeep), s) := rfl
      exact .tooDeep (by rw [heval, run_bind_error hlimit]) (Nat.lt_succ_self 1)
    | succ depth =>
      cases v <;> cases htype
      rename_i address
      have hlength : readMember (.list address) member token.span s = (.ok (.int (s.heap.items address).size), s) := by
        simp only [readMember, if_pos hmember]
        rfl
      exact .value (by rw [heval, run_bind_ok (eval_symbol hv own), hlength]) rfl

/-- a formula comes to a value of its type, unless it breaks or is too high; by induction on the derivation of the
type -/
theorem comes_of_hasType (hs : s.Binds Γ) {e : Expr} {t : Ty} (h : e.HasType Γ t) (setting : Setting) (depth : Nat) :
    Comes setting depth s e t := by
  induction h generalizing depth with
  | int | float =>
    cases depth with
    | zero => exact comes_at_limit
    | succ depth => exact .value rfl rfl
  | «variable» hname =>
    cases depth with
    | zero => exact comes_at_limit
    | succ depth =>
      obtain ⟨v, hv, htype⟩ := hs _ _ hname
      exact .value (eval_symbol hv _) htype
  | length hname hmember =>
    obtain ⟨v, hv, htype⟩ := hs _ _ hname
    exact comes_length hv htype hmember
  | binary _ _ hop hleft hright =>
    cases depth with
    | zero => exact comes_at_limit
    | succ depth => exact comes_binary (hleft depth) (hright depth) hop
  | cast _ hcast he =>
    cases depth with
    | zero => exact comes_at_limit
    | succ depth => exact comes_cast (he depth) hcast
  | component _ hcomponent he =>
    cases depth with
    | zero => exact comes_at_limit
    | succ depth => exact comes_component (he depth) hcomponent

theorem value_of_hasType (hs : s.Binds Γ) {e : Expr} {t : Ty} (h : e.HasType Γ t) {v : Val} {u : State}
    (hrun : eval setting depth e s = (.ok v, u)) : v.type = t ∧ u = s := by
  cases comes_of_hasType hs h setting depth with
  | value hv htype =>
    rw [hv] at hrun
    cases hrun
    exact ⟨htype, rfl⟩
  | breaks hfails =>
    rw [hfails] at hrun
    cases hrun
  | tooDeep hfails =>
    rw [hfails] at hrun
    cases hrun

/-- a formula that comes to a value has a type; by induction on the formula -/
theorem hasType_of_value (hs : s.Binds Γ) {e : Expr} (he : e.Formula Γ) {v : Val} {u : State}
    (hrun : eval setting depth e s = (.ok v, u)) : ∃ t, e.HasType Γ t := by
  induction he generalizing depth v u with
  | int token n => exact ⟨.int, .int token n⟩
  | float token x => exact ⟨.float, .float token x⟩
  | «variable» hname ht => exact ⟨_, .variable hname ht⟩
  | length hname hmember => exact ⟨.int, .length hname hmember⟩
  | @binary token left right op _ _ hleft hright =>
    cases depth with
    | zero => cases hrun
    | succ depth =>
      rw [eval] at hrun
      obtain ⟨a, s₁, ha, hrest⟩ := bind_eq_ok hrun
      obtain ⟨b, s₂, hb, hends⟩ := bind_eq_ok hrest
      obtain ⟨t, ht⟩ := hleft ha
      obtain ⟨rfl, rfl⟩ := value_of_hasType hs ht ha
      obtain ⟨u, hu⟩ := hright hb
      obtain ⟨rfl, -⟩ := value_of_hasType hs hu hb
      by_contra hnone
      have huntyped : ∀ w, ¬op.Yields a.type b.type w := fun w hw => hnone ⟨w, .binary ht hu hw⟩
      rw [apply_untyped huntyped token.span] at hends
      cases hends
  | @cast token target e _ ih =>
    cases depth with
    | zero => cases hrun
    | succ depth =>
      rw [eval] at hrun
      obtain ⟨w, s₁, hw, hends⟩ := bind_eq_ok hrun
      obtain ⟨t, ht⟩ := ih hw
      obtain ⟨rfl, -⟩ := value_of_hasType hs ht hw
      rcases hcast : w.cast target token.span with i | v'
      · rw [hcast] at hends
        cases hends
      · exact ⟨target, .cast ht (castsTo_of_cast hcast)⟩
  | @component token member e _ hmember ih =>
    cases depth with
    | zero => cases hrun
    | succ depth =>
      rw [eval] at hrun
      obtain ⟨w, s₁, hw, hends⟩ := bind_eq_ok hrun
      obtain ⟨t, ht⟩ := ih hw
      obtain ⟨rfl, -⟩ := value_of_hasType hs ht hw
      exact ⟨.float, .component ht (hasComponent_of_readMember hmember hends)⟩

end Runs

/-- **Types of formulas.** In a state that binds the variables as they are declared, a formula with a type comes to a
value of this type and leaves the state as it is, unless it breaks or is higher than the depth that the run may spend; a
formula without a type comes to no value. -/
theorem formulas_have_types {Γ : String → Option Ty} {s : State} (hs : s.Binds Γ) {e : Expr} (he : e.Formula Γ)
    (setting : Setting) (depth : Nat) :
    (∀ t, e.HasType Γ t →
      (∃ v, eval setting depth e s = (.ok v, s) ∧ v.type = t) ∨
        (∃ i, eval setting depth e s = (.error i, s) ∧ Breaks setting s e i) ∨
        (eval setting depth e s = (.error (.host .tooDeep), s) ∧ depth < e.height)) ∧
      ((∀ t, ¬e.HasType Γ t) → ∃ i u, eval setting depth e s = (.error i, u)) := by
  constructor
  · intro t ht
    cases comes_of_hasType hs ht setting depth with
    | value hrun htype => exact .inl ⟨_, hrun, htype⟩
    | breaks hrun hbreaks => exact .inr (.inl ⟨_, hrun, hbreaks⟩)
    | tooDeep hrun hdepth => exact .inr (.inr ⟨hrun, hdepth⟩)
  · intro hnone
    rcases hrun : eval setting depth e s with ⟨i | v, u⟩
    · exact ⟨i, u, rfl⟩
    · obtain ⟨t, ht⟩ := hasType_of_value hs he hrun
      exact absurd ht (hnone t)

/-- with a vector `p` and a whole number `n`, the product `p.x * n` is a floating-point number unless `n` is too large for
one, and the quotient `n / p` has no value -/
theorem formulas_have_types_product :
    let Γ : String → Option Ty := fun name => if name = "p" then some .vec2 else if name = "n" then some .int else none
    let s : State := { env := { globals := .ofBindings "global" [("p", .vec2 1.5 2.5), ("n", .int 4)] } }
    let start : Token := default
    let x : Token := { start with kind := .symbol "x" }
    let product := Expr.binary start (.member start (.symbol start "p") x) .mul (.symbol start "n")
    let quotient := Expr.binary start (.symbol start "n") .div (.symbol start "p")
    s.Binds Γ ∧
      ((∃ v, eval {} ({} : Setting).evaluation product s = (.ok v, s) ∧ v.type = .float) ∨
        ∃ i, eval {} ({} : Setting).evaluation product s = (.error i, s) ∧ Breaks {} s product i) ∧
      ∃ i u, eval {} ({} : Setting).evaluation quotient s = (.error i, u) := by
  intro Γ s start x product quotient
  have hs : s.Binds Γ := by
    intro name t hname
    simp only [Γ] at hname
    split_ifs at hname with hp hn
    · subst hp
      exact ⟨.vec2 1.5 2.5, rfl, Option.some.inj hname⟩
    · subst hn
      exact ⟨.int 4, rfl, Option.some.inj hname⟩
  have hvector : (Expr.symbol start "p").Formula Γ := .variable rfl (by decide)
  have hnumber : (Expr.symbol start "n").Formula Γ := .variable rfl (by decide)
  have hproduct : product.HasType Γ .float :=
    .binary (.component (.variable rfl (by decide)) (.pair (by decide))) (.variable rfl (by decide))
      (.numbers (by decide) rfl rfl)
  have hquotient (t : Ty) : ¬(Expr.binary start (.symbol start "n") .div (.symbol start "p")).HasType Γ t := by
    intro h
    cases h with
    | @binary _ _ _ _ left right _ hleft hright hop =>
      have hn : eval {} 1 (.symbol start "n") s = (.ok (.int 4), s) := eval_symbol rfl start
      have hp : eval {} 1 (.symbol start "p") s = (.ok (.vec2 1.5 2.5), s) := eval_symbol rfl start
      obtain ⟨rfl, -⟩ := value_of_hasType hs hleft hn
      obtain ⟨rfl, -⟩ := value_of_hasType hs hright hp
      cases hop with
      | numbers _ _ hnumeric => cases hnumeric
      | scaled _ hvector => cases hvector
      | compared hop => simp [Operator.comparisons] at hop
  refine ⟨hs, ?_, (formulas_have_types hs (.binary hnumber hvector) {} ({} : Setting).evaluation).2 hquotient⟩
  rcases (formulas_have_types hs (.binary (.component hvector (by decide)) hnumber) {} ({} : Setting).evaluation).1 _ hproduct
    with hvalue | hbreaks | ⟨-, hdepth⟩
  · exact .inl hvalue
  · exact .inr hbreaks
  · exact absurd hdepth (by decide)

/-! ## The depth of a run -/

/-- the sum of ones with the given number of operators -/
def onesSum (token : Token) : Nat → Expr
  | 0 => .int token 1
  | n + 1 => .binary token (onesSum token n) .add (.int token 1)

theorem onesSum_hasType (Γ : String → Option Ty) (token : Token) (n : Nat) : (onesSum token n).HasType Γ .int := by
  induction n with
  | zero => exact .int token 1
  | succ n ih => exact .binary ih (.int token 1) (.numbers (by decide) rfl rfl)

theorem onesSum_formula (Γ : String → Option Ty) (token : Token) (n : Nat) : (onesSum token n).Formula Γ := by
  induction n with
  | zero => exact .int token 1
  | succ n ih => exact .binary ih (.int token 1)

/-- a sum has no value if it has as many operators as there is depth -/
theorem eval_onesSum (setting : Setting) (token : Token) (s : State) {depth n : Nat} (h : depth ≤ n) :
    eval setting depth (onesSum token n) s = (.error (.host .tooDeep), s) := by
  induction n generalizing depth with
  | zero =>
    obtain rfl : depth = 0 := Nat.le_zero.1 h
    rfl
  | succ n ih =>
    cases depth with
    | zero => rfl
    | succ depth =>
      rw [onesSum, eval]
      exact run_bind_error (ih (Nat.le_of_succ_le_succ h)) _

/-- the sum of three thousand ones has the type of whole numbers, but it is higher than the depth that a script may spend:
it has no value, and as the start of a variable it ends in a fault -/
theorem tall_sum_has_no_value :
    let token : Token := default
    let sum := onesSum token 2999
    let noVariables : String → Option Ty := fun _ => none
    sum.Formula noVariables ∧ sum.HasType noVariables .int ∧
      eval {} ({} : Setting).evaluation sum {} = (.error (.host .tooDeep), {}) ∧
      execTop {} (.var token .int [token] (some sum)) {} = (.error (.at .nestingTooDeep token.span), {}) := by
  intro token sum noVariables
  have hdeep (depth : Nat) (h : depth ≤ 2999) : eval {} depth sum {} = (.error (.host .tooDeep), {}) :=
    eval_onesSum {} token {} h
  have hexec (depth : Nat) (h : depth ≤ 2999) :
      exec {} (depth + 1) (.var token .int [token] (some sum)) {} = (.error (.host .tooDeep), {}) := by
    rw [exec]
    exact run_bind_error (hdeep depth h) _
  refine ⟨onesSum_formula noVariables token 2999, onesSum_hasType noVariables token 2999, ?_, ?_⟩
  · exact hdeep _ (by decide)
  · rw [execTop]
    exact run_bind_error (run_catch_error (hexec 479 (by decide)) _) _

end LevelScript
