/-
Reading the canonical form of an expression gives the expression back.

`Recovers` is what this says where the grammar asks for a level: the parser of the level reads the tokens of the expression
up to something that does not go on with it. Levels that repeat something are told how they arrive in their loop, since
the left operand of an operator may itself come from the same loop. What holds at the level of an expression holds
at all looser levels, the loosest level gives the expression in parentheses, and this one gives the tighter levels.
-/
import Mathlib.Tactic
import LevelScript.Proofs.Restoration
import LevelScript.Proofs.StatementContract

namespace LevelScript.Syntax

/-! ## Induction on expressions -/

/-- a property of an expression follows from the same property of its parts -/
theorem Expr.induction {P : Expr → Prop} (int : ∀ t n, P (.int t n)) (float : ∀ t x, P (.float t x))
    (string : ∀ t s, P (.string t s)) (symbol : ∀ t name, P (.symbol t name))
    (binary : ∀ t left op right, P left → P right → P (.binary t left op right))
    (assign : ∀ t target value, P target → P value → P (.assign t target value))
    (call : ∀ t callee arguments, P callee → (∀ a ∈ arguments, P a) → P (.call t callee arguments))
    (member : ∀ t target name, P target → P (.member t target name))
    (index : ∀ t target place, P target → P place → P (.index t target place))
    (list : ∀ t elements, (∀ e ∈ elements, P e) → P (.list t elements))
    (cast : ∀ t ty operand, P operand → P (.cast t ty operand)) (e : Expr) : P e :=
  e.rec (motive_1 := P) (motive_2 := fun es => ∀ e ∈ es, P e) int float string symbol
    (fun t left op right hl hr => binary t left op right hl hr) (fun t target value ht hv => assign t target value ht hv)
    (fun t callee arguments hc ha => call t callee arguments hc ha) (fun t target name ht => member t target name ht)
    (fun t target place ht hp => index t target place ht hp) (fun t elements he => list t elements he)
    (fun t ty operand ho => cast t ty operand ho) (by simp) fun e es he hes => List.forall_mem_cons.2 ⟨he, hes⟩

/-! ## What follows an expression -/

/-- the characters that go on with an expression of a level -/
def Level.marks : Level → List Char
  | .primary => []
  | .call => ['(']
  | .access | .cast => ['(', '.', '[']
  | .product => ['(', '.', '[', '*', '/']
  | .sum => ['(', '.', '[', '*', '/', '+', '-']
  | .comparison => ['(', '.', '[', '*', '/', '+', '-', '<', '>']
  | .assignment => ['(', '.', '[', '*', '/', '+', '-', '<', '>', '=']

/-- the list does not go on with an expression of a level -/
structure Stops (level : Level) (rest : List Token) : Prop where
  ends : Ends rest
  marks : ∀ c ∈ level.marks, Parser.startsWith c rest = false
  equality : level = .comparison → ¬ Parser.Equality rest

theorem Stops.tighten {loose tight : Level} {rest : List Token} (h : Stops loose rest) (hrank : loose.rank ≤ tight.rank) :
    Stops tight rest where
  ends := h.ends
  marks := by
    have hmarks := h.marks
    cases loose <;> cases tight <;> simp_all [Level.marks, Level.rank]
  equality := by
    rintro rfl
    cases loose <;> simp only [Level.rank] at hrank
    case assignment =>
      rintro ⟨t, u, more, rfl, ht, -⟩
      have := h.marks '=' (by simp [Level.marks])
      rw [Parser.startsWith_cons] at this
      exact Bool.false_ne_true (this.symm.trans ht)
    case comparison => exact h.equality rfl
    all_goals omega

theorem stops_of_char {level : Level} {t : Token} {c : Char} {rest : List Token} (ht : t.kind = .char c)
    (hends : Ends rest) (hc : c ∉ level.marks)
    (hequality : c = '=' → level = .comparison → Parser.startsWith '=' rest = false) :
    Stops level (t :: rest) where
  ends := hends.append [t]
  marks := by
    intro d hd
    simp only [Parser.startsWith_cons, Token.isChar, ht, decide_eq_false_iff_not]
    rintro rfl
    exact hc hd
  equality := by
    rintro hlevel ⟨t', u, more, h, ht', hu⟩
    cases h
    have hc' : c = '=' := by simpa [Token.isChar, ht] using ht'
    have := hequality hc' hlevel
    rw [Parser.startsWith_cons] at this
    exact Bool.false_ne_true (this.symm.trans hu)

/-! ## How the canonical form starts -/

/-- an expression that can be written, without keywords for names -/
structure Expr.Clear (e : Expr) : Prop where
  writable : e.Writable
  names : ∀ name ∈ e.names, name ∉ keywords

section Clear

variable {token name : Token} {e e' : Expr} {es : List Expr} {op : Operator} {ty : Ty}

theorem clear_all (hw : Expr.AllWritable es) (hn : ∀ name ∈ Expr.namesAll es, name ∉ keywords) : ∀ e ∈ es, e.Clear := by
  induction es with
  | nil => simp
  | cons e es ih =>
    simp only [Expr.namesAll, List.mem_append, or_imp, forall_and] at hn
    exact List.forall_mem_cons.2 ⟨⟨hw.1, hn.1⟩, ih hw.2 hn.2⟩

theorem clear_binary (h : (Expr.binary token e op e').Clear) : e.Clear ∧ e'.Clear := by
  obtain ⟨⟨hw, hw'⟩, hn⟩ := h
  simp only [Expr.names, List.mem_append, or_imp, forall_and] at hn
  exact ⟨⟨hw, hn.1⟩, hw', hn.2⟩

theorem clear_assign (h : (Expr.assign token e e').Clear) : e.Clear ∧ e'.Clear := by
  obtain ⟨⟨hw, hw'⟩, hn⟩ := h
  simp only [Expr.names, List.mem_append, or_imp, forall_and] at hn
  exact ⟨⟨hw, hn.1⟩, hw', hn.2⟩

theorem clear_call (h : (Expr.call token e es).Clear) : e.Clear ∧ ∀ e ∈ es, e.Clear := by
  obtain ⟨⟨hw, hw'⟩, hn⟩ := h
  simp only [Expr.names, List.mem_append, or_imp, forall_and] at hn
  exact ⟨⟨hw, hn.1⟩, clear_all hw' hn.2⟩

theorem clear_member (h : (Expr.member token e name).Clear) : e.Clear ∧ name.IsName :=
  ⟨⟨h.writable.1, h.names⟩, h.writable.2⟩

theorem clear_index (h : (Expr.index token e e').Clear) : e.Clear ∧ e'.Clear := by
  obtain ⟨⟨hw, hw'⟩, hn⟩ := h
  simp only [Expr.names, List.mem_append, or_imp, forall_and] at hn
  exact ⟨⟨hw, hn.1⟩, hw', hn.2⟩

theorem clear_list (h : (Expr.list token es).Clear) : ∀ e ∈ es, e.Clear :=
  clear_all h.writable h.names

theorem clear_cast (h : (Expr.cast token ty e).Clear) : ty ∈ Ty.declarable ∧ e.Clear :=
  ⟨h.writable.1, h.writable.2, h.names⟩

end Clear

/-- the kinds of tokens that an expression without keywords starts with -/
def TokenKind.opens : TokenKind → Prop
  | .symbol name => name ∉ keywords
  | .char c => c = '(' ∨ c = '['
  | .eof => False
  | _ => True

/-- the kinds of an opening parenthesis and a word of the language -/
def CastKinds (kinds : List TokenKind) : Prop :=
  ∃ word ∈ keywords, ∃ more, kinds = .char '(' :: .symbol word :: more

/-- the kinds start as expressions do -/
def Opens (kinds : List TokenKind) : Prop := ∃ kind more, kinds = kind :: more ∧ kind.opens

theorem Opens.append {kinds : List TokenKind} (h : Opens kinds) (more : List TokenKind) : Opens (kinds ++ more) := by
  obtain ⟨kind, ks, rfl, hkind⟩ := h
  exact ⟨kind, ks ++ more, rfl, hkind⟩

theorem Opens.enclosed {kinds : List TokenKind} (h : Opens kinds) (b : Bool) : Opens (enclosed b kinds) := by
  cases b
  · exact h
  · exact ⟨_, _, rfl, .inl rfl⟩

theorem Expr.Clear.opens {e : Expr} (h : e.Clear) : Opens (e.spelled tighter) := by
  induction e using Expr.induction with
  | int t n => exact ⟨_, _, rfl, trivial⟩
  | float t x => exact ⟨_, _, rfl, trivial⟩
  | string t s => exact ⟨_, _, rfl, trivial⟩
  | symbol t name => exact ⟨_, _, rfl, h.names name (by simp [Expr.names])⟩
  | binary t left op right ihl _ => exact ((ihl (clear_binary h).1).enclosed _).append _
  | assign t target value ih _ => exact ((ih (clear_assign h).1).enclosed _).append _
  | call t callee arguments ih _ => exact ((ih (clear_call h).1).enclosed _).append _
  | member t target name ih => exact ((ih (clear_member h).1).enclosed _).append _
  | index t target place ih _ => exact ((ih (clear_index h).1).enclosed _).append _
  | list t elements _ => exact ⟨_, _, rfl, .inr rfl⟩
  | cast t ty operand _ => exact ⟨_, _, rfl, .inl rfl⟩

/-- a word behind the parenthesis around an expression is none of the language -/
theorem not_castKinds_spelledAt {e : Expr} (h : e.Clear) (position : Level) (hposition : Level.access.rank ≤ position.rank)
    (ih : Level.access.rank ≤ e.level.rank → ∀ more, ¬ CastKinds (e.spelled tighter ++ more)) (more : List TokenKind) :
    ¬ CastKinds (e.spelledAt position ++ more) := by
  by_cases htight : tighter position e.level = true
  · rintro ⟨word, hword, behind, heq⟩
    obtain ⟨kind, ks, hkinds, hopens⟩ := h.opens
    rw [Expr.spelledAt, htight, hkinds] at heq
    simp only [enclosed, if_true, List.cons_append, List.cons.injEq, true_and] at heq
    rw [heq.1] at hopens
    exact hopens hword
  · rw [Expr.spelledAt, enclosed, if_neg htight]
    refine ih ?_ more
    simp only [tighter, decide_eq_true_eq] at htight
    omega

/-- an expression that may stand where members are asked for does not start like a cast -/
theorem Expr.Clear.not_castKinds {e : Expr} (h : e.Clear) (hlevel : Level.access.rank ≤ e.level.rank)
    (more : List TokenKind) : ¬ CastKinds (e.spelled tighter ++ more) := by
  induction e using Expr.induction generalizing more with
  | int t n => rintro ⟨word, -, behind, heq⟩; cases heq
  | float t x => rintro ⟨word, -, behind, heq⟩; cases heq
  | string t s => rintro ⟨word, -, behind, heq⟩; cases heq
  | symbol t name => rintro ⟨word, -, behind, heq⟩; cases heq
  | list t elements _ => rintro ⟨word, -, behind, heq⟩; cases heq
  | binary t left op right _ _ => cases op <;> simp [Expr.level, Operator.level, Level.rank] at hlevel
  | assign t target value _ _ => simp [Expr.level, Level.rank] at hlevel
  | cast t ty operand _ => simp [Expr.level, Level.rank] at hlevel
  | call t callee arguments ih _ =>
    have hcallee := (clear_call h).1
    rw [Expr.spelled, List.append_assoc]
    exact not_castKinds_spelledAt hcallee .primary (by decide) (fun hl => ih hcallee hl) _
  | member t target name ih =>
    have htarget := (clear_member h).1
    rw [Expr.spelled, List.append_assoc]
    exact not_castKinds_spelledAt htarget .access (by decide) (fun hl => ih htarget hl) _
  | index t target place ih _ =>
    have htarget := (clear_index h).1
    rw [Expr.spelled, List.append_assoc]
    exact not_castKinds_spelledAt htarget .access (by decide) (fun hl => ih htarget hl) _

/-! ## What is recovered -/

namespace Parser

/-- before what does not go on at a level, the parser reads the tokens of an expression as this expression -/
def Finds (p : Parser Expr) (kinds : List TokenKind) (level : Level) (e : Expr) : Prop :=
  ∀ ts rest, ts.map (·.kind) = kinds → Stops level rest → ∃ e', p (ts ++ rest) = .ok (e', rest) ∧ e'.bare = e.bare

/-- before what does not go on at a level, the parser reads the tokens of an expression and arrives in its loop with this
expression -/
def Arrives (p : Parser Expr) (loop : Token → Nat → Expr → Parser Expr) (kinds : List TokenKind) (level : Level)
    (e : Expr) : Prop :=
  ∀ ts rest, ts.map (·.kind) = kinds → Stops level rest →
    ∃ e' token, p (ts ++ rest) = whole (loop token) e' rest ∧ e'.bare = e.bare

/-- the tokens of an expression are read as this expression where the grammar asks for a level -/
def Recovers (d : Nat) (e : Expr) : Level → Prop
  | .primary => Finds (primary (expression d)) (e.spelledAt .primary) .primary e
  | .call => Finds (callExpression (expression d)) (e.spelledAt .call) .call e
  | .access => Arrives (postfixExpression (expression d)) (postfixes (expression d)) (e.spelledAt .access) .call e
  | .cast => Finds (castExpression (expression d)) (e.spelledAt .cast) .cast e
  | .product => Arrives (product (expression d)) (groupLeft productOperator (castExpression (expression d)))
      (e.spelledAt .product) .cast e
  | .sum => Arrives (sum (expression d)) (groupLeft sumOperator (product (expression d))) (e.spelledAt .sum) .product e
  | .comparison => Finds (comparison d) (e.spelledAt .comparison) .comparison e
  | .assignment => Finds (expression d) (e.spelledAt .assignment) .assignment e

theorem rank_injective {level level' : Level} (h : level.rank = level'.rank) : level = level' := by
  cases level <;> cases level' <;> first | rfl | cases h

section Steps

variable {d : Nat} {e : Expr} {token : Token} {rest : List Token}

/-! ## Where loops end -/

theorem callRest_stops (h : Stops .call rest) : callRest (expression d) token e rest = .ok (e, rest) := by
  obtain ⟨t, rest, rfl⟩ := h.ends.exists_cons
  refine run_skipped ?_ _ _
  simpa using h.marks '(' (by simp [Level.marks])

theorem postfixes_stops (h : Stops .access rest) : whole (postfixes (expression d) token) e rest = .ok (e, rest) := by
  rw [whole_postfixes_eq (trims_expression d) e h.ends]
  obtain ⟨t, rest, rfl⟩ := h.ends.exists_cons
  refine (run_skipped ?_ _ _).trans (run_skipped ?_ _ _)
  · simpa using h.marks '.' (by simp [Level.marks])
  · simpa using h.marks '[' (by simp [Level.marks])

theorem head_mark {op : Operator} (h : op ≠ .eq) : ∃ c more, op.marks = c :: more ∧ c ∈ op.level.marks := by
  cases op
  case eq => exact absurd rfl h
  all_goals exact ⟨_, _, rfl, by decide⟩

/-- no operator comes where nothing goes on -/
theorem operator_stops {operator : Parser (Option Operator)} {level : Level} {avoid : List Token → Prop}
    (hoperator : Selects level avoid operator) (h : Stops level rest) : operator rest = .ok (none, rest) := by
  rcases hoperator rest h.ends with ⟨op, marks, behind, rfl, hop, hkinds, -⟩ | ⟨-, hrun, -⟩
  · exfalso
    by_cases heq : op = .eq
    · subst heq
      obtain ⟨t, _, rfl, ht, h₁⟩ := List.map_eq_cons_iff.1 hkinds
      obtain ⟨u, _, rfl, hu, -⟩ := List.map_eq_cons_iff.1 h₁
      exact h.equality hop.symm ⟨t, u, _, rfl, isChar_of_kind ht, isChar_of_kind hu⟩
    · obtain ⟨c, more, hmarks, hc⟩ := head_mark heq
      rw [hmarks] at hkinds
      obtain ⟨t, _, rfl, ht, -⟩ := List.map_eq_cons_iff.1 hkinds
      have := h.marks c (hop ▸ hc)
      simp [Token.isChar, ht] at this
  · exact hrun

theorem groupLeft_stops {operator : Parser (Option Operator)} {operand : Parser Expr} {level tight : Level}
    (hoperator : Selects level nothing operator) (hoperand : ∀ n, ReadsAs tight d n operand) (h : Stops level rest) :
    whole (groupLeft operator operand token) e rest = .ok (e, rest) := by
  rw [whole_groupLeft_eq token hoperator (Contract.trims hoperand) e h.ends, groupRound,
    run_bind_ok (operator_stops hoperator h)]
  rfl

/-! ## From a level to the next looser one -/

/-- a parser that arrives in its loop finds the expression before what does not go on with the loop -/
theorem Arrives.finds {p : Parser Expr} {loop : Token → Nat → Expr → Parser Expr} {kinds : List TokenKind}
    {loose tight : Level} (h : Arrives p loop kinds tight e) (hrank : loose.rank ≤ tight.rank)
    (hstops : ∀ token e rest, Stops loose rest → whole (loop token) e rest = .ok (e, rest)) : Finds p kinds loose e := by
  intro ts rest hts hrest
  obtain ⟨e', token, hrun, hbare⟩ := h ts rest hts (hrest.tighten hrank)
  exact ⟨e', hrun.trans (hstops _ _ _ hrest), hbare⟩

/-- a parser behind the first token of which a loop starts arrives in this loop -/
theorem Finds.arrives {p : Parser Expr} {loop : Token → Nat → Expr → Parser Expr} {kinds : List TokenKind} {level : Level}
    (h : Finds p kinds level e) :
    Arrives (do let token ← current; let e ← p; loop token (← remaining) e) loop kinds level e := by
  intro ts rest hts hrest
  obtain ⟨e', hrun, hbare⟩ := h ts rest hts hrest
  exact ⟨e', (ts ++ rest).headD default, (run_current _ _).trans (run_bind_ok hrun _), hbare⟩

theorem Recovers.product_finds (h : Recovers d e .product) :
    Finds (product (expression d)) (e.spelledAt .product) .product e :=
  Arrives.finds h (by decide) fun _ _ _ => groupLeft_stops selects_product (contract_castExpression (contract_expression d).1)

theorem Recovers.sum_finds (h : Recovers d e .sum) : Finds (sum (expression d)) (e.spelledAt .sum) .sum e :=
  Arrives.finds h (by decide) fun _ _ _ => groupLeft_stops selects_sum (contract_product (contract_expression d).1)

theorem Recovers.access_finds (h : Recovers d e .access) :
    Finds (postfixExpression (expression d)) (e.spelledAt .access) .access e :=
  Arrives.finds h (by decide) fun _ _ _ => postfixes_stops

theorem Finds.call {kinds : List TokenKind} (h : Finds (primary (expression d)) kinds .primary e) :
    Finds (callExpression (expression d)) kinds .call e := by
  intro ts rest hts hrest
  obtain ⟨e', hrun, hbare⟩ := h ts rest hts (hrest.tighten (by decide))
  exact ⟨e', (run_current _ _).trans ((run_bind_ok hrun _).trans (callRest_stops hrest)), hbare⟩

theorem castKinds_of_seesCast (ts : List Token) (h : (dropRun? [(·.isChar '('), (·.type?.isSome)] ts).isSome = true) :
    CastKinds (ts.map (·.kind)) := by
  match ts with
  | [] => cases h
  | [t] => by_cases ht : t.isChar '(' = true <;> simp [dropRun?, ht] at h
  | t :: u :: rest =>
    by_cases ht : t.isChar '(' = true
    · rcases hu : u.type? with _ | ty
      · simp [dropRun?, ht, hu] at h
      · refine ⟨ty.name, ?_, rest.map (·.kind), by simp [kind_of_isChar ht, kind_of_type hu]⟩
        exact List.mem_append_right _ (List.mem_map_of_mem (mem_declarable hu))
    · simp [dropRun?, ht] at h

theorem Finds.cast {kinds : List TokenKind} (hkinds : ∀ more, ¬ CastKinds (kinds ++ more))
    (h : Finds (postfixExpression (expression d)) kinds .access e) :
    Finds (castExpression (expression d)) kinds .cast e := by
  intro ts rest hts hrest
  obtain ⟨e', hrun, hbare⟩ := h ts rest hts (hrest.tighten (by decide))
  have hcast : seesCast (ts ++ rest) = .ok (false, ts ++ rest) := by
    have := mt (castKinds_of_seesCast (ts ++ rest)) (by rw [List.map_append, hts]; exact hkinds _)
    rw [seesCast, Bool.eq_false_iff.2 this]
  exact ⟨e', (run_current _ _).trans ((run_bind_ok hcast _).trans hrun), hbare⟩

theorem Finds.comparison {kinds : List TokenKind} (h : Finds (sum (expression d)) kinds .sum e) :
    Finds (comparison (d + 1)) kinds .comparison e := by
  intro ts rest hts hrest
  obtain ⟨e', hrun, hbare⟩ := h ts rest hts (hrest.tighten (by decide))
  exact ⟨e', (run_current _ _).trans ((run_bind_ok hrun _).trans
    (run_bind_ok (operator_stops selects_comparison hrest) _)), hbare⟩

theorem Finds.assignment {kinds : List TokenKind} (h : Finds (Parser.comparison d) kinds .comparison e) :
    Finds (expression (d + 1)) kinds .assignment e := by
  intro ts rest hts hrest
  obtain ⟨e', hrun, hbare⟩ := h ts rest hts (hrest.tighten (by decide))
  refine ⟨e', (run_current _ _).trans ((run_bind_ok hrun _).trans ?_), hbare⟩
  obtain ⟨t, rest, rfl⟩ := hrest.ends.exists_cons
  exact run_skipped (by simpa using hrest.marks '=' (by simp [Level.marks])) _ _

/-- between adjacent levels the parentheses around an expression change only at its own level -/
theorem spelledAt_adjacent {loose tight : Level} (hadjacent : tight.rank = loose.rank + 1) (hlevel : e.level ≠ loose) :
    e.spelledAt tight = e.spelledAt loose := by
  have hrank : e.level.rank ≠ loose.rank := fun h => hlevel (rank_injective h)
  have : tighter tight e.level = tighter loose e.level := by
    simp only [tighter, decide_eq_decide]
    omega
  rw [Expr.spelledAt, Expr.spelledAt, this]

theorem depthAt_adjacent {loose tight : Level} (hadjacent : tight.rank = loose.rank + 1) (hlevel : e.level ≠ loose) :
    e.depthAt loose = descent loose tight + e.depthAt tight := by
  have hrank : e.level.rank ≠ loose.rank := fun h => hlevel (rank_injective h)
  have hprimary : Level.primary.rank = 7 := rfl
  have hbound : tight.rank ≤ 7 := by cases tight <;> decide
  simp only [Expr.depthAt, depthFrom, descent, tighter, decide_eq_true_eq]
  split_ifs <;> omega

/-- where no parentheses change, what is recovered at a level is recovered at the next looser level -/
theorem Recovers.loosen_one {loose tight : Level} (hclear : e.Clear) (hadjacent : tight.rank = loose.rank + 1)
    (hlevel : e.level ≠ loose) (hdepth : e.depthAt loose ≤ d) (h : ∀ d, e.depthAt tight ≤ d → Recovers d e tight) :
    Recovers d e loose := by
  have hspelled := spelledAt_adjacent hadjacent hlevel
  rw [depthAt_adjacent hadjacent hlevel] at hdepth
  cases loose <;> cases tight <;> simp only [Level.rank] at hadjacent <;> try omega
  case assignment.comparison =>
    obtain ⟨d, rfl⟩ : ∃ k, d = k + 1 := ⟨d - 1, by simp only [descent, Level.rank] at hdepth; omega⟩
    have := h d (by simp only [descent, Level.rank] at hdepth; omega)
    rw [Recovers, hspelled] at this
    exact Finds.assignment this
  case comparison.sum =>
    obtain ⟨d, rfl⟩ : ∃ k, d = k + 1 := ⟨d - 1, by simp only [descent, Level.rank] at hdepth; omega⟩
    have := (h d (by simp only [descent, Level.rank] at hdepth; omega)).sum_finds
    rw [hspelled] at this
    exact this.comparison
  case sum.product =>
    have := (h d (by simpa [descent, Level.rank] using hdepth)).product_finds
    rw [hspelled] at this
    exact this.arrives
  case product.cast =>
    have := h d (by simpa [descent, Level.rank] using hdepth)
    rw [Recovers, hspelled] at this
    exact this.arrives
  case cast.access =>
    have := (h d (by simpa [descent, Level.rank] using hdepth)).access_finds
    rw [hspelled] at this
    refine this.cast fun more => ?_
    rw [← hspelled]
    exact not_castKinds_spelledAt hclear _ (by decide) hclear.not_castKinds more
  case access.call =>
    have := h d (by simpa [descent, Level.rank] using hdepth)
    rw [Recovers, hspelled] at this
    exact this.arrives
  case call.primary =>
    have := h d (by simpa [descent, Level.rank] using hdepth)
    rw [Recovers, hspelled] at this
    exact this.call

/-- what is recovered at a level is recovered at looser levels, up to the level of the expression -/
theorem Recovers.loosen {loose tight : Level} (hclear : e.Clear) (hrank : loose.rank ≤ tight.rank)
    (hown : e.level.rank < loose.rank ∨ tight.rank ≤ e.level.rank) (h : ∀ d, e.depthAt tight ≤ d → Recovers d e tight) :
    ∀ d, e.depthAt loose ≤ d → Recovers d e loose := by
  obtain ⟨k, hk⟩ := Nat.exists_eq_add_of_le hrank
  induction k generalizing loose with
  | zero => exact rank_injective hk ▸ h
  | succ k ih =>
    obtain ⟨next, hnext⟩ : ∃ next : Level, next.rank = loose.rank + 1 := by
      have hbound : tight.rank ≤ 7 := by cases tight <;> decide
      cases loose
      case primary =>
        have hprimary : Level.primary.rank = 7 := rfl
        omega
      all_goals first
        | exact ⟨.comparison, rfl⟩ | exact ⟨.sum, rfl⟩ | exact ⟨.product, rfl⟩ | exact ⟨.cast, rfl⟩
        | exact ⟨.access, rfl⟩ | exact ⟨.call, rfl⟩ | exact ⟨.primary, rfl⟩
    refine fun d hd => Recovers.loosen_one hclear hnext (fun h => ?_) hd
      (ih (by omega) (hown.imp (fun h => by omega) id) (by omega))
    rw [h] at hown
    omega

theorem rank_lt_primary (hlevel : e.level ≠ .primary) : e.level.rank < Level.primary.rank := by
  revert hlevel
  cases e.level <;> decide

/-- parentheses hold an expression of the loosest level -/
theorem depthAt_primary (hlevel : e.level ≠ .primary) : e.depthAt .primary = e.depthAt .assignment := by
  have hrank := rank_lt_primary hlevel
  have hassignment : Level.assignment.rank = 0 := rfl
  simp only [Expr.depthAt, depthFrom, descent, tighter, decide_eq_true_eq]
  split_ifs <;> omega

/-- an expression in parentheses -/
theorem Recovers.enclose (hlevel : e.level ≠ .primary) (h : Recovers d e .assignment) : Recovers d e .primary := by
  have htight : tighter .primary e.level = true := by
    simpa only [tighter, decide_eq_true_eq] using rank_lt_primary hlevel
  have hloose : tighter .assignment e.level = false := by
    have hassignment : Level.assignment.rank = 0 := rfl
    simp only [tighter, hassignment, decide_eq_false_iff_not]
    omega
  intro ts rest hts hrest
  simp only [Expr.spelledAt, htight, enclosed, if_true] at hts
  obtain ⟨t, ts, rfl, ht, hts⟩ := List.map_eq_cons_iff.1 hts
  obtain ⟨inner, closing, rfl, hinner, hclosing⟩ := List.map_eq_append_iff.1 hts
  obtain ⟨u, none, rfl, hu, hnil⟩ := List.map_eq_cons_iff.1 hclosing
  obtain rfl := List.map_eq_nil_iff.1 hnil
  obtain ⟨e', hrun, hbare⟩ := h inner (u :: rest) (by simp [Expr.spelledAt, hloose, enclosed, hinner])
    (stops_of_char hu hrest.ends (by decide) (by simp))
  refine ⟨e', ?_, hbare⟩
  rw [List.cons_append, List.append_assoc, run_primary, primaryStep, ht]
  exact (run_bind_ok hrun _).trans (run_bind_ok ((takes_char _ _).run (isChar_of_kind hu) rest) _)

/-- an expression that is recovered at its own level is recovered at all levels -/
theorem recovers_everywhere (hclear : e.Clear) (h : ∀ d, e.depthAt e.level ≤ d → Recovers d e e.level) (level : Level) :
    ∀ d, e.depthAt level ≤ d → Recovers d e level := by
  by_cases hrank : level.rank ≤ e.level.rank
  · exact Recovers.loosen hclear hrank (.inr le_rfl) h
  · have hassignment : ∀ d, e.depthAt .assignment ≤ d → Recovers d e .assignment :=
      Recovers.loosen hclear (Nat.zero_le _) (.inr le_rfl) h
    have hlevel : e.level ≠ .primary := by
      rintro hprimary
      rw [hprimary] at hrank
      exact hrank (by cases level <;> decide)
    have hprimary : ∀ d, e.depthAt .primary ≤ d → Recovers d e .primary := fun d hd =>
      (hassignment d (depthAt_primary hlevel ▸ hd)).enclose hlevel
    exact Recovers.loosen hclear (by cases level <;> decide) (.inl (by omega)) hprimary

end Steps

/-! ## Expressions at their own level -/

section Own

variable {d : Nat} {e e' : Expr} {es : List Expr} {token : Token}

/-- an expression does not start with punctuation other than brackets -/
theorem startsWith_of_opens {ts : List Token} {kinds : List TokenKind} (hts : ts.map (·.kind) = kinds) (h : Opens kinds)
    {c : Char} (hc : c ≠ '(' ∧ c ≠ '[') (rest : List Token) : startsWith c (ts ++ rest) = false := by
  obtain ⟨kind, more, rfl, hkind⟩ := h
  obtain ⟨t, ts, rfl, ht, -⟩ := List.map_eq_cons_iff.1 hts
  rw [List.cons_append, startsWith_cons]
  by_contra hchar
  rw [← ht, kind_of_isChar (by simpa using hchar)] at hkind
  exact hkind.elim hc.1 hc.2

theorem opens_canonical (h : e.Clear) (level : Level) : Opens (e.spelledAt level) := h.opens.enclosed _

theorem spellings_canonical : Expr.spellings tighter es = es.map Expr.canonical := by
  induction es with
  | nil => rfl
  | cons e es ih => rw [Expr.spellings, ih]; rfl

theorem bareAll_eq : Expr.bareAll es = es.map Expr.bare := by
  induction es with
  | nil => rfl
  | cons e es ih => rw [Expr.bareAll, ih]; rfl

theorem ends_of_stops {level : Level} {rest : List Token} (h : Stops level rest) (ts : List Token) : Ends (ts ++ rest) :=
  h.ends.append ts

/-- an expression of one token -/
theorem recovers_leaf {kind : TokenKind} (node : Token → Expr) (hkinds : e.spelledAt .primary = [kind])
    (hstep : ∀ t : Token, t.kind = kind → primaryStep (expression d) t = .take (pure (node t)))
    (hbare : ∀ t, (node t).bare = e.bare) : Recovers d e .primary := by
  intro ts rest hts _
  rw [hkinds] at hts
  obtain ⟨t, none, rfl, ht, hnil⟩ := List.map_eq_cons_iff.1 hts
  obtain rfl := List.map_eq_nil_iff.1 hnil
  exact ⟨node t, by rw [List.singleton_append, run_primary, hstep t ht]; rfl, hbare t⟩

theorem Finds.restores {p : Parser Expr} {kinds : List TokenKind} {level : Level} {before : List Token → Prop}
    (h : Finds p kinds level e) (hbefore : ∀ rest, Ends rest → before rest → Stops level rest) :
    Restores p kinds before Expr.bare e.bare := fun ts rest hts hends hrest => h ts rest hts (hbefore rest hends hrest)

theorem stops_of_startsWith {level : Level} {c : Char} {rest : List Token} (hends : Ends rest)
    (h : startsWith c rest = true) (hc : c ∉ '=' :: level.marks) : Stops level rest := by
  obtain ⟨t, rest, rfl⟩ := hends.exists_cons
  have ht : t.isChar c = true := by simpa using h
  simp only [List.mem_cons, not_or] at hc
  have hends' : Ends rest := hends.tail (inner_char t ht)
  exact stops_of_char (kind_of_isChar ht) hends' hc.2 fun h => absurd h hc.1

/-- expressions with commas between them, or none, up to the closing character -/
theorem restores_list {closer : Char} (place : Construct) (hcloser : closer ∉ continuingMarks ∧ closer ≠ '[')
    (hclear : ∀ e ∈ es, e.Clear) (h : ∀ e ∈ es, Recovers d e .assignment) :
    Restores (listUpTo (expression d) closer place) (commas (es.map Expr.canonical) ++ [.char closer]) anything
      (List.map Expr.bare) (es.map Expr.bare) := by
  refine Restores.listUpTo (trims_expression d) (fun h => hcloser.1 (h ▸ by decide))
    (fun e he => ?_) fun e he => Finds.restores (h e he) fun rest hends hrest => ?_
  · obtain ⟨kind, more, hkinds, hkind⟩ := opens_canonical (hclear e he) .assignment
    refine ⟨kind, more, hkinds, ?_⟩
    rintro rfl
    exact hkind.elim (fun h => hcloser.1 (h ▸ by decide)) hcloser.2
  · rcases hrest with hrest | hrest
    · exact stops_of_startsWith hends hrest (by decide)
    · refine stops_of_startsWith hends hrest fun hc => hcloser.1 ?_
      revert hc
      simp only [Level.marks, continuingMarks, List.mem_cons]
      tauto

theorem recovers_list (hclear : ∀ e ∈ es, e.Clear) (h : ∀ e ∈ es, Recovers d e .assignment) :
    Recovers d (.list token es) .primary := by
  intro ts rest hts hrest
  rw [show (Expr.list token es).spelledAt .primary = .char '[' :: (commas (Expr.spellings tighter es) ++ [.char ']'])
    from rfl, spellings_canonical] at hts
  obtain ⟨t, ts, rfl, ht, hts⟩ := List.map_eq_cons_iff.1 hts
  obtain ⟨es', hrun, hbare⟩ :=
    restores_list .arrayDeclaration (by decide) hclear h ts rest hts hrest.ends trivial
  refine ⟨.list t es', ?_, by rw [Expr.bare, bareAll_eq, hbare, Expr.bare, bareAll_eq]⟩
  rw [List.cons_append, run_primary, primaryStep, ht]
  exact run_bind_ok hrun _

theorem recovers_call (hclear : ∀ e ∈ es, e.Clear) (hcallee : Recovers d e .primary)
    (h : ∀ e ∈ es, Recovers d e .assignment) :
    Recovers d (.call token e es) .call := by
  intro ts rest hts hrest
  rw [show (Expr.call token e es).spelledAt .call = e.spelledAt .primary ++ .char '(' ::
    (commas (Expr.spellings tighter es) ++ [.char ')']) from rfl, spellings_canonical] at hts
  obtain ⟨used, more, rfl, hused, hmore⟩ := List.map_eq_append_iff.1 hts
  obtain ⟨t, more, rfl, ht, hmore⟩ := List.map_eq_cons_iff.1 hmore
  obtain ⟨e', hrun, hbare⟩ := hcallee used (t :: (more ++ rest)) hused
    (stops_of_char ht (ends_of_stops hrest more) (by decide) (by simp))
  obtain ⟨es', hrun', hbare'⟩ :=
    restores_list .callExpr (by decide) hclear h more rest hmore hrest.ends trivial
  refine ⟨.call ((used ++ t :: (more ++ rest)).headD default) e' es', ?_,
    by rw [Expr.bare, hbare, bareAll_eq, hbare', Expr.bare, bareAll_eq]⟩
  rw [List.append_assoc]
  refine (run_current _ _).trans ((run_bind_ok hrun _).trans ?_)
  exact (run_taken (isChar_of_kind ht) _ _).trans (run_bind_ok hrun' _)

theorem recovers_member {name : Token} (hname : name.IsName) (h : Recovers d e .access) :
    Recovers d (.member token e name) .access := by
  intro ts rest hts hrest
  rw [show (Expr.member token e name).spelledAt .access = e.spelledAt .access ++ [.char '.', name.kind] from rfl] at hts
  obtain ⟨used, more, rfl, hused, hmore⟩ := List.map_eq_append_iff.1 hts
  obtain ⟨t, more, rfl, ht, hmore⟩ := List.map_eq_cons_iff.1 hmore
  obtain ⟨u, none, rfl, hu, hnil⟩ := List.map_eq_cons_iff.1 hmore
  obtain rfl := List.map_eq_nil_iff.1 hnil
  obtain ⟨e', node, hrun, hbare⟩ := h used (t :: u :: rest) hused
    (stops_of_char ht (ends_of_stops hrest [u]) (by decide) (by simp))
  refine ⟨.member node e' u, node, ?_, by rw [Expr.bare, hbare, hu, Expr.bare]⟩
  rw [List.append_assoc]
  refine hrun.trans ((whole_postfixes_eq (trims_expression d) _ (hrest.ends.append [t, u])).trans ?_)
  refine (run_taken (isChar_of_kind ht) _ _).trans (run_bind_ok ((takes_symbol _).run ?_ rest) _)
  obtain ⟨word, hword⟩ := hname
  simp [Token.named, hu, hword]

theorem recovers_index (h : Recovers d e .access) (hplace : Recovers d e' .assignment) :
    Recovers d (.index token e e') .access := by
  intro ts rest hts hrest
  rw [show (Expr.index token e e').spelledAt .access = e.spelledAt .access ++ .char '[' ::
    (e'.spelledAt .assignment ++ [.char ']']) from rfl] at hts
  obtain ⟨used, more, rfl, hused, hmore⟩ := List.map_eq_append_iff.1 hts
  obtain ⟨t, more, rfl, ht, hmore⟩ := List.map_eq_cons_iff.1 hmore
  obtain ⟨inner, closing, rfl, hinner, hclosing⟩ := List.map_eq_append_iff.1 hmore
  obtain ⟨u, none, rfl, hu, hnil⟩ := List.map_eq_cons_iff.1 hclosing
  obtain rfl := List.map_eq_nil_iff.1 hnil
  obtain ⟨target, node, hrun, hbare⟩ := h used (t :: (inner ++ u :: rest)) hused
    (stops_of_char ht ((hrest.ends.append [u]).append inner) (by decide) (by simp))
  obtain ⟨place, hrun', hbare'⟩ := hplace inner (u :: rest) hinner (stops_of_char hu hrest.ends (by decide) (by simp))
  refine ⟨.index node target place, node, ?_, by rw [Expr.bare, hbare, hbare', Expr.bare]⟩
  rw [List.append_assoc, List.cons_append, List.append_assoc]
  refine hrun.trans ((whole_postfixes_eq (trims_expression d) _ (((hrest.ends.append [u]).append inner).append [t])).trans ?_)
  refine (run_skipped (by simp [Token.isChar, ht]) _ _).trans ?_
  refine (run_taken (isChar_of_kind ht) _ _).trans ((run_bind_ok hrun' _).trans ?_)
  exact run_bind_ok ((takes_char _ _).run (isChar_of_kind hu) rest) _

theorem recovers_cast {ty : Ty} (hty : ty ∈ Ty.declarable) (h : Recovers d e .access) :
    Recovers d (.cast token ty e) .cast := by
  intro ts rest hts hrest
  rw [show (Expr.cast token ty e).spelledAt .cast = .char '(' :: .symbol ty.name :: .char ')' :: e.spelledAt .access
    from rfl] at hts
  obtain ⟨t, ts, rfl, ht, hts⟩ := List.map_eq_cons_iff.1 hts
  obtain ⟨word, ts, rfl, hword, hts⟩ := List.map_eq_cons_iff.1 hts
  obtain ⟨u, ts, rfl, hu, hts⟩ := List.map_eq_cons_iff.1 hts
  have hword' := type?_of_declarable hty hword
  have htchar : t.isChar '(' = true := by simp [Token.isChar, ht]
  obtain ⟨e', hrun, hbare⟩ := h.access_finds ts rest hts (hrest.tighten (by decide))
  refine ⟨.cast t ty e', ?_, by rw [Expr.bare, hbare, Expr.bare]⟩
  have hcast : seesCast (t :: word :: u :: (ts ++ rest)) = .ok (true, t :: word :: u :: (ts ++ rest)) := by
    simp [seesCast, dropRun?, htchar, hword']
  have htype : type (word :: u :: (ts ++ rest)) = .ok (ty, u :: (ts ++ rest)) := by simp [type, hword']
  refine (run_current _ _).trans ((run_bind_ok hcast _).trans ?_)
  refine (run_bind_ok ((takes_char _ _).run htchar _) _).trans ((run_bind_ok htype _).trans ?_)
  exact (run_bind_ok ((takes_char _ _).run (isChar_of_kind hu) _) _).trans (run_bind_ok hrun _)

/-- the operators of sums and products are read off their character -/
theorem run_sumOperator {op : Operator} (h : op.level = .sum) : ∃ c, op.marks = [c] ∧ c ∉ Level.product.marks ∧
    ∀ (t : Token) (us : List Token), t.kind = .char c → sumOperator (t :: us) = .ok (some op, us) := by
  cases op <;> simp only [Operator.level, reduceCtorEq] at h
  · exact ⟨'+', rfl, by decide, fun t us ht => by simp [sumOperator, run_marks, Token.isChar, ht]⟩
  · exact ⟨'-', rfl, by decide, fun t us ht => by simp [sumOperator, run_marks, Token.isChar, ht]⟩

theorem run_productOperator {op : Operator} (h : op.level = .product) : ∃ c, op.marks = [c] ∧ c ∉ Level.cast.marks ∧
    ∀ (t : Token) (us : List Token), t.kind = .char c → productOperator (t :: us) = .ok (some op, us) := by
  cases op <;> simp only [Operator.level, reduceCtorEq] at h
  · exact ⟨'*', rfl, by decide, fun t us ht => by simp [productOperator, run_marks, Token.isChar, ht]⟩
  · exact ⟨'/', rfl, by decide, fun t us ht => by simp [productOperator, run_marks, Token.isChar, ht]⟩

/-- an operator and its right operand are a further round of the loop that the left operand arrives in -/
theorem Arrives.binary {p operand : Parser Expr} {operator : Parser (Option Operator)} {level tight : Level}
    {op : Operator} {c : Char} {kinds kinds' : List TokenKind} (hoperator : Selects level nothing operator)
    (hoperand : ∀ n, ReadsAs tight d n operand)
    (hrun : ∀ (t : Token) (us : List Token), t.kind = .char c → operator (t :: us) = .ok (some op, us))
    (hc : c ∉ tight.marks) (htight : tight ≠ .comparison)
    (h : Arrives p (groupLeft operator operand) kinds tight e) (h' : Finds operand kinds' tight e') :
    Arrives p (groupLeft operator operand) (kinds ++ .char c :: kinds') tight (.binary token e op e') := by
  intro ts rest hts hrest
  obtain ⟨used, more, rfl, hused, hmore⟩ := List.map_eq_append_iff.1 hts
  obtain ⟨t, more, rfl, ht, hmore⟩ := List.map_eq_cons_iff.1 hmore
  have hends := ends_of_stops hrest more
  obtain ⟨left, node, hleft, hbare⟩ := h used (t :: (more ++ rest)) hused
    (stops_of_char ht hends hc fun _ hlevel => absurd hlevel htight)
  obtain ⟨right, hright, hbare'⟩ := h' more rest hmore hrest
  refine ⟨.binary node left op right, node, ?_, by rw [Expr.bare, hbare, hbare', Expr.bare]⟩
  rw [List.append_assoc]
  refine hleft.trans ((whole_groupLeft_eq _ hoperator (Contract.trims hoperand) _ (hends.append [t])).trans ?_)
  exact (run_bind_ok (hrun t _ ht) _).trans (run_bind_ok hright _)

theorem spelledAt_binary {op : Operator} {level : Level} (hop : op.level = level) :
    (Expr.binary token e op e').spelledAt level =
      e.spelledAt op.leftLevel ++ (op.marks.map .char ++ e'.spelledAt op.rightLevel) := by
  subst hop
  rw [Expr.spelledAt, enclosed, if_neg (by simp [tighter, Expr.level]), Expr.spelled]
  rfl

theorem recovers_product {op : Operator} (hop : op.level = .product) (h : Recovers d e .product) (h' : Recovers d e' .cast) :
    Recovers d (.binary token e op e') .product := by
  obtain ⟨c, hmarks, hc, hrun⟩ := run_productOperator hop
  have hlevels := levels_product op hop
  rw [Recovers, spelledAt_binary hop, hmarks, hlevels.1, hlevels.2.1]
  exact Arrives.binary selects_product (contract_castExpression (contract_expression d).1) hrun hc (by decide) h h'

theorem recovers_sum {op : Operator} (hop : op.level = .sum) (h : Recovers d e .sum) (h' : Recovers d e' .product) :
    Recovers d (.binary token e op e') .sum := by
  obtain ⟨c, hmarks, hc, hrun⟩ := run_sumOperator hop
  have hlevels := levels_sum op hop
  rw [Recovers, spelledAt_binary hop, hmarks, hlevels.1, hlevels.2.1]
  exact Arrives.binary selects_sum (contract_product (contract_expression d).1) hrun hc (by decide) h h'.product_finds

/-- a comparison operator is read off its characters unless an equals sign follows -/
theorem run_comparison {op : Operator} (h : op.level = .comparison) {marks : List Token}
    (hmarks : marks.map (·.kind) = op.marks.map .char) {us : List Token} (hus : startsWith '=' us = false) :
    comparisonOperator (marks ++ us) = .ok (some op, us) := by
  have hone {c : Char} (hc : op.marks = [c]) : ∃ t : Token, marks = [t] ∧ t.kind = .char c := by
    rw [hc] at hmarks
    obtain ⟨t, none, rfl, ht, hnil⟩ := List.map_eq_cons_iff.1 hmarks
    obtain rfl := List.map_eq_nil_iff.1 hnil
    exact ⟨t, rfl, ht⟩
  have htwo {c : Char} (hc : op.marks = [c, '=']) :
      ∃ t u : Token, marks = [t, u] ∧ t.kind = .char c ∧ u.kind = .char '=' := by
    rw [hc] at hmarks
    obtain ⟨t, more, rfl, ht, hmore⟩ := List.map_eq_cons_iff.1 hmarks
    obtain ⟨u, none, rfl, hu, hnil⟩ := List.map_eq_cons_iff.1 hmore
    obtain rfl := List.map_eq_nil_iff.1 hnil
    exact ⟨t, u, rfl, ht, hu⟩
  cases op <;> simp only [Operator.level, reduceCtorEq] at h
  case lt | gt =>
    obtain ⟨t, rfl, ht⟩ := hone rfl
    simp [run_comparisonOperator, Token.isChar, ht, hus]
  case le | ge | eq =>
    obtain ⟨t, u, rfl, ht, hu⟩ := htwo rfl
    simp [run_comparisonOperator, Token.isChar, ht, hu]

theorem recovers_comparison {op : Operator} (hop : op.level = .comparison) (hclear : e'.Clear) (h : Recovers d e .sum)
    (h' : Recovers d e' .comparison) : Recovers (d + 1) (.binary token e op e') .comparison := by
  intro ts rest hts hrest
  obtain ⟨hl, hr⟩ := levels_comparison op hop
  rw [spelledAt_binary hop, hl, hr] at hts
  obtain ⟨used, more, rfl, hused, hmore⟩ := List.map_eq_append_iff.1 hts
  obtain ⟨marks, more, rfl, hmarks, hmore⟩ := List.map_eq_append_iff.1 hmore
  have hstops : Stops .sum (marks ++ (more ++ rest)) := by
    obtain ⟨c, cs, hcs, hc⟩ : ∃ c cs, op.marks = c :: cs ∧ c ∉ Level.sum.marks := by
      cases op <;> simp only [Operator.level, reduceCtorEq] at hop <;> exact ⟨_, _, rfl, by decide⟩
    rw [hcs] at hmarks
    obtain ⟨t, marks, rfl, ht, -⟩ := List.map_eq_cons_iff.1 hmarks
    exact stops_of_char ht ((ends_of_stops hrest more).append marks) hc (by simp)
  obtain ⟨left, hleft, hbare⟩ := h.sum_finds used (marks ++ (more ++ rest)) hused hstops
  obtain ⟨right, hright, hbare'⟩ := h' more rest hmore hrest
  refine ⟨.binary ((used ++ (marks ++ (more ++ rest))).headD default) left op right, ?_,
    by rw [Expr.bare, hbare, hbare', Expr.bare]⟩
  rw [List.append_assoc, List.append_assoc]
  have hnext := startsWith_of_opens hmore (opens_canonical hclear .comparison) (c := '=') (by decide) rest
  refine (run_current _ _).trans ((run_bind_ok hleft _).trans ?_)
  exact (run_bind_ok (run_comparison hop hmarks hnext) _).trans (run_bind_ok hright _)

theorem recovers_assignment (hclear : e'.Clear) (h : Recovers d e .comparison) (h' : Recovers d e' .assignment) :
    Recovers (d + 1) (.assign token e e') .assignment := by
  intro ts rest hts hrest
  rw [show (Expr.assign token e e').spelledAt .assignment = e.spelledAt .comparison ++ .char '=' :: e'.spelledAt .assignment
    from rfl] at hts
  obtain ⟨used, more, rfl, hused, hmore⟩ := List.map_eq_append_iff.1 hts
  obtain ⟨t, more, rfl, ht, hmore⟩ := List.map_eq_cons_iff.1 hmore
  have hnext := startsWith_of_opens hmore (opens_canonical hclear .assignment) (c := '=') (by decide) rest
  obtain ⟨target, hrun, hbare⟩ := h used (t :: (more ++ rest)) hused
    (stops_of_char ht (ends_of_stops hrest more) (by decide) fun _ _ => hnext)
  obtain ⟨value, hrun', hbare'⟩ := h' more rest hmore hrest
  refine ⟨.assign ((used ++ t :: (more ++ rest)).headD default) target value, ?_,
    by rw [Expr.bare, hbare, hbare', Expr.bare]⟩
  rw [List.append_assoc]
  refine (run_current _ _).trans ((run_bind_ok hrun _).trans ?_)
  exact (run_taken (isChar_of_kind ht) _ _).trans (run_bind_ok hrun' _)

end Own

theorem depthOfAll_le {es : List Expr} {e : Expr} (h : e ∈ es) : e.depthAt .assignment ≤ Expr.depthOfAll es := by
  induction es with
  | nil => cases h
  | cons next es ih =>
    rw [Expr.depthOfAll]
    rcases List.mem_cons.1 h with rfl | h
    · exact le_max_left _ _
    · exact (ih h).trans (le_max_right _ _)

/-- the tokens of an expression without keywords are read as this expression, at every level -/
theorem recovers_all {e : Expr} (hclear : e.Clear) (level : Level) (d : Nat) (hdepth : e.depthAt level ≤ d) :
    Recovers d e level := by
  induction e using Expr.induction generalizing level d with
  | int t n => exact recovers_everywhere hclear (fun d _ => recovers_leaf (.int · n) rfl (fun t ht => by rw [primaryStep, ht])
      fun _ => rfl) level d hdepth
  | float t x => exact recovers_everywhere hclear (fun d _ => recovers_leaf (.float · x) rfl
      (fun t ht => by rw [primaryStep, ht]) fun _ => rfl) level d hdepth
  | string t s => exact recovers_everywhere hclear (fun d _ => recovers_leaf (.string · s) rfl
      (fun t ht => by rw [primaryStep, ht]) fun _ => rfl) level d hdepth
  | symbol t name => exact recovers_everywhere hclear (fun d _ => recovers_leaf (.symbol · name) rfl
      (fun t ht => by rw [primaryStep, ht]) fun _ => rfl) level d hdepth
  | binary t left op right ihl ihr =>
    obtain ⟨hl, hr⟩ := clear_binary hclear
    refine recovers_everywhere hclear (fun d hd => ?_) level d hdepth
    rw [depthAt_level, Expr.ownDepth] at hd
    rw [show (Expr.binary t left op right).level = op.level from rfl]
    rcases hop : op.level with _ | _ | _ | _ | _ | _ | _ | _
    case comparison =>
      obtain ⟨hleft, hright⟩ := levels_comparison op hop
      rw [if_pos hop, hleft, hright] at hd
      obtain ⟨d, rfl⟩ : ∃ k, d = k + 1 := ⟨d - 1, by omega⟩
      exact recovers_comparison hop hr (ihl hl _ d (by rw [Expr.depthAt]; omega)) (ihr hr _ d (by rw [Expr.depthAt]; omega))
    case sum =>
      obtain ⟨hleft, hright, -⟩ := levels_sum op hop
      rw [hleft, hright] at hd
      exact recovers_sum hop (ihl hl _ d (by rw [Expr.depthAt]; omega)) (ihr hr _ d (by rw [Expr.depthAt]; omega))
    case product =>
      obtain ⟨hleft, hright, -⟩ := levels_product op hop
      rw [hleft, hright] at hd
      exact recovers_product hop (ihl hl _ d (by rw [Expr.depthAt]; omega)) (ihr hr _ d (by rw [Expr.depthAt]; omega))
    all_goals cases op <;> cases hop
  | assign t target value iht ihv =>
    obtain ⟨ht, hv⟩ := clear_assign hclear
    refine recovers_everywhere hclear (fun d hd => ?_) level d hdepth
    rw [depthAt_level, Expr.ownDepth] at hd
    obtain ⟨d, rfl⟩ : ∃ k, d = k + 1 := ⟨d - 1, by omega⟩
    exact recovers_assignment hv (iht ht _ d (by rw [Expr.depthAt]; omega)) (ihv hv _ d (by rw [Expr.depthAt]; omega))
  | call t callee arguments ih iha =>
    obtain ⟨hc, ha⟩ := clear_call hclear
    refine recovers_everywhere hclear (fun d hd => ?_) level d hdepth
    rw [depthAt_level, Expr.ownDepth] at hd
    exact recovers_call ha (ih hc _ d (by rw [Expr.depthAt]; omega))
      fun a h => iha a h (ha a h) _ d ((depthOfAll_le h).trans (by omega))
  | member t target name ih =>
    obtain ⟨ht, hname⟩ := clear_member hclear
    refine recovers_everywhere hclear (fun d hd => ?_) level d hdepth
    rw [depthAt_level, Expr.ownDepth] at hd
    exact recovers_member hname (ih ht _ d hd)
  | index t target place iht ihp =>
    obtain ⟨ht, hp⟩ := clear_index hclear
    refine recovers_everywhere hclear (fun d hd => ?_) level d hdepth
    rw [depthAt_level, Expr.ownDepth] at hd
    exact recovers_index (iht ht _ d (by rw [Expr.depthAt]; omega)) (ihp hp _ d (by rw [Expr.depthAt]; omega))
  | list t elements ih =>
    have he := clear_list hclear
    refine recovers_everywhere hclear (fun d hd => ?_) level d hdepth
    rw [depthAt_level, Expr.ownDepth] at hd
    exact recovers_list he fun e h => ih e h (he e h) _ d ((depthOfAll_le h).trans hd)
  | cast t ty operand ih =>
    obtain ⟨hty, ho⟩ := clear_cast hclear
    refine recovers_everywhere hclear (fun d hd => ?_) level d hdepth
    rw [depthAt_level, Expr.ownDepth] at hd
    exact recovers_cast hty (ih ho _ d hd)

/-- a statement that starts like an expression is one -/
theorem statement_of_opens {depths : Depths} {depth : Nat} {ts : List Token} (h : Opens (ts.map (·.kind))) :
    statement depths (depth + 1) ts = expressionStatement depths (ts.headD default) ts := by
  obtain ⟨kind, more, hkinds, hkind⟩ := h
  obtain ⟨t, ts, rfl, ht, -⟩ := List.map_eq_cons_iff.1 hkinds
  rw [← ht] at hkind
  have hword {word : String} (hword : word ∈ keywords) : ¬ t.isSymbol word = true := by
    intro h
    rw [kind_of_isSymbol h] at hkind
    exact hkind hword
  have hbrace : ¬ t.isChar '{' = true := by
    intro h
    rw [kind_of_isChar h] at hkind
    rcases hkind with hkind | hkind <;> exact absurd hkind (by decide)
  have htype : t.type? = none := by
    rcases hty : t.type? with _ | ty
    · rfl
    · rw [kind_of_type hty] at hkind
      exact absurd (List.mem_append_right _ (List.mem_map_of_mem (mem_declarable hty))) hkind
  have hsees : seesType (t :: ts) = .ok (false, t :: ts) := by simp [seesType, htype]
  rw [statement_succ, run_current, statementAt]
  refine (run_skipped (hword (by decide)) _ _).trans ?_
  refine (run_skipped (hword (by decide)) _ _).trans ?_
  refine (run_skipped (hword (by decide)) _ _).trans ?_
  refine (run_skipped hbrace _ _).trans ?_
  exact run_bind_ok hsees _

end Parser

open LevelScript.Syntax.Parser in
/-- **Reading inverts writing.** The tokens of the canonical form of an expression, with a semicolon behind them, are read
as this expression, and none but the semicolon and what follows is left; as a statement they are this expression too. All
expressions are meant that can be written, have no keywords for names and are not too deep. -/
theorem expression_reads_back {depths : Depths} {e : Expr} (hwritable : e.Writable)
    (hnames : ∀ name ∈ e.names, name ∉ keywords) (hdepth : e.depth ≤ depths.expression) {tokens rest : List Token}
    {semicolon : Token} (htokens : tokens.map (·.kind) = e.canonical) (hsemicolon : semicolon.kind = .char ';') (hrest : Ends rest) :
    ∃ e', e'.bare = e.bare ∧ fullExpression depths (tokens ++ semicolon :: rest) = .ok (e', semicolon :: rest) ∧
      ∃ first, parseStatement depths (tokens ++ semicolon :: rest) = .ok (.expr first e', rest) := by
  have hclear : e.Clear := ⟨hwritable, hnames⟩
  obtain ⟨e', hrun, hbare⟩ := recovers_all hclear .assignment depths.expression hdepth tokens (semicolon :: rest) htokens
    (stops_of_char hsemicolon hrest (by decide) (by simp))
  refine ⟨e', hbare, hrun, (tokens ++ semicolon :: rest).headD default, ?_⟩
  have hopens : Opens ((tokens ++ semicolon :: rest).map (·.kind)) := by
    rw [List.map_append, htokens]
    exact (opens_canonical hclear .assignment).append _
  have hstatement : statement depths depths.statement (tokens ++ semicolon :: rest) =
      .ok (.expr ((tokens ++ semicolon :: rest).headD default) e', rest) := by
    obtain ⟨depth, hpositive⟩ := Nat.exists_eq_add_of_lt depths.positive
    rw [hpositive, statement_of_opens hopens]
    exact (run_bind_ok hrun _).trans (run_bind_ok ((takes_char _ _).run (isChar_of_kind hsemicolon) rest) _)
  rw [parseStatement, StateT.run, hstatement]

/-- a difference times a number keeps its parentheses -/
theorem expression_reads_back_product :
    let difference := Expr.binary default (.symbol default "a") .sub (.symbol default "b")
    let e := Expr.binary default difference .mul (.int default 2)
    let tokens := ([.char '(', .symbol "a", .char '-', .symbol "b", .char ')', .char '*', .int 2] : List TokenKind).map
      Token.ofKind
    let rest := [Token.ofKind (.char ';'), Token.ofKind .eof]
    ∃ e', e'.bare = e.bare ∧ Parser.fullExpression {} (tokens ++ rest) = .ok (e', rest) ∧
      ∃ first, parseStatement {} (tokens ++ rest) = .ok (.expr first e', [Token.ofKind .eof]) :=
  expression_reads_back (e := .binary default (.binary default (.symbol default "a") .sub (.symbol default "b")) .mul
    (.int default 2)) ⟨⟨trivial, trivial⟩, trivial⟩ (by decide) (by decide) rfl rfl ⟨_, List.mem_singleton_self _, rfl⟩

end LevelScript.Syntax
