/-
A parsed tree keeps tokens of its script only.

`Draws pool P p`: on tokens of a pool, the parser leaves tokens of the pool, and its result keeps the promise `P`. The
parsers of the grammar draw the anchors of their results from the pool, so those of a parsed statement are tokens that
it was parsed from (`parseStatement_draws`). Only lists that end are considered: the next token of an empty list would
be one that is not there.
-/
import LevelScript.Proofs.Anchors
import LevelScript.Proofs.StatementContract

namespace LevelScript.Syntax

namespace Parser

variable {α β : Type} {pool : List Token}

/-- what the parser leaves of tokens of the pool are such tokens, and its result keeps the promise -/
def Draws (pool : List Token) (P : α → Prop) (p : Parser α) : Prop :=
  ∀ ts rest a, ts ⊆ pool → Ends ts → p ts = .ok (a, rest) → rest ⊆ pool ∧ Ends rest ∧ P a

/-! ## Sequences -/

section Sequences

variable {P : α → Prop} {Q : β → Prop}

theorem draws_pure {a : α} (h : P a) : Draws pool P (pure a : Parser α) := by
  intro ts rest b hpool hends hp
  cases hp
  exact ⟨hpool, hends, h⟩

theorem draws_refuse (cause : RefusalCause) : Draws pool P (refuse cause : Parser α) := by
  intro ts rest a _ _ hp
  cases hp

theorem Draws.bind {p : Parser α} {f : α → Parser β} (hp : Draws pool P p) (hf : ∀ a, P a → Draws pool Q (f a)) :
    Draws pool Q (p >>= f) := by
  intro ts rest b hpool hends h
  obtain ⟨a, mid, ha, hb⟩ := bind_eq_ok h
  obtain ⟨hmid, hmidEnds, hPa⟩ := hp ts mid a hpool hends ha
  exact hf a hPa mid rest b hmid hmidEnds hb

theorem Draws.map {p : Parser α} {g : α → β} (hp : Draws pool P p) (hg : ∀ a, P a → Q (g a)) :
    Draws pool Q (g <$> p) := by
  rw [run_map]
  exact hp.bind fun a ha => draws_pure (hg a ha)

theorem Draws.ite {b : Bool} {p q : Parser α} (hp : Draws pool P p) (hq : Draws pool P q) :
    Draws pool P (if b then p else q) := by
  cases b with
  | true => exact hp
  | false => exact hq

end Sequences

/-! ## Single tokens -/

/-- a parser that only looks ahead leaves what it is given -/
theorem draws_look {P : α → Prop} {p : Parser α} {value : List Token → α} (hp : ∀ ts, p ts = .ok (value ts, ts))
    (hP : ∀ ts, ts ⊆ pool → Ends ts → P (value ts)) : Draws pool P p := by
  intro ts rest a hpool hends h
  rw [hp] at h
  cases h
  exact ⟨hpool, hends, hP ts hpool hends⟩

theorem draws_current : Draws pool (· ∈ pool) current := by
  refine draws_look (fun _ => rfl) fun ts hpool hends => ?_
  obtain ⟨t, rest, rfl⟩ := hends.exists_cons
  exact hpool List.mem_cons_self

theorem draws_remaining : Draws pool (fun _ => True) remaining := draws_look (fun _ => rfl) fun _ _ _ => trivial

theorem draws_seesType : Draws pool (fun _ => True) seesType := draws_look (fun _ => rfl) fun _ _ _ => trivial

theorem draws_seesCast : Draws pool (fun _ => True) seesCast := draws_look (fun _ => rfl) fun _ _ _ => trivial

/-- what a run of tests takes off the front does not mark the end -/
theorem dropRun?_keeps {tests : List (Token → Bool)} {ts rest : List Token}
    (htests : ∀ test ∈ tests, ∀ t, test t = true → t.kind ≠ .eof) (hpool : ts ⊆ pool) (hends : Ends ts)
    (h : dropRun? tests ts = some rest) : rest ⊆ pool ∧ Ends rest := by
  induction tests generalizing ts with
  | nil =>
    cases h
    exact ⟨hpool, hends⟩
  | cons test tests ih =>
    obtain ⟨t, ts, rfl⟩ := hends.exists_cons
    rw [dropRun?] at h
    split_ifs at h with ht
    have hinner : t.kind ≠ .eof := htests test List.mem_cons_self t ht
    exact ih (fun other hother => htests other (List.mem_cons_of_mem _ hother))
      (fun u hu => hpool (List.mem_cons_of_mem _ hu)) (hends.tail hinner) h

theorem draws_takeRun {tests : List (Token → Bool)} (htests : ∀ test ∈ tests, ∀ t, test t = true → t.kind ≠ .eof) :
    Draws pool (fun _ => True) (takeRun tests) := by
  intro ts rest comes hpool hends h
  unfold takeRun at h
  split at h
  · rename_i hdrop
    cases h
    obtain ⟨hrest, hrestEnds⟩ := dropRun?_keeps htests hpool hends hdrop
    exact ⟨hrest, hrestEnds, trivial⟩
  · cases h
    exact ⟨hpool, hends, trivial⟩

theorem draws_takeChar (c : Char) : Draws pool (fun _ => True) (takeChar c) :=
  draws_takeRun fun test htest t ht => by
    rw [List.mem_singleton.1 htest] at ht
    exact inner_char t ht

theorem draws_takeWord (word : String) : Draws pool (fun _ => True) (takeWord word) :=
  draws_takeRun fun test htest t ht => by
    rw [List.mem_singleton.1 htest] at ht
    exact inner_word t ht

theorem draws_char (c : Char) (place : Construct) : Draws pool (fun _ => True) (char c place) :=
  (draws_takeChar c).bind fun _ _ => Draws.ite (draws_pure trivial) (draws_refuse _)

/-- a token that has to come is one of the pool -/
theorem Takes.draws {P : α → Prop} {p : Parser α} {test : Token → Bool} {value : Token → α} {cause : RefusalCause}
    (h : Takes test value cause p) (hinner : ∀ t, test t = true → t.kind ≠ .eof) (hP : ∀ t ∈ pool, P (value t)) :
    Draws pool P p := by
  intro ts rest a hpool hends hok
  obtain ⟨t, ts, rfl⟩ := hends.exists_cons
  rw [h] at hok
  split_ifs at hok with ht
  cases hok
  exact ⟨fun u hu => hpool (List.mem_cons_of_mem _ hu), hends.tail (hinner t ht), hP t (hpool List.mem_cons_self)⟩

theorem draws_symbol (place : Construct) : Draws pool (· ∈ pool) (symbol place) :=
  (takes_symbol place).draws inner_symbol fun _ ht => ht

theorem draws_type : Draws pool (fun _ => True) type := takes_type.draws inner_type fun _ _ => trivial

/-! ## Repetition -/

section Repetition

variable {P : α → Prop}

theorem draws_commaSeparated {item : Parser α} (hitem : Draws pool P item) (closer : Char) (place : Construct)
    (bound : Nat) : Draws pool (fun as => ∀ a ∈ as, P a) (commaSeparated item closer place bound) := by
  induction bound with
  | zero => exact draws_refuse _
  | succ bound ih =>
    rw [commaSeparated]
    refine hitem.bind fun first hfirst => (draws_takeChar ',').bind fun comes _ => Draws.ite ?_ ?_
    · exact ih.bind fun others hothers => draws_pure (List.forall_mem_cons.2 ⟨hfirst, hothers⟩)
    · exact (draws_char closer place).bind fun _ _ => draws_pure (List.forall_mem_singleton.2 hfirst)

theorem draws_listUpTo {item : Parser α} (hitem : Draws pool P item) (closer : Char) (place : Construct) :
    Draws pool (fun as => ∀ a ∈ as, P a) (listUpTo item closer place) := by
  refine (draws_takeChar closer).bind fun comes _ => Draws.ite ?_ ?_
  · exact draws_pure (List.forall_mem_nil _)
  · exact draws_remaining.bind fun bound _ => draws_commaSeparated hitem closer place bound

theorem draws_moreNames (bound : Nat) : Draws pool (· ⊆ pool) (moreNames bound) := by
  induction bound with
  | zero => exact draws_pure (List.nil_subset _)
  | succ bound ih =>
    rw [moreNames]
    refine (draws_takeChar ',').bind fun comes _ => Draws.ite ?_ (draws_pure (List.nil_subset _))
    exact (draws_symbol _).bind fun name hname => ih.bind fun others hothers =>
      draws_pure (List.cons_subset.2 ⟨hname, hothers⟩)

theorem draws_statementsToBrace {nested : Parser Stmt} (hnested : Draws pool (·.anchors ⊆ pool) nested) (bound : Nat) :
    Draws pool (Stmt.listAnchors · ⊆ pool) (statementsToBrace nested bound) := by
  induction bound with
  | zero => exact draws_refuse _
  | succ bound ih =>
    rw [statementsToBrace]
    refine (draws_takeChar '}').bind fun comes _ => Draws.ite (draws_pure (List.nil_subset _)) ?_
    refine (draws_look (P := fun _ => True) (fun _ => rfl) fun _ _ _ => trivial).bind fun tokens _ => ?_
    refine Draws.ite (draws_refuse _) ?_
    exact hnested.bind fun first hfirst => ih.bind fun others hothers =>
      draws_pure (List.append_subset.2 ⟨hfirst, hothers⟩)

theorem draws_elseIfArms {arm : Parser (Expr × Stmt)}
    (harm : Draws pool (fun a => a.1.anchors ⊆ pool ∧ a.2.anchors ⊆ pool) arm) (bound : Nat) :
    Draws pool (Stmt.armAnchors · ⊆ pool) (elseIfArms arm bound) := by
  induction bound with
  | zero => exact draws_pure (List.nil_subset _)
  | succ bound ih =>
    rw [elseIfArms]
    refine (draws_takeRun ?_).bind fun comes _ => Draws.ite ?_ (draws_pure (List.nil_subset _))
    · intro test htest t ht
      rcases List.mem_pair.1 htest with rfl | rfl <;> exact inner_word t ht
    · refine harm.bind fun first hfirst => ih.bind fun others hothers => draws_pure ?_
      exact List.append_subset.2 ⟨hfirst.1, List.append_subset.2 ⟨hfirst.2, hothers⟩⟩

theorem draws_groupLeft {operator : Parser (Option Operator)} {operand : Parser Expr} {token : Token}
    (hoperator : Draws pool (fun _ => True) operator) (hoperand : Draws pool (·.anchors ⊆ pool) operand)
    (htoken : token ∈ pool) (bound : Nat) {left : Expr} (hleft : left.anchors ⊆ pool) :
    Draws pool (·.anchors ⊆ pool) (groupLeft operator operand token bound left) := by
  induction bound generalizing left with
  | zero => exact draws_pure hleft
  | succ bound ih =>
    rw [groupLeft]
    refine hoperator.bind fun op _ => ?_
    cases op with
    | none => exact draws_pure hleft
    | some op =>
      refine hoperand.bind fun right hright => ih ?_
      exact List.cons_subset.2 ⟨htoken, List.append_subset.2 ⟨hleft, hright⟩⟩

theorem draws_postfixes {index : Parser Expr} {token : Token} (hindex : Draws pool (·.anchors ⊆ pool) index)
    (htoken : token ∈ pool) (bound : Nat) {target : Expr} (htarget : target.anchors ⊆ pool) :
    Draws pool (·.anchors ⊆ pool) (postfixes index token bound target) := by
  induction bound generalizing target with
  | zero => exact draws_pure htarget
  | succ bound ih =>
    rw [postfixes]
    refine (draws_takeChar '.').bind fun point _ => Draws.ite ?_ ?_
    · refine (draws_symbol _).bind fun name hname => ih ?_
      exact List.cons_subset.2 ⟨htoken, List.cons_subset.2 ⟨hname, htarget⟩⟩
    · refine (draws_takeChar '[').bind fun bracket _ => Draws.ite ?_ (draws_pure htarget)
      refine hindex.bind fun place hplace => (draws_char _ _).bind fun _ _ => ih ?_
      exact List.cons_subset.2 ⟨htoken, List.append_subset.2 ⟨htarget, hplace⟩⟩

end Repetition

/-! ## Expressions -/

theorem draws_takeOperator (spellings : List (List Char × Operator)) :
    Draws pool (fun _ => True) (takeOperator spellings) := by
  induction spellings with
  | nil => exact draws_pure trivial
  | cons spelling others ih =>
    obtain ⟨cs, op⟩ := spelling
    rw [takeOperator]
    refine (draws_takeRun ?_).bind fun comes _ => Draws.ite (draws_pure trivial) ih
    intro test htest t ht
    obtain ⟨c, -, rfl⟩ := List.mem_map.1 htest
    exact inner_char t ht

theorem listAnchors_subset {es : List Expr} (h : ∀ e ∈ es, e.anchors ⊆ pool) : Expr.listAnchors es ⊆ pool := by
  induction es with
  | nil => exact List.nil_subset _
  | cons e es ih =>
    obtain ⟨he, hes⟩ := List.forall_mem_cons.1 h
    exact List.append_subset.2 ⟨he, ih hes⟩

section Expressions

variable {nested : Parser Expr} (hnested : Draws pool (·.anchors ⊆ pool) nested)

include hnested

theorem draws_primary : Draws pool (·.anchors ⊆ pool) (primary nested) := by
  intro ts rest e hpool hends h
  obtain ⟨t, ts, rfl⟩ := hends.exists_cons
  obtain ⟨ht, hts⟩ := List.cons_subset.1 hpool
  rw [run_primary, primaryStep] at h
  -- every primary starts with a token of its own, and the end of the script is none
  have htaken {q : Parser Expr} (hkind : t.kind ≠ .eof) (hq : Draws pool (·.anchors ⊆ pool) q)
      (hok : q ts = .ok (e, rest)) : rest ⊆ pool ∧ Ends rest ∧ e.anchors ⊆ pool :=
    hq ts rest e hts (hends.tail hkind) hok
  split at h
  case h_1 hkind | h_2 hkind | h_3 hkind | h_4 hkind =>
    refine htaken (by simp [hkind]) (draws_pure ?_) h
    simpa [Expr.anchors] using ht
  case h_5 c hkind =>
    have hinner : t.kind ≠ .eof := by simp [hkind]
    split_ifs at h with hbracket hparenthesis
    · refine htaken hinner ((draws_listUpTo hnested _ _).bind fun es hes => draws_pure ?_) h
      exact List.cons_subset.2 ⟨ht, listAnchors_subset hes⟩
    · exact htaken hinner (hnested.bind fun inner hinner => (draws_char _ _).bind fun _ _ => draws_pure hinner) h
    · cases h
  case h_6 => cases h

theorem draws_callExpression : Draws pool (·.anchors ⊆ pool) (callExpression nested) := by
  refine draws_current.bind fun token htoken => (draws_primary hnested).bind fun callee hcallee => ?_
  refine (draws_takeChar '(').bind fun comes _ => Draws.ite ?_ (draws_pure hcallee)
  refine (draws_listUpTo hnested _ _).bind fun es hes => draws_pure ?_
  exact List.cons_subset.2 ⟨htoken, List.append_subset.2 ⟨hcallee, listAnchors_subset hes⟩⟩

theorem draws_postfixExpression : Draws pool (·.anchors ⊆ pool) (postfixExpression nested) :=
  draws_current.bind fun _ htoken => (draws_callExpression hnested).bind fun _ htarget =>
    draws_remaining.bind fun bound _ => draws_postfixes hnested htoken bound htarget

theorem draws_castExpression : Draws pool (·.anchors ⊆ pool) (castExpression nested) := by
  refine draws_current.bind fun token htoken => draws_seesCast.bind fun cast _ => Draws.ite ?_ ?_
  · refine (draws_char _ _).bind fun _ _ => draws_type.bind fun ty _ => (draws_char _ _).bind fun _ _ => ?_
    exact (draws_postfixExpression hnested).bind fun operand hoperand =>
      draws_pure (List.cons_subset.2 ⟨htoken, hoperand⟩)
  · exact draws_postfixExpression hnested

theorem draws_product : Draws pool (·.anchors ⊆ pool) (product nested) :=
  draws_current.bind fun _ htoken => (draws_castExpression hnested).bind fun _ hleft =>
    draws_remaining.bind fun bound _ =>
      draws_groupLeft (draws_takeOperator _) (draws_castExpression hnested) htoken bound hleft

theorem draws_sum : Draws pool (·.anchors ⊆ pool) (sum nested) :=
  draws_current.bind fun _ htoken => (draws_product hnested).bind fun _ hleft =>
    draws_remaining.bind fun bound _ => draws_groupLeft (draws_takeOperator _) (draws_product hnested) htoken bound hleft

end Expressions

/-- assignments and comparisons, by induction on the depth that they may spend -/
theorem draws_within (depth : Nat) :
    Draws pool (·.anchors ⊆ pool) (expression depth) ∧ Draws pool (·.anchors ⊆ pool) (comparison depth) := by
  induction depth with
  | zero => exact ⟨draws_refuse _, draws_refuse _⟩
  | succ depth ih =>
    obtain ⟨hexpression, hcomparison⟩ := ih
    constructor
    · rw [expression]
      refine draws_current.bind fun token htoken => hcomparison.bind fun target htarget => ?_
      refine (draws_takeChar '=').bind fun comes _ => Draws.ite ?_ (draws_pure htarget)
      refine hexpression.bind fun value hvalue => draws_pure ?_
      exact List.cons_subset.2 ⟨htoken, List.append_subset.2 ⟨htarget, hvalue⟩⟩
    · rw [comparison]
      refine draws_current.bind fun token htoken => (draws_sum hexpression).bind fun left hleft => ?_
      refine (draws_takeOperator _).bind fun op _ => ?_
      cases op with
      | none => exact draws_pure hleft
      | some op =>
        refine hcomparison.bind fun right hright => draws_pure ?_
        exact List.cons_subset.2 ⟨htoken, List.append_subset.2 ⟨hleft, hright⟩⟩

variable {depths : Depths}

theorem draws_fullExpression : Draws pool (·.anchors ⊆ pool) (fullExpression depths) :=
  (draws_within depths.expression).1

/-! ## Statements -/

section Statements

variable {nested : Parser Stmt} (hnested : Draws pool (·.anchors ⊆ pool) nested) {token : Token} (htoken : token ∈ pool)

theorem draws_condition : Draws pool (·.anchors ⊆ pool) (condition depths) :=
  (draws_char _ _).bind fun _ _ => draws_fullExpression.bind fun _ htest =>
    (draws_char _ _).bind fun _ _ => draws_pure htest

theorem draws_loopVariable : Draws pool (fun counter => (counter.map Param.name).toList ⊆ pool) loopVariable := by
  refine draws_seesType.bind fun sees _ => Draws.ite ?_ (draws_pure (List.nil_subset _))
  refine draws_type.bind fun ty _ => (draws_symbol _).bind fun name hname => (draws_char _ _).bind fun _ _ => ?_
  exact draws_pure (List.cons_subset.2 ⟨hname, List.nil_subset _⟩)

theorem draws_parameter (place : Construct) : Draws pool (·.name ∈ pool) (parameter place) :=
  draws_type.bind fun _ _ => (draws_symbol place).bind fun _ hname => draws_pure hname

include htoken in
theorem draws_declaredNames (ty : Ty) {name : Token} (hname : name ∈ pool) :
    Draws pool (·.anchors ⊆ pool) (declaredNames depths token ty name) := by
  refine draws_remaining.bind fun bound _ => (draws_moreNames bound).bind fun others hothers => ?_
  have hvar {start : Option Expr} (hstart : start.elim [] Expr.anchors ⊆ pool) :
      (Stmt.var token ty (name :: others) start).anchors ⊆ pool :=
    List.cons_subset.2 ⟨htoken, List.append_subset.2 ⟨List.cons_subset.2 ⟨hname, hothers⟩, hstart⟩⟩
  refine (draws_takeChar '=').bind fun comes _ => Draws.ite ?_ ?_
  · exact (draws_fullExpression.map (g := some) (Q := (·.elim [] Expr.anchors ⊆ pool)) fun _ h => h).bind fun _ hstart =>
      (draws_char _ _).bind fun _ _ => draws_pure (hvar hstart)
  · exact (draws_pure (P := (·.elim [] Expr.anchors ⊆ pool)) (List.nil_subset _)).bind fun _ hstart =>
      (draws_char _ _).bind fun _ _ => draws_pure (hvar hstart)

include hnested

theorem draws_arm : Draws pool (fun a => a.1.anchors ⊆ pool ∧ a.2.anchors ⊆ pool) (arm depths nested) :=
  draws_condition.bind fun _ htest => hnested.bind fun _ hbody => draws_pure ⟨htest, hbody⟩

theorem draws_block : Draws pool (Stmt.listAnchors · ⊆ pool) (block nested) :=
  draws_remaining.bind fun bound _ => draws_statementsToBrace hnested (bound + 1)

include htoken

theorem draws_ifStatement : Draws pool (·.anchors ⊆ pool) (ifStatement depths nested token) := by
  refine (draws_arm hnested).bind fun first hfirst => draws_remaining.bind fun bound _ => ?_
  refine (draws_elseIfArms (draws_arm hnested) bound).bind fun others hothers => ?_
  have hbranch {otherwise : Option Stmt} (h : Stmt.optionalAnchors otherwise ⊆ pool) :
      (Stmt.branch token (first :: others) otherwise).anchors ⊆ pool :=
    List.cons_subset.2 ⟨htoken, List.append_subset.2
      ⟨List.append_subset.2 ⟨hfirst.1, List.append_subset.2 ⟨hfirst.2, hothers⟩⟩, h⟩⟩
  refine (draws_takeWord "else").bind fun comes _ => Draws.ite ?_ ?_
  · exact (hnested.map (g := some) (Q := (Stmt.optionalAnchors · ⊆ pool)) fun _ h => h).bind fun _ h =>
      draws_pure (hbranch h)
  · exact (draws_pure (P := (Stmt.optionalAnchors · ⊆ pool)) (List.nil_subset _)).bind fun _ h => draws_pure (hbranch h)

theorem draws_forStatement : Draws pool (·.anchors ⊆ pool) (forStatement depths nested token) := by
  refine (draws_char _ _).bind fun _ _ => draws_loopVariable.bind fun counter hcounter => ?_
  refine draws_fullExpression.bind fun start hstart => (draws_char _ _).bind fun _ _ => ?_
  refine draws_fullExpression.bind fun test htest => (draws_char _ _).bind fun _ _ => ?_
  refine draws_fullExpression.bind fun increment hincrement => (draws_char _ _).bind fun _ _ => ?_
  refine hnested.bind fun body hbody => draws_pure ?_
  exact List.cons_subset.2 ⟨htoken, List.append_subset.2 ⟨hcounter, List.append_subset.2 ⟨hstart,
    List.append_subset.2 ⟨htest, List.append_subset.2 ⟨hincrement, hbody⟩⟩⟩⟩⟩

theorem draws_declaredFunction (ty : Ty) {name : Token} (hname : name ∈ pool) :
    Draws pool (·.anchors ⊆ pool) (declaredFunction nested token ty name) := by
  refine (draws_listUpTo (draws_parameter _) _ _).bind fun params hparams => ?_
  refine draws_current.bind fun brace hbrace => (draws_char _ _).bind fun _ _ => ?_
  refine (draws_block hnested).bind fun body hbody => draws_pure ?_
  have hnames : params.map Param.name ⊆ pool := by
    intro t ht
    obtain ⟨p, hp, rfl⟩ := List.mem_map.1 ht
    exact hparams p hp
  exact List.cons_subset.2 ⟨htoken, List.cons_subset.2 ⟨hname, List.cons_subset.2
    ⟨hbrace, List.append_subset.2 ⟨hnames, hbody⟩⟩⟩⟩

theorem draws_declaration : Draws pool (·.anchors ⊆ pool) (declaration depths nested token) := by
  refine draws_type.bind fun ty _ => (draws_symbol _).bind fun name hname => ?_
  refine (draws_takeChar '(').bind fun comes _ => Draws.ite ?_ ?_
  · exact draws_declaredFunction hnested htoken ty hname
  · exact draws_declaredNames htoken ty hname

end Statements

/-- statements, by induction on the depth that they may spend -/
theorem draws_statement (depth : Nat) : Draws pool (·.anchors ⊆ pool) (statement depths depth) := by
  induction depth with
  | zero => exact draws_refuse _
  | succ depth ih =>
    rw [statement]
    refine draws_current.bind fun token htoken => ?_
    have hneeded : Draws pool (fun _ => True) (if depth = 0 then refuse .tooDeep else pure () : Parser Unit) := by
      split_ifs
      · exact draws_refuse _
      · exact draws_pure trivial
    refine (draws_takeWord "if").bind fun _ _ => Draws.ite ?_ ?_
    · exact hneeded.bind fun _ _ => draws_ifStatement ih htoken
    refine (draws_takeWord "for").bind fun _ _ => Draws.ite ?_ ?_
    · exact hneeded.bind fun _ _ => draws_forStatement ih htoken
    refine (draws_takeWord "return").bind fun _ _ => Draws.ite ?_ ?_
    · exact draws_fullExpression.bind fun value hvalue => (draws_char _ _).bind fun _ _ =>
        draws_pure (List.cons_subset.2 ⟨htoken, hvalue⟩)
    refine (draws_takeChar '{').bind fun _ _ => Draws.ite ?_ ?_
    · exact (draws_block ih).bind fun body hbody => draws_pure (List.cons_subset.2 ⟨htoken, hbody⟩)
    refine draws_seesType.bind fun _ _ => Draws.ite (draws_declaration ih htoken) ?_
    exact draws_fullExpression.bind fun e he => (draws_char _ _).bind fun _ _ =>
      draws_pure (List.cons_subset.2 ⟨htoken, he⟩)

end Parser

open LevelScript.Syntax.Parser

/-- the anchors of a statement are tokens that it was parsed from -/
theorem parseStatement_draws {ts rest : List Token} {s : Stmt} (hends : Ends ts)
    (h : parseStatement depths ts = .ok (s, rest)) : rest ⊆ ts ∧ Ends rest ∧ s.anchors ⊆ ts :=
  draws_statement depths.statement ts rest s (List.Subset.refl ts) hends (parseStatement_eq_ok.1 h)

end LevelScript.Syntax
