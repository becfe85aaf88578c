/-
The parser makes progress and stops.

A list of tokens that only its last one ends, as the tokens of a text are, is read from positions inside it. Every parser of
the grammar (`Rule`) moves on from a position to one that is not before it and still inside, and so fewer tokens remain
wherever something is taken. The loops of the grammar (`Loop`) are written with a bound, its recursion spends depth, and a
script is read with a bound on its statements; none of them is what makes it stop:

- `Halts`: the equation that tells one round of a loop from the rounds behind it has the loop as its only solution, while a
  loop that could go on for ever would leave others;
- `Grounded`: with two units of depth for each token that remains, no expression is given up for lack of depth;
- `ParsesTo`: reading statements up to the end of the script, without any bound, has a finite derivation.
-/
import LevelScript.Proofs.ParsedNodes
import LevelScript.Proofs.ParsingProgress

namespace LevelScript.Syntax

namespace Parser

variable {α ι : Type} {size least pos : Nat}

/-! ## Rules of the grammar -/

/-- a loop that stops: with a bound it is so many rounds, bounds from the number of tokens on do not matter, and what it does
with such a bound is the only thing that one round before itself can be -/
structure Halts (step : (ι → Parser α) → ι → Parser α) (loop : Nat → ι → Parser α) : Prop where
  rounds : ∀ k i, loop (k + 1) i = step (loop k) i
  enough : ∀ k i ts, Ends ts → ts.length ≤ k → loop k i ts = whole loop i ts
  again : ∀ i ts, Ends ts → whole loop i ts = step (whole loop) i ts
  only : ∀ other : ι → Parser α, (∀ i ts, Ends ts → other i ts = step other i ts) →
    ∀ i ts, Ends ts → other i ts = whole loop i ts

theorem Round.halts {step : (ι → Parser α) → ι → Parser α} {loop : Nat → ι → Parser α} (hstep : Round step)
    (hloop : ∀ k i, loop (k + 1) i = step (loop k) i) : Halts step loop where
  rounds := hloop
  enough k i ts hends hk := loop_eq_of_length_le step hloop hstep _ _ i hends hk le_rfl
  again i ts hends := whole_eq step hloop hstep i hends
  only other hother i ts hends := by
    -- by induction on the tokens that remain: a round runs what is behind it on fewer of them only
    induction hlength : ts.length using Nat.strong_induction_on generalizing i ts with
    | _ length ih =>
      subst hlength
      rw [hother i ts hends, whole_eq step hloop hstep i hends]
      exact hstep _ _ i ts hends fun j us hus hlt => ih us.length hlt j us hus rfl

/-- the loops of the grammar: the round that they repeat, and the loop by its bound -/
inductive Loop : {α ι : Type} → ((ι → Parser α) → ι → Parser α) → (Nat → ι → Parser α) → Prop
  | elements (depth : Nat) : Loop (commaRound (expression depth) ']' .arrayDeclaration)
      fun k (_ : Unit) => commaSeparated (expression depth) ']' .arrayDeclaration k
  | arguments (depth : Nat) : Loop (commaRound (expression depth) ')' .callExpr)
      fun k (_ : Unit) => commaSeparated (expression depth) ')' .callExpr k
  | parameters (place : Construct) : Loop (commaRound (parameter place) ')' place)
      fun k (_ : Unit) => commaSeparated (parameter place) ')' place k
  | postfixes (depth : Nat) (token : Token) : Loop (postfixRound (expression depth) token)
      (postfixes (expression depth) token)
  | products (depth : Nat) (token : Token) : Loop (groupRound productOperator (castExpression (expression depth)) token)
      (groupLeft productOperator (castExpression (expression depth)) token)
  | sums (depth : Nat) (token : Token) : Loop (groupRound sumOperator (product (expression depth)) token)
      (groupLeft sumOperator (product (expression depth)) token)
  | names : Loop nameRound fun k (_ : Unit) => moreNames k
  | arms (depths : Depths) (depth : Nat) : Loop (armRound (arm depths (statement depths depth)))
      fun k (_ : Unit) => elseIfArms (arm depths (statement depths depth)) k
  | statements (depths : Depths) (depth : Nat) : Loop (braceRound (statement depths depth))
      fun k (_ : Unit) => statementsToBrace (statement depths depth) (k + 1)

/-- the loops of the grammar go forward and stop -/
theorem Loop.advances_and_halts {step : (ι → Parser α) → ι → Parser α} {loop : Nat → ι → Parser α} (h : Loop step loop) :
    (∀ i, ∃ size, Advances size 0 (whole loop i)) ∧ Halts step loop := by
  cases h with
  | elements depth | arguments depth =>
    have hitem := advances_expression depth
    exact ⟨fun _ => ⟨_, (advances_commaSeparated hitem _ _).weaken⟩,
      (round_commaSeparated hitem.trims).halts fun _ _ => rfl⟩
  | parameters place =>
    have hitem : Advances 0 1 (parameter place) := advances_parameter place
    exact ⟨fun _ => ⟨_, (advances_commaSeparated hitem _ _).weaken⟩,
      (round_commaSeparated hitem.trims).halts fun _ _ => rfl⟩
  | postfixes depth token =>
    have hindex := advances_expression depth
    exact ⟨fun target => ⟨_, advances_postfixes hindex token target⟩, (round_postfixes hindex.trims).halts fun _ _ => rfl⟩
  | products depth token =>
    have hoperand := advances_castExpression (advances_expression depth)
    exact ⟨fun left => ⟨_, advances_groupLeft selects_product (advances_takeOperator _ (by simp)) hoperand token left⟩,
      (round_groupLeft token selects_product hoperand.trims).halts fun _ _ => rfl⟩
  | sums depth token =>
    have hoperand := advances_product (advances_expression depth)
    exact ⟨fun left => ⟨_, advances_groupLeft selects_sum (advances_takeOperator _ (by simp)) hoperand token left⟩,
      (round_groupLeft token selects_sum hoperand.trims).halts fun _ _ => rfl⟩
  | names => exact ⟨fun _ => ⟨0, advances_moreNames⟩, round_moreNames.halts fun _ _ => rfl⟩
  | arms depths depth =>
    have harm := advances_arm (Nat.min_le_right _ _) (advances_statement depths depth)
    exact ⟨fun _ => ⟨_, advances_elseIfArms harm⟩, (round_elseIfArms harm.trims).halts fun _ _ => rfl⟩
  | statements depths depth =>
    have hnested := advances_statement depths depth
    exact ⟨fun _ => ⟨_, (advances_statementsToBrace hnested).weaken⟩,
      (round_statementsToBrace fun hends hok => hnested.shrinks hends hok).halts fun _ _ => rfl⟩

/-- the parsers of the grammar, with the least number of tokens that they take if they accept -/
inductive Rule : Nat → {α : Type} → Parser α → Prop
  | current : Rule 0 current
  | seesType : Rule 0 seesType
  | seesCast : Rule 0 seesCast
  | takeChar (c : Char) : Rule 0 (takeChar c)
  | takeWord (word : String) : Rule 0 (takeWord word)
  | takeElseIf : Rule 0 (takeRun [(·.isSymbol "else"), (·.isSymbol "if")])
  | comparisonOperator : Rule 0 comparisonOperator
  | sumOperator : Rule 0 sumOperator
  | productOperator : Rule 0 productOperator
  | char (c : Char) (place : Construct) : Rule 1 (char c place)
  | symbol (place : Construct) : Rule 1 (symbol place)
  | type : Rule 1 type
  | loop {α ι : Type} {step : (ι → Parser α) → ι → Parser α} {loop : Nat → ι → Parser α} : Loop step loop →
      ∀ i, Rule 0 (whole loop i)
  | elements (depth : Nat) : Rule 1 (listUpTo (expression depth) ']' .arrayDeclaration)
  | arguments (depth : Nat) : Rule 1 (listUpTo (expression depth) ')' .callExpr)
  | primary (depth : Nat) : Rule 1 (primary (expression depth))
  | callExpression (depth : Nat) : Rule 1 (callExpression (expression depth))
  | postfixExpression (depth : Nat) : Rule 1 (postfixExpression (expression depth))
  | castExpression (depth : Nat) : Rule 1 (castExpression (expression depth))
  | product (depth : Nat) : Rule 1 (product (expression depth))
  | sum (depth : Nat) : Rule 1 (sum (expression depth))
  | comparison (depth : Nat) : Rule 1 (comparison depth)
  | expression (depth : Nat) : Rule 1 (expression depth)
  | condition (depths : Depths) : Rule 1 (condition depths)
  | arm (depths : Depths) (depth : Nat) : Rule 1 (arm depths (statement depths depth))
  | ifStatement (depths : Depths) (depth : Nat) (token : Token) :
      Rule 1 (ifStatement depths (statement depths depth) token)
  | loopVariable : Rule 0 loopVariable
  | forStatement (depths : Depths) (depth : Nat) (token : Token) :
      Rule 1 (forStatement depths (statement depths depth) token)
  | block (depths : Depths) (depth : Nat) : Rule 1 (block (statement depths depth))
  | parameter (place : Construct) : Rule 1 (parameter place)
  | parameters (place : Construct) : Rule 1 (listUpTo (parameter place) ')' place)
  | declaredNames (depths : Depths) (token : Token) (ty : Ty) (name : Token) : Rule 1 (declaredNames depths token ty name)
  | declaredFunction (depths : Depths) (depth : Nat) (token : Token) (ty : Ty) (name : Token) :
      Rule 1 (declaredFunction (statement depths depth) token ty name)
  | declaration (depths : Depths) (depth : Nat) (token : Token) :
      Rule 1 (declaration depths (statement depths depth) token)
  | statement (depths : Depths) (depth : Nat) : Rule 1 (statement depths depth)

theorem advances_of_rule {p : Parser α} (h : Rule least p) : ∃ size, Advances size least p := by
  have hroom (depths : Depths) (depth : Nat) : min depth (roomyExpression depths) ≤ roomyExpression depths :=
    Nat.min_le_right _ _
  cases h with
  | current => exact ⟨0, advances_current⟩
  | seesType => exact ⟨0, advances_seesType⟩
  | seesCast => exact ⟨0, advances_seesCast⟩
  | takeChar c =>
    have hchoice : Advances 0 0 (takeChar c >>= pure) :=
      advances_charChoice (Nat.zero_le 1) (Nat.zero_le 1) (advances_pure true) (advances_pure false)
    exact ⟨0, bind_pure (takeChar c) ▸ hchoice⟩
  | takeWord word =>
    have hchoice : Advances 0 0 (takeWord word >>= pure) :=
      advances_wordChoice (Nat.zero_le 1) (Nat.zero_le 1) (advances_pure true) (advances_pure false)
    exact ⟨0, bind_pure (takeWord word) ▸ hchoice⟩
  | takeElseIf =>
    have hchoice : Advances 0 0 (takeRun [(·.isSymbol "else"), (·.isSymbol "if")] >>= pure) :=
      advances_elseIfChoice (Nat.zero_le 1) (Nat.zero_le 1) (advances_pure true) (advances_pure false)
    exact ⟨0, bind_pure (takeRun _) ▸ hchoice⟩
  | comparisonOperator | sumOperator | productOperator => exact ⟨0, advances_takeOperator _ (by simp)⟩
  | char c place => exact ⟨0, advances_char c place⟩
  | symbol place => exact ⟨0, advances_symbol place⟩
  | type => exact ⟨0, advances_type⟩
  | loop h i => exact h.advances_and_halts.1 i
  | elements depth | arguments depth => exact ⟨_, advances_listUpTo (advances_expression depth) _ _⟩
  | primary depth => exact ⟨_, advances_primary (advances_expression depth)⟩
  | callExpression depth => exact ⟨_, advances_callExpression (advances_expression depth)⟩
  | postfixExpression depth => exact ⟨_, advances_postfixExpression (advances_expression depth)⟩
  | castExpression depth => exact ⟨_, advances_castExpression (advances_expression depth)⟩
  | product depth => exact ⟨_, advances_product (advances_expression depth)⟩
  | sum depth => exact ⟨_, advances_sum (advances_expression depth)⟩
  | comparison depth => exact ⟨_, (advances_within depth).2⟩
  | expression depth => exact ⟨_, advances_expression depth⟩
  | condition depths => exact ⟨_, advances_condition le_rfl⟩
  | arm depths depth => exact ⟨_, advances_arm (hroom depths depth) (advances_statement depths depth)⟩
  | ifStatement depths depth token =>
    exact ⟨_, advances_ifStatement (hroom depths depth) (advances_statement depths depth) token⟩
  | loopVariable => exact ⟨0, advances_loopVariable⟩
  | forStatement depths depth token =>
    exact ⟨_, advances_forStatement (hroom depths depth) (advances_statement depths depth) token⟩
  | block depths depth => exact ⟨_, advances_block (advances_statement depths depth)⟩
  | parameter place => exact ⟨0, advances_parameter place⟩
  | parameters place => exact ⟨0, advances_listUpTo (advances_parameter place) _ _⟩
  | declaredNames depths token ty name => exact ⟨_, advances_declaredNames le_rfl token ty name⟩
  | declaredFunction depths depth token ty name =>
    exact ⟨_, advances_declaredFunction (advances_statement depths depth) token ty name⟩
  | declaration depths depth token =>
    exact ⟨_, advances_declaration (hroom depths depth) (advances_statement depths depth) token⟩
  | statement depths depth => exact ⟨_, advances_statement depths depth⟩

/-! ## Depth -/

def GivesUp (p : Parser α) (ts : List Token) : Prop := ∃ rest, p ts = .error ⟨.tooDeep, rest⟩

theorem Advances.not_givesUp {p : Parser α} (hp : Advances size least p) {ts : List Token} (hends : Ends ts)
    (hlength : ts.length ≤ size) : ¬GivesUp p ts := by
  rintro ⟨rest, hrest⟩
  obtain ⟨result, used, rest', -, -, -, hdeep, hrun⟩ := hp ts hends
  have hleft : leaving rest (.error .tooDeep) = leaving rest' result := hrest.symm.trans (by simpa using hrun [])
  exact hdeep hlength (leaving_inj hleft).2.symm

/-- the recursion of the grammar gets to the ground by itself: depth for the tokens that remain is enough, two units for each
of them in expressions, and one in statements whose expressions have enough -/
structure Grounded (ts : List Token) : Prop where
  expression : ∀ depth, 2 * ts.length ≤ depth → ¬GivesUp (Parser.expression depth) ts
  comparison : ∀ depth, 2 * ts.length ≤ depth → ¬GivesUp (Parser.comparison depth) ts
  statement : ∀ depths depth, ts.length ≤ depth → 2 * ts.length ≤ depths.expression →
    ¬GivesUp (Parser.statement depths depth) ts

theorem grounded_of_ends {ts : List Token} (hends : Ends ts) : Grounded ts where
  expression depth h := (advances_expression depth).not_givesUp hends (by omega)
  comparison depth h := (advances_within depth).2.not_givesUp hends (by omega)
  statement depths depth h hroom := by
    refine (advances_statement depths depth).not_givesUp hends (le_min h ?_)
    rw [roomyExpression]
    omega

/-! ## Positions -/

/-- the last token marks the end of the script, and no other one does -/
def Sealed (tokens : List Token) : Prop :=
  ∃ body last, tokens = body ++ [last] ∧ Inner body ∧ last.kind = .eof

/-- from a position in the list the parser moves on by at least so many tokens and accepts, or refuses a token at the position
or behind it; it does not pass the last token, and whatever stands behind the list makes no difference -/
inductive Moves (tokens : List Token) (least pos : Nat) (p : Parser α) : Prop
  | accepts {next : Nat} (a : α) : pos + least ≤ next → next < tokens.length →
      (∀ behind, p (tokens.drop pos ++ behind) = .ok (a, tokens.drop next ++ behind)) → Moves tokens least pos p
  | refuses {next : Nat} (cause : RefusalCause) : pos ≤ next → next < tokens.length →
      (∀ behind, p (tokens.drop pos ++ behind) = .error ⟨cause, tokens.drop next ++ behind⟩) → Moves tokens least pos p

variable {tokens : List Token}

theorem Sealed.ends_drop (h : Sealed tokens) (hpos : pos < tokens.length) : Ends (tokens.drop pos) := by
  obtain ⟨body, last, rfl, -, hlast⟩ := h
  rw [List.length_append, List.length_singleton] at hpos
  rw [List.drop_append_of_le_length (by omega)]
  exact ⟨last, by simp, hlast⟩

theorem Sealed.ends (h : Sealed tokens) : Ends tokens := by
  obtain ⟨body, last, rfl, -, hlast⟩ := h
  exact ⟨last, by simp, hlast⟩

/-- the tokens of a text are such a list -/
theorem sealed_of_tokenize {source : String} {file : Option String} (h : tokenize source file = .ok tokens) :
    Sealed tokens := by
  obtain ⟨-, body, last, htokens, hlast, -, hinner⟩ := scanned_of_tokenize h
  exact ⟨body, last, htokens, hinner, hlast⟩

theorem Advances.moves {p : Parser α} (hp : Advances size least p) (h : Sealed tokens) (hpos : pos < tokens.length) :
    Moves tokens least pos p := by
  have hends := h.ends_drop hpos
  obtain ⟨result, used, rest, hts, hinner, hleast, -, hrun⟩ := hp _ hends
  have hrest : tokens.drop (pos + used.length) = rest := by
    rw [← List.drop_drop, hts, List.drop_left]
  have hnext : pos + used.length < tokens.length := by
    by_contra hpast
    have hnil : rest = [] := by rw [← hrest, List.drop_eq_nil_of_le (by omega)]
    exact not_ends_nil (hnil ▸ (hts ▸ hends).rest hinner)
  subst hrest
  cases result with
  | ok a => exact .accepts a (Nat.add_le_add_left (hleast a rfl) pos) hnext hrun
  | error cause => exact .refuses cause (Nat.le_add_right _ _) hnext hrun

end Parser

open LevelScript.Syntax.Parser

/-! ## Scripts -/

/-- a statement that exhausts its depth is refused at its first token, which is not behind it -/
theorem advances_parseStatement (depths : Depths) :
    Advances (min depths.statement (roomyExpression depths)) 1 (parseStatement depths : Parser Stmt) := by
  intro ts hends
  obtain ⟨result, used, rest, hts, hinner, hleast, hdeep, hrun⟩ := advances_statement depths depths.statement ts hends
  cases result with
  | ok s => exact ⟨.ok s, used, rest, hts, hinner, hleast, hdeep, fun behind => parseStatement_eq_ok.2 (hrun behind)⟩
  | error cause =>
    by_cases hcause : cause = .tooDeep
    · subst hcause
      refine ⟨.error .tooDeep, [], ts, rfl, .nil, by simp, hdeep, fun behind => ?_⟩
      simp only [parseStatement, StateT.run, hrun, leaving]
    · exact ⟨.error cause, used, rest, hts, hinner, by simp, hdeep,
        fun behind => (parseStatement_eq_error hcause).2 (hrun behind)⟩

/-- what reading statements to the end of a script comes to, with no bound on how many there are -/
inductive ParsesTo (depths : Depths) : List Token → Except Refusal (List Stmt) → Prop
  | done {ts : List Token} : ended ts = true → ParsesTo depths ts (.ok [])
  | refused {ts : List Token} {r : Refusal} : ended ts = false → parseStatement depths ts = .error r →
      ParsesTo depths ts (.error r)
  | more {ts rest : List Token} {s : Stmt} {outcome : Except Refusal (List Stmt)} : ended ts = false →
      parseStatement depths ts = .ok (s, rest) → ParsesTo depths rest outcome → ParsesTo depths ts ((s :: ·) <$> outcome)

/-- reading a script comes to an end, and to the one that parsing with a bound gives -/
theorem parsesTo_iff {depths : Depths} {ts : List Token} (hends : Ends ts) {outcome : Except Refusal (List Stmt)} :
    ParsesTo depths ts outcome ↔ parse ts depths = outcome := by
  constructor
  · intro h
    induction h with
    | done hended => rw [parse_eq hends, if_pos hended]
    | refused hended hrefused => rw [parse_eq hends, if_neg (by simp [hended]), hrefused]
    | more hended hok _ ih =>
      rw [parse_eq hends, if_neg (by simp [hended]), hok, ← ih (parseStatement_shrinks hends hok).1]
  · rintro rfl
    -- by induction on the tokens that remain, of which each statement takes some
    induction hlength : ts.length using Nat.strong_induction_on generalizing ts with
    | _ length ih =>
      subst hlength
      rw [parse_eq hends]
      split_ifs with hended
      · exact .done hended
      · have hgoes : ended ts = false := by simpa using hended
        rcases hs : parseStatement depths ts with r | ⟨s, rest⟩
        · exact .refused hgoes hs
        · obtain ⟨hrest, hlt⟩ := parseStatement_shrinks hends hs
          exact .more hgoes hs (ih rest.length hlt hrest rfl)

/-- **The parser makes progress and stops.** In a list of tokens that only its last one ends, parsing a statement from any
position refuses a token or moves on by at least one; no parser of the grammar goes back, passes the last token, or depends on
anything outside the list; every loop of the grammar stops by itself, and so does its recursion; and reading the whole script
comes to its statements or to a refusal. This holds whatever depths the machine allows. -/
theorem parser_makes_progress_and_stops (depths : Depths) {tokens : List Token} (h : Sealed tokens) :
    (∀ pos < tokens.length, Moves tokens 1 pos (parseStatement depths)) ∧
      (∀ {least : Nat} {α : Type} {p : Parser α}, Rule least p → ∀ pos < tokens.length, Moves tokens least pos p) ∧
      (∀ {α ι : Type} {step : (ι → Parser α) → ι → Parser α} {loop : Nat → ι → Parser α}, Loop step loop →
        Halts step loop) ∧
      (∀ pos < tokens.length, Grounded (tokens.drop pos)) ∧
      ∀ outcome, ParsesTo depths tokens outcome ↔ parse tokens depths = outcome := by
  refine ⟨fun pos hpos => (advances_parseStatement depths).moves h hpos, fun hrule pos hpos => ?_,
    fun hloop => hloop.advances_and_halts.2, fun pos hpos => grounded_of_ends (h.ends_drop hpos),
    fun outcome => parsesTo_iff h.ends⟩
  obtain ⟨size, hadvances⟩ := advances_of_rule hrule
  exact hadvances.moves h hpos

/-- `x;` is read to its end -/
theorem parser_makes_progress_and_stops_single_name :
    Sealed [.ofKind (.symbol "x"), .ofKind (.char ';'), .ofKind .eof] ∧
      ParsesTo {} [.ofKind (.symbol "x"), .ofKind (.char ';'), .ofKind .eof]
        (.ok [.expr (.ofKind (.symbol "x")) (.symbol (.ofKind (.symbol "x")) "x")]) := by
  have hsealed : Sealed [.ofKind (.symbol "x"), .ofKind (.char ';'), .ofKind .eof] :=
    ⟨[.ofKind (.symbol "x"), .ofKind (.char ';')], .ofKind .eof, rfl, by simp [Inner, Token.ofKind], rfl⟩
  exact ⟨hsealed, ((parser_makes_progress_and_stops {} hsealed).2.2.2.2 _).2 rfl⟩

end LevelScript.Syntax
