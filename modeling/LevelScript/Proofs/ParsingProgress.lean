/-
Parsers go forward.

`Advances size least p`: on a list that ends, the parser takes tokens off the front, never the one that marks the end, whether
it accepts or refuses, and if it accepts it takes at least so many. It does not look beyond the end either: tokens put behind
the list stay where they are and change nothing. And on at most `size` tokens it does not run out of depth.

The parsers of the grammar are put together from steps that take tokens, look at them, or refuse one, and sequences, choices
and loops of parsers that go forward go forward too. A loop does because rounds beyond the number of tokens change nothing
(`loop_eq_of_length_le`), so it does not matter that tokens behind the list raise its bound. The depth suffices because a
construct takes a token before it nests another one: two units for each token that remains are enough for an expression, whose
levels take one or the other without reading anything (`advances_within`), and one unit is enough for a statement.
-/
import LevelScript.Proofs.StatementContract

namespace LevelScript.Syntax

namespace Parser

variable {α β ι : Type} {size size' n m : Nat}

/-- a result and the tokens that are left -/
def leaving (rest : List Token) : Except RefusalCause α → Except Refusal (α × List Token)
  | .ok a => .ok (a, rest)
  | .error cause => .error ⟨cause, rest⟩

theorem leaving_inj {rest rest' : List Token} {result result' : Except RefusalCause α}
    (h : leaving rest result = leaving rest' result') : rest = rest' ∧ result = result' := by
  cases result <;> cases result' <;> cases h <;> exact ⟨rfl, rfl⟩

/-- a parser that only goes forward: a list that ends it leaves behind some tokens that do not mark the end, at least so many
if it accepts, and it does the same with any tokens behind the list. On at most `size` tokens its depth suffices. -/
def Advances (size least : Nat) (p : Parser α) : Prop :=
  ∀ ts, Ends ts → ∃ result used rest, ts = used ++ rest ∧ Inner used ∧ (∀ a, result = .ok a → least ≤ used.length) ∧
    (ts.length ≤ size → result ≠ .error .tooDeep) ∧ ∀ behind, p (ts ++ behind) = leaving (rest ++ behind) result

/-! ## Sequences -/

theorem advances_pure (a : α) : Advances size 0 (pure a : Parser α) :=
  fun ts _ => ⟨.ok a, [], ts, rfl, .nil, fun _ _ => le_rfl, fun _ => nofun, fun _ => rfl⟩

theorem advances_refuse {cause : RefusalCause} (hcause : cause ≠ .tooDeep) :
    Advances size n (refuse cause : Parser α) :=
  fun ts _ => ⟨.error cause, [], ts, rfl, .nil, nofun, fun _ h => hcause (Except.error.inj h), fun _ => rfl⟩

/-- no list without tokens ends -/
theorem advances_tooDeep : Advances 0 n (refuse .tooDeep : Parser α) := by
  refine fun ts hends => ⟨.error .tooDeep, [], ts, rfl, .nil, nofun, fun hempty => ?_, fun _ => rfl⟩
  rw [List.length_eq_zero_iff.1 (Nat.le_zero.1 hempty)] at hends
  exact absurd hends not_ends_nil

theorem Advances.mono {p : Parser α} (hp : Advances size n p) (hsize : size' ≤ size) (hn : m ≤ n) :
    Advances size' m p := by
  intro ts hends
  obtain ⟨result, used, rest, hts, hinner, hleast, hdeep, hrun⟩ := hp ts hends
  exact ⟨result, used, rest, hts, hinner, fun a ha => hn.trans (hleast a ha), fun hlength => hdeep (hlength.trans hsize),
    hrun⟩

/-- two parsers in sequence take what they both take, and the second one has fewer tokens to suffice for -/
theorem Advances.seq {p : Parser α} {f : α → Parser β} (hp : Advances size n p) (hsize : size ≤ size' + n)
    (hf : ∀ a, Advances size' m (f a)) : Advances size (n + m) (p >>= f) := by
  intro ts hends
  obtain ⟨result, used, mid, rfl, hinner, hleast, hdeep, hrun⟩ := hp ts hends
  cases result with
  | error cause =>
    have hcause (hlength : (used ++ mid).length ≤ size) : (.error cause : Except RefusalCause β) ≠ .error .tooDeep :=
      fun h => hdeep hlength (congrArg _ (Except.error.inj h))
    exact ⟨.error cause, used, mid, rfl, hinner, nofun, hcause, fun behind => run_bind_error (hrun behind) f⟩
  | ok a =>
    have hlong := hleast a rfl
    obtain ⟨result, used', rest, rfl, hinner', hleast', hdeep', hrun'⟩ := hf a mid (hends.rest hinner)
    refine ⟨result, used ++ used', rest, (List.append_assoc ..).symm, hinner.append hinner', fun b hb => ?_,
      fun hlength => hdeep' ?_, fun behind => ?_⟩
    · rw [List.length_append]
      exact Nat.add_le_add hlong (hleast' b hb)
    · rw [List.length_append] at hlength
      omega
    · rw [run_bind_ok (hrun behind), hrun' behind]

/-- what the first parser takes is enough -/
theorem Advances.bind {p : Parser α} {f : α → Parser β} (hp : Advances size n p) (hf : ∀ a, Advances size 0 (f a)) :
    Advances size n (p >>= f) := hp.seq (Nat.le_add_right size n) hf

/-- what the second parser takes is enough -/
theorem Advances.before {p : Parser α} {f : α → Parser β} (hp : Advances size 0 p) (hf : ∀ a, Advances size n (f a)) :
    Advances size n (p >>= f) := (hp.seq le_rfl hf).mono le_rfl (Nat.zero_add n).ge

/-- behind a parser that takes a token there is one token less to suffice for -/
theorem Advances.taking {p : Parser α} {f : α → Parser β} (hp : Advances (size + 1) 1 p)
    (hf : ∀ a, Advances size 0 (f a)) : Advances (size + 1) 1 (p >>= f) := hp.seq le_rfl hf

theorem Advances.weaken {p : Parser α} (hp : Advances size n p) : Advances size 0 p := hp.mono le_rfl (Nat.zero_le n)

theorem Advances.map {p : Parser α} (hp : Advances size n p) (g : α → β) : Advances size n (g <$> p) := by
  rw [run_map]
  exact hp.bind fun a => advances_pure (g a)

theorem Advances.ite {b : Bool} {p q : Parser α} (hp : Advances size n p) (hq : Advances size n q) :
    Advances size n (if b then p else q) := by
  cases b with
  | true => exact hp
  | false => exact hq

/-! ## Looking ahead -/

/-- a parser that looks no further than the end of the list -/
theorem advances_look {p : Parser α} (value : List Token → α) (hp : ∀ ts, p ts = .ok (value ts, ts))
    (hvalue : ∀ ts behind, Ends ts → value (ts ++ behind) = value ts) : Advances size 0 p := by
  refine fun ts hends => ⟨.ok (value ts), [], ts, rfl, .nil, fun _ _ => le_rfl, fun _ => nofun, fun behind => ?_⟩
  rw [hp, hvalue ts behind hends]
  rfl

theorem advances_current : Advances size 0 current := by
  refine advances_look (·.headD default) (fun _ => rfl) fun ts behind hends => ?_
  obtain ⟨t, rest, rfl⟩ := hends.exists_cons
  rfl

theorem advances_seesType : Advances size 0 seesType := by
  refine advances_look (fun ts => (ts.head?.bind Token.type?).isSome) (fun _ => rfl) fun ts behind hends => ?_
  obtain ⟨t, rest, rfl⟩ := hends.exists_cons
  rfl

/-- a run of tests ends before the list does -/
theorem dropRun?_append {tests : List (Token → Bool)}
    (htests : ∀ test ∈ tests, ∀ t, test t = true → t.kind ≠ .eof) {ts : List Token} (hends : Ends ts)
    (behind : List Token) : dropRun? tests (ts ++ behind) = (dropRun? tests ts).map (· ++ behind) := by
  induction tests generalizing ts with
  | nil => rfl
  | cons test tests ih =>
    obtain ⟨t, ts, rfl⟩ := hends.exists_cons
    rw [List.cons_append, dropRun?, dropRun?]
    split_ifs with ht
    · exact ih (fun other hother => htests other (List.mem_cons_of_mem _ hother))
        (hends.tail (htests test List.mem_cons_self t ht))
    · rfl

theorem advances_seesCast : Advances size 0 seesCast := by
  refine advances_look (fun ts => (dropRun? [(·.isChar '('), (·.type?.isSome)] ts).isSome) (fun _ => rfl) ?_
  intro ts behind hends
  rw [dropRun?_append (fun test htest t ht => ?_) hends, Option.isSome_map]
  rcases List.mem_pair.1 htest with rfl | rfl
  · exact inner_char t ht
  · exact inner_type t ht

/-! ## Taking tokens -/

/-- a run of tests takes one token for each of them -/
theorem exists_of_dropRun {tests : List (Token → Bool)} (htests : ∀ test ∈ tests, ∀ t, test t = true → t.kind ≠ .eof)
    {ts rest : List Token} (h : dropRun? tests ts = some rest) :
    ∃ used, ts = used ++ rest ∧ Inner used ∧ used.length = tests.length := by
  induction tests generalizing ts with
  | nil =>
    cases h
    exact ⟨[], rfl, .nil, rfl⟩
  | cons test tests ih =>
    cases ts with
    | nil => cases h
    | cons t ts =>
      rw [dropRun?] at h
      split_ifs at h with ht
      obtain ⟨used, rfl, hinner, hlength⟩ := ih (fun other hother => htests other (List.mem_cons_of_mem _ hother)) h
      exact ⟨t :: used, rfl, .cons (htests test List.mem_cons_self t ht) hinner, congrArg (· + 1) hlength⟩

/-- tokens that may come decide how to go on; to go on behind them is progress already -/
theorem Advances.choice {tests : List (Token → Bool)} (hsome : tests ≠ [])
    (htests : ∀ test ∈ tests, ∀ t, test t = true → t.kind ≠ .eof) {f : Bool → Parser α} (hsize : size ≤ size' + 1)
    (hn : n ≤ 1) (htrue : Advances size' 0 (f true)) (hfalse : Advances size n (f false)) :
    Advances size n (takeRun tests >>= f) := by
  intro ts hends
  have hdrops := dropRun?_append htests hends
  rcases hdrop : dropRun? tests ts with _ | mid
  · have hskip (behind : List Token) : takeRun tests (ts ++ behind) = .ok (false, ts ++ behind) := by
      rw [takeRun, hdrops, hdrop]
      rfl
    obtain ⟨result, used, rest, hts, hinner, hleast, hdeep, hrun⟩ := hfalse ts hends
    exact ⟨result, used, rest, hts, hinner, hleast, hdeep, fun behind => by rw [run_bind_ok (hskip behind), hrun]⟩
  · have htake (behind : List Token) : takeRun tests (ts ++ behind) = .ok (true, mid ++ behind) := by
      rw [takeRun, hdrops, hdrop]
      rfl
    obtain ⟨used, rfl, hinner, hlength⟩ := exists_of_dropRun htests hdrop
    have hpos : 0 < tests.length := List.length_pos_iff.2 hsome
    obtain ⟨result, used', rest, rfl, hinner', -, hdeep, hrun⟩ := htrue mid (hends.rest hinner)
    refine ⟨result, used ++ used', rest, (List.append_assoc ..).symm, hinner.append hinner', fun _ _ => ?_,
      fun hshort => hdeep ?_, fun behind => ?_⟩
    · rw [List.length_append]
      omega
    · rw [List.length_append] at hshort
      omega
    · rw [run_bind_ok (htake behind), hrun]

section Choices

variable {f : Bool → Parser α} (hsize : size ≤ size' + 1) (hn : n ≤ 1) (htrue : Advances size' 0 (f true))
  (hfalse : Advances size n (f false))

include hsize hn htrue hfalse

theorem advances_charChoice {c : Char} : Advances size n (takeChar c >>= f) := by
  refine .choice (by simp) (fun test htest t ht => ?_) hsize hn htrue hfalse
  rw [List.mem_singleton.1 htest] at ht
  exact inner_char t ht

theorem advances_wordChoice {word : String} : Advances size n (takeWord word >>= f) := by
  refine .choice (by simp) (fun test htest t ht => ?_) hsize hn htrue hfalse
  rw [List.mem_singleton.1 htest] at ht
  exact inner_word t ht

theorem advances_elseIfChoice : Advances size n (takeRun [(·.isSymbol "else"), (·.isSymbol "if")] >>= f) := by
  refine .choice (by simp) (fun test htest t ht => ?_) hsize hn htrue hfalse
  rcases List.mem_pair.1 htest with rfl | rfl <;> exact inner_word t ht

end Choices

/-- a token that has to come -/
theorem Takes.advances {p : Parser α} {test : Token → Bool} {value : Token → α} {cause : RefusalCause}
    (h : Takes test value cause p) (hinner : ∀ t, test t = true → t.kind ≠ .eof) (hcause : cause ≠ .tooDeep) :
    Advances size 1 p := by
  intro ts hends
  obtain ⟨t, ts, rfl⟩ := hends.exists_cons
  by_cases ht : test t = true
  · exact ⟨.ok (value t), [t], ts, rfl, .cons (hinner t ht) .nil, fun _ _ => le_rfl, fun _ => nofun, fun _ => h.run ht _⟩
  · exact ⟨.error cause, [], t :: ts, rfl, .nil, nofun, fun _ h => hcause (Except.error.inj h),
      fun _ => (h t _).trans (if_neg ht)⟩

theorem advances_char (c : Char) (place : Construct) : Advances size 1 (char c place) :=
  (takes_char c place).advances inner_char nofun

theorem advances_symbol (place : Construct) : Advances size 1 (symbol place) :=
  (takes_symbol place).advances inner_symbol nofun

theorem advances_type : Advances size 1 type := takes_type.advances inner_type nofun

/-- a parser that takes the next token and goes on, or refuses it -/
theorem Advances.next {p : Parser α} {step : Token → Next α} (hp : ∀ t rest, p (t :: rest) = (step t).run t rest)
    (htake : ∀ t q, step t = .take q → t.kind ≠ .eof ∧ Advances size 0 q) (hstay : ∀ t q, step t ≠ .stay q)
    (hstop : ∀ t, step t ≠ .stop .tooDeep) : Advances (size + 1) 1 p := by
  intro ts hends
  obtain ⟨t, ts, rfl⟩ := hends.exists_cons
  have hstep (behind : List Token) : p (t :: ts ++ behind) = (step t).run t (ts ++ behind) := hp t _
  rcases h : step t with q | q | cause
  · obtain ⟨hkind, hq⟩ := htake t q h
    obtain ⟨result, used, rest, rfl, hinner, -, hdeep, hrun⟩ := hq ts (hends.tail hkind)
    refine ⟨result, t :: used, rest, rfl, .cons hkind hinner, fun _ _ => by simp,
      fun hlength => hdeep (Nat.le_of_succ_le_succ hlength), fun behind => ?_⟩
    rw [hstep, h]
    exact hrun behind
  · exact absurd h (hstay t q)
  · refine ⟨.error cause, [], t :: ts, rfl, .nil, nofun, fun _ hdeep => ?_, fun behind => ?_⟩
    · exact hstop t (h.trans (congrArg _ (Except.error.inj hdeep)))
    · rw [hstep, h]
      rfl

theorem advances_takeOperator (spellings : List (List Char × Operator)) (h : ∀ s ∈ spellings, s.1 ≠ []) :
    Advances size 0 (takeOperator spellings) := by
  induction spellings with
  | nil => exact advances_pure _
  | cons spelling others ih =>
    obtain ⟨cs, op⟩ := spelling
    rw [takeOperator]
    refine .choice (by simpa using h (cs, op) List.mem_cons_self) (fun test htest t ht => ?_) (Nat.le_succ size)
      (Nat.zero_le 1) (advances_pure _) (ih fun s hs => h s (List.mem_cons_of_mem _ hs))
    obtain ⟨c, -, rfl⟩ := List.mem_map.1 htest
    exact inner_char t ht

/-! ## Loops -/

/-- what an accepting parser leaves ends, and is shorter by what it has taken -/
theorem Advances.shrinks {p : Parser α} (hp : Advances size n p) {ts rest : List Token} {a : α} (hends : Ends ts)
    (hok : p ts = .ok (a, rest)) : Ends rest ∧ rest.length + n ≤ ts.length := by
  obtain ⟨result, used, rest', rfl, hinner, hleast, -, hrun⟩ := hp ts hends
  have hleft : leaving rest (.ok a) = leaving rest' result := hok.symm.trans (by simpa using hrun [])
  obtain ⟨rfl, rfl⟩ := leaving_inj hleft
  refine ⟨hends.rest hinner, ?_⟩
  have hlong := hleast a rfl
  rw [List.length_append]
  omega

theorem Advances.trims {p : Parser α} (hp : Advances size n p) : Trims p := by
  intro ts a rest hends hok
  obtain ⟨hrest, hlength⟩ := hp.shrinks hends hok
  exact ⟨hrest, by omega⟩

/-- parsers that agree on a list that ends agree whatever stands behind it -/
theorem Advances.agree {p q : Parser α} (hp : Advances size n p) (hq : Advances size' m q) {ts : List Token}
    (hends : Ends ts) (h : p ts = q ts) (behind : List Token) : p (ts ++ behind) = q (ts ++ behind) := by
  obtain ⟨result, used, rest, -, -, -, -, hrun⟩ := hp ts hends
  obtain ⟨result', used', rest', -, -, -, -, hrun'⟩ := hq ts hends
  have hsame : p (ts ++ []) = q (ts ++ []) := by rwa [List.append_nil]
  have hboth : leaving rest result = leaving rest' result' := by
    simpa using (hrun []).symm.trans (hsame.trans (hrun' []))
  obtain ⟨rfl, rfl⟩ := leaving_inj hboth
  rw [hrun, hrun']

/-- a loop goes forward if it does with every number of rounds -/
theorem Advances.whole {loop : Nat → ι → Parser α} (step : (ι → Parser α) → ι → Parser α)
    (hloop : ∀ k i, loop (k + 1) i = step (loop k) i) (hstep : Round step) (h : ∀ k i, Advances size n (loop k i)) (i : ι) :
    Advances size n (whole loop i) := by
  intro ts hends
  have hrun (behind : List Token) : Parser.whole loop i (ts ++ behind) = loop ts.length i (ts ++ behind) :=
    (h _ i).agree (h _ i) hends (loop_eq_of_length_le step hloop hstep _ _ i hends (by simp) le_rfl) behind
  obtain ⟨result, used, rest, hts, hinner, hleast, hdeep, hrounds⟩ := h ts.length i ts hends
  exact ⟨result, used, rest, hts, hinner, hleast, hdeep, fun behind => (hrun behind).trans (hrounds behind)⟩

section Loops

variable {operator : Parser (Option Operator)} {operand index : Parser Expr} {item : Parser α} {nested : Parser Stmt}
  {arm : Parser (Expr × Stmt)}

theorem advances_groupLeft {level : Level} (hselects : Selects level nothing operator)
    (hoperator : Advances size 0 operator) (hoperand : Advances size 1 operand) (token : Token) (left : Expr) :
    Advances size 0 (whole (groupLeft operator operand token) left) := by
  refine .whole (groupRound operator operand token) (fun _ _ => rfl) (round_groupLeft token hselects hoperand.trims)
    (fun k left => ?_) left
  induction k generalizing left with
  | zero => exact advances_pure left
  | succ k ih =>
    rw [groupLeft]
    refine hoperator.bind fun op => ?_
    cases op with
    | none => exact advances_pure left
    | some op => exact hoperand.weaken.bind fun right => ih _

/-- an index stands behind a bracket -/
theorem advances_postfixes (hindex : Advances size 1 index) (token : Token) (target : Expr) :
    Advances (size + 1) 0 (whole (postfixes index token) target) := by
  refine .whole (postfixRound index token) (fun _ _ => rfl) (round_postfixes hindex.trims) (fun k target => ?_) target
  induction k generalizing target with
  | zero => exact advances_pure target
  | succ k ih =>
    rw [postfixes]
    refine advances_charChoice (Nat.le_succ _) (Nat.zero_le 1) ?_ ?_
    · exact (advances_symbol _).weaken.bind fun name => ih _
    refine advances_charChoice le_rfl (Nat.zero_le 1) ?_ (advances_pure target)
    exact hindex.weaken.bind fun place => (advances_char _ _).weaken.bind fun _ => (ih _).mono (Nat.le_succ _) le_rfl

theorem advances_commaSeparated (hitem : Advances size 1 item) (closer : Char) (place : Construct) :
    Advances size 1 (whole (fun k (_ : Unit) => commaSeparated item closer place k) ()) := by
  refine .whole (commaRound item closer place) (fun _ _ => rfl) (round_commaSeparated hitem.trims) (fun k _ => ?_) ()
  induction k with
  | zero => exact advances_refuse nofun
  | succ k ih =>
    rw [commaSeparated]
    refine hitem.bind fun first => advances_charChoice (Nat.le_succ _) (Nat.zero_le 1) ?_ ?_
    · exact ih.weaken.bind fun others => advances_pure _
    · exact (advances_char _ _).weaken.bind fun _ => advances_pure _

theorem advances_listUpTo (hitem : Advances size 1 item) (closer : Char) (place : Construct) :
    Advances size 1 (listUpTo item closer place) := by
  refine advances_charChoice (Nat.le_succ _) le_rfl ?_ ?_
  · exact advances_pure _
  · exact advances_commaSeparated hitem closer place

theorem advances_moreNames : Advances size 0 (whole (fun k (_ : Unit) => moreNames k) ()) := by
  refine .whole nameRound (fun _ _ => rfl) round_moreNames (fun k _ => ?_) ()
  induction k with
  | zero => exact advances_pure _
  | succ k ih =>
    rw [moreNames]
    refine advances_charChoice (Nat.le_succ _) (Nat.zero_le 1) ?_ ?_
    · exact (advances_symbol _).weaken.bind fun name => ih.bind fun others => advances_pure _
    · exact advances_pure _

theorem advances_elseIfArms (harm : Advances size 1 arm) :
    Advances size 0 (whole (fun k (_ : Unit) => elseIfArms arm k) ()) := by
  refine .whole (armRound arm) (fun _ _ => rfl) (round_elseIfArms harm.trims) (fun k _ => ?_) ()
  induction k with
  | zero => exact advances_pure _
  | succ k ih =>
    rw [elseIfArms]
    refine advances_elseIfChoice (Nat.le_succ _) (Nat.zero_le 1) ?_ ?_
    · exact harm.weaken.bind fun first => ih.bind fun others => advances_pure _
    · exact advances_pure _

/-- whether the script has ended is seen from the next token -/
theorem advances_unlessEnded {p q : Parser α} (hp : Advances size n p) (hq : Advances size n q) :
    Advances size n (do if ended (← get) then p else q) := by
  have hended : Advances size 0 (ended <$> (get : Parser (List Token))) := by
    refine advances_look ended (fun _ => rfl) fun ts behind hends => ?_
    obtain ⟨t, rest, rfl⟩ := hends.exists_cons
    rfl
  have hlaw : (do if ended (← get) then p else q) =
      ended <$> (get : Parser (List Token)) >>= fun b => if b then p else q := by
    rw [run_map, bind_assoc]
    simp only [pure_bind]
  rw [hlaw]
  exact hended.before fun b => .ite hp hq

theorem advances_statementsToBrace (hnested : Advances size 1 nested) :
    Advances size 1 (whole (fun k (_ : Unit) => statementsToBrace nested (k + 1)) ()) := by
  have hrounds (k : Nat) : Advances size 1 (statementsToBrace nested k) := by
    induction k with
    | zero => exact advances_refuse nofun
    | succ k ih =>
      rw [statementsToBrace]
      refine advances_charChoice (Nat.le_succ _) le_rfl ?_ ?_
      · exact advances_pure _
      · refine advances_unlessEnded (advances_refuse nofun) ?_
        exact hnested.bind fun first => ih.weaken.bind fun others => advances_pure _
  refine .whole (braceRound nested) (fun _ _ => rfl) (round_statementsToBrace fun hends hok => ?_) (fun k _ => hrounds _) ()
  exact hnested.shrinks hends hok

end Loops

/-! ## Expressions -/

section Expressions

variable {nested : Parser Expr} (hnested : Advances size 1 nested)

include hnested

/-- every primary starts with a token of its own, and the end of the script is none -/
theorem advances_primary : Advances (size + 1) 1 (primary nested) := by
  refine .next run_primary (fun t q h => ?_) (fun t q h => ?_) fun t h => ?_
  · rw [primaryStep] at h
    split at h
    case h_1 hkind | h_2 hkind | h_3 hkind | h_4 hkind =>
      cases h
      exact ⟨by simp [hkind], advances_pure _⟩
    case h_5 c hkind =>
      refine ⟨by simp [hkind], ?_⟩
      split_ifs at h with hbracket hparenthesis
      · cases h
        exact (advances_listUpTo hnested _ _).weaken.bind fun es => advances_pure _
      · cases h
        exact hnested.weaken.bind fun inner => (advances_char _ _).weaken.bind fun _ => advances_pure _
    case h_6 => cases h
  all_goals
    rw [primaryStep] at h
    split at h
    case h_5 => split_ifs at h <;> cases h
    all_goals cases h

theorem advances_callExpression : Advances (size + 1) 1 (callExpression nested) := by
  refine advances_current.before fun token => (advances_primary hnested).bind fun callee => ?_
  refine advances_charChoice le_rfl (Nat.zero_le 1) ?_ ?_
  · exact (advances_listUpTo hnested _ _).weaken.bind fun arguments => advances_pure _
  · exact advances_pure _

theorem advances_postfixExpression : Advances (size + 1) 1 (postfixExpression nested) :=
  advances_current.before fun token => (advances_callExpression hnested).bind fun target =>
    advances_postfixes hnested token target

theorem advances_castExpression : Advances (size + 1) 1 (castExpression nested) := by
  refine advances_current.before fun token => advances_seesCast.before fun cast => .ite ?_ ?_
  · refine (advances_char _ _).bind fun _ => advances_type.weaken.bind fun target => ?_
    refine (advances_char _ _).weaken.bind fun _ => ?_
    exact (advances_postfixExpression hnested).weaken.bind fun operand => advances_pure _
  · exact advances_postfixExpression hnested

theorem advances_product : Advances (size + 1) 1 (product nested) :=
  advances_current.before fun token => (advances_castExpression hnested).bind fun left =>
    advances_groupLeft selects_product (advances_takeOperator _ (by simp)) (advances_castExpression hnested) token left

theorem advances_sum : Advances (size + 1) 1 (sum nested) :=
  advances_current.before fun token => (advances_product hnested).bind fun left =>
    advances_groupLeft selects_sum (advances_takeOperator _ (by simp)) (advances_product hnested) token left

end Expressions

/-- assignments and comparisons, by induction on the depth that they may spend: two units are spent before a token is taken -/
theorem advances_within (depth : Nat) :
    Advances (depth / 2) 1 (expression depth) ∧ Advances ((depth + 1) / 2) 1 (comparison depth) := by
  induction depth with
  | zero => exact ⟨advances_tooDeep, advances_tooDeep⟩
  | succ depth ih =>
    obtain ⟨hexpression, hcomparison⟩ := ih
    constructor
    · have hless : (depth + 1) / 2 ≤ depth / 2 + 1 := by omega
      rw [expression]
      refine advances_current.before fun token => hcomparison.bind fun target => ?_
      refine advances_charChoice hless (Nat.zero_le 1) ?_ ?_
      · exact hexpression.weaken.bind fun value => advances_pure _
      · exact advances_pure _
    · rw [comparison, show (depth + 1 + 1) / 2 = depth / 2 + 1 by omega]
      refine advances_current.before fun token => (advances_sum hexpression).taking fun left => ?_
      refine (advances_takeOperator _ (by simp)).bind fun op => ?_
      cases op with
      | none => exact advances_pure _
      | some op =>
        have hright : Advances (depth / 2) 0 (comparison depth) := hcomparison.mono (by omega) (Nat.zero_le 1)
        exact hright.bind fun right => advances_pure _

theorem advances_expression (depth : Nat) : Advances (depth / 2) 1 (expression depth) := (advances_within depth).1

/-- how many tokens an expression may have that stands in no other one, without running out of depth -/
def roomyExpression (depths : Depths) : Nat := depths.expression / 2

/-! ## Statements -/

section Statements

variable {depths : Depths} (hsize : size ≤ roomyExpression depths)

include hsize

theorem advances_fullExpression : Advances size 1 (fullExpression depths) := (advances_expression _).mono hsize le_rfl

theorem advances_condition : Advances size 1 (condition depths) :=
  (advances_char _ _).bind fun _ => (advances_fullExpression hsize).weaken.bind fun _ =>
    (advances_char _ _).weaken.bind fun _ => advances_pure _

omit hsize in
theorem advances_loopVariable : Advances size 0 loopVariable := by
  refine advances_seesType.before fun sees => .ite ?_ (advances_pure _)
  exact advances_type.weaken.bind fun ty => (advances_symbol _).weaken.bind fun name =>
    (advances_char _ _).weaken.bind fun _ => advances_pure _

omit hsize in
theorem advances_parameter (place : Construct) : Advances size 1 (parameter place) :=
  advances_type.bind fun _ => (advances_symbol place).weaken.bind fun _ => advances_pure _

theorem advances_declaredNames (token : Token) (ty : Ty) (name : Token) :
    Advances size 1 (declaredNames depths token ty name) := by
  have hfull := advances_fullExpression hsize
  rw [declaredNames_eq]
  refine advances_moreNames.before fun others => advances_charChoice (Nat.le_succ _) le_rfl ?_ ?_
  · exact hfull.weaken.bind fun start => (advances_char _ _).weaken.bind fun _ => advances_pure _
  · exact (advances_char _ _).bind fun _ => advances_pure _

variable {nested : Parser Stmt} (hnested : Advances size 1 nested) (token : Token)

include hnested

theorem advances_arm : Advances size 1 (arm depths nested) :=
  (advances_condition hsize).bind fun _ => hnested.weaken.bind fun _ => advances_pure _

omit hsize in
theorem advances_block : Advances size 1 (block nested) := advances_statementsToBrace hnested

theorem advances_ifStatement : Advances size 1 (ifStatement depths nested token) := by
  have harm := advances_arm hsize hnested
  rw [ifStatement_eq]
  refine harm.bind fun first => (advances_elseIfArms harm).bind fun others => ?_
  refine advances_wordChoice (Nat.le_succ _) (Nat.zero_le 1) ?_ ?_
  · exact (hnested.weaken.map some).bind fun otherwise => advances_pure _
  · exact (advances_pure none).bind fun otherwise => advances_pure _

theorem advances_forStatement : Advances size 1 (forStatement depths nested token) := by
  have hfull := (advances_fullExpression hsize).weaken
  refine (advances_char _ _).bind fun _ => advances_loopVariable.bind fun counter => ?_
  refine hfull.bind fun start => (advances_char _ _).weaken.bind fun _ => ?_
  refine hfull.bind fun test => (advances_char _ _).weaken.bind fun _ => ?_
  refine hfull.bind fun increment => (advances_char _ _).weaken.bind fun _ => ?_
  exact hnested.weaken.bind fun body => advances_pure _

omit hsize in
theorem advances_declaredFunction (ty : Ty) (name : Token) :
    Advances size 1 (declaredFunction nested token ty name) := by
  refine (advances_listUpTo (advances_parameter _) _ _).bind fun params => advances_current.bind fun brace => ?_
  exact (advances_char _ _).weaken.bind fun _ => (advances_block hnested).weaken.bind fun body => advances_pure _

theorem advances_declaration : Advances (size + 1) 1 (declaration depths nested token) := by
  refine advances_type.taking fun ty => (advances_symbol _).weaken.bind fun name => ?_
  refine advances_charChoice (Nat.le_succ _) (Nat.zero_le 1) ?_ ?_
  · exact (advances_declaredFunction hnested token ty name).weaken
  · exact (advances_declaredNames hsize token ty name).weaken

end Statements

/-- statements, by induction on the depth that they may spend: a statement takes a token before it nests another one -/
theorem advances_statement (depths : Depths) (depth : Nat) :
    Advances (min depth (roomyExpression depths)) 1 (statement depths depth) := by
  induction depth with
  | zero => exact (Nat.zero_min (roomyExpression depths)).symm ▸ advances_tooDeep
  | succ depth ih =>
    have hsize : min depth (roomyExpression depths) ≤ roomyExpression depths := Nat.min_le_right _ _
    have hless : min (depth + 1) (roomyExpression depths) ≤ min depth (roomyExpression depths) + 1 := by omega
    have hneeded : Advances (min depth (roomyExpression depths)) 0
        (if depth = 0 then refuse .tooDeep else pure () : Parser Unit) := by
      split_ifs with hdepth
      · rw [hdepth, Nat.zero_min]
        exact advances_tooDeep
      · exact advances_pure _
    rw [statement]
    refine advances_current.before fun token => advances_wordChoice hless le_rfl ?_ ?_
    · exact hneeded.bind fun _ => (advances_ifStatement hsize ih token).weaken
    refine advances_wordChoice hless le_rfl ?_ ?_
    · exact hneeded.bind fun _ => (advances_forStatement hsize ih token).weaken
    refine advances_wordChoice hless le_rfl ?_ ?_
    · exact (advances_fullExpression hsize).weaken.bind fun value => (advances_char _ _).weaken.bind fun _ =>
        advances_pure _
    refine advances_charChoice hless le_rfl ?_ ?_
    · exact (advances_block ih).weaken.bind fun body => advances_pure _
    refine advances_seesType.before fun sees => .ite ((advances_declaration hsize ih token).mono hless le_rfl) ?_
    exact (advances_fullExpression (Nat.min_le_right _ _)).bind fun e => (advances_char _ _).weaken.bind fun _ =>
      advances_pure _

end Parser

end LevelScript.Syntax
