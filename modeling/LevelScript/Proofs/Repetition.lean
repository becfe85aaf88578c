/-
What repeated parts of the grammar owe to the tokens that they have read.

Operators that may come, and the loops of the grammar: operands behind operators, lists with commas between their items,
names of variables, statements of a block, arms of an if statement. Each loop is one round and the same loop on fewer
tokens, so it keeps the contract that one round keeps if the rounds behind it do. What a loop has read is told relative
to what was read before it.
-/
import Mathlib.Tactic
import LevelScript.Proofs.Spelling

namespace LevelScript.Syntax

namespace Parser

variable {α β : Type} {size : Nat} {first : List Token → Token → Prop} {avoid : List Token → Prop}
  {reads : α → List Token → List Token → Prop}

/-! ## Operators -/

def startsWith (c : Char) (ts : List Token) : Bool := ts.head?.any (·.isChar c)

/-- the parser reads an operator of the given level. An equals sign that follows would make an operator another one. -/
def ReadsOperator (level : Level) (operator : Parser (Option Operator)) (ts : List Token) : Prop :=
  ∃ op marks rest, ts = marks ++ rest ∧ op.level = level ∧ marks.map (·.kind) = op.marks.map .char ∧
    operator ts = .ok (some op, rest) ∧
    ∀ other, (startsWith '=' other = true → startsWith '=' rest = true) → operator (marks ++ other) = .ok (some op, other)

/-- the parser reads an operator of the given level, unless none comes next. Whether an operator comes is seen from the
first token, runs to avoid apart. -/
def Selects (level : Level) (avoid : List Token → Prop) (operator : Parser (Option Operator)) : Prop :=
  ∀ ts, Ends ts → ReadsOperator level operator ts ∨
    ¬ avoid ts ∧ operator ts = .ok (none, ts) ∧ ∀ other, Follows avoid ts other → operator other = .ok (none, other)

section ReadsOperator

variable {level : Level} {operator : Parser (Option Operator)} (op : Operator) {c : Char} {t u : Token} {rest : List Token}

/-- an operator of one character -/
theorem ReadsOperator.short (hop : op.level = level) (hmarks : op.marks = [c]) (ht : t.isChar c = true)
    (hrun : ∀ other, (startsWith '=' other = true → startsWith '=' rest = true) →
      operator (t :: other) = .ok (some op, other)) : ReadsOperator level operator (t :: rest) :=
  ⟨op, [t], rest, rfl, hop, by simp [hmarks, kind_of_isChar ht], hrun rest id, hrun⟩

/-- an operator that ends with an equals sign -/
theorem ReadsOperator.long (hop : op.level = level) (hmarks : op.marks = [c, '=']) (ht : t.isChar c = true)
    (hu : u.isChar '=' = true) (hrun : ∀ other, operator (t :: u :: other) = .ok (some op, other)) :
    ReadsOperator level operator (t :: u :: rest) :=
  ⟨op, [t, u], rest, rfl, hop, by simp [hmarks, kind_of_isChar ht, kind_of_isChar hu], hrun rest, fun other _ => hrun other⟩

end ReadsOperator

theorem takeOperator_cons (spelling : List Char) (op : Operator) (others : List (List Char × Operator))
    (ts : List Token) : takeOperator ((spelling, op) :: others) ts =
      match dropRun? (spelling.map fun c t => t.isChar c) ts with
      | some rest => .ok (some op, rest)
      | none => takeOperator others ts := by
  rcases h : dropRun? (spelling.map fun c t => t.isChar c) ts with _ | rest
  · simp [takeOperator, takeRun, bind, StateT.bind, h, Except.bind]
  · simp [takeOperator, takeRun, bind, StateT.bind, h, Except.bind]
    rfl

theorem takeOperator_nil (ts : List Token) : takeOperator [] ts = .ok (none, ts) := rfl

theorem closes_of_isChar {t : Token} {c : Char} (h : t.isChar c = true) (hc : c ∈ continuingMarks) :
    t.closes = false := by
  rw [Token.closes, kind_of_isChar h]
  simpa using hc

@[simp] theorem startsWith_cons (c : Char) (t : Token) (ts : List Token) : startsWith c (t :: ts) = t.isChar c := rfl

theorem not_isChar_of_closing {t : Token} {ts : List Token} (h : Closing (t :: ts)) {c : Char}
    (hc : c ∈ continuingMarks) : ¬ t.isChar c = true := by
  intro hchar
  have := h.2 t rfl
  rw [closes_of_isChar hchar hc] at this
  cases this

/-- a list that may follow in place of one that does not start with a character does not either -/
theorem startsWith_of_follows {ts other : List Token} (h : Follows avoid ts other) {c : Char}
    (hc : c ∈ continuingMarks) (hts : startsWith c ts = false) : startsWith c other = false := by
  rcases h with ⟨⟨-, hsame⟩, -⟩ | ⟨hends, hcloses⟩
  · rwa [startsWith, hsame]
  · obtain ⟨t, other, rfl⟩ := hends.exists_cons
    by_contra hchar
    have := hcloses t rfl
    rw [closes_of_isChar (by simpa using hchar) hc] at this
    cases this

theorem run_marks (c d : Char) (op op' : Operator) (t : Token) (ts : List Token) :
    takeOperator [([c], op), ([d], op')] (t :: ts) =
      if t.isChar c then .ok (some op, ts) else if t.isChar d then .ok (some op', ts) else .ok (none, t :: ts) := by
  simp only [takeOperator_cons, takeOperator_nil, List.map, dropRun?]
  split_ifs <;> rfl

/-- operators that are written with one character each -/
theorem selects_marks {level : Level} {c d : Char} {op op' : Operator} (hop : op.level = level) (hop' : op'.level = level)
    (hc : op.marks = [c]) (hd : op'.marks = [d]) (hcont : c ∈ continuingMarks) (hcont' : d ∈ continuingMarks) :
    Selects level nothing (takeOperator [([c], op), ([d], op')]) := by
  intro ts hends
  obtain ⟨t, ts, rfl⟩ := hends.exists_cons
  by_cases hfirst : t.isChar c = true
  · exact .inl (.short op hop hc hfirst fun other _ => by rw [run_marks, if_pos hfirst])
  · by_cases hsecond : t.isChar d = true
    · exact .inl (.short op' hop' hd hsecond fun other _ => by rw [run_marks, if_neg hfirst, if_pos hsecond])
    · refine .inr ⟨id, by rw [run_marks, if_neg hfirst, if_neg hsecond], fun other ho => ?_⟩
      have hu := startsWith_of_follows ho hcont (by simpa using hfirst)
      have hu' := startsWith_of_follows ho hcont' (by simpa using hsecond)
      obtain ⟨u, other, rfl⟩ := ho.ends.exists_cons
      rw [startsWith_cons] at hu hu'
      simp [run_marks, hu, hu']

theorem selects_sum : Selects .sum nothing sumOperator :=
  selects_marks rfl rfl rfl rfl (by decide) (by decide)

theorem selects_product : Selects .product nothing productOperator :=
  selects_marks rfl rfl rfl rfl (by decide) (by decide)

theorem run_comparisonOperator (t : Token) (ts : List Token) : comparisonOperator (t :: ts) =
    if t.isChar '=' = true ∧ startsWith '=' ts = true then .ok (some .eq, ts.tail)
    else if t.isChar '<' then (if startsWith '=' ts then .ok (some .le, ts.tail) else .ok (some .lt, ts))
    else if t.isChar '>' then (if startsWith '=' ts then .ok (some .ge, ts.tail) else .ok (some .gt, ts))
    else .ok (none, t :: ts) := by
  have hne {c d : Char} (h : t.isChar c = true) (hd : c ≠ d) : t.isChar d = false := by
    rw [Token.isChar, kind_of_isChar h]
    simpa using hd
  have hrun (c : Char) : dropRun? [(·.isChar c), (·.isChar '=')] (t :: ts) =
      if t.isChar c = true ∧ startsWith '=' ts = true then some ts.tail else none := by
    cases ts <;> by_cases h : t.isChar c = true <;> simp [dropRun?, startsWith, h]
  have hrun₁ (c : Char) : dropRun? [(·.isChar c)] (t :: ts) = if t.isChar c then some ts else none := rfl
  simp only [comparisonOperator, takeOperator_cons, takeOperator_nil, List.map, hrun, hrun₁]
  by_cases hnext : startsWith '=' ts = true
  · by_cases hlt : t.isChar '<' = true
    · have heq := hne hlt (d := '=') (by decide)
      simp [hlt, heq, hnext]
    · by_cases heq : t.isChar '=' = true <;> by_cases hgt : t.isChar '>' = true <;> simp [heq, hlt, hgt, hnext]
  · by_cases hlt : t.isChar '<' = true
    · have hgt := hne hlt (d := '>') (by decide)
      simp [hlt, hgt, hnext]
    · by_cases hgt : t.isChar '>' = true <;> simp [hlt, hgt, hnext]

/-- two characters at the start of a list -/
theorem startsWith_pair {c d : Char} {t : Token} {ts : List Token} :
    StartsWith (·.isChar c) (·.isChar d) (t :: ts) ↔ t.isChar c = true ∧ startsWith d ts = true := by
  constructor
  · rintro ⟨t', u, rest, h, ht, hu⟩
    cases h
    exact ⟨ht, hu⟩
  · rintro ⟨ht, hnext⟩
    refine (startsWith_cons_iff ht).2 ?_
    cases ts with
    | nil => cases hnext
    | cons u rest => exact ⟨u, rfl, hnext⟩

theorem selects_comparison : Selects .comparison (StartsWith (·.isChar '=') (·.isChar '=')) comparisonOperator := by
  intro ts hends
  obtain ⟨t, ts, rfl⟩ := hends.exists_cons
  by_cases hmark : StartsWith (·.isChar '=') (·.isChar '=') (t :: ts) ∨ t.isChar '<' = true ∨ t.isChar '>' = true
  · left
    rw [startsWith_pair] at hmark
    by_cases hnext : startsWith '=' ts = true
    · -- the equals sign behind the first character belongs to the operator
      obtain ⟨u, rest, rfl⟩ : ∃ u rest, ts = u :: rest := by
        cases ts with
        | nil => cases hnext
        | cons u rest => exact ⟨u, rest, rfl⟩
      rw [startsWith_cons] at hnext
      by_cases heq : t.isChar '=' = true
      · exact .long .eq rfl rfl heq hnext fun other => by simp [run_comparisonOperator, heq, hnext]
      · by_cases hlt : t.isChar '<' = true
        · exact .long .le rfl rfl hlt hnext fun other => by simp [run_comparisonOperator, heq, hlt, hnext]
        · have hgt : t.isChar '>' = true := by simpa [heq, hlt] using hmark
          exact .long .ge rfl rfl hgt hnext fun other => by simp [run_comparisonOperator, heq, hlt, hgt, hnext]
    · have hother {other : List Token} (ho : startsWith '=' other = true → startsWith '=' ts = true) :
          startsWith '=' other = false := by simpa using fun h => hnext (ho h)
      by_cases hlt : t.isChar '<' = true
      · exact .short .lt rfl rfl hlt fun other ho => by simp [run_comparisonOperator, hlt, hother ho]
      · have hgt : t.isChar '>' = true := by simpa [hnext, hlt] using hmark
        exact .short .gt rfl rfl hgt fun other ho => by simp [run_comparisonOperator, hlt, hgt, hother ho]
  · right
    rw [not_or, not_or] at hmark
    obtain ⟨heq, hlt, hgt⟩ := hmark
    refine ⟨heq, by simp [run_comparisonOperator, mt startsWith_pair.2 heq, hlt, hgt], fun other ho => ?_⟩
    have hlt' := startsWith_of_follows ho (c := '<') (by decide) (by simpa using hlt)
    have hgt' := startsWith_of_follows ho (c := '>') (by decide) (by simpa using hgt)
    have heq' : ¬ StartsWith (·.isChar '=') (·.isChar '=') other :=
      ho.elim (·.2) (not_startsWith_of_closing fun t ht => closes_of_isChar ht (by decide))
    obtain ⟨u, other, rfl⟩ := ho.ends.exists_cons
    rw [startsWith_cons] at hlt' hgt'
    simp [run_comparisonOperator, mt startsWith_pair.2 heq', hlt', hgt']

/-- the tokens of an operator -/
theorem inner_marks {op : Operator} {marks : List Token} (h : marks.map (·.kind) = op.marks.map .char) :
    Inner marks := by
  intro t ht heof
  obtain ⟨c, -, hc⟩ := List.mem_map.1 (h ▸ List.mem_map_of_mem ht)
  rw [heof] at hc
  cases hc

theorem exists_marks {op : Operator} {marks : List Token} (h : marks.map (·.kind) = op.marks.map .char) :
    ∃ t more, marks = t :: more ∧ t.closes = false := by
  cases marks with
  | nil => cases op <;> cases h
  | cons t more =>
    refine ⟨t, more, rfl, ?_⟩
    cases op <;> simp only [Operator.marks, List.map_cons, List.cons.injEq] at h <;> rw [Token.closes, h.1] <;> decide

theorem Selects.of_closing {p : Parser (Option Operator)} {level : Level} (hp : Selects level avoid p)
    {ts : List Token} (hts : Closing ts) : p ts = .ok (none, ts) := by
  rcases hp ts hts.1 with ⟨op, marks, rest, rfl, -, hkinds, -⟩ | ⟨-, hrun, -⟩
  · obtain ⟨t, more, rfl, ht⟩ := exists_marks hkinds
    have := hts.2 t rfl
    rw [ht] at this
    cases this
  · exact hrun

/-- an operator that may come, and a parser for what follows it, which an equals sign does not complete -/
theorem Contract.operator {p : Parser (Option Operator)} {level : Level} (hp : Selects level avoid p)
    {f : Option Operator → Parser α} (a : α) (hnone : f none = Pure.pure a)
    (hreads : ∀ rest, Ends rest → ¬ avoid rest → reads a [] rest)
    (hsome : ∀ op marks, op.level = level → marks.map (·.kind) = op.marks.map .char → ∀ n < size,
      Contract n (fun used t => first (marks ++ used) t ∧ (used = [] → t.isChar '=' = false)) avoid
        (fun a used rest => reads a (marks ++ used) rest ∧ used ≠ []) (f (some op))) :
    Contract size first avoid reads (p >>= f) := by
  constructor
  · intro ts b rest hsize hends hok
    rcases hp ts hends with ⟨op, marks, rest', rfl, hlevel, hkinds, hrun, hagain⟩ | ⟨havoid, hrun, hagain⟩
    · rw [run_bind_ok hrun] at hok
      have hpos : 0 < marks.length := by
        obtain ⟨t, more, rfl, -⟩ := exists_marks hkinds
        exact Nat.succ_pos _
      rw [List.length_append] at hsize
      obtain ⟨used, rfl, hused, ⟨hread, hsome'⟩, hagain'⟩ :=
        (hsome op marks hlevel hkinds rest'.length (by omega)).accepts le_rfl (hends.rest (inner_marks hkinds)) hok
      refine ⟨marks ++ used, by rw [List.append_assoc], (inner_marks hkinds).append hused, hread, fun other ho => ?_⟩
      obtain ⟨u, used, rfl⟩ := List.exists_cons_of_ne_nil hsome'
      rw [List.append_assoc, run_bind_ok (hagain (u :: used ++ other) id), hagain' other ho]
    · rw [run_bind_ok hrun, hnone] at hok
      cases hok
      exact ⟨[], rfl, .nil, hreads _ hends havoid, fun other ho => by
        rw [List.nil_append, run_bind_ok (hagain other ho), hnone]
        rfl⟩
  · intro ts cause rest hsize hends herror hcause
    rcases hp ts hends with ⟨op, marks, rest', rfl, hlevel, hkinds, hrun, hagain⟩ | ⟨-, hrun, -⟩
    · rw [run_bind_ok hrun] at herror
      have hpos : 0 < marks.length := by
        obtain ⟨t, more, rfl, -⟩ := exists_marks hkinds
        exact Nat.succ_pos _
      rw [List.length_append] at hsize
      obtain ⟨used, rfl, hused, hagain', t, fill, ⟨ht, hnot⟩, hfill⟩ :=
        (hsome op marks hlevel hkinds rest'.length (by omega)).refuses le_rfl (hends.rest (inner_marks hkinds)) herror hcause
      refine ⟨marks ++ used, by rw [List.append_assoc], (inner_marks hkinds).append hused, fun other ho => ?_, t, fill, ht,
        fun tail htail => ?_⟩
      · rw [List.append_assoc, run_bind_ok (hagain _ ?_), hagain' other ho]
        cases used with
        | nil => simp [startsWith, ho.2]
        | cons u used => exact id
      · obtain ⟨b, hb⟩ := hfill tail htail
        refine ⟨b, ?_⟩
        rw [List.append_assoc] at hb
        rw [List.append_assoc, List.append_assoc, run_bind_ok (hagain _ ?_), hb]
        cases used with
        | nil => simp [startsWith, hnot rfl]
        | cons u used => exact id
    · rw [run_bind_ok hrun, hnone] at herror
      cases herror

/-- the first token that completes an expression of which nothing has been read is a number -/
def numberFirst (used : List Token) (t : Token) : Prop := used = [] → ∃ n, t.kind = .int n

theorem numberFirst.not_isChar {used : List Token} {t : Token} (h : numberFirst used t) (hused : used = []) {c : Char} :
    t.isChar c = false := by
  obtain ⟨n, hn⟩ := h hused
  rw [Token.isChar, hn]

theorem numberFirst.not_isSymbol {used : List Token} {t : Token} (h : numberFirst used t) (hused : used = [])
    {name : String} : t.isSymbol name = false := by
  obtain ⟨n, hn⟩ := h hused
  rw [Token.isSymbol, hn]

theorem numberFirst.closes {used : List Token} {t : Token} (h : numberFirst used t) (hused : used = []) :
    t.closes = true := by
  obtain ⟨n, hn⟩ := h hused
  rw [Token.closes, hn]

theorem numberFirst.type? {used : List Token} {t : Token} (h : numberFirst used t) (hused : used = []) :
    t.type? = none := by
  obtain ⟨n, hn⟩ := h hused
  rw [Token.type?, hn]

/-! ## Operands behind operators -/

section GroupLeft

variable {operator : Parser (Option Operator)} {operand : Parser Expr} (token : Token) {level : Level}
  (hoperator : Selects level nothing operator)

def groupRound (operator : Parser (Option Operator)) (operand : Parser Expr) (token : Token) (others : Expr → Parser Expr)
    (left : Expr) : Parser Expr := do
  match ← operator with
  | none => return left
  | some op => others (.binary token left op (← operand))

include hoperator

theorem round_groupLeft (hoperand : Trims operand) : Round (groupRound operator operand token) := by
  intro q q' left ts hends hq
  refine bind_congr_run fun o mid hmid => ?_
  rcases hoperator ts hends with ⟨op, marks, rest, rfl, -, hkinds, hrun, -⟩ | ⟨-, hrun, -⟩
  · rw [hrun] at hmid
    cases hmid
    refine bind_congr_run fun right mid hmid => ?_
    obtain ⟨hends', hlength⟩ := hoperand (hends.rest (inner_marks hkinds)) hmid
    obtain ⟨t, more, rfl, -⟩ := exists_marks hkinds
    exact hq _ _ hends' (by simp; omega)
  · rw [hrun] at hmid
    cases hmid
    rfl

theorem whole_groupLeft_eq (hoperand : Trims operand) (left : Expr) {ts : List Token} (hends : Ends ts) :
    whole (groupLeft operator operand token) left ts =
      groupRound operator operand token (whole (groupLeft operator operand token)) left ts :=
  whole_eq _ (fun _ _ => rfl) (round_groupLeft token hoperator hoperand) left hends

theorem completes_groupLeft (hoperand : Trims operand) (left : Expr) :
    Completes [] (whole (groupLeft operator operand token) left) := by
  intro tail htail
  refine ⟨left, ?_⟩
  rw [List.nil_append, whole_groupLeft_eq token hoperator hoperand left htail.1, groupRound,
    run_bind_ok (hoperator.of_closing htail)]
  rfl

/-- operators and operands behind a left operand; `total` is what a left operand is to its tokens, and stays so -/
theorem Contract.groupLeft (total : Expr → List Token → Prop) {part : Expr → List Token → Prop}
    (hoperand : ∀ n, Contract n numberFirst nothing (fun e used _ => part e used ∧ used ≠ []) operand)
    (htotal : ∀ {left op marks right before used}, op.level = level → marks.map (·.kind) = op.marks.map .char →
      total left before → part right used → total (.binary token left op right) (before ++ (marks ++ used)))
    (size : Nat) (left : Expr) :
    Contract size (fun used _ => used ≠ []) nothing (fun e used _ => ∀ before, total left before → total e (before ++ used))
      (whole (groupLeft operator operand token) left) := by
  have htrims : Trims operand := Contract.trims hoperand
  refine Contract.rounds (groupRound operator operand token) (fun _ _ => rfl) (round_groupLeft token hoperator htrims)
    (fun _ used _ => used ≠ []) (fun left e used _ => ∀ before, total left before → total e (before ++ used))
    (fun size ih left => ?_) size left
  refine .operator hoperator left rfl (fun rest _ _ before h => by rwa [List.append_nil])
    fun op marks hlevel hkinds n hn => ?_
  refine .bind [] (hoperand n) (fun used t ht => ?_) (by simp) (fun right => completes_groupLeft token hoperator htrims _)
    fun right used mid ⟨hpart, hsome⟩ n' hn' => ?_
  · obtain ⟨t', more, rfl, -⟩ := exists_marks hkinds
    exact ⟨by simp, fun hused => ht.not_isChar hused⟩
  · refine (ih n' (by omega) (.binary token left op right)).mono (fun used' t hused' => ?_)
      fun e used' rest _ _ hread _ => ⟨fun before hleft => ?_, by simp [hsome]⟩
    · exact ⟨⟨by simp [hsome], fun h => absurd (List.append_eq_nil_iff.1 h).1 hsome⟩, fun h => absurd h hused'⟩
    · have := hread _ (htotal hlevel hkinds hleft hpart)
      rwa [List.append_assoc, List.append_assoc] at this

end GroupLeft

/-! ## Lists with commas -/

/-- the first token that completes a list of which nothing has been read closes what came before, and is no punctuation -/
def itemFirst (used : List Token) (t : Token) : Prop := used = [] → t.closes = true ∧ ∀ c, t.isChar c = false

theorem numberFirst.item {used : List Token} {t : Token} (h : numberFirst used t) : itemFirst used t :=
  fun hused => ⟨h.closes hused, fun _ => h.not_isChar hused⟩

section Commas

variable {item : Parser α} {closer : Char} {place : Construct}

def commaRound (item : Parser α) (closer : Char) (place : Construct) (others : Unit → Parser (List α)) (_ : Unit) :
    Parser (List α) := do
  let first ← item
  if ← takeChar ',' then
    return first :: (← others ())
  else
    char closer place
    return [first]

theorem round_commaSeparated (hitem : Trims item) : Round (commaRound item closer place) := by
  intro q q' _ ts hends hq
  refine bind_congr_run fun a mid hmid => ?_
  obtain ⟨hends', hlength⟩ := hitem hends hmid
  refine choice_congr hends' inner_char (fun us hus hlt => ?_) rfl
  exact bind_congr_first (hq () us hus (by omega)) _

theorem whole_commaSeparated_eq (hitem : Trims item) {ts : List Token} (hends : Ends ts) :
    whole (fun n (_ : Unit) => commaSeparated item closer place n) () ts =
      commaRound item closer place (whole fun n (_ : Unit) => commaSeparated item closer place n) () ts :=
  whole_eq _ (fun _ _ => rfl) (round_commaSeparated hitem) () hends

/-- items with commas between them; `items` is what a list is to its tokens, the closing one among them -/
theorem Contract.commaSeparated {part : α → List Token → Prop} {items : List α → List Token → Prop}
    (hcloser : closer ∉ continuingMarks)
    (hitem : ∀ n, Contract n itemFirst nothing (fun a used _ => part a used ∧ used ≠ []) item)
    (hone : ∀ {a used t}, part a used → t.kind = .char closer → items [a] (used ++ [t]))
    (hmore : ∀ {a used t as more}, part a used → t.kind = .char ',' → as ≠ [] → items as more →
      items (a :: as) (used ++ t :: more)) (size : Nat) :
    Contract size itemFirst nothing (fun as used _ => items as used ∧ as ≠ [] ∧ used ≠ [])
      (whole (fun n (_ : Unit) => commaSeparated item closer place n) ()) := by
  have hcomma : closer ≠ ',' := fun h => hcloser (h ▸ by decide)
  have hsample : (Token.ofKind (.char closer)).isChar closer = true := by simp [Token.ofKind, Token.isChar]
  have hsample' : (Token.ofKind (.char closer)).isChar ',' = false := by simpa [Token.ofKind, Token.isChar] using hcomma
  refine Contract.rounds (commaRound item closer place) (fun _ _ => rfl)
    (round_commaSeparated (Contract.trims hitem)) (fun _ => itemFirst)
    (fun _ as used _ => items as used ∧ as ≠ [] ∧ used ≠ []) (fun size ih _ => ?_) size ()
  refine .bind [.ofKind (.char closer)] (hitem size) (fun used t ht => ht) ?_ ?_ fun a used mid hread n hn => ?_
  · simpa [Token.closes, Token.ofKind] using hcloser
  · intro a tail _
    refine ⟨[a], (run_skipped (by simp [hsample']) _ _).trans ?_⟩
    exact run_bind_ok ((takes_char closer place).run hsample tail) _
  · obtain ⟨hpart, hsome⟩ := hread
    refine .choice inner_char (fun t ht n' hn' => ?_) ?_
    · refine .bindPure (a :: ·) ((ih n' (by omega) ()).mono (fun used' t' _ => ?_)
        fun as used' rest _ _ hothers => ?_)
      · exact ⟨fun h => by simp at h, fun h => by simp at h⟩
      · obtain ⟨hitems, hne, -⟩ := hothers
        exact fun _ => ⟨hmore hpart (kind_of_isChar ht) hne hitems, by simp, by simp⟩
    · refine .read (.ofKind (.char closer)) [] (takes_char closer place) hsample
        inner_char ?_ (fun _ => completes_pure [a]) fun t ht n' hn' => ?_
      · exact ⟨⟨fun h => by simp [hsome] at h, fun _ => by simpa [Token.closes, Token.ofKind] using hcloser⟩,
          fun _ => hsample'⟩
      · refine .pure [a] fun rest _ => ⟨fun _ _ => ⟨hone hpart (kind_of_isChar ht), by simp, by simp⟩, by simp⟩

/-- items with commas between them, or none, up to the closing character -/
theorem Contract.listUpTo {part : α → List Token → Prop} {items : List α → List Token → Prop}
    (hcloser : closer ∉ continuingMarks)
    (hitem : ∀ n, Contract n itemFirst nothing (fun a used _ => part a used ∧ used ≠ []) item)
    (hnone : ∀ {t : Token}, t.kind = .char closer → items [] [t])
    (hone : ∀ {a used t}, part a used → t.kind = .char closer → items [a] (used ++ [t]))
    (hmore : ∀ {a used t as more}, part a used → t.kind = .char ',' → as ≠ [] → items as more →
      items (a :: as) (used ++ t :: more)) (size : Nat) :
    Contract size itemFirst nothing (fun as used _ => items as used ∧ used ≠ []) (listUpTo item closer place) := by
  refine .choice inner_char (fun t ht n hn => ?_) ?_
  · exact .pure [] fun rest _ => ⟨hnone (kind_of_isChar ht), by simp⟩
  · refine (Contract.commaSeparated hcloser hitem hone hmore size).mono (fun used t ht => ?_)
      fun as used rest _ _ ⟨hitems, _, hsome⟩ => ?_
    · exact ⟨ht, fun hused => (ht hused).2 closer⟩
    · exact ⟨fun _ => ⟨hitems, hsome⟩, fun h => absurd h hsome⟩

end Commas

/-! ## Members and indices -/

section Postfixes

variable {index : Parser Expr} {token : Token}

def postfixRound (index : Parser Expr) (token : Token) (others : Expr → Parser Expr) (target : Expr) : Parser Expr := do
  if ← takeChar '.' then
    let name ← symbol .memberAccess
    others (.member token target name)
  else if ← takeChar '[' then
    let place ← index
    char ']' .arrayAccess
    others (.index token target place)
  else return target

theorem round_postfixes (hindex : Trims index) : Round (postfixRound index token) := by
  intro q q' target ts hends hq
  refine choice_congr hends inner_char (fun us hus hlt => ?_) ?_
  · refine bind_congr_run fun name mid hmid => ?_
    obtain ⟨hends', hlength⟩ := (takes_symbol _).trims inner_symbol hus hmid
    exact hq _ _ hends' (by omega)
  · refine choice_congr hends inner_char (fun us hus hlt => ?_) rfl
    refine bind_congr_run fun place mid hmid => bind_congr_run fun _ mid' hmid' => ?_
    obtain ⟨hends', hlength⟩ := hindex hus hmid
    obtain ⟨hends'', hlength'⟩ := (takes_char _ _).trims inner_char hends' hmid'
    exact hq _ _ hends'' (by omega)

theorem whole_postfixes_eq (hindex : Trims index) (target : Expr) {ts : List Token} (hends : Ends ts) :
    whole (postfixes index token) target ts =
      postfixRound index token (whole (postfixes index token)) target ts :=
  whole_eq _ (fun _ _ => rfl) (round_postfixes hindex) target hends

theorem completes_postfixes (hindex : Trims index) (target : Expr) :
    Completes [] (whole (postfixes index token) target) := by
  intro tail htail
  refine ⟨target, ?_⟩
  rw [List.nil_append, whole_postfixes_eq hindex target htail.1]
  obtain ⟨t, rest, rfl⟩ := htail.1.exists_cons
  refine (run_skipped (not_isChar_of_closing htail (by decide)) _ _).trans ?_
  exact run_skipped (not_isChar_of_closing htail (by decide)) _ _

/-- members and indices behind an expression; `total` is what an expression is to its tokens, and stays so -/
theorem Contract.postfixes (total part : Expr → List Token → Prop)
    (hindex : ∀ n, Contract n numberFirst nothing (fun e used _ => part e used ∧ used ≠ []) index)
    (hmember : ∀ {target before t name}, total target before → t.kind = .char '.' → name.IsName →
      total (.member token target name) (before ++ [t, name]))
    (hplace : ∀ {target before t place used u}, total target before → t.kind = .char '[' → part place used →
      u.kind = .char ']' → total (.index token target place) (before ++ t :: (used ++ [u])))
    (size : Nat) (target : Expr) :
    Contract size (fun used _ => used ≠ []) nothing
      (fun e used _ => ∀ before, total target before → total e (before ++ used)) (whole (postfixes index token) target) := by
  have htrims : Trims index := Contract.trims hindex
  refine Contract.rounds (postfixRound index token) (fun _ _ => rfl) (round_postfixes htrims)
    (fun _ used _ => used ≠ []) (fun target e used _ => ∀ before, total target before → total e (before ++ used))
    (fun size ih target => ?_) size target
  refine .choice inner_char (fun t ht n hn => ?_) ?_
  · refine .read (.ofKind (.symbol "x")) [] (takes_symbol _) rfl inner_symbol (by simp)
      (fun name => completes_postfixes htrims _) fun name hname n' hn' => ?_
    refine (ih n' (by omega) (.member token target name)).mono (fun used' t' _ => by simp) ?_
    intro e used rest _ _ hread before htotal
    have := hread _ (hmember htotal (kind_of_isChar ht) (kind_of_named hname))
    rwa [List.append_assoc] at this
  · refine .choice inner_char (fun t ht n hn => ?_) ?_
    · refine .bind [.ofKind (.char ']')] (hindex n) (fun used t' _ => by simp) (by simp [continuingMarks])
        (fun place => .read (takes_char _ _) rfl (completes_postfixes htrims _)) fun place used mid ⟨hpart, hsome⟩ n' hn' => ?_
      · refine .read (.ofKind (.char ']')) [] (takes_char _ _) rfl inner_char (by simp [continuingMarks])
          (fun _ => completes_postfixes htrims _) fun u hu n'' hn'' => ?_
        refine (ih n'' (by omega) (.index token target place)).mono (fun used' t' _ => by simp) ?_
        intro e used' rest _ _ hread _
        refine ⟨fun _ before htotal => ?_, by simp⟩
        have := hread _ (hplace htotal (kind_of_isChar ht) hpart (kind_of_isChar hu))
        rwa [List.append_assoc, List.cons_append, List.append_assoc] at this
    · exact .pure target fun rest _ => ⟨fun _ => ⟨fun _ before h => by rwa [List.append_nil],
        fun _ t ht => closes_of_isChar ht (by decide)⟩, fun _ t ht => closes_of_isChar ht (by decide)⟩

end Postfixes

/-! ## Names of variables -/

def nameRound (others : Unit → Parser (List Token)) (_ : Unit) : Parser (List Token) := do
  if ← takeChar ',' then
    let name ← symbol .variableDeclaration
    return name :: (← others ())
  else return []

theorem round_moreNames : Round nameRound := by
  intro q q' _ ts hends hq
  refine choice_congr hends inner_char (fun us hus hlt => bind_congr_run fun name mid hmid => ?_) rfl
  obtain ⟨hends', hlength⟩ := (takes_symbol _).trims inner_symbol hus hmid
  exact bind_congr_first (hq () mid hends' (by omega)) _

theorem whole_moreNames_eq {ts : List Token} (hends : Ends ts) :
    whole (fun n (_ : Unit) => moreNames n) () ts = nameRound (whole fun n (_ : Unit) => moreNames n) () ts :=
  whole_eq _ (fun _ _ => rfl) round_moreNames () hends

theorem completes_moreNames : Completes [] (whole (fun n (_ : Unit) => moreNames n) ()) := by
  intro tail htail
  refine ⟨[], ?_⟩
  rw [List.nil_append, whole_moreNames_eq htail.1]
  obtain ⟨t, rest, rfl⟩ := htail.1.exists_cons
  exact run_skipped (not_isChar_of_closing htail (by decide)) _ _

/-- each name stands behind a comma -/
theorem Contract.moreNames (size : Nat) :
    Contract size (fun used _ => used ≠ []) nothing
      (fun names used _ => used.map (·.kind) = names.flatMap (fun name => [.char ',', name.kind]) ∧
        ∀ name ∈ names, name.IsName)
      (whole (fun n (_ : Unit) => moreNames n) ()) := by
  refine Contract.rounds nameRound (fun _ _ => rfl) round_moreNames (fun _ used _ => used ≠ [])
    (fun _ names used _ => used.map (·.kind) = names.flatMap (fun name => [.char ',', name.kind]) ∧
      ∀ name ∈ names, name.IsName) (fun size ih _ => ?_) size ()
  refine .choice inner_char (fun t ht n hn => ?_)
    (.pure [] fun rest _ => ⟨by simp, fun _ t ht => closes_of_isChar ht (by decide)⟩)
  refine .read (.ofKind (.symbol "x")) [] (takes_symbol _) rfl inner_symbol (by simp) (fun name => ?_)
    fun name hname n' hn' => ?_
  · exact completes_moreNames.seq fun names => completes_pure (name :: names)
  · refine .bindPure (name :: ·) ((ih n' (by omega) ()).mono (fun used' t' _ => by simp) ?_)
    intro names used rest _ _ ⟨hkinds, hnames⟩
    simpa [hkinds, kind_of_isChar ht] using ⟨kind_of_named hname, hnames⟩

/-! ## Statements of a block -/

section Braces

variable {statement : Parser Stmt}

def braceRound (statement : Parser Stmt) (others : Unit → Parser (List Stmt)) (_ : Unit) : Parser (List Stmt) := do
  if ← takeChar '}' then return []
  else if ended (← get) then refuse (.expectedChar '}' .block)
  else
    let first ← statement
    return first :: (← others ())

theorem run_braceRound (others : Unit → Parser (List Stmt)) (t : Token) (rest : List Token) :
    braceRound statement others () (t :: rest) = Next.run t rest
      (if t.isChar '}' then .take (pure []) else if ended [t] then .stop (.expectedChar '}' .block)
        else .stay do let first ← statement; return first :: (← others ())) := by
  refine (run_choice _ _ _ _).trans ?_
  by_cases hbrace : t.isChar '}' = true
  · simp only [hbrace, if_true]
    rfl
  · simp only [hbrace, if_false, Bool.false_eq_true]
    have hended : ended (t :: rest) = ended [t] := rfl
    have hget : (get : Parser (List Token)) (t :: rest) = .ok (t :: rest, t :: rest) := rfl
    refine (run_bind_ok hget _).trans ?_
    rw [hended]
    split_ifs <;> rfl

theorem round_statementsToBrace
    (hstatement : ∀ {ts rest s}, Ends ts → statement ts = .ok (s, rest) → Ends rest ∧ rest.length < ts.length) :
    Round (braceRound statement) := by
  intro q q' _ ts hends hq
  obtain ⟨t, ts, rfl⟩ := hends.exists_cons
  rw [run_braceRound, run_braceRound]
  split_ifs
  · rfl
  · rfl
  · refine bind_congr_run fun first mid hmid => ?_
    obtain ⟨hends', hlt⟩ := hstatement hends hmid
    exact bind_congr_first (hq () mid hends' hlt) _

theorem whole_statementsToBrace_eq
    (hstatement : ∀ {ts rest s}, Ends ts → statement ts = .ok (s, rest) → Ends rest ∧ rest.length < ts.length)
    {ts : List Token} (hends : Ends ts) :
    whole (fun n (_ : Unit) => statementsToBrace statement (n + 1)) () ts =
      braceRound statement (whole fun n (_ : Unit) => statementsToBrace statement (n + 1)) () ts :=
  whole_eq _ (fun _ _ => rfl) (round_statementsToBrace hstatement) () hends

theorem completes_statementsToBrace
    (hstatement : ∀ {ts rest s}, Ends ts → statement ts = .ok (s, rest) → Ends rest ∧ rest.length < ts.length) :
    Completes [.ofKind (.char '}')] (whole (fun n (_ : Unit) => statementsToBrace statement (n + 1)) ()) := by
  intro tail htail
  refine ⟨[], ?_⟩
  rw [whole_statementsToBrace_eq hstatement (htail.1.append _)]
  exact (run_braceRound _ _ _).trans rfl

/-- statements up to the closing brace; `items` is what a list is to its tokens, the brace among them -/
theorem Contract.statementsToBrace (part : Stmt → List Token → Prop) {items : List Stmt → List Token → Prop}
    (hstatement : ∀ n, Contract n numberFirst nothing (fun s used _ => part s used ∧ used ≠ []) statement)
    (hnone : ∀ {t : Token}, t.kind = .char '}' → items [] [t])
    (hmore : ∀ {s used ss more}, part s used → items ss more → items (s :: ss) (used ++ more)) (size : Nat) :
    Contract size (fun used t => used = [] → t.closes = true) nothing (fun ss used _ => items ss used)
      (whole (fun n (_ : Unit) => statementsToBrace statement (n + 1)) ()) := by
  have hshrinks {ts rest : List Token} {s : Stmt} (hends : Ends ts) (hok : statement ts = .ok (s, rest)) :
      Ends rest ∧ rest.length < ts.length := Contract.shrinks hstatement (·.2) hends hok
  refine Contract.rounds (braceRound statement) (fun _ _ => rfl) (round_statementsToBrace hshrinks)
    (fun _ used t => used = [] → t.closes = true) (fun _ ss used _ => items ss used) (fun size ih _ => ?_) size ()
  refine .next _ (run_braceRound _) (fun t q h => ?_) (fun t q h n hn => ?_) (fun t q h => ?_)
    fun _ _ _ => ⟨.ofKind (.char '}'), [], by simp [continuingMarks], fun tail _ => ⟨[], run_braceRound _ _ _⟩⟩
  · split_ifs at h with hbrace hend
    exact inner_char t hbrace
  · split_ifs at h with hbrace hend
    cases h
    exact .pure [] fun rest _ => hnone (kind_of_isChar hbrace)
  · split_ifs at h with hbrace hend
    cases h
    refine .bind [.ofKind (.char '}')] (hstatement size) (fun used t' ht' => ?_) (by simp [continuingMarks])
      (fun s => ?_) fun s used mid ⟨hpart, hsome⟩ n hn => ?_
    · refine ⟨ht'.closes, fun hused => ?_⟩
      have hended : ended [t'] = false := by
        obtain ⟨n, hn⟩ := ht' hused
        simp [ended, hn]
      simp [ht'.not_isChar hused, hended]
    · exact (completes_statementsToBrace hshrinks).seq fun ss => completes_pure (s :: ss)
    · refine .bindPure (s :: ·) ((ih n ?_ ()).mono (fun used' t' ht' => ?_) ?_)
      · have := List.length_pos_iff.2 hsome
        omega
      · exact ⟨⟨fun h => by simp [hsome] at h, fun h => by simp [hsome] at h⟩, ht'⟩
      · intro ss used' rest _ _ hitems _
        exact ⟨fun _ => hmore hpart hitems, fun h => by simp [hsome] at h⟩

end Braces

/-! ## Arms of an if statement -/

theorem run_takeTwo {test₁ test₂ : Token → Bool} {t u : Token} (ht : test₁ t = true) (hu : test₂ u = true)
    (rest : List Token) (f : Bool → Parser α) : (takeRun [test₁, test₂] >>= f) (t :: u :: rest) = f true rest := by
  simp [bind, StateT.bind, takeRun, dropRun?, ht, hu, Except.bind]

theorem run_takeTwo_of_not {test₁ test₂ : Token → Bool} {ts : List Token} (h : ¬ StartsWith test₁ test₂ ts)
    (f : Bool → Parser α) : (takeRun [test₁, test₂] >>= f) ts = f false ts := by
  have hdrop : dropRun? [test₁, test₂] ts = none := by
    match ts with
    | [] => rfl
    | [t] => by_cases ht : test₁ t = true <;> simp [dropRun?, ht]
    | t :: u :: rest =>
      by_cases ht : test₁ t = true
      · by_cases hu : test₂ u = true
        · exact absurd ⟨t, u, rest, rfl, ht, hu⟩ h
        · simp [dropRun?, ht, hu]
      · simp [dropRun?, ht]
  simp [bind, StateT.bind, takeRun, hdrop, Except.bind]

/-- two tokens that may come together, and a parser behind them -/
theorem Contract.runChoice {test₁ test₂ : Token → Bool} {f : Bool → Parser α} (a : α) (hfalse : f false = Pure.pure a)
    (hinner₁ : ∀ t, test₁ t = true → t.kind ≠ .eof) (hinner₂ : ∀ t, test₂ t = true → t.kind ≠ .eof)
    (hopen : ∀ t, test₁ t = true → t.closes = false)
    (hreads : ∀ rest, Ends rest → ¬ StartsWith test₁ test₂ rest → reads a [] rest)
    (htrue : ∀ t u, test₁ t = true → test₂ u = true → ∀ n < size,
      Contract n (fun used t' => first (t :: u :: used) t') (StartsWith test₁ test₂)
        (fun a used rest => reads a (t :: u :: used) rest) (f true)) :
    Contract size first (StartsWith test₁ test₂) reads (takeRun [test₁, test₂] >>= f) := by
  constructor
  · intro ts b rest hsize hends hok
    by_cases hstarts : StartsWith test₁ test₂ ts
    · obtain ⟨t, u, ts, rfl, ht, hu⟩ := hstarts
      rw [run_takeTwo ht hu] at hok
      have hends' : Ends ts := (hends.tail (hinner₁ t ht)).tail (hinner₂ u hu)
      obtain ⟨used, hts, hused, hread, hagain⟩ :=
        (htrue t u ht hu ts.length (by simp only [List.length_cons] at hsize; omega)).accepts le_rfl hends' hok
      exact ⟨t :: u :: used, by rw [hts, List.cons_append, List.cons_append],
        .cons (hinner₁ t ht) (.cons (hinner₂ u hu) hused), hread, fun other ho =>
          (run_takeTwo ht hu _ f).trans (hagain other ho)⟩
    · rw [run_takeTwo_of_not hstarts, hfalse] at hok
      cases hok
      refine ⟨[], rfl, .nil, hreads _ hends hstarts, fun other ho => ?_⟩
      rw [List.nil_append, run_takeTwo_of_not, hfalse]
      · rfl
      rcases ho with ⟨-, havoid⟩ | hclosing
      · exact havoid
      · exact not_startsWith_of_closing hopen hclosing
  · intro ts cause rest hsize hends herror hcause
    by_cases hstarts : StartsWith test₁ test₂ ts
    · obtain ⟨t, u, ts, rfl, ht, hu⟩ := hstarts
      rw [run_takeTwo ht hu] at herror
      have hends' : Ends ts := (hends.tail (hinner₁ t ht)).tail (hinner₂ u hu)
      obtain ⟨used, hts, hused, hagain, t', more, ht', hmore⟩ :=
        (htrue t u ht hu ts.length (by simp only [List.length_cons] at hsize; omega)).refuses le_rfl hends' herror hcause
      refine ⟨t :: u :: used, by rw [hts, List.cons_append, List.cons_append],
        .cons (hinner₁ t ht) (.cons (hinner₂ u hu) hused), fun other ho =>
          (run_takeTwo ht hu _ f).trans (hagain other ho), t', more, ht', fun tail htail => ?_⟩
      obtain ⟨b, hb⟩ := hmore tail htail
      exact ⟨b, (run_takeTwo ht hu _ f).trans hb⟩
    · rw [run_takeTwo_of_not hstarts, hfalse] at herror
      cases herror

section Arms

variable {arm : Parser (Expr × Stmt)}

def ElseIf : List Token → Prop := StartsWith (·.isSymbol "else") (·.isSymbol "if")

def armRound (arm : Parser (Expr × Stmt)) (others : Unit → Parser (List (Expr × Stmt))) (_ : Unit) :
    Parser (List (Expr × Stmt)) := do
  if ← takeRun [(·.isSymbol "else"), (·.isSymbol "if")] then
    let first ← arm
    return first :: (← others ())
  else return []

theorem round_elseIfArms (harm : Trims arm) : Round (armRound arm) := by
  intro q q' _ ts hends hq
  by_cases hstarts : ElseIf ts
  · obtain ⟨t, u, ts, rfl, ht, hu⟩ := hstarts
    refine (run_takeTwo ht hu ts _).trans (Eq.trans ?_ (run_takeTwo ht hu ts _).symm)
    have hends' : Ends ts := (hends.tail (inner_word t ht)).tail (inner_word u hu)
    refine bind_congr_run fun first mid hmid => ?_
    obtain ⟨hends'', hlength⟩ := harm hends' hmid
    exact bind_congr_first (hq () mid hends'' (by simp only [List.length_cons]; omega)) _
  · refine (run_takeTwo_of_not hstarts _).trans (Eq.trans ?_ (run_takeTwo_of_not hstarts _).symm)
    rfl

theorem whole_elseIfArms_eq (harm : Trims arm) {ts : List Token} (hends : Ends ts) :
    whole (fun n (_ : Unit) => elseIfArms arm n) () ts = armRound arm (whole fun n (_ : Unit) => elseIfArms arm n) () ts :=
  whole_eq _ (fun _ _ => rfl) (round_elseIfArms harm) () hends

theorem not_elseIf_of_closing {ts : List Token} (h : Closing ts) : ¬ ElseIf ts :=
  not_startsWith_of_closing (fun t ht => by simp [Token.closes, kind_of_isSymbol ht]) h

theorem completes_elseIfArms (harm : Trims arm) :
    Completes [] (whole (fun n (_ : Unit) => elseIfArms arm n) ()) := by
  intro tail htail
  refine ⟨[], ?_⟩
  rw [List.nil_append, whole_elseIfArms_eq harm htail.1]
  exact run_takeTwo_of_not (not_elseIf_of_closing htail) _

/-- the arms behind the first one; `items` is what a list is to its tokens and to the rest, which starts no arm -/
theorem Contract.elseIfArms {part : Expr × Stmt → List Token → List Token → Prop}
    {items : List (Expr × Stmt) → List Token → List Token → Prop}
    (harm : ∀ n, Contract n (fun _ _ => True) nothing part arm)
    (hnone : ∀ {rest}, items [] [] rest)
    (hmore : ∀ {t u a used as more rest}, t.kind = .symbol "else" → u.kind = .symbol "if" →
      part a used (more ++ rest) → items as more rest → items (a :: as) (t :: u :: (used ++ more)) rest) (size : Nat) :
    Contract size (fun used _ => used ≠ []) ElseIf (fun as used rest => items as used rest ∧ ¬ ElseIf rest)
      (whole (fun n (_ : Unit) => elseIfArms arm n) ()) := by
  have htrims : Trims arm := Contract.trims harm
  refine Contract.rounds (armRound arm) (fun _ _ => rfl) (round_elseIfArms htrims)
    (fun _ used _ => used ≠ []) (fun _ as used rest => items as used rest ∧ ¬ ElseIf rest) (fun size ih _ => ?_) size ()
  refine .runChoice [] rfl inner_word inner_word (fun t ht => ?_) (fun rest _ h => ⟨hnone, h⟩) fun t u ht hu n hn => ?_
  · simp [Token.closes, kind_of_isSymbol ht]
  · refine .bind [] (harm n) (by simp) (by simp)
      (fun a => (completes_elseIfArms htrims).seq fun as => completes_pure (a :: as))
      fun a used mid hpart n' hn' => ?_
    refine .bindPure (a :: ·) ((ih n' (by omega) ()).mono (fun used' t' h => ⟨by simp, fun h' => absurd h' h⟩) ?_)
    intro as used' rest _ _ ⟨hitems, hrest⟩ hmid
    exact ⟨hmore (kind_of_isSymbol ht) (kind_of_isSymbol hu) (hmid ▸ hpart) hitems, hrest⟩

end Arms

end Parser

end LevelScript.Syntax
