/-
What the parsers of expressions owe to the tokens that they have read.

`ReadAs` is what an accepting parser gives: the tokens that it has read are those of the expression apart from grouping
parentheses, the expression can be written, and its canonical form needs no more depth than was there. Every level of the
grammar keeps a contract with this relation, on the way from primaries to expressions.
-/
import Mathlib.Tactic
import LevelScript.Proofs.Repetition

namespace LevelScript.Syntax

/-! ## Depth on the way to a tighter level -/

theorem depthAt_le {loose tight : Level} (h : loose.rank ≤ tight.rank) (e : Expr) :
    e.depthAt loose ≤ descent loose tight + e.depthAt tight := by
  have hprimary : Level.primary.rank = 7 := rfl
  simp only [Expr.depthAt, depthFrom, descent, tighter, decide_eq_true_eq]
  split_ifs <;> omega

/-- an expression in parentheses takes no more depth than without them, where nothing looser is allowed -/
theorem depthAt_primary_le (e : Expr) : e.depthAt .primary ≤ e.depthAt .assignment := by
  have hprimary : Level.primary.rank = 7 := rfl
  have hassignment : Level.assignment.rank = 0 := rfl
  simp only [Expr.depthAt, depthFrom, descent, tighter, decide_eq_true_eq, hprimary, hassignment]
  split_ifs <;> omega

theorem depthAt_level (e : Expr) : e.depthAt e.level = e.ownDepth := by
  simp [Expr.depthAt, depthFrom, descent, tighter]

/-! ## Types as tokens -/

theorem kind_of_type {t : Token} {ty : Ty} (h : t.type? = some ty) : t.kind = .symbol ty.name := by
  unfold Token.type? at h
  split at h
  · have := List.find?_some h
    simp_all
  · cases h

theorem mem_declarable {t : Token} {ty : Ty} (h : t.type? = some ty) : ty ∈ Ty.declarable := by
  unfold Token.type? at h
  split at h
  · exact List.mem_of_find?_eq_some h
  · cases h

/-! ## What is read -/

/-- what tokens are to the expression that a parser has made of them, at a level and with a depth to spare -/
structure ReadAs (level : Level) (depth : Nat) (e : Expr) (used : List Token) : Prop where
  nonempty : used ≠ []
  written : e.Written (used.map (·.kind))
  writable : e.Writable
  shallow : e.depthAt level ≤ depth

namespace ReadAs

variable {level : Level} {depth : Nat} {e e' : Expr} {used used' : List Token} {t u token : Token}

theorem loosen (h : ReadAs level depth e used) (loose : Level) (hrank : loose.rank ≤ level.rank) :
    ReadAs loose (descent loose level + depth) e used where
  nonempty := h.nonempty
  written := h.written
  writable := h.writable
  shallow := (depthAt_le hrank e).trans (Nat.add_le_add_left h.shallow _)

theorem mono {depth' : Nat} (h : ReadAs level depth e used) (hdepth : depth ≤ depth') : ReadAs level depth' e used :=
  ⟨h.nonempty, h.written, h.writable, h.shallow.trans hdepth⟩

/-- the tighter levels spend no depth -/
theorem loosen_tight (h : ReadAs level depth e used) (loose : Level) (hrank : loose.rank ≤ level.rank)
    (htight : 2 ≤ loose.rank) : ReadAs loose depth e used := by
  have hdescent : descent loose level = 0 := by
    rw [descent]
    omega
  simpa only [hdescent, Nat.zero_add] using h.loosen loose hrank

theorem enclose (h : ReadAs .assignment depth e used) (ht : t.kind = .char '(') (hu : u.kind = .char ')') :
    ReadAs .primary depth e (t :: (used ++ [u])) where
  nonempty := by simp
  written := by simpa [ht, hu] using h.written.group
  writable := h.writable
  shallow := (depthAt_primary_le e).trans h.shallow

theorem binary (token : Token) {op : Operator} {marks : List Token} (hkinds : marks.map (·.kind) = op.marks.map .char)
    (h : ReadAs op.leftLevel depth e used) (h' : ReadAs op.rightLevel depth e' used') :
    ReadAs op.level (depth + if op.level = .comparison then 1 else 0) (.binary token e op e') (used ++ (marks ++ used')) where
  nonempty := by simp [h.nonempty]
  written := by
    rw [List.map_append, List.map_append, hkinds]
    exact .binary h.written h'.written
  writable := ⟨h.writable, h'.writable⟩
  shallow := by
    have := max_le h.shallow h'.shallow
    rw [show op.level = (Expr.binary token e op e').level from rfl, depthAt_level, Expr.ownDepth, Nat.add_comm]
    exact Nat.add_le_add_right this _

theorem assign (h : ReadAs .comparison depth e used) (ht : t.kind = .char '=') (h' : ReadAs .assignment depth e' used') :
    ReadAs .assignment (depth + 1) (.assign token e e') (used ++ t :: used') where
  nonempty := by simp
  written := by
    rw [List.map_append, List.map_cons, ht]
    exact .assign h.written h'.written
  writable := ⟨h.writable, h'.writable⟩
  shallow := by
    have := max_le h.shallow h'.shallow
    rw [show Level.assignment = (Expr.assign token e e').level from rfl, depthAt_level, Expr.ownDepth, Nat.add_comm]
    exact Nat.add_le_add_right this _

theorem member {name : Token} (h : ReadAs .access depth e used) (ht : t.kind = .char '.') (hname : name.IsName) :
    ReadAs .access depth (.member token e name) (used ++ [t, name]) where
  nonempty := by simp
  written := by simpa [ht] using h.written.member
  writable := ⟨h.writable, hname⟩
  shallow := by
    rw [show Level.access = (Expr.member token e name).level from rfl, depthAt_level, Expr.ownDepth]
    exact h.shallow

theorem index (h : ReadAs .access depth e used) (ht : t.kind = .char '[') (h' : ReadAs .assignment depth e' used')
    (hu : u.kind = .char ']') : ReadAs .access depth (.index token e e') (used ++ t :: (used' ++ [u])) where
  nonempty := by simp
  written := by simpa [ht, hu] using h.written.index h'.written
  writable := ⟨h.writable, h'.writable⟩
  shallow := by
    rw [show Level.access = (Expr.index token e e').level from rfl, depthAt_level, Expr.ownDepth]
    exact max_le h.shallow h'.shallow

theorem cast {ty : Ty} {word : Token} (ht : t.kind = .char '(') (hword : word.type? = some ty) (hu : u.kind = .char ')')
    (h : ReadAs .access depth e used) : ReadAs .cast depth (.cast token ty e) (t :: word :: u :: used) where
  nonempty := by simp
  written := by simpa [ht, kind_of_type hword, hu] using h.written.cast
  writable := ⟨mem_declarable hword, h.writable⟩
  shallow := by
    rw [show Level.cast = (Expr.cast token ty e).level from rfl, depthAt_level, Expr.ownDepth]
    exact h.shallow

end ReadAs

/-- what tokens are to a list of expressions, the closing character among them -/
structure ListRead (closer : Char) (depth : Nat) (es : List Expr) (used : List Token) : Prop where
  written : ∃ items : List (Expr × List TokenKind), items.map (·.1) = es ∧ (∀ item ∈ items, item.1.Written item.2) ∧
    used.map (·.kind) = commas (items.map (·.2)) ++ [.char closer]
  writable : Expr.AllWritable es
  shallow : Expr.depthOfAll es ≤ depth

namespace ListRead

variable {closer : Char} {depth : Nat} {e : Expr} {es : List Expr} {used used' : List Token} {t token : Token}

theorem none (ht : t.kind = .char closer) : ListRead closer depth [] [t] where
  written := ⟨[], rfl, by simp, by simp [ht, commas]⟩
  writable := trivial
  shallow := Nat.zero_le _

theorem one (h : ReadAs .assignment depth e used) (ht : t.kind = .char closer) :
    ListRead closer depth [e] (used ++ [t]) where
  written := ⟨[(e, used.map (·.kind))], rfl, by simpa using h.written, by simp [ht, commas]⟩
  writable := ⟨h.writable, trivial⟩
  shallow := max_le h.shallow (Nat.zero_le _)

theorem more (h : ReadAs .assignment depth e used) (ht : t.kind = .char ',') (hes : es ≠ [])
    (h' : ListRead closer depth es used') : ListRead closer depth (e :: es) (used ++ t :: used') where
  written := by
    obtain ⟨items, rfl, hitems, hkinds⟩ := h'.written
    obtain ⟨next, others, rfl⟩ := List.exists_cons_of_ne_nil (mt List.map_eq_nil_iff.2 hes)
    exact ⟨(e, used.map (·.kind)) :: next :: others, rfl, List.forall_mem_cons.2 ⟨h.written, hitems⟩,
      by simp [ht, hkinds, commas]⟩
  writable := ⟨h.writable, h'.writable⟩
  shallow := max_le h.shallow h'.shallow

theorem list (ht : t.kind = .char '[') (h : ListRead ']' depth es used) :
    ReadAs .primary depth (.list token es) (t :: used) where
  nonempty := by simp
  written := by
    obtain ⟨items, rfl, hitems, hkinds⟩ := h.written
    rw [List.map_cons, ht, hkinds]
    exact .list hitems
  writable := h.writable
  shallow := by
    rw [show Level.primary = (Expr.list token es).level from rfl, depthAt_level, Expr.ownDepth]
    exact h.shallow

theorem call {callee : Expr} (hcallee : ReadAs .primary depth callee used) (ht : t.kind = .char '(')
    (h : ListRead ')' depth es used') : ReadAs .call depth (.call token callee es) (used ++ t :: used') where
  nonempty := by simp
  written := by
    obtain ⟨items, rfl, hitems, hkinds⟩ := h.written
    rw [List.map_append, List.map_cons, ht, hkinds]
    exact .call hcallee.written hitems
  writable := ⟨hcallee.writable, h.writable⟩
  shallow := by
    rw [show Level.call = (Expr.call token callee es).level from rfl, depthAt_level, Expr.ownDepth]
    exact max_le hcallee.shallow h.shallow

end ListRead

/-- an expression of one token -/
theorem readAs_leaf {e : Expr} {t : Token} {depth : Nat} (hlevel : e.level = .primary) (hdepth : e.ownDepth = 0)
    (hwritten : e.Written [t.kind]) (hwritable : e.Writable) : ReadAs .primary depth e [t] where
  nonempty := by simp
  written := hwritten
  writable := hwritable
  shallow := by
    rw [← hlevel, depthAt_level, hdepth]
    exact Nat.zero_le _

namespace Parser

/-- the contract of a parser of expressions -/
def ReadsAs (level : Level) (depth : Nat) (size : Nat) (p : Parser Expr) : Prop :=
  Contract size numberFirst nothing (fun e used _ => ReadAs level depth e used) p

section Levels

variable {nested : Parser Expr} {depth : Nat} (hnested : ∀ n, ReadsAs .assignment depth n nested)

include hnested

theorem item_nested (n : Nat) :
    Contract n itemFirst nothing (fun e used _ => ReadAs .assignment depth e used ∧ used ≠ []) nested :=
  (hnested n).mono (fun _ _ h => h.item) fun _ _ _ _ _ h => ⟨h, h.nonempty⟩

theorem contract_arguments {closer : Char} {place : Construct} (hcloser : closer ∉ continuingMarks) (n : Nat) :
    Contract n itemFirst nothing (fun es used _ => ListRead closer depth es used ∧ used ≠ [])
      (listUpTo nested closer place) :=
  .listUpTo hcloser (item_nested hnested) .none .one .more n

omit hnested in
/-- an expression in parentheses, the first of which has been read -/
def grouped (nested : Parser Expr) : Parser Expr := do
  let inner ← nested
  char ')' .primary
  return inner

theorem contract_grouped {t : Token} (ht : t.kind = .char '(') (n : Nat) :
    Contract n numberFirst nothing (fun e used _ => ReadAs .primary depth e (t :: used) ∧ used ≠ [])
      (grouped nested) := by
  refine .bind [.ofKind (.char ')')] (hnested n) (fun _ _ h => h) (by simp [continuingMarks])
    (fun e => .read (takes_char _ _) rfl (completes_pure e)) fun e used mid hread n' _ => ?_
  refine .read (.ofKind (.char ')')) [] (takes_char _ _) rfl inner_char ?_
    (fun _ => completes_pure e) fun u hu n'' _ => .pure e fun rest _ _ => ?_
  · exact ⟨fun h => by simp [hread.nonempty] at h, by simp [continuingMarks]⟩
  · exact ⟨hread.enclose ht (kind_of_isChar hu), by simp⟩

omit hnested in
/-- what a primary does at its first token -/
def primaryStep (nested : Parser Expr) (t : Token) : Next Expr :=
  match t.kind with
  | .int value => .take (pure (.int t value))
  | .float value => .take (pure (.float t value))
  | .symbol name => .take (pure (.symbol t name))
  | .string text => .take (pure (.string t text))
  | .char c =>
    if c = '[' then .take (listUpTo nested ']' .arrayDeclaration >>= fun es => pure (.list t es))
    else if c = '(' then .take (grouped nested)
    else .stop .unknownPrimary
  | .eof => .stop .unknownPrimary

omit hnested in
theorem run_primary (t : Token) (rest : List Token) : primary nested (t :: rest) = (primaryStep nested t).run t rest := by
  rw [primary, run_current, primaryStep]
  obtain ⟨kind, lexeme, span⟩ := t
  cases kind with
  | int | float | symbol | string => rfl
  | eof => rfl
  | char c =>
    refine (run_choice _ _ _ _).trans ?_
    rcases eq_or_ne c '[' with rfl | hbracket
    · rfl
    · refine (if_neg (by simpa [Token.isChar] using hbracket)).trans ((run_choice _ _ _ _).trans ?_)
      rcases eq_or_ne c '(' with rfl | hparenthesis
      · rfl
      · simp only [hbracket, hparenthesis, if_false]
        exact if_neg (by simpa [Token.isChar] using hparenthesis)

/-- a number completes every parser of expressions -/
def number : Token := .ofKind (.int 1)

theorem contract_primary (n : Nat) : ReadsAs .primary depth n (primary nested) := by
  have hleaf {e : Expr} {t : Token} (hlevel : e.level = .primary) (hdepth : e.ownDepth = 0) (hwritten : e.Written [t.kind])
      (hwritable : e.Writable) (n : Nat) : Contract n (fun used t' => numberFirst (t :: used) t') nothing
        (fun e used _ => ReadAs .primary depth e (t :: used)) (pure e) :=
    .pure e fun _ _ => readAs_leaf hlevel hdepth hwritten hwritable
  refine .next _ run_primary (fun t q h => ?_) (fun t q h n _ => ?_) (fun t q h => ?_)
    fun _ _ _ => ⟨number, [], fun _ => ⟨1, rfl⟩, fun tail _ => ⟨_, rfl⟩⟩
  · intro heof
    simp [primaryStep, heof] at h
  · rw [primaryStep] at h
    split at h
    case h_1 value hkind =>
      cases h
      exact hleaf (e := .int t value) rfl rfl (by rw [hkind]; exact .int) trivial n
    case h_2 value hkind =>
      cases h
      exact hleaf (e := .float t value) rfl rfl (by rw [hkind]; exact .float) trivial n
    case h_3 name hkind =>
      cases h
      exact hleaf (e := .symbol t name) rfl rfl (by rw [hkind]; exact .symbol) trivial n
    case h_4 text hkind =>
      cases h
      exact hleaf (e := .string t text) rfl rfl (by rw [hkind]; exact .string) trivial n
    case h_5 c hkind =>
      split_ifs at h with hbracket hparenthesis
      · cases h
        subst hbracket
        refine .bindPure (Expr.list t) ?_
        exact (contract_arguments hnested (by decide) n).mono (fun _ _ _ => by simp [numberFirst])
          fun es used rest _ _ hread => hread.1.list hkind
      · cases h
        subst hparenthesis
        exact (contract_grouped hnested hkind n).mono (fun _ _ _ => by simp [numberFirst]) fun _ _ _ _ _ h => h.1
    case h_6 hkind => cases h
  · rw [primaryStep] at h
    split at h <;> try cases h
    split_ifs at h

omit hnested in
/-- a list of arguments behind a primary, if one comes -/
def callRest (nested : Parser Expr) (token : Token) (callee : Expr) : Parser Expr := do
  if ← takeChar '(' then
    return .call token callee (← listUpTo nested ')' .callExpr)
  else return callee

omit hnested in
theorem completes_callRest (token : Token) (callee : Expr) : Completes [] (callRest nested token callee) := by
  intro tail htail
  obtain ⟨t, rest, rfl⟩ := htail.1.exists_cons
  exact ⟨callee, run_skipped (not_isChar_of_closing htail (by decide)) _ _⟩

omit hnested in
theorem alike_callRest (token token' : Token) (callee callee' : Expr) :
    Alike (callRest nested token callee) (callRest nested token' callee') :=
  .bind fun b => by
    cases b
    · exact alike_pure _ _
    · exact .bind fun es => alike_pure _ _

theorem contract_callRest (token : Token) {callee : Expr} {before : List Token}
    (hcallee : ReadAs .primary depth callee before) (n : Nat) :
    Contract n (fun used _ => used ≠ []) nothing (fun e used _ => ReadAs .call depth e (before ++ used))
      (callRest nested token callee) := by
  refine .choice inner_char (fun t ht n' _ => ?_) (.pure callee fun rest _ => ⟨fun _ => ?_, fun _ t ht =>
    closes_of_isChar ht (by decide)⟩)
  · refine .bindPure (Expr.call token callee) ?_
    exact (contract_arguments hnested (by decide) n').mono (fun _ _ _ => by simp)
      fun es used rest _ _ hread => hread.1.call hcallee (kind_of_isChar ht)
  · rw [List.append_nil]
    exact hcallee.loosen_tight _ (by decide) (by decide)

omit hnested in
theorem completes_callExpression : Completes [number] (callExpression nested) :=
  .current fun t => Completes.seq (fun _ _ => ⟨.int number 1, rfl⟩) (completes_callRest t)

theorem contract_callExpression (n : Nat) : ReadsAs .call depth n (callExpression nested) := by
  refine .current (fun t t' => .bind fun callee => alike_callRest t t' callee callee) fun token => ?_
  refine .bind [] (contract_primary hnested n) (fun _ _ h => h) (by simp) (completes_callRest token)
    fun callee used mid hcallee n' _ => ?_
  refine (contract_callRest hnested token hcallee n').mono (fun used' t h => ?_) fun e used' rest _ _ hread _ => ?_
  · exact ⟨fun h' => absurd (List.append_eq_nil_iff.1 h').2 h, fun h' => absurd h' h⟩
  · exact ⟨hread, hread.nonempty⟩

omit hnested in
/-- members and indices behind an expression -/
def postfixRest (nested : Parser Expr) (token : Token) (target : Expr) : Parser Expr := do
  postfixes nested token (← remaining) target

omit hnested in
theorem alike_postfixes (token token' : Token) (n : Nat) (target target' : Expr) :
    Alike (postfixes nested token n target) (postfixes nested token' n target') := by
  induction n generalizing target target' with
  | zero => exact alike_pure _ _
  | succ n ih =>
    refine .bind fun b => ?_
    cases b
    · refine .bind fun b => ?_
      cases b
      · exact alike_pure _ _
      · exact .bind fun place => .bind fun _ => ih _ _
    · exact .bind fun name => ih _ _

theorem contract_postfixRest (token : Token) {target : Expr} {before : List Token}
    (htarget : ReadAs .access depth target before) (n : Nat) :
    Contract n (fun used _ => used ≠ []) nothing (fun e used _ => ReadAs .access depth e (before ++ used))
      (postfixRest nested token target) :=
  (Contract.postfixes (ReadAs .access depth) (ReadAs .assignment depth)
    (fun n => (hnested n).mono (fun _ _ h => h) fun _ _ _ _ _ h => ⟨h, h.nonempty⟩) (fun h ht hname => h.member ht hname)
    (fun h ht h' hu => h.index ht h' hu) n target).mono (fun _ _ h => h) fun _ _ _ _ _ hread => hread before htarget

theorem completes_postfixRest (token : Token) (target : Expr) : Completes [] (postfixRest nested token target) :=
  completes_postfixes (Contract.trims hnested) target

theorem completes_postfixExpression : Completes [number] (postfixExpression nested) :=
  .current fun t => completes_callExpression.seq (completes_postfixRest hnested t)

theorem contract_postfixExpression (n : Nat) : ReadsAs .access depth n (postfixExpression nested) := by
  refine .current (fun t t' => .bind fun target => .bind fun k => alike_postfixes t t' k target target) fun token => ?_
  refine .bind [] (contract_callExpression hnested n) (fun _ _ h => h) (by simp) (completes_postfixRest hnested token)
    fun target used mid htarget n' _ => ?_
  refine (contract_postfixRest hnested token (htarget.loosen_tight _ (by decide) (by decide)) n').mono
    (fun used' t h => ?_) fun e used' rest _ _ hread _ => ?_
  · exact ⟨fun h' => absurd (List.append_eq_nil_iff.1 h').2 h, fun h' => absurd h' h⟩
  · exact ⟨hread, hread.nonempty⟩

/-! ## Casts -/

omit hnested in
/-- a cast, the type of which has been read -/
def castRest (nested : Parser Expr) (token : Token) (target : Ty) : Parser Expr := do
  char ')' .cast
  return .cast token target (← postfixExpression nested)

omit hnested in
/-- an expression that starts with a group, the opening parenthesis of which has been read -/
def groupRest (nested : Parser Expr) (token : Token) : Parser Expr := do
  let inner ← grouped nested
  let target ← callRest nested token inner
  postfixRest nested token target

omit hnested in
theorem postfixExpression_group {t : Token} (ht : t.isChar '(' = true) (rest : List Token) :
    postfixExpression nested (t :: rest) = groupRest nested t rest := by
  have hprimary : primary nested (t :: rest) = grouped nested rest := by
    rw [run_primary, primaryStep, kind_of_isChar ht]
    rfl
  have hcall : callExpression nested (t :: rest) = (grouped nested >>= callRest nested t) rest :=
    bind_congr_first hprimary (callRest nested t)
  have hpostfix : (callExpression nested >>= postfixRest nested t) (t :: rest) =
      ((grouped nested >>= callRest nested t) >>= postfixRest nested t) rest := bind_congr_first hcall _
  refine hpostfix.trans ?_
  rw [bind_assoc]
  rfl

omit hnested in
/-- the token behind an opening parenthesis tells a cast from a group -/
theorem castExpression_eq (ts : List Token) (hends : Ends ts) :
    castExpression nested ts = (do
      let token ← current
      if ← takeChar '(' then
        if ← seesType then
          let target ← type
          castRest nested token target
        else groupRest nested token
      else postfixExpression nested : Parser Expr) ts := by
  obtain ⟨t, rest, rfl⟩ := hends.exists_cons
  rw [castExpression, run_current, run_current]
  refine Eq.trans ?_ (run_choice _ _ _ _).symm
  by_cases ht : t.isChar '(' = true
  · obtain ⟨u, rest, rfl⟩ := (hends.tail (inner_char t ht)).exists_cons
    have hcast : seesCast (t :: u :: rest) = .ok (u.type?.isSome, t :: u :: rest) := by
      by_cases hu : u.type?.isSome = true <;> simp [seesCast, dropRun?, ht, hu]
    have htype : seesType (u :: rest) = .ok (u.type?.isSome, u :: rest) := rfl
    rw [run_bind_ok hcast, if_pos ht]
    simp only [if_true]
    rw [run_bind_ok htype]
    by_cases hu : u.type?.isSome = true
    · simp only [hu, if_true]
      exact run_bind_ok ((takes_char '(' .cast).run ht (u :: rest)) _
    · simp only [hu, Bool.false_eq_true, if_false]
      exact postfixExpression_group ht _
  · have hcast : seesCast (t :: rest) = .ok (false, t :: rest) := by
      simp [seesCast, dropRun?, ht]
    rw [run_bind_ok hcast, if_neg ht]
    simp

theorem contract_castRest {t word : Token} {ty : Ty} (ht : t.kind = .char '(') (hword : word.type? = some ty)
    (token : Token) (n : Nat) :
    Contract n (fun _ _ => True) nothing (fun e used _ => ReadAs .cast depth e (t :: word :: used))
      (castRest nested token ty) := by
  refine .read (.ofKind (.char ')')) [number] (takes_char _ _) rfl inner_char trivial
    (fun _ => (completes_postfixExpression hnested).seq fun e => completes_pure _) fun u hu n' _ => ?_
  refine .bindPure (Expr.cast token ty) ?_
  exact (contract_postfixExpression hnested n').mono (fun _ _ _ => trivial)
    fun e used rest _ _ hread => hread.cast ht hword (kind_of_isChar hu)

theorem contract_groupRest {t : Token} (ht : t.kind = .char '(') (token : Token) (n : Nat) :
    Contract n numberFirst nothing (fun e used _ => ReadAs .cast depth e (t :: used) ∧ used ≠ [])
      (groupRest nested token) := by
  refine .bind [] (contract_grouped hnested ht n) (fun _ _ h => h) (by simp)
    (fun inner => (completes_callRest token inner).seq (completes_postfixRest hnested token))
    fun inner used mid ⟨hinner, hsome⟩ n' _ => ?_
  refine .bind [] (contract_callRest hnested token hinner n') ?_ (by simp) (completes_postfixRest hnested token)
    fun target used' mid' htarget n'' _ => ?_
  · exact fun used' t' h => ⟨fun h' => by simp [hsome] at h', fun h' => absurd h' h⟩
  · refine (contract_postfixRest hnested token (htarget.loosen_tight _ (by decide) (by decide)) n'').mono
      (fun used'' t' h => ?_) fun e used'' rest _ _ hread _ _ => ?_
    · exact ⟨⟨fun h' => by simp [hsome] at h', fun h' => by simp [h] at h'⟩, fun h' => absurd h' h⟩
    · refine ⟨?_, by simp [hsome]⟩
      have := hread.loosen_tight .cast (by decide) (by decide)
      rwa [List.cons_append, List.cons_append, List.append_assoc] at this

omit hnested in
theorem alike_castRest (token token' : Token) (ty : Ty) : Alike (castRest nested token ty) (castRest nested token' ty) :=
  .bind fun _ => .bind fun _ => alike_pure _ _

omit hnested in
theorem alike_groupRest (token token' : Token) : Alike (groupRest nested token) (groupRest nested token') :=
  .bind fun inner => (alike_callRest token token' inner inner).bind_both fun target target' =>
    .bind fun k => alike_postfixes token token' k target target'

theorem contract_castExpression (n : Nat) : ReadsAs .cast depth n (castExpression nested) := by
  refine .congr (.current (fun t t' => .bind fun b => ?_) fun token => ?_) castExpression_eq
  · cases b
    · exact .refl (postfixExpression nested)
    · refine .bind fun b => ?_
      cases b
      · exact alike_groupRest t t'
      · exact .bind fun ty => alike_castRest t t' ty
  · refine .choice inner_char (fun t ht n' _ => ?_) ?_
    · refine .choiceOfType (fun word ty hword n'' _ => ?_) ?_
      · exact (contract_castRest hnested (kind_of_isChar ht) hword token n'').mono (by simp [numberFirst])
          fun e used rest _ _ h => ⟨h, by simp⟩
      · refine (contract_groupRest hnested (kind_of_isChar ht) token n').mono
          (fun used t' h => ⟨by simp [numberFirst], fun hused => h.type? hused⟩) fun e used rest _ _ h => ?_
        exact ⟨⟨h.1, by simp⟩, h.2⟩
    · refine (contract_postfixExpression hnested n).mono (fun used t h => ⟨h, fun hused => h.not_isChar hused⟩)
        fun e used rest _ _ h => ?_
      exact ⟨fun _ => ⟨h.loosen_tight _ (by decide) (by decide), h.nonempty⟩, fun hused => absurd hused h.nonempty⟩

theorem completes_castExpression : Completes [number] (castExpression nested) := fun tail htail =>
  completes_postfixExpression hnested tail htail

/-! ## Sums and products -/

omit hnested in
theorem alike_groupLeft (operator : Parser (Option Operator)) (operand : Parser Expr) (token token' : Token) (n : Nat)
    (left left' : Expr) : Alike (groupLeft operator operand token n left) (groupLeft operator operand token' n left') := by
  induction n generalizing left left' with
  | zero => exact alike_pure _ _
  | succ n ih =>
    refine .bind fun op => ?_
    cases op with
    | none => exact alike_pure _ _
    | some op => exact .bind fun right => ih _ _

omit hnested in
/-- operands with operators between them, which group to the left -/
def grouping (operator : Parser (Option Operator)) (operand : Parser Expr) : Parser Expr := do
  let token ← current
  let left ← operand
  groupLeft operator operand token (← remaining) left

omit hnested in
theorem completes_grouping {operator : Parser (Option Operator)} {operand : Parser Expr} {level tight : Level}
    (hoperator : Selects level nothing operator) (hoperand : ∀ n, ReadsAs tight depth n operand)
    (hfill : Completes [number] operand) : Completes [number] (grouping operator operand) :=
  .current fun token => hfill.seq fun left => completes_groupLeft token hoperator (Contract.trims hoperand) left

omit hnested in
theorem contract_grouping {operator : Parser (Option Operator)} {operand : Parser Expr} {level tight : Level}
    (hoperator : Selects level nothing operator) (hoperand : ∀ n, ReadsAs tight depth n operand)
    (hlevels : ∀ op : Operator, op.level = level → op.leftLevel = level ∧ op.rightLevel = tight ∧ level ≠ .comparison)
    (hrank : level.rank ≤ tight.rank) (hlevel : 2 ≤ level.rank) (n : Nat) :
    ReadsAs level depth n (grouping operator operand) := by
  refine .current (fun t t' => .bind fun left => .bind fun k => alike_groupLeft operator operand t t' k left left)
    fun token => ?_
  refine .bind [] (hoperand n) (fun _ _ h => h) (by simp)
    (completes_groupLeft token hoperator (Contract.trims hoperand)) fun left used mid hleft n' _ => ?_
  have hpart (n : Nat) : Contract n numberFirst nothing (fun e used _ => ReadAs tight depth e used ∧ used ≠ []) operand :=
    (hoperand n).mono (fun _ _ h => h) fun _ _ _ _ _ h => ⟨h, h.nonempty⟩
  refine (Contract.groupLeft token hoperator (ReadAs level depth) hpart ?_ n' left).mono
    (fun used' t h => ?_) fun e used' rest _ _ hread _ => ?_
  · intro left op marks right before used hop hkinds hbefore hused
    obtain ⟨hl, hr, hne⟩ := hlevels op hop
    have := ReadAs.binary token hkinds (hl ▸ hbefore) (hr ▸ hused)
    rwa [hop, if_neg hne, Nat.add_zero] at this
  · exact ⟨fun h' => by simp [h] at h', fun h' => absurd h' h⟩
  · have := hread _ (hleft.loosen_tight _ hrank hlevel)
    exact ⟨this, this.nonempty⟩

omit hnested in
theorem levels_product (op : Operator) (h : op.level = .product) :
    op.leftLevel = .product ∧ op.rightLevel = .cast ∧ Level.product ≠ .comparison := by
  cases op <;> simp_all [Operator.level, Operator.leftLevel, Operator.rightLevel]

omit hnested in
theorem levels_sum (op : Operator) (h : op.level = .sum) :
    op.leftLevel = .sum ∧ op.rightLevel = .product ∧ Level.sum ≠ .comparison := by
  cases op <;> simp_all [Operator.level, Operator.leftLevel, Operator.rightLevel]

theorem contract_product (n : Nat) : ReadsAs .product depth n (product nested) :=
  contract_grouping selects_product (contract_castExpression hnested) levels_product (by decide) (by decide) n

theorem completes_product : Completes [number] (product nested) :=
  completes_grouping selects_product (contract_castExpression hnested) (completes_castExpression hnested)

theorem contract_sum (n : Nat) : ReadsAs .sum depth n (sum nested) :=
  contract_grouping selects_sum (contract_product hnested) levels_sum (by decide) (by decide) n

theorem completes_sum : Completes [number] (sum nested) :=
  completes_grouping selects_sum (contract_product hnested) (completes_product hnested)

end Levels

/-! ## Comparisons and assignments -/

/-- a comparison does not stop before a second equals sign -/
def Equality : List Token → Prop := StartsWith (·.isChar '=') (·.isChar '=')

theorem levels_comparison (op : Operator) (h : op.level = .comparison) :
    op.leftLevel = .sum ∧ op.rightLevel = .comparison := by
  cases op <;> simp_all [Operator.level, Operator.leftLevel, Operator.rightLevel]

/-- the contract of a parser of comparisons -/
def ComparesAs (depth : Nat) (size : Nat) (p : Parser Expr) : Prop :=
  Contract size numberFirst Equality (fun e used rest => ReadAs .comparison depth e used ∧ ¬ Equality rest) p

theorem contract_comparison_succ {depth : Nat} (hexpression : ∀ n, ReadsAs .assignment depth n (expression depth))
    (hcomparison : ∀ n, ComparesAs depth n (comparison depth)) (n : Nat) :
    ComparesAs (depth + 1) n (comparison (depth + 1)) := by
  refine .current (fun t t' => .bind fun left => .bind fun op => ?_) fun token => ?_
  · cases op
    · exact .refl _
    · exact .bind fun right => alike_pure _ _
  · refine .bind [] (contract_sum hexpression n) (fun _ _ h => h) (by simp) (fun left tail htail => ?_)
      fun left used mid hleft n' _ => ?_
    · exact ⟨left, run_bind_ok (selects_comparison.of_closing htail) _⟩
    · refine .operator selects_comparison left rfl (fun rest _ havoid _ => ?_) fun op marks hop hkinds n'' _ => ?_
      · have := hleft.loosen .comparison (by decide)
        rw [List.append_nil]
        exact ⟨⟨this.mono (by rw [Nat.add_comm]; rfl), havoid⟩, hleft.nonempty⟩
      · refine .bindPure (fun right => Expr.binary token left op right) ?_
        refine (hcomparison n'').mono (fun used' t h => ?_) fun right used' rest _ _ ⟨hright, hrest⟩ => ?_
        · obtain ⟨u, more, rfl, -⟩ := exists_marks hkinds
          exact ⟨⟨fun h' => by simp at h', fun h' => by simp at h'⟩, fun hused => h.not_isChar hused⟩
        · obtain ⟨hl, hr⟩ := levels_comparison op hop
          refine ⟨fun _ => ⟨⟨?_, hrest⟩, by simp [hleft.nonempty]⟩, hright.nonempty⟩
          have := ReadAs.binary token hkinds (hl ▸ hleft) (hr ▸ hright)
          rwa [hop, if_pos rfl] at this

theorem contract_expression_succ {depth : Nat} (hexpression : ∀ n, ReadsAs .assignment depth n (expression depth))
    (hcomparison : ∀ n, ComparesAs depth n (comparison depth)) (n : Nat) :
    ReadsAs .assignment (depth + 1) n (expression (depth + 1)) := by
  have hloosen {e : Expr} {used : List Token} (h : ReadAs .comparison depth e used) :
      ReadAs .assignment (depth + 1) e used := by
    have := h.loosen .assignment (by decide)
    exact this.mono (by rw [Nat.add_comm]; rfl)
  refine .current (fun t t' => .bind fun target => .bind fun b => ?_) fun token => ?_
  · cases b
    · exact .refl _
    · exact .bind fun value => alike_pure _ _
  · refine .bindChoice (b := id) (hcomparison n) (fun _ _ h => h) (fun e used rest h => h.2) (fun t ht => ?_)
      (fun _ => rfl) (fun target used rest h _ => ⟨hloosen h.1, h.1.nonempty⟩) fun target used mid h t ht n' _ => ?_
    · exact ⟨closes_of_isChar ht (by decide), inner_char t ht⟩
    · refine .bindPure (Expr.assign token target) ?_
      refine (hexpression n').mono (fun used' t' h' => ⟨by simp [numberFirst], fun hused => h'.not_isChar hused⟩)
        fun value used' rest _ _ hvalue => ⟨fun _ => ⟨?_, by simp⟩, hvalue.nonempty⟩
      exact h.1.assign (kind_of_isChar ht) hvalue

/-- the contracts of comparisons and of expressions with any depth -/
theorem contract_expression (depth : Nat) :
    (∀ n, ReadsAs .assignment depth n (expression depth)) ∧ ∀ n, ComparesAs depth n (comparison depth) := by
  induction depth with
  | zero => exact ⟨fun n => Contract.tooDeep, fun n => Contract.tooDeep⟩
  | succ depth ih => exact ⟨contract_expression_succ ih.1 ih.2, contract_comparison_succ ih.1 ih.2⟩

theorem completes_comparison (depth : Nat) : Completes [number] (comparison (depth + 1)) :=
  .current fun _ => (completes_sum (contract_expression depth).1).seq fun left _ htail =>
    ⟨left, run_bind_ok (selects_comparison.of_closing htail) _⟩

theorem completes_expression (depth : Nat) : Completes [number] (expression (depth + 2)) :=
  .current fun _ => (completes_comparison depth).seq fun target tail htail => by
    obtain ⟨t, rest, rfl⟩ := htail.1.exists_cons
    exact ⟨target, run_skipped (not_isChar_of_closing htail (by decide)) _ _⟩

theorem trims_expression (depth : Nat) : Trims (expression depth) := Contract.trims (contract_expression depth).1

/-- the contract of an expression that stands in no other one -/
theorem contract_fullExpression (depths : Depths) (n : Nat) :
    ReadsAs .assignment depths.expression n (fullExpression depths) :=
  (contract_expression _).1 n

theorem completes_fullExpression (depths : Depths) : Completes [number] (fullExpression depths) := by
  obtain ⟨depth, hdepth⟩ := Nat.exists_eq_add_of_le' depths.number
  rw [fullExpression, hdepth]
  exact completes_expression depth

end Parser

end LevelScript.Syntax
