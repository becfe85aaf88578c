/-
A script and its tokens say the same.

What the parser accepts are the tokens of the script that it gives, in their order, but for parentheses around
expressions. Conversely the canonical form of a script is read as this script. It has no braces but those of the script,
so an `else` in it finds its way back only because it stands behind the nearest chain of arms that is open.
-/
import Mathlib.Tactic
import LevelScript.Proofs.ExpressionRoundTrip

namespace LevelScript.Syntax

variable {depths : Depths}

/-! ## Statements without keywords for names -/

/-- no name in an expression is a keyword -/
def Expr.Named (e : Expr) : Prop := ∀ name ∈ e.names, name ∉ keywords

def Stmt.Named (s : Stmt) : Prop := ∀ name ∈ s.names, name ∉ keywords

theorem named_of_mem {ss : List Stmt} (h : ∀ name ∈ Stmt.namesAll ss, name ∉ keywords) : ∀ s ∈ ss, s.Named := by
  induction ss with
  | nil => simp
  | cons s ss ih =>
    simp only [Stmt.namesAll, List.mem_append, or_imp, forall_and] at h
    exact List.forall_mem_cons.2 ⟨h.1, ih h.2⟩

theorem named_of_arm {arms : List (Expr × Stmt)} (h : ∀ name ∈ Stmt.namesInArms arms, name ∉ keywords) :
    ∀ arm ∈ arms, arm.1.Named ∧ arm.2.Named := by
  induction arms with
  | nil => simp
  | cons arm arms ih =>
    simp only [Stmt.namesInArms, List.mem_append, or_imp, forall_and] at h
    exact List.forall_mem_cons.2 ⟨h.1, ih h.2⟩

def bareArm : Expr × Stmt → Expr × Stmt := Prod.map Expr.bare Stmt.bare

theorem bareArms_eq_map (arms : List (Expr × Stmt)) : Stmt.bareArms arms = arms.map bareArm := by
  induction arms with
  | nil => rfl
  | cons arm arms ih => rw [Stmt.bareArms, ih]; rfl

/-! ## Canonical forms -/

def armCanonical (arm : Expr × Stmt) : List TokenKind :=
  .char '(' :: (arm.1.canonical ++ .char ')' :: arm.2.canonical)

def armsCanonical (arms : List (Expr × Stmt)) : List TokenKind :=
  spell Expr.canonical (Stmt.armPieces true arms)

def elseCanonical (otherwise : Option Stmt) : List TokenKind :=
  spell Expr.canonical (Stmt.elsePieces otherwise)

def counterCanonical (counter : Option Param) : List TokenKind :=
  spell Expr.canonical (Param.counterPieces counter)

def startCanonical (start : Option Expr) : List TokenKind :=
  spell Expr.canonical (startPieces start)

section Canonical

variable (token : Token)

theorem canonical_branch (first : Expr × Stmt) (others : List (Expr × Stmt)) (otherwise : Option Stmt) :
    (Stmt.branch token (first :: others) otherwise).canonical =
      .symbol "if" :: (armCanonical first ++ (armsCanonical others ++ elseCanonical otherwise)) := by
  simp [Stmt.canonical, Stmt.pieces, Stmt.armPieces, armCanonical, armsCanonical, elseCanonical]

theorem armsCanonical_cons (arm : Expr × Stmt) (arms : List (Expr × Stmt)) :
    armsCanonical (arm :: arms) = .symbol "else" :: .symbol "if" :: (armCanonical arm ++ armsCanonical arms) := by
  simp [armsCanonical, Stmt.armPieces, armCanonical, Stmt.canonical]

theorem canonical_loop (counter : Option Param) (start condition increment : Expr) (body : Stmt) :
    (Stmt.loop token counter start condition increment body).canonical = .symbol "for" :: .char '(' ::
      (counterCanonical counter ++ (start.canonical ++ .char ';' :: (condition.canonical ++ .char ';' ::
        (increment.canonical ++ .char ')' :: body.canonical)))) := by
  simp [Stmt.canonical, Stmt.pieces, counterCanonical]

theorem canonical_expr (e : Expr) : (Stmt.expr token e).canonical = e.canonical ++ [.char ';'] := rfl

theorem canonical_block (body : List Stmt) :
    (Stmt.block token body).canonical = .char '{' :: (scriptCanonical body ++ [.char '}']) := by
  simp [Stmt.canonical, Stmt.pieces, scriptCanonical]

theorem canonical_var (type : Ty) (names : List Token) (start : Option Expr) :
    (Stmt.var token type names start).canonical = .symbol type.name ::
      (commas (names.map fun name => [name.kind]) ++ (startCanonical start ++ [.char ';'])) := by
  simp [Stmt.canonical, Stmt.pieces, startCanonical]

theorem canonical_fn (result : Ty) (name : Token) (params : List Param) (brace : Token) (body : List Stmt) :
    (Stmt.fn (.mk token result name params brace body)).canonical = .symbol result.name :: name.kind :: .char '(' ::
      (commas (params.map fun p => [.symbol p.type.name, p.name.kind]) ++ .char ')' :: .char '{' ::
        (scriptCanonical body ++ [.char '}'])) := by
  simp [Stmt.canonical, Stmt.pieces, Function.pieces, scriptCanonical]

theorem scriptCanonical_cons (s : Stmt) (ss : List Stmt) :
    scriptCanonical (s :: ss) = s.canonical ++ scriptCanonical ss := by
  simp [scriptCanonical, Stmt.allPieces, Stmt.canonical]

end Canonical

/-! ## How statements start -/

/-- kinds of tokens that go on with no statement and end no block -/
def TokenKind.begins (kind : TokenKind) : Prop := kind ≠ .symbol "else" ∧ kind ≠ .char '}' ∧ kind ≠ .eof

theorem TokenKind.opens.begins {kind : TokenKind} (h : kind.opens) : kind.begins ∧ kind ≠ .symbol "if" := by
  refine ⟨⟨?_, ?_, ?_⟩, ?_⟩ <;> rintro rfl <;> revert h <;> simp [TokenKind.opens, keywords]

theorem begins_type (ty : Ty) : (TokenKind.symbol ty.name).begins ∧ TokenKind.symbol ty.name ≠ .symbol "if" := by
  cases ty <;> simp [TokenKind.begins, Ty.name]

theorem Stmt.Readable.succ {depth : Nat} {s : Stmt} (h : s.Readable depths depth) : ∃ d, depth = d + 1 := by
  cases h <;> exact ⟨_, rfl⟩

theorem Stmt.Readable.begins {depth : Nat} {s : Stmt} (hs : s.Readable depths depth) (hn : s.Named) :
    ∃ kind more, s.canonical = kind :: more ∧ kind.begins ∧ (s.isBranch = false → kind ≠ .symbol "if") := by
  cases hs with
  | branch hne _ _ _ =>
    obtain ⟨⟨test, body⟩, arms, rfl⟩ := List.exists_cons_of_ne_nil hne
    exact ⟨.symbol "if", _, rfl, by simp [TokenKind.begins], by simp [Stmt.isBranch]⟩
  | loop _ _ _ _ _ => exact ⟨.symbol "for", _, rfl, by simp [TokenKind.begins], by simp⟩
  | ret _ => exact ⟨.symbol "return", _, rfl, by simp [TokenKind.begins], by simp⟩
  | block _ => exact ⟨.char '{', _, rfl, by simp [TokenKind.begins], by simp⟩
  | @expr _ _ e he =>
    obtain ⟨kind, more, hkinds, hkind⟩ := Parser.opens_canonical (e := e) ⟨he.1, hn⟩ .assignment
    exact ⟨kind, more ++ [.char ';'], by rw [canonical_expr, Expr.canonical, hkinds]; rfl, hkind.begins.1,
      fun _ => hkind.begins.2⟩
  | var hty _ _ _ => exact ⟨_, _, rfl, (begins_type _).1, fun _ => (begins_type _).2⟩
  | @fn _ decl hty _ _ _ =>
    obtain ⟨token, result, name, params, brace, body⟩ := decl
    exact ⟨_, _, rfl, (begins_type _).1, fun _ => (begins_type _).2⟩

/-! ## Arms -/

namespace ArmsClosed

variable {arm : Expr × Stmt} {arms : List (Expr × Stmt)} {ts rest : List Token}

theorem tail (h : ArmsClosed (arm :: arms) rest) : ArmsClosed arms rest := by
  cases arms with
  | nil => exact ⟨by simp, by simp⟩
  | cons next others => exact ⟨fun a ha => h.inner a (by simp [ha]), by simpa using h.last⟩

/-- an arm is closed by the arms behind it, or else by what follows them -/
theorem head (h : ArmsClosed (arm :: arms) rest)
    (hts : ts.map (·.kind) = armsCanonical arms) : Closed arm.2 (ts ++ rest) := by
  cases arms with
  | nil =>
    obtain rfl := List.map_eq_nil_iff.1 hts
    exact h.last arm rfl
  | cons next others =>
    intro hopen
    rw [h.inner arm (by simp)] at hopen
    cases hopen

/-- what closes an if statement closes its arms, if each `else` belongs to the nearest chain -/
theorem of_attached {token : Token} {otherwise : Option Stmt}
    (hbodies : ∀ s ∈ bodiesBeforeElse arms otherwise, s.endsOpen = false)
    (hts : ts.map (·.kind) = elseCanonical otherwise)
    (hrest : Closed (.branch token arms otherwise) rest) : ArmsClosed arms (ts ++ rest) := by
  have hbefore := List.forall_mem_map.1 hbodies
  cases otherwise with
  | none =>
    obtain rfl := List.map_eq_nil_iff.1 hts
    exact ⟨hbefore, fun _ _ _ => hrest rfl⟩
  | some s =>
    refine ⟨fun a ha => hbefore a (List.mem_of_mem_dropLast ha), fun a ha hopen => ?_⟩
    rw [hbefore a (List.mem_of_mem_getLast? ha)] at hopen
    cases hopen

end ArmsClosed

namespace Parser

variable {α β : Type}

/-! ## Expressions in statements -/

section Expressions

variable {e : Expr} {p : Parser α} {kinds : List TokenKind} {before : List Token → Prop} {bare : α → β} {b : β}

theorem restores_fullExpression (he : e.Readable depths) (hn : e.Named) {c : Char} (hc : c = ';' ∨ c = ')') :
    Restores (fullExpression depths) e.canonical (startsWith c · = true) Expr.bare e.bare :=
  Finds.restores (recovers_all ⟨he.1, hn⟩ .assignment depths.expression he.2) fun _ hends h =>
    stops_of_startsWith hends h (by rcases hc with rfl | rfl <;> decide)

/-- an expression and the character behind it -/
theorem Restores.upTo (he : e.Readable depths) (hn : e.Named) {c : Char} (hc : c = ';' ∨ c = ')') {place : Construct}
    {f : Expr → Parser α} (hf : ∀ e', e'.bare = e.bare → Restores (f e') kinds before bare b) :
    Restores (do let e ← fullExpression depths; char c place; f e) (e.canonical ++ .char c :: kinds) before bare b := by
  refine .bind (restores_fullExpression he hn hc) (fun ts rest hts _ _ => ?_) fun e' he' => .readChar (hf e' he')
  obtain ⟨t, ts, rfl, ht, -⟩ := List.map_eq_cons_iff.1 hts
  simp [Token.isChar, ht]

end Expressions

section Nested

variable {nested : Parser Stmt} {depth : Nat} {token : Token}

/-! ## If statements -/

/-- an arm of an if statement is read back -/
def ArmRestored (depths : Depths) (nested : Parser Stmt) (a : Expr × Stmt) : Prop :=
  Restores (arm depths nested) (armCanonical a) (Closed a.2) bareArm (bareArm a)

theorem restores_arm {a : Expr × Stmt} (he : a.1.Readable depths) (hn : a.1.Named)
    (hs : Restores nested (a.2.canonical) (Closed a.2) Stmt.bare a.2.bare) : ArmRestored depths nested a := by
  have hcondition : Restores (condition depths) (.char '(' :: (a.1.canonical ++ [.char ')'])) anything Expr.bare a.1.bare :=
    .readChar (.upTo he hn (.inr rfl) fun e' he' => .pure he')
  have : ArmRestored depths nested a = Restores (arm depths nested) ((.char '(' :: (a.1.canonical ++ [.char ')'])) ++
      a.2.canonical) (Closed a.2) bareArm (bareArm a) := by
    simp [ArmRestored, armCanonical]
  rw [this]
  exact .bind hcondition (fun _ _ _ _ _ => trivial) fun e' he' => hs.bindPure fun s' hs' => Prod.ext he' hs'

theorem restores_arms {arms : List (Expr × Stmt)} (htrims : Trims (arm depths nested))
    (h : ∀ a ∈ arms, ArmRestored depths nested a) :
    Restores (whole (fun n (_ : Unit) => elseIfArms (arm depths nested) n) ()) (armsCanonical arms)
      (fun rest => ArmsClosed arms rest ∧ ¬ ElseIf rest) (List.map bareArm) (arms.map bareArm) := by
  induction arms with
  | nil =>
    refine Restores.congr (fun ts rest hts _ hrest => ?_) fun ts hts => whole_elseIfArms_eq htrims hts
    obtain rfl := List.map_eq_nil_iff.1 hts
    exact ⟨[], run_takeTwo_of_not hrest.2 _, rfl⟩
  | cons a arms ih =>
    have hothers : Restores (whole (fun n (_ : Unit) => elseIfArms (arm depths nested) n) ()) (armsCanonical arms)
        (fun rest => ArmsClosed (a :: arms) rest ∧ ¬ ElseIf rest) (List.map bareArm) (arms.map bareArm) :=
      (ih fun a ha => h a (by simp [ha])).mono fun rest hrest => ⟨hrest.1.tail, hrest.2⟩
    rw [armsCanonical_cons]
    refine Restores.congr (.takeTwo (fun t ht => isSymbol_of_kind ht) (fun u hu => isSymbol_of_kind hu) ?_)
      fun ts hts => whole_elseIfArms_eq htrims hts
    refine .bind (h a (by simp)) (fun ts rest hts _ hrest => hrest.1.head hts) fun a' ha' => ?_
    exact hothers.bindPure fun as has => congrArg₂ List.cons ha' has

/-- the last part of an if statement is read back -/
theorem restores_elseRest {token' : Token} {arms arms' : List (Expr × Stmt)} {otherwise : Option Stmt}
    (h : ∀ s ∈ otherwise, Restores nested (s.canonical) (Closed s) Stmt.bare s.bare) :
    Restores (takeWord "else" >>= elseRest nested token' arms') (elseCanonical otherwise)
      (Closed (.branch token arms otherwise)) Stmt.bare (.branch default (Stmt.bareArms arms') (Stmt.bareElse otherwise)) := by
  cases otherwise with
  | none =>
    refine .skipRest (fun rest hrest t ht => ?_) (.pure rfl)
    obtain ⟨more, rfl⟩ := List.head?_eq_some_iff.1 ht
    exact hrest rfl
  | some s =>
    refine .take (fun t ht => isSymbol_of_kind ht) ?_
    have hnested : Restores (some <$> nested) (s.canonical) (Closed s) Stmt.bareElse (some s.bare) :=
      (h s rfl).map fun s' hs' => congrArg some hs'
    exact hnested.bindPure fun otherwise' h' => congrArg (Stmt.branch default (Stmt.bareArms arms')) h'

/-- no arm starts behind the arms of an if statement -/
theorem not_elseIf {arms : List (Expr × Stmt)} {otherwise : Option Stmt} {ts rest : List Token}
    (hif : ∀ s ∈ otherwise, ∃ kind more, s.canonical = kind :: more ∧ kind ≠ .symbol "if")
    (hts : ts.map (·.kind) = elseCanonical otherwise)
    (hrest : Closed (.branch token arms otherwise) rest) : ¬ ElseIf (ts ++ rest) := by
  rintro ⟨t, u, behind, htu, ht, hu⟩
  cases otherwise with
  | none =>
    obtain rfl := List.map_eq_nil_iff.1 hts
    have := hrest rfl
    rw [show rest = t :: u :: behind from htu, startsWord, List.head?_cons, Option.any_some] at this
    exact Bool.false_ne_true (this.symm.trans ht)
  | some s =>
    obtain ⟨kind, more, hkinds, hkind⟩ := hif s rfl
    rw [show elseCanonical (some s) = .symbol "else" :: s.canonical from rfl, hkinds] at hts
    obtain ⟨t', ts, rfl, -, hts⟩ := List.map_eq_cons_iff.1 hts
    obtain ⟨u', ts, rfl, hu', -⟩ := List.map_eq_cons_iff.1 hts
    cases htu
    exact hkind (hu' ▸ kind_of_isSymbol hu)

theorem restores_ifStatement {first : Expr × Stmt} {others : List (Expr × Stmt)} {otherwise : Option Stmt}
    (htrims : Trims (arm depths nested)) (harms : ∀ a ∈ first :: others, ArmRestored depths nested a)
    (hotherwise : ∀ s ∈ otherwise, Restores nested (s.canonical) (Closed s) Stmt.bare s.bare)
    (hif : ∀ s ∈ otherwise, ∃ kind more, s.canonical = kind :: more ∧ kind ≠ .symbol "if")
    (hbodies : ∀ s ∈ bodiesBeforeElse (first :: others) otherwise, s.endsOpen = false) {token' : Token} :
    Restores (ifStatement depths nested token')
      (armCanonical first ++ (armsCanonical others ++ elseCanonical otherwise))
      (Closed (.branch token (first :: others) otherwise)) Stmt.bare
      (Stmt.branch token (first :: others) otherwise).bare := by
  rw [ifStatement_eq]
  refine .bind (harms first (by simp)) (fun ts rest hts _ hrest => ?_) fun first' hfirst =>
    .bind (restores_arms htrims fun a ha => harms a (by simp [ha])) (fun ts rest hts _ hrest => ?_) fun others' hothers => ?_
  · obtain ⟨more, last, rfl, hmore, hlast⟩ := List.map_eq_append_iff.1 hts
    rw [List.append_assoc]
    exact (ArmsClosed.of_attached hbodies hlast hrest).head hmore
  · exact ⟨(ArmsClosed.of_attached hbodies hts hrest).tail, not_elseIf hif hts hrest⟩
  · have hbare : Stmt.bareArms (first' :: others') = Stmt.bareArms (first :: others) := by
      rw [bareArms_eq_map, bareArms_eq_map]
      exact congrArg₂ List.cons hfirst hothers
    rw [Stmt.bare, ← hbare]
    exact restores_elseRest hotherwise

/-! ## For statements -/

theorem restores_loopRest (token : Token) (counter : Option Param) {start test increment : Expr} {body : Stmt}
    (hstart : start.Readable depths ∧ start.Named) (htest : test.Readable depths ∧ test.Named)
    (hincrement : increment.Readable depths ∧ increment.Named)
    (hbody : Restores nested (body.canonical) (Closed body) Stmt.bare body.bare) :
    Restores (loopRest depths nested token counter) (start.canonical ++ .char ';' :: (test.canonical ++ .char ';' ::
        (increment.canonical ++ .char ')' :: body.canonical))) (Closed body) Stmt.bare
      (.loop default (counter.map Param.bare) start.bare test.bare increment.bare body.bare) := by
  refine .upTo hstart.1 hstart.2 (.inl rfl) fun start' hs => .upTo htest.1 htest.2 (.inl rfl) fun test' ht =>
    .upTo hincrement.1 hincrement.2 (.inr rfl) fun increment' hi => hbody.bindPure fun body' hb => ?_
  rw [Stmt.bare, hs, ht, hi, hb]

theorem type?_of_opens {kind : TokenKind} (h : kind.opens) (t : Token) (ht : t.kind = kind) : t.type? = none := by
  rcases hty : t.type? with _ | ty
  · rfl
  · rw [← ht, kind_of_type hty] at h
    exact absurd (List.mem_append_right _ (List.mem_map_of_mem (mem_declarable hty))) h

theorem restores_forStatement {counter : Option Param} {start test increment : Expr} {body : Stmt}
    (hcounter : ∀ p ∈ counter, p.Writable) (hstart : start.Readable depths ∧ start.Named)
    (htest : test.Readable depths ∧ test.Named)
    (hincrement : increment.Readable depths ∧ increment.Named)
    (hbody : Restores nested (body.canonical) (Closed body) Stmt.bare body.bare) :
    Restores (forStatement depths nested token) (.char '(' :: (counterCanonical counter ++ (start.canonical ++ .char ';' ::
        (test.canonical ++ .char ';' :: (increment.canonical ++ .char ')' :: body.canonical)))))
      (Closed body) Stmt.bare (.loop default (counter.map Param.bare) start.bare test.bare increment.bare body.bare) := by
  rw [forStatement_eq]
  refine .readChar ?_
  cases counter with
  | none =>
    obtain ⟨kind, more, hkinds, hkind⟩ := opens_canonical (e := start) ⟨hstart.1.1, hstart.2⟩ .assignment
    have hrest := restores_loopRest token none hstart htest hincrement hbody
    rw [Expr.canonical, hkinds] at hrest ⊢
    exact .skipType (type?_of_opens hkind) hrest
  | some p =>
    obtain ⟨hty, hname⟩ := hcounter p rfl
    refine .takeType hty (.readName hname fun t ht => .readChar ?_)
    have : p.bare = Param.bare ⟨p.type, t⟩ := by rw [Param.bare, Param.bare, ht]
    rw [Option.map_some, this]
    exact restores_loopRest token (some ⟨p.type, t⟩) hstart htest hincrement hbody

/-! ## Blocks -/

/-- a statement is closed by the tokens of what follows it -/
theorem closed_of_map {s : Stmt} {kind : TokenKind} {more : List TokenKind} {ts : List Token}
    (hts : ts.map (·.kind) = kind :: more) (hkind : kind ≠ .symbol "else") (rest : List Token) :
    Closed s (ts ++ rest) := by
  intro _
  obtain ⟨t, ts, rfl, ht, -⟩ := List.map_eq_cons_iff.1 hts
  by_contra hword
  exact hkind (ht ▸ kind_of_isSymbol (by simpa [startsWord] using hword))

/-- statements with a token behind them do not start with `else` -/
theorem scriptCanonical_head (ss : List Stmt) (last : TokenKind)
    (hss : ∀ s ∈ ss, ∃ kind more, s.canonical = kind :: more ∧ kind.begins)
    (hlast : last ≠ .symbol "else") :
    ∃ kind more, scriptCanonical ss ++ [last] = kind :: more ∧ kind ≠ .symbol "else" := by
  cases ss with
  | nil => exact ⟨last, [], rfl, hlast⟩
  | cons s ss =>
    obtain ⟨kind, more, hkinds, hkind⟩ := hss s (by simp)
    exact ⟨kind, _, by rw [scriptCanonical_cons, hkinds]; rfl, hkind.1⟩

theorem restores_block {body : List Stmt}
    (hshrinks : ∀ {ts rest s}, Ends ts → nested ts = .ok (s, rest) → Ends rest ∧ rest.length < ts.length)
    (hbegins : ∀ s ∈ body, ∃ kind more, s.canonical = kind :: more ∧ kind.begins)
    (h : ∀ s ∈ body, Restores nested (s.canonical) (Closed s) Stmt.bare s.bare) :
    Restores (block nested) (scriptCanonical body ++ [.char '}']) anything Stmt.bareAll
      (Stmt.bareAll body) := by
  have hround (ts : List Token) (hts : Ends ts) : block nested ts = braceRound nested (fun _ => block nested) () ts :=
    whole_statementsToBrace_eq hshrinks hts
  induction body with
  | nil => exact Restores.congr (.take (fun t ht => isChar_of_kind ht) (.pure rfl)) hround
  | cons s ss ih =>
    have hothers := ih (fun s hs => hbegins s (by simp [hs])) fun s hs => h s (by simp [hs])
    obtain ⟨kind, more, hkinds, -, hbrace, heof⟩ := hbegins s (by simp)
    obtain ⟨next, others, hnext, helse⟩ := scriptCanonical_head ss (.char '}')
      (fun s hs => hbegins s (by simp [hs])) (by simp)
    have hrest : Restores (nested >>= fun first => block nested >>= fun others => pure (first :: others))
        (s.canonical ++ (scriptCanonical ss ++ [.char '}'])) anything Stmt.bareAll
        (Stmt.bareAll (s :: ss)) :=
      .bind (h s (by simp)) (fun ts rest hts _ _ => closed_of_map (hts.trans hnext) helse rest) fun s' hs' =>
        hothers.bindPure fun ss' hss' => congrArg₂ List.cons hs' hss'
    refine Restores.congr (fun ts rest hts hends _ => ?_) hround
    rw [scriptCanonical_cons, List.append_assoc] at hts
    obtain ⟨body', hrun, hbare⟩ := hrest ts rest hts hends trivial
    rw [hkinds] at hts
    obtain ⟨t, ts, rfl, ht, -⟩ := List.map_eq_cons_iff.1 hts
    refine ⟨body', (run_braceRound _ _ _).trans ?_, hbare⟩
    rw [if_neg fun hchar => hbrace (ht ▸ kind_of_isChar hchar), if_neg]
    · exact hrun
    · intro hended
      unfold ended at hended
      split at hended <;> simp_all

/-! ## Declarations -/

theorem restores_parameter {p : Param} (hp : p.Writable) {place : Construct} {before : List Token → Prop} :
    Restores (parameter place) [.symbol p.type.name, p.name.kind] before Param.bare p.bare :=
  .readType hp.1 (.readName hp.2 fun t ht => .pure (by rw [Param.bare, Param.bare, ht]))

theorem restores_startRest {ty : Ty} {names names' : List Token} {start : Option Expr}
    (hstart : ∀ e ∈ start, e.Readable depths ∧ e.Named) (hnames : names'.map (·.kind) = names.map (·.kind))
    {before : List Token → Prop} :
    Restores (takeChar '=' >>= startRest depths token ty names') (startCanonical start ++ [.char ';']) before
      Stmt.bare (.var default ty (names.map fun name => .ofKind name.kind) (start.map Expr.bare)) := by
  have hbare : (names'.map fun name => Token.ofKind name.kind) = names.map fun name => .ofKind name.kind := by
    have := congrArg (List.map Token.ofKind) hnames
    rwa [List.map_map, List.map_map] at this
  cases start with
  | none => exact .skip (fun t ht => by simp [Token.isChar, ht]) (.readChar (.pure (by rw [Stmt.bare, hbare])))
  | some e =>
    obtain ⟨he, hn⟩ := hstart e rfl
    rw [show startCanonical (some e) ++ [.char ';'] = .char '=' :: (e.canonical ++ [.char ';']) by
      simp [startCanonical, startPieces]]
    refine .take (fun t ht => isChar_of_kind ht) (.upTo he hn (.inl rfl) fun e' he' => .pure ?_)
    rw [Stmt.bare, hbare, Option.map_some, he', Option.map_some]

theorem restores_variables {ty : Ty} {name : Token} {others : List Token} {start : Option Expr} (hname : name.IsName)
    (hothers : ∀ name ∈ others, name.IsName) (hstart : ∀ e ∈ start, e.Readable depths ∧ e.Named) {before : List Token → Prop} :
    Restores (declarationRest depths nested token ty)
      (commas ((name :: others).map fun name => [name.kind]) ++ (startCanonical start ++ [.char ';'])) before
      Stmt.bare (.var default ty ((name :: others).map fun name => .ofKind name.kind) (start.map Expr.bare)) := by
  obtain ⟨kind, more, hkinds, hkind⟩ : ∃ kind more, startCanonical start ++ [.char ';'] = kind :: more ∧
      (kind = .char '=' ∨ kind = .char ';') := by
    cases start with
    | none => exact ⟨_, _, rfl, .inr rfl⟩
    | some e => exact ⟨_, _, rfl, .inl rfl⟩
  rw [commas_names, List.cons_append]
  refine .readName hname fun name' hname' => ?_
  have hrest : Restores (declaredNames depths token ty name') (others.flatMap (fun name => [.char ',', name.kind]) ++
      (startCanonical start ++ [.char ';'])) before Stmt.bare
      (.var default ty ((name :: others).map fun name => .ofKind name.kind) (start.map Expr.bare)) := by
    rw [declaredNames_eq]
    refine .bind (.moreNames hothers) (fun ts rest hts _ _ => ?_) fun others' hothers' => ?_
    · rw [hkinds] at hts
      obtain ⟨t, ts, rfl, ht, -⟩ := List.map_eq_cons_iff.1 hts
      rcases hkind with rfl | rfl <;> simp [Token.isChar, ht]
    · have hnames : (name' :: others').map (·.kind) = (name :: others).map (·.kind) :=
        congrArg₂ List.cons hname' hothers'
      exact restores_startRest hstart hnames
  obtain ⟨first, behind, hfirst, hopen⟩ : ∃ first behind, others.flatMap (fun name => [.char ',', name.kind]) ++
      (startCanonical start ++ [.char ';']) = first :: behind ∧ first ≠ .char '(' := by
    cases others with
    | nil => exact ⟨kind, more, hkinds, by rcases hkind with rfl | rfl <;> simp⟩
    | cons next others => exact ⟨.char ',', _, rfl, by simp⟩
  rw [hfirst] at hrest ⊢
  refine .skip (fun t ht => ?_) hrest
  by_contra hchar
  exact hopen (ht ▸ kind_of_isChar (by simpa using hchar))

theorem restores_function (token brace : Token) {ty : Ty} {name : Token} {params : List Param} {body : List Stmt}
    (hname : name.IsName) (hparams : ∀ p ∈ params, p.Writable)
    (hblock : Restores (block nested) (scriptCanonical body ++ [.char '}']) anything Stmt.bareAll
      (Stmt.bareAll body)) :
    Restores (declarationRest depths nested token ty) (name.kind :: .char '(' ::
        (commas (params.map fun p => [.symbol p.type.name, p.name.kind]) ++ .char ')' :: .char '{' ::
          (scriptCanonical body ++ [.char '}']))) anything Stmt.bare
      (Stmt.fn (.mk token ty name params brace body)).bare := by
  refine .readName hname fun name' hname' => .take (fun t ht => isChar_of_kind ht) ?_
  have hlist : Restores (listUpTo (parameter (.function name'.name)) ')' (.function name'.name))
      (commas (params.map fun p => [.symbol p.type.name, p.name.kind]) ++ [.char ')']) anything (List.map Param.bare)
      (params.map Param.bare) :=
    .listUpTo (Contract.trims (contract_parameter _)) (by decide) (fun p hp => ⟨_, _, rfl, by simp⟩)
      fun p hp => restores_parameter (hparams p hp)
  have hkinds : commas (params.map fun p => [.symbol p.type.name, p.name.kind]) ++ .char ')' :: .char '{' ::
      (scriptCanonical body ++ [.char '}']) =
      (commas (params.map fun p => [.symbol p.type.name, p.name.kind]) ++ [.char ')']) ++ .char '{' ::
        (scriptCanonical body ++ [.char '}']) := by simp
  rw [hkinds]
  refine .bind hlist (fun _ _ _ _ _ => trivial) fun params' hparams' => .current fun brace' => .readChar ?_
  refine hblock.bindPure fun body' hbody' => ?_
  rw [Stmt.bare, Stmt.bare, Function.bare, Function.bare, hname', hparams', hbody']

end Nested

/-! ## Statements -/

section Statements

variable {depth : Nat} {s : Stmt} {kinds : List TokenKind} {before : List Token → Prop}

theorem isChar_of_symbol {t : Token} {word : String} (ht : t.kind = .symbol word) (c : Char) : t.isChar c = false := by
  rw [Token.isChar, ht]

theorem Restores.branch
    (h : ∀ token, Restores (ifStatement depths (statement depths (depth + 1)) token) kinds before Stmt.bare s) :
    Restores (statement depths (depth + 2)) (.symbol "if" :: kinds) before Stmt.bare s :=
  .current fun token => .take (fun _ ht => isSymbol_of_kind ht) (h token)

theorem Restores.loop
    (h : ∀ token, Restores (forStatement depths (statement depths (depth + 1)) token) kinds before Stmt.bare s) :
    Restores (statement depths (depth + 2)) (.symbol "for" :: kinds) before Stmt.bare s :=
  .current fun token => .skip (fun t ht => by simp [Token.isSymbol, ht])
    (.take (fun t ht => isSymbol_of_kind ht) (h token))

theorem Restores.ret (h : ∀ token, Restores (returnRest depths token) kinds before Stmt.bare s) :
    Restores (statement depths (depth + 1)) (.symbol "return" :: kinds) before Stmt.bare s :=
  .current fun token => .skip (fun t ht => by simp [Token.isSymbol, ht])
    (.skip (fun t ht => by simp [Token.isSymbol, ht]) (.take (fun t ht => isSymbol_of_kind ht) (h token)))

theorem Restores.braces
    (h : ∀ token, Restores (Stmt.block token <$> block (statement depths depth)) kinds before Stmt.bare s) :
    Restores (statement depths (depth + 1)) (.char '{' :: kinds) before Stmt.bare s :=
  .current fun token => .skip (fun t ht => by simp [Token.isSymbol, ht])
    (.skip (fun t ht => by simp [Token.isSymbol, ht]) (.skip (fun t ht => by simp [Token.isSymbol, ht])
      (.take (fun t ht => isChar_of_kind ht) (run_map (Stmt.block token) _ ▸ h token))))

theorem Restores.declaration {ty : Ty} (hty : ty ∈ Ty.declarable)
    (h : ∀ token, Restores (declarationRest depths (statement depths depth) token ty) kinds before Stmt.bare s) :
    Restores (statement depths (depth + 1)) (.symbol ty.name :: kinds) before Stmt.bare s := by
  have hname (word : String) (hword : word ∈ ["if", "for", "return"]) : ty.name ≠ word := by
    revert word
    cases ty <;> decide
  refine .current fun token => .skip (fun t ht => ?_) (.skip (fun t ht => ?_) (.skip (fun t ht => ?_)
    (.skip (fun t ht => isChar_of_symbol ht _) (.takeType hty (h token)))))
  all_goals
    rw [Token.isSymbol, ht]
    exact decide_eq_false (hname _ (by simp))

theorem shrinks_statement {ts rest : List Token} (hends : Ends ts) (hok : statement depths depth ts = .ok (s, rest)) :
    Ends rest ∧ rest.length < ts.length :=
  Contract.shrinks (contract_statement depth) StatementRead.nonempty hends hok

theorem trims_arm (depth : Nat) : Trims (arm depths (statement depths (depth + 1))) :=
  Contract.trims (contract_arm (contract_statement (depth + 1)) (completes_statement depth))

theorem restores_body {body : List Stmt} (hbody : ∀ s ∈ body, s.Readable depths depth) (hn : ∀ s ∈ body, s.Named)
    (h : ∀ s ∈ body, Restores (statement depths depth) (s.canonical) (Closed s) Stmt.bare s.bare) :
    Restores (block (statement depths depth)) (scriptCanonical body ++ [.char '}']) anything Stmt.bareAll
      (Stmt.bareAll body) := by
  refine restores_block shrinks_statement (fun s hs => ?_) h
  obtain ⟨kind, more, hkinds, hkind, -⟩ := (hbody s hs).begins (hn s hs)
  exact ⟨kind, more, hkinds, hkind⟩

/-- the tokens of a statement without keywords for names are read as this statement, before what closes it -/
theorem restores_statement (hs : s.Readable depths depth) (ha : s.Attached) (hn : s.Named) :
    Restores (statement depths depth) (s.canonical) (Closed s) Stmt.bare s.bare := by
  induction hs with
  | @branch depth token arms otherwise hne htests hbodies hotherwise ihbodies ihotherwise =>
    cases ha with
    | branch haArms haElse hbranch hopen =>
      simp only [Stmt.Named, Stmt.names, List.mem_append, or_imp, forall_and] at hn
      have hnames := named_of_arm hn.1
      obtain ⟨first, others, rfl⟩ := List.exists_cons_of_ne_nil hne
      obtain ⟨d, rfl⟩ := (hbodies first (by simp)).succ
      have hnamed : ∀ s ∈ otherwise, s.Named := by
        rintro s rfl
        exact hn.2
      rw [canonical_branch]
      refine .branch fun token' => restores_ifStatement (trims_arm d) (fun a ha => ?_) (fun s hs => ?_) (fun s hs => ?_) hopen
      · exact restores_arm (htests a ha) (hnames a ha).1 (ihbodies a ha (haArms a ha) (hnames a ha).2)
      · exact ihotherwise s hs (haElse s hs) (hnamed s hs)
      · obtain ⟨kind, more, hkinds, -, hif⟩ := (hotherwise s hs).begins (hnamed s hs)
        exact ⟨kind, more, hkinds, hif (hbranch s hs)⟩
  | @loop depth token counter start condition increment body hcounter hstart hcondition hincrement hbody ihbody =>
    cases ha with
    | loop haBody =>
      simp only [Stmt.Named, Stmt.names, List.mem_append, or_imp, forall_and] at hn
      obtain ⟨d, rfl⟩ := hbody.succ
      rw [canonical_loop]
      exact .loop fun token' => restores_forStatement hcounter ⟨hstart, hn.1.1.1.2⟩ ⟨hcondition, hn.1.1.2⟩
        ⟨hincrement, hn.1.2⟩ (ihbody haBody hn.2)
  | ret hvalue =>
    exact .ret fun token' => .upTo hvalue hn (.inl rfl) fun e' he' => .pure (by rw [Stmt.bare, he', Stmt.bare])
  | @block depth token body hbody ihbody =>
    cases ha with
    | block haBody =>
      have hnames := named_of_mem hn
      have hblock := restores_body hbody hnames fun s hs => ihbody s hs (haBody s hs) (hnames s hs)
      rw [canonical_block]
      exact .braces fun token' => (hblock.mono fun _ _ => trivial).map fun body' h => by rw [Stmt.bare, h, Stmt.bare]
  | @expr depth token e he =>
    intro ts rest hts hends hrest
    have hopens : Opens ((ts ++ rest).map (·.kind)) := by
      rw [List.map_append, hts]
      exact ((opens_canonical ⟨he.1, hn⟩ .assignment).append _).append _
    rw [statement_of_opens hopens]
    exact Restores.upTo he hn (.inl rfl) (fun e' he' => .pure (by rw [Stmt.bare, he', Stmt.bare])) ts rest hts hends hrest
  | @var depth token ty names start hty hne hnames hstart =>
    obtain ⟨name, others, rfl⟩ := List.exists_cons_of_ne_nil hne
    simp only [Stmt.Named, Stmt.names, List.mem_append, or_imp, forall_and] at hn
    rw [canonical_var]
    refine .declaration hty fun token' => restores_variables (hnames name (by simp)) (fun name hname =>
      hnames name (by simp [hname])) fun e he => ⟨hstart e he, ?_⟩
    cases he
    simpa [Expr.Named, Expr.namesAll] using hn.2
  | @fn depth decl hty hname hparams hbody ihbody =>
    obtain ⟨token, result, name, params, brace, body⟩ := decl
    cases ha with
    | fn haBody =>
      simp only [Stmt.Named, Stmt.names, Function.names, List.mem_append, or_imp, forall_and] at hn
      have hnames := named_of_mem hn.2
      have hblock := restores_body hbody hnames fun s hs => ihbody s hs (haBody s hs) (hnames s hs)
      rw [canonical_fn]
      refine .declaration hty fun token' => ?_
      exact (restores_function token' brace hname hparams hblock).mono fun _ _ => trivial

end Statements

end Parser

/-! ## Scripts -/

open LevelScript.Syntax.Parser

/-- what tokens are to the script that the parser has made of them -/
structure ScriptRead (depths : Depths) (script : List Stmt) (used : List Token) : Prop where
  written : Spells (Stmt.allPieces script) (used.map (·.kind))
  readable : ∀ s ∈ script, s.Readable depths depths.statement
  attached : ∀ s ∈ script, s.Attached

/-- a script that is accepted has been read up to the first token that marks its end -/
theorem scriptRead_of_ok {ts : List Token} {script : List Stmt} (hends : Ends ts) (hok : parse ts depths = .ok script) :
    ∃ used rest, ts = used ++ rest ∧ Inner used ∧ ended rest = true ∧ ScriptRead depths script used := by
  -- by induction on the tokens that are left when the statements in front have been read
  induction hn : ts.length using Nat.strong_induction_on generalizing ts script with
  | _ n ih =>
    have hparse := @parse_eq depths ts hends
    by_cases hended : ended ts = true
    · rw [hok, if_pos hended] at hparse
      cases hparse
      exact ⟨[], ts, rfl, .nil, hended, .nil, by simp, by simp⟩
    · rw [hok, if_neg hended] at hparse
      rcases hs : parseStatement depths ts with r | ⟨s, mid⟩
      · rw [hs] at hparse
        cases hparse
      · have hrun := parseStatement_eq_ok.1 hs
        obtain ⟨hmid, hlt⟩ := parseStatement_shrinks hends hs
        obtain ⟨used, rfl, hinner, hread, -⟩ := (contract_fullStatement ts.length).accepts le_rfl hends hrun
        rw [parse_of_statement hends hrun] at hok
        rcases hm : parse mid depths with r | others
        · rw [hm] at hok
          cases hok
        · rw [hm] at hok
          cases hok
          obtain ⟨more, rest, rfl, hmore, hrest, hothers⟩ := ih mid.length (hn ▸ hlt) hmid hm rfl
          refine ⟨used ++ more, rest, by rw [List.append_assoc], hinner.append hmore, hrest, ?_,
            List.forall_mem_cons.2 ⟨hread.readable, hothers.readable⟩,
            List.forall_mem_cons.2 ⟨hread.attached, hothers.attached⟩⟩
          rw [List.map_append]
          exact hread.written.append hothers.written

/-- a list has one part in front of the first token that marks its end -/
theorem inner_unique {us vs xs ys : List Token} (hus : Inner us) (hvs : Inner vs) (hxs : ended xs = true)
    (hys : ended ys = true) (h : us ++ xs = vs ++ ys) : us = vs := by
  induction us generalizing vs with
  | nil =>
    cases vs with
    | nil => rfl
    | cons v vs =>
      rw [List.nil_append] at h
      rw [h, not_ended (by simp) hvs] at hxs
      cases hxs
  | cons u us ih =>
    cases vs with
    | nil =>
      rw [List.nil_append] at h
      rw [← h, not_ended (by simp) hus] at hys
      cases hys
    | cons v vs =>
      obtain ⟨rfl, htail⟩ := List.cons.inj h
      rw [ih (fun t ht => hus t (by simp [ht])) (fun t ht => hvs t (List.mem_cons_of_mem _ ht)) htail]

/-- the canonical form of a script is read as this script -/
theorem parse_canonical {script : List Stmt} (hreadable : ∀ s ∈ script, s.Readable depths depths.statement)
    (hattached : ∀ s ∈ script, s.Attached) (hnames : ∀ s ∈ script, s.Named) {tokens : List Token}
    (htokens : tokens.map (·.kind) = scriptCanonical script ++ [.eof]) :
    ∃ script', parse tokens depths = .ok script' ∧ Stmt.bareAll script' = Stmt.bareAll script := by
  induction script generalizing tokens with
  | nil =>
    obtain ⟨t, none, rfl, ht, hnil⟩ := List.map_eq_cons_iff.1 htokens
    obtain rfl := List.map_eq_nil_iff.1 hnil
    refine ⟨[], ?_, rfl⟩
    rw [parse_eq ⟨t, List.mem_singleton_self t, ht⟩, if_pos]
    simp [ended, ht]
  | cons s ss ih =>
    rw [scriptCanonical_cons, List.append_assoc] at htokens
    obtain ⟨used, more, rfl, hused, hmore⟩ := List.map_eq_append_iff.1 htokens
    have hends : Ends more := by
      obtain ⟨t, ht, hk⟩ := List.mem_map.1 (hmore ▸ List.mem_append_right _ (List.mem_singleton_self TokenKind.eof))
      exact ⟨t, ht, hk⟩
    obtain ⟨kind, kinds, hkinds, helse⟩ := scriptCanonical_head ss .eof (fun s hs => by
      obtain ⟨kind, more, hkinds, hkind, -⟩ := (hreadable s (by simp [hs])).begins (hnames s (by simp [hs]))
      exact ⟨kind, more, hkinds, hkind⟩) (by simp)
    obtain ⟨s', hrun, hbare⟩ := restores_statement (hreadable s (by simp)) (hattached s (by simp)) (hnames s (by simp))
      used more hused hends (by simpa using closed_of_map (s := s) (hmore.trans hkinds) helse [])
    obtain ⟨ss', hrun', hbare'⟩ := ih (fun s hs => hreadable s (by simp [hs])) (fun s hs => hattached s (by simp [hs]))
      (fun s hs => hnames s (by simp [hs])) hmore
    refine ⟨s' :: ss', ?_, congrArg₂ List.cons hbare hbare'⟩
    rw [parse_of_statement (hends.append used) hrun, hrun']
    rfl

/-- **A script says what its tokens say.** The tokens of a script that is accepted are its pieces in order, keywords,
names, types, punctuation and expressions, and when parentheses around expressions are deleted they are its yield; each
`else` belongs to the nearest chain of arms that is still open; and if no name is a keyword, the canonical form of the
script is read as this script. -/
theorem script_reads_back {body behind : List Token} {eof : Token} {script : List Stmt} (hbody : Inner body)
    (heof : eof.kind = .eof) (hok : parse (body ++ eof :: behind) depths = .ok script) :
    Spells (Stmt.allPieces script) (body.map (·.kind)) ∧ Ungrouped (body.map (·.kind)) (scriptYield script) ∧
      (∀ s ∈ script, s.Attached) ∧
      ((∀ name ∈ Stmt.namesAll script, name ∉ keywords) → ∀ tokens : List Token,
        tokens.map (·.kind) = scriptCanonical script ++ [.eof] →
        ∃ script', parse tokens depths = .ok script' ∧ Stmt.bareAll script' = Stmt.bareAll script) := by
  obtain ⟨used, rest, hts, hinner, hended, hread⟩ :=
    scriptRead_of_ok (Ends.append ⟨eof, List.mem_cons_self, heof⟩ body) hok
  obtain rfl := inner_unique hbody hinner (by simp [ended, heof]) hended hts
  exact ⟨hread.written, hread.written.ungrouped, hread.attached, fun hnames tokens htokens =>
    parse_canonical hread.readable hread.attached (named_of_mem hnames) htokens⟩

/-- the parentheses in `if (a) (b); else c;` are those of the condition and some around an expression -/
theorem script_reads_back_else :
    let body := ([.symbol "if", .char '(', .symbol "a", .char ')', .char '(', .symbol "b", .char ')', .char ';',
      .symbol "else", .symbol "c", .char ';'] : List TokenKind).map Token.ofKind
    let name (word : String) := Expr.symbol (.ofKind (.symbol word)) word
    let script := [Stmt.branch (.ofKind (.symbol "if")) [(name "a", .expr (.ofKind (.char '(')) (name "b"))]
      (some (.expr (.ofKind (.symbol "c")) (name "c")))]
    Spells (Stmt.allPieces script) (body.map (·.kind)) ∧ Ungrouped (body.map (·.kind)) (scriptYield script) ∧
      (∀ s ∈ script, s.Attached) ∧ ∀ tokens : List Token, tokens.map (·.kind) = scriptCanonical script ++ [.eof] →
        ∃ script', parse tokens = .ok script' ∧ Stmt.bareAll script' = Stmt.bareAll script := by
  intro body name script
  have hbody : Inner body := by simp [body, Inner, Token.ofKind]
  have hok : parse (body ++ .ofKind .eof :: []) = .ok script := rfl
  obtain ⟨hwritten, hyield, hattached, hcanonical⟩ := script_reads_back hbody rfl hok
  exact ⟨hwritten, hyield, hattached, hcanonical (by decide)⟩

end LevelScript.Syntax
