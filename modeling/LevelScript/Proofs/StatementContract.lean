/-
What the parsers of statements owe to the tokens that they have read.

`StatementRead` is what an accepting parser gives: the statement may be written with the tokens, it can be read again
with the depth that was there, and each `else` belongs to the nearest open chain of arms.
A statement that ends with an open chain has been read up to a token that does not go on with the chain.
-/
import Mathlib.Tactic
import LevelScript.Proofs.ExpressionContract

namespace LevelScript.Syntax

variable {depths : Depths}

/-! ## What is read -/

def startsWord (word : String) (ts : List Token) : Bool := ts.head?.any (·.isSymbol word)

/-- the chain of arms that may be open at the end of a statement does not go on in the rest -/
def Closed (s : Stmt) (rest : List Token) : Prop := s.endsOpen = true → startsWord "else" rest = false

/-- what tokens are to the statement that a parser has made of them -/
structure StatementRead (depths : Depths) (depth : Nat) (s : Stmt) (used rest : List Token) : Prop where
  nonempty : used ≠ []
  written : Spells s.pieces (used.map (·.kind))
  readable : s.Readable depths depth
  attached : s.Attached
  closed : Closed s rest
  branch : s.isBranch = true → startsWord "if" used = true

structure ArmRead (depths : Depths) (depth : Nat) (arm : Expr × Stmt) (used rest : List Token) : Prop where
  written : Spells (.token (.char '(') :: .expr arm.1 :: .token (.char ')') :: arm.2.pieces) (used.map (·.kind))
  test : arm.1.Readable depths
  readable : arm.2.Readable depths depth
  attached : arm.2.Attached
  closed : Closed arm.2 rest

/-- no chain that is open at the end of an arm goes on behind it -/
structure ArmsClosed (arms : List (Expr × Stmt)) (rest : List Token) : Prop where
  inner : ∀ arm ∈ arms.dropLast, arm.2.endsOpen = false
  last : ∀ arm ∈ arms.getLast?, Closed arm.2 rest

structure ArmsRead (depths : Depths) (depth : Nat) (arms : List (Expr × Stmt)) (used rest : List Token) : Prop where
  written : Spells (Stmt.armPieces true arms) (used.map (·.kind))
  tests : ∀ arm ∈ arms, arm.1.Readable depths
  readable : ∀ arm ∈ arms, arm.2.Readable depths depth
  attached : ∀ arm ∈ arms, arm.2.Attached
  closed : ArmsClosed arms rest
  empty : arms = [] → used = []
  start : arms ≠ [] → startsWord "else" used = true

structure BlockRead (depths : Depths) (depth : Nat) (body : List Stmt) (used : List Token) : Prop where
  written : Spells (Stmt.allPieces body ++ [.token (.char '}')]) (used.map (·.kind))
  readable : ∀ s ∈ body, s.Readable depths depth
  attached : ∀ s ∈ body, s.Attached

theorem startsWord_append {word : String} {ts : List Token} (h : startsWord word ts = true) (us : List Token) :
    startsWord word (ts ++ us) = true := by
  cases ts with
  | nil => cases h
  | cons t ts => exact h

namespace ArmsClosed

variable {arms : List (Expr × Stmt)} {rest : List Token}

theorem cons {arm : Expr × Stmt} {more : List Token} (harm : Closed arm.2 (more ++ rest)) (harms : ArmsClosed arms rest)
    (hempty : arms = [] → more = []) (hstart : arms ≠ [] → startsWord "else" more = true) :
    ArmsClosed (arm :: arms) rest := by
  cases arms with
  | nil =>
    rw [hempty rfl] at harm
    exact ⟨by simp, by simpa using harm⟩
  | cons next others =>
    refine ⟨List.forall_mem_cons.2 ⟨?_, harms.inner⟩, by simpa using harms.last⟩
    by_contra hopen
    have := harm (by simpa using hopen)
    rw [startsWord_append (hstart (by simp))] at this
    cases this

/-- no arm in front of an `else` ends open -/
theorem of_else (h : ArmsClosed arms rest) (hrest : startsWord "else" rest = true) :
    ∀ arm ∈ arms, arm.2.endsOpen = false := by
  intro arm harm
  rcases List.eq_nil_or_concat arms with rfl | ⟨others, last, rfl⟩
  · cases harm
  · rw [List.concat_eq_append] at *
    rcases List.mem_append.1 harm with harm | harm
    · exact h.inner arm (by simpa using harm)
    · by_contra hopen
      have := h.last arm (by simpa using (List.mem_singleton.1 harm).symm) (by simpa using hopen)
      rw [hrest] at this
      cases this

end ArmsClosed

namespace ArmsRead

variable {depth : Nat} {rest : List Token}

theorem none : ArmsRead depths depth [] [] rest where
  written := .nil
  tests := by simp
  readable := by simp
  attached := by simp
  closed := ⟨by simp, by simp⟩
  empty := fun _ => rfl
  start := by simp

theorem more {t u : Token} {a : Expr × Stmt} {used more : List Token} {arms : List (Expr × Stmt)}
    (ht : t.kind = .symbol "else") (hu : u.kind = .symbol "if") (harm : ArmRead depths depth a used (more ++ rest))
    (harms : ArmsRead depths depth arms more rest) : ArmsRead depths depth (a :: arms) (t :: u :: (used ++ more)) rest where
  written := by
    have := harm.written.append harms.written
    simpa [ht, hu, Stmt.armPieces] using (Spells.token (.symbol "else") (.token (.symbol "if") this) :)
  tests := List.forall_mem_cons.2 ⟨harm.test, harms.tests⟩
  readable := List.forall_mem_cons.2 ⟨harm.readable, harms.readable⟩
  attached := List.forall_mem_cons.2 ⟨harm.attached, harms.attached⟩
  closed := harms.closed.cons harm.closed harms.empty harms.start
  empty := by simp
  start := fun _ => by simp [startsWord, Token.isSymbol, ht]

end ArmsRead

/-- the tokens of an if statement up to its last part -/
theorem written_arms {t : Token} {first : Expr × Stmt} {others : List (Expr × Stmt)} {used more rest rest' : List Token}
    {depth : Nat} (ht : t.kind = .symbol "if") (hfirst : ArmRead depths depth first used rest)
    (hothers : ArmsRead depths depth others more rest') :
    Spells (Stmt.armPieces false (first :: others)) ((t :: (used ++ more)).map (·.kind)) := by
  have := hfirst.written.append hothers.written
  simpa [ht, Stmt.armPieces] using (Spells.token (.symbol "if") this :)

/-- an if statement without a last part -/
theorem StatementRead.ofArms {t token : Token} {first : Expr × Stmt} {others : List (Expr × Stmt)}
    {used more rest : List Token} {depth : Nat} (ht : t.kind = .symbol "if")
    (hfirst : ArmRead depths depth first used (more ++ rest)) (hothers : ArmsRead depths depth others more rest)
    (hrest : startsWord "else" rest = false) :
    StatementRead depths (depth + 1) (.branch token (first :: others) none) (t :: (used ++ more)) rest where
  nonempty := by simp
  written := by simpa [Stmt.pieces, Stmt.elsePieces] using written_arms ht hfirst hothers
  readable := .branch (by simp) (List.forall_mem_cons.2 ⟨hfirst.test, hothers.tests⟩)
    (List.forall_mem_cons.2 ⟨hfirst.readable, hothers.readable⟩) (by simp)
  attached := .branch (List.forall_mem_cons.2 ⟨hfirst.attached, hothers.attached⟩) (by simp) (by simp) (by
    exact List.forall_mem_map.2 (hothers.closed.cons hfirst.closed hothers.empty hothers.start).inner)
  closed := fun _ => hrest
  branch := fun _ => by simp [startsWord, Token.isSymbol, ht]

/-- an if statement with a last part, which is no if statement itself -/
theorem StatementRead.ofElse {t u token : Token} {first : Expr × Stmt} {others : List (Expr × Stmt)} {s : Stmt}
    {used more used' rest : List Token} {depth : Nat} (ht : t.kind = .symbol "if") (hu : u.kind = .symbol "else")
    (hfirst : ArmRead depths depth first used (more ++ u :: (used' ++ rest)))
    (hothers : ArmsRead depths depth others more (u :: (used' ++ rest))) (hs : StatementRead depths depth s used' rest)
    (hif : startsWord "if" used' = false) :
    StatementRead depths (depth + 1) (.branch token (first :: others) (some s)) (t :: (used ++ (more ++ u :: used')))
      rest where
  nonempty := by simp
  written := by
    have := (written_arms ht hfirst hothers).append (.token (.symbol "else") hs.written)
    simpa [hu, Stmt.pieces, Stmt.elsePieces] using this
  readable := .branch (by simp) (List.forall_mem_cons.2 ⟨hfirst.test, hothers.tests⟩)
    (List.forall_mem_cons.2 ⟨hfirst.readable, hothers.readable⟩) (by simpa using hs.readable)
  attached := .branch (List.forall_mem_cons.2 ⟨hfirst.attached, hothers.attached⟩) (by simpa using hs.attached) (by
      have := mt hs.branch (by simp [hif])
      simpa using this) (by
      exact List.forall_mem_map.2 ((hothers.closed.cons hfirst.closed hothers.empty hothers.start).of_else
        (by simp [startsWord, Token.isSymbol, hu])))
  closed := hs.closed
  branch := fun _ => by simp [startsWord, Token.isSymbol, ht]

def CounterRead (counter : Option Param) (used : List Token) : Prop :=
  Spells (Param.counterPieces counter) (used.map (·.kind)) ∧ ∀ p ∈ counter, p.Writable

theorem StatementRead.loop {depth : Nat} {t u a b c token : Token} {counter : Option Param}
    {before used₁ used₂ used₃ used rest : List Token} {start test increment : Expr} {body : Stmt}
    (ht : t.kind = .symbol "for") (hu : u.kind = .char '(')
    (hcounter : CounterRead counter before) (hstart : ReadAs .assignment depths.expression start used₁)
    (ha : a.kind = .char ';') (htest : ReadAs .assignment depths.expression test used₂) (hb : b.kind = .char ';')
    (hincrement : ReadAs .assignment depths.expression increment used₃) (hc : c.kind = .char ')')
    (hbody : StatementRead depths depth body used rest) :
    StatementRead depths (depth + 1) (.loop token counter start test increment body)
      (t :: u :: (before ++ (used₁ ++ a :: (used₂ ++ b :: (used₃ ++ c :: used))))) rest where
  nonempty := by simp
  written := by
    have := hcounter.1.append (.expr hstart.written (.token (.char ';') (.expr htest.written (.token (.char ';')
      (.expr hincrement.written (.token (.char ')') hbody.written))))))
    simpa [ht, hu, ha, hb, hc, Stmt.pieces] using (Spells.token (.symbol "for") (.token (.char '(') this) :)
  readable := .loop hcounter.2 ⟨hstart.writable, hstart.shallow⟩ ⟨htest.writable, htest.shallow⟩
    ⟨hincrement.writable, hincrement.shallow⟩ hbody.readable
  attached := .loop hbody.attached
  closed := hbody.closed
  branch := by simp [Stmt.isBranch]

namespace BlockRead

variable {depth : Nat}

theorem none {t : Token} (ht : t.kind = .char '}') : BlockRead depths depth [] [t] where
  written := by simpa [ht, Stmt.allPieces] using Spells.tokens [.char '}']
  readable := by simp
  attached := by simp

theorem more {s : Stmt} {ss : List Stmt} {used more : List Token} (hs : ∃ rest, StatementRead depths depth s used rest)
    (hss : BlockRead depths depth ss more) : BlockRead depths depth (s :: ss) (used ++ more) := by
  obtain ⟨rest, hs⟩ := hs
  refine ⟨?_, List.forall_mem_cons.2 ⟨hs.readable, hss.readable⟩, List.forall_mem_cons.2 ⟨hs.attached, hss.attached⟩⟩
  simpa [Stmt.allPieces] using hs.written.append hss.written

end BlockRead

theorem commas_names (name : Token) (others : List Token) : commas ((name :: others).map fun name => [name.kind]) =
    name.kind :: others.flatMap fun name => [.char ',', name.kind] := by
  induction others generalizing name with
  | nil => rfl
  | cons next others ih => simpa [commas] using ih next

theorem StatementRead.var {depth : Nat} {word name u token : Token} {ty : Ty} {others used init rest : List Token}
    {start : Option Expr} (hword : word.type? = some ty) (hname : name.IsName)
    (hothers : used.map (·.kind) = others.flatMap (fun name => [.char ',', name.kind]) ∧ ∀ name ∈ others, name.IsName)
    (hinit : Spells (startPieces start) (init.map (·.kind))) (hstart : ∀ e ∈ start, e.Readable depths)
    (hu : u.kind = .char ';') :
    StatementRead depths (depth + 1) (.var token ty (name :: others) start) (word :: name :: (used ++ (init ++ [u])))
      rest where
  nonempty := by simp
  written := by
    have := (Spells.tokens (name.kind :: used.map (·.kind))).append (hinit.append (.tokens [.char ';']))
    rw [Stmt.pieces, commas_names, ← hothers.1]
    simpa [kind_of_type hword, hu] using (Spells.token (.symbol ty.name) this :)
  readable := .var (mem_declarable hword) (by simp) (List.forall_mem_cons.2 ⟨hname, hothers.2⟩) hstart
  attached := .var
  closed := fun h => by simp [Stmt.endsOpen] at h
  branch := by simp [Stmt.isBranch]

def ParameterRead (p : Param) (used : List Token) : Prop :=
  used.map (·.kind) = [.symbol p.type.name, p.name.kind] ∧ p.Writable

/-- what tokens are to the parameters of a function, the closing parenthesis among them -/
def ParametersRead (params : List Param) (used : List Token) : Prop :=
  used.map (·.kind) = commas (params.map fun p => [.symbol p.type.name, p.name.kind]) ++ [.char ')'] ∧
    ∀ p ∈ params, p.Writable

theorem ParametersRead.none {t : Token} (ht : t.kind = .char ')') : ParametersRead [] [t] :=
  ⟨by simp [ht, commas], by simp⟩

theorem ParametersRead.one {p : Param} {used : List Token} {t : Token} (hp : ParameterRead p used)
    (ht : t.kind = .char ')') : ParametersRead [p] (used ++ [t]) :=
  ⟨by simp [ht, commas, hp.1], by simpa using hp.2⟩

theorem ParametersRead.more {p : Param} {used more : List Token} {t : Token} {params : List Param}
    (hp : ParameterRead p used) (ht : t.kind = .char ',') (hne : params ≠ []) (hparams : ParametersRead params more) :
    ParametersRead (p :: params) (used ++ t :: more) := by
  obtain ⟨next, others, rfl⟩ := List.exists_cons_of_ne_nil hne
  exact ⟨by simp [ht, commas, hp.1, hparams.1], List.forall_mem_cons.2 ⟨hp.2, hparams.2⟩⟩

theorem StatementRead.fn {depth : Nat} {word name t u token brace : Token} {ty : Ty} {params : List Param}
    {used more rest : List Token} {body : List Stmt} (hword : word.type? = some ty) (hname : name.IsName)
    (ht : t.kind = .char '(') (hparams : ParametersRead params used) (hu : u.kind = .char '{')
    (hbody : BlockRead depths depth body more) :
    StatementRead depths (depth + 1) (.fn (.mk token ty name params brace body)) (word :: name :: t :: (used ++ u :: more))
      rest where
  nonempty := by simp
  written := by
    have := (Spells.tokens (used.map (·.kind))).append (.token (.char '{') hbody.written)
    rw [hparams.1] at this
    simpa [Stmt.pieces, Function.pieces, kind_of_type hword, ht, hu, hparams.1] using
      (Spells.token (.symbol ty.name) (.token name.kind (.token (.char '(') this)) :)
  readable := .fn (mem_declarable hword) hname hparams.2 hbody.readable
  attached := .fn hbody.attached
  closed := fun h => by simp [Stmt.endsOpen] at h
  branch := by simp [Stmt.isBranch]

theorem StatementRead.ret {depth : Nat} {t u token : Token} {value : Expr} {used rest : List Token}
    (ht : t.kind = .symbol "return") (hvalue : ReadAs .assignment depths.expression value used)
    (hu : u.kind = .char ';') : StatementRead depths (depth + 1) (.ret token value) (t :: (used ++ [u])) rest where
  nonempty := by simp
  written := by
    simpa [ht, hu, Stmt.pieces] using
      (Spells.token (.symbol "return") (.expr hvalue.written (.tokens [.char ';'])) :)
  readable := .ret ⟨hvalue.writable, hvalue.shallow⟩
  attached := .ret
  closed := fun h => by simp [Stmt.endsOpen] at h
  branch := by simp [Stmt.isBranch]

theorem StatementRead.block {depth : Nat} {t token : Token} {body : List Stmt} {used rest : List Token}
    (ht : t.kind = .char '{') (hbody : BlockRead depths depth body used) :
    StatementRead depths (depth + 1) (.block token body) (t :: used) rest where
  nonempty := by simp
  written := by simpa [ht, Stmt.pieces] using (Spells.token (.char '{') hbody.written :)
  readable := .block hbody.readable
  attached := .block hbody.attached
  closed := fun h => by simp [Stmt.endsOpen] at h
  branch := by simp [Stmt.isBranch]

theorem StatementRead.expr {depth : Nat} {u token : Token} {e : Expr} {used rest : List Token}
    (he : ReadAs .assignment depths.expression e used) (hu : u.kind = .char ';') :
    StatementRead depths (depth + 1) (.expr token e) (used ++ [u]) rest where
  nonempty := by simp
  written := by simpa [hu, Stmt.pieces] using (Spells.expr he.written (.tokens [.char ';']) :)
  readable := .expr ⟨he.writable, he.shallow⟩
  attached := .expr
  closed := fun h => by simp [Stmt.endsOpen] at h
  branch := by simp [Stmt.isBranch]

namespace Parser

/-! ## An expression and the character behind it -/

section UpTo

variable {β : Type} {c : Char} {place : Construct} {f : Expr → Parser β} {fill : List Token}

theorem completes_upTo (depths : Depths) (place : Construct) (hc : c ∉ continuingMarks) (hfill : ∀ e, Completes fill (f e)) :
    Completes (number :: .ofKind (.char c) :: fill) (do let e ← fullExpression depths; char c place; f e) :=
  (completes_fullExpression depths).bind (by simpa using hc) fun e => .read (takes_char _ _) (by simp) (hfill e)

theorem contract_upTo {size : Nat} {first : List Token → Token → Prop} {reads : β → List Token → List Token → Prop}
    (fill : List Token) (hc : c ∉ continuingMarks) (hfirst : ∀ used t, numberFirst used t → first used t)
    (hbehind : ∀ used t, used ≠ [] → first used t) (hfill : ∀ e, Completes fill (f e))
    (hf : ∀ e used t, ReadAs .assignment depths.expression e used → t.kind = .char c → ∀ n < size,
      Contract n (fun used' t' => first (used ++ t :: used') t') nothing
        (fun b used' rest => reads b (used ++ t :: used') rest) (f e)) :
    Contract size first nothing reads (do let e ← fullExpression depths; char c place; f e) := by
  refine .bind (.ofKind (.char c) :: fill) (contract_fullExpression depths size) hfirst (by simpa using hc)
    (fun e => .read (takes_char _ _) (by simp) (hfill e)) fun e used mid hread n hn => ?_
  refine .read (.ofKind (.char c)) fill (takes_char _ _) (by simp) inner_char ?_ (fun _ => hfill e) fun t ht n' hn' => ?_
  · exact ⟨hbehind _ _ (by simp [hread.nonempty]), by simpa using hc⟩
  · have hlength : n' < size := by omega
    exact (hf e used t hread (kind_of_isChar ht) n' hlength).mono (fun used' t' h => ⟨h, by simp⟩)
      fun b used' rest _ _ h _ => h

end UpTo

section Nested

variable {nested : Parser Stmt} {depth : Nat}
  (hnested : ∀ n, Contract n numberFirst nothing (StatementRead depths depth) nested)

/-! ## If statements -/

theorem contract_condition (n : Nat) :
    Contract n (fun _ _ => True) nothing
      (fun e used _ => Spells [.token (.char '('), .expr e, .token (.char ')')] (used.map (·.kind)) ∧ e.Readable depths)
      (condition depths) := by
  refine .read (.ofKind (.char '(')) [number, .ofKind (.char ')')] (takes_char _ _) rfl inner_char trivial
    (fun _ => completes_upTo depths _ (by decide) fun e => completes_pure e) fun t ht n' _ => ?_
  refine contract_upTo [] (by decide) (fun _ _ _ => trivial) (fun _ _ _ => trivial) (fun e => completes_pure e)
    fun e used u hread hu n'' _ => .pure e fun rest _ => ⟨?_, hread.writable, hread.shallow⟩
  simpa [kind_of_isChar ht, hu] using (Spells.token (.char '(') (.expr hread.written (.tokens [.char ')'])) :)

include hnested

theorem contract_arm (hfill : Completes [number, .ofKind (.char ';')] nested) (n : Nat) :
    Contract n (fun _ _ => True) nothing (ArmRead depths depth) (arm depths nested) := by
  refine .bind [number, .ofKind (.char ';')] (contract_condition n) (fun _ _ _ => trivial) (by simp; rfl)
    (fun test => hfill.seq fun s => completes_pure (test, s)) fun test used mid ⟨hwritten, htest⟩ n' _ => ?_
  refine .bindPure (Prod.mk test) ((hnested n').mono (fun used' t h => ⟨trivial, fun hused => h.closes hused⟩) ?_)
  intro s used' rest _ _ hread _
  refine ⟨?_, htest, hread.readable, hread.attached, hread.closed⟩
  simpa using hwritten.append hread.written

theorem contract_arms (hfill : Completes [number, .ofKind (.char ';')] nested) (n : Nat) :
    Contract n (fun used _ => used ≠ []) ElseIf (fun arms used rest => ArmsRead depths depth arms used rest ∧ ¬ ElseIf rest)
      (whole (fun n (_ : Unit) => elseIfArms (arm depths nested) n) ()) :=
  .elseIfArms (contract_arm hnested hfill) .none .more n

omit hnested in
/-- the last part of an if statement, if its first word has come -/
def elseRest (nested : Parser Stmt) (token : Token) (arms : List (Expr × Stmt)) (comes : Bool) : Parser Stmt := do
  let otherwise ← if comes then some <$> nested else pure none
  return .branch token arms otherwise

omit hnested in
theorem ifStatement_eq (token : Token) : ifStatement depths nested token = (do
    let first ← arm depths nested
    let others ← whole (fun n (_ : Unit) => elseIfArms (arm depths nested) n) ()
    elseRest nested token (first :: others) (← takeWord "else")) := by
  have hrest (first : Expr × Stmt) (n : Nat) : (do
      let others ← elseIfArms (arm depths nested) n
      let otherwise ← if ← takeWord "else" then some <$> nested else pure none
      return .branch token (first :: others) otherwise : Parser Stmt) =
      elseIfArms (arm depths nested) n >>= fun others => takeWord "else" >>= elseRest nested token (first :: others) := by
    refine bind_congr fun others => bind_congr fun b => ?_
    cases b <;> rfl
  exact bind_congr fun first => (bind_congr fun n => hrest first n).trans rfl

omit hnested in
theorem completes_elseRest (token : Token) (arms : List (Expr × Stmt)) :
    Completes [] (takeWord "else" >>= elseRest nested token arms) := by
  intro tail htail
  obtain ⟨t, rest, rfl⟩ := htail.1.exists_cons
  refine ⟨.branch token arms none, (run_choice _ _ _ _).trans ?_⟩
  rw [if_neg]
  · rfl
  · intro ht
    have := htail.2 t rfl
    rw [Token.closes, kind_of_isSymbol ht] at this
    simp at this

theorem contract_ifStatement (hfill : Completes [number, .ofKind (.char ';')] nested) (token : Token) {t : Token}
    (ht : t.kind = .symbol "if") (n : Nat) :
    Contract n (fun _ _ => True) nothing (fun s used rest => StatementRead depths (depth + 1) s (t :: used) rest)
      (ifStatement depths nested token) := by
  have harm := contract_arm hnested hfill
  rw [ifStatement_eq]
  refine .bind [] (harm n) (fun _ _ h => h) (by simp)
    (fun first => (completes_elseIfArms (Contract.trims harm)).seq fun others => completes_elseRest token _)
    fun first used mid hfirst n' _ => ?_
  refine .bindChoice (b := fun others => Stmt.branch token (first :: others) none) (contract_arms hnested hfill n')
    (fun used' t' h => ⟨trivial, fun h' => absurd h' h⟩) (fun others used' rest h => h.2) (fun u hu => ?_) (fun _ => rfl)
    (fun others used' rest h hrest => ?_) fun others used' mid' h u hu n'' _ => ?_
  · exact ⟨by simp [Token.closes, kind_of_isSymbol hu], inner_word u hu⟩
  · intro hmid
    refine .ofArms ht (hmid ▸ hfirst) h.1 ?_
    cases rest with
    | nil => rfl
    | cons u rest => exact hrest u rfl
  · refine .bindPure (Stmt.branch token (first :: others)) (.map some ?_)
    refine (hnested n'').mono (fun used'' t' h => ⟨⟨trivial, by simp⟩, fun hused => h.not_isSymbol hused⟩) ?_
    intro s used'' rest _ _ hread
    refine ⟨fun hmid' hmid => ?_, hread.nonempty⟩
    subst hmid' hmid
    refine .ofElse ht (kind_of_isSymbol hu) (by simpa using hfirst) h.1 hread ?_
    obtain ⟨v, used'', rfl⟩ := List.exists_cons_of_ne_nil hread.nonempty
    by_contra hif
    exact h.2 ⟨u, v, _, rfl, hu, by simpa [startsWord] using hif⟩

/-! ## For statements -/

omit hnested in
def loopRest (depths : Depths) (nested : Parser Stmt) (token : Token) (counter : Option Param) : Parser Stmt := do
  let start ← fullExpression depths
  char ';' .forStatement
  let test ← fullExpression depths
  char ';' .forStatement
  let increment ← fullExpression depths
  char ')' .forStatement
  return .loop token counter start test increment (← nested)

theorem contract_loopRest (hfill : Completes [number, .ofKind (.char ';')] nested) (token : Token) {t u : Token}
    (ht : t.kind = .symbol "for") (hu : u.kind = .char '(') {counter : Option Param} {before : List Token}
    (hcounter : CounterRead counter before) (n : Nat) :
    Contract n numberFirst nothing
      (fun s used rest => StatementRead depths (depth + 1) s (t :: u :: (before ++ used)) rest ∧ used ≠ [])
      (loopRest depths nested token counter) := by
  have hbody (start test increment : Expr) : Completes [number, .ofKind (.char ';')]
      (nested >>= fun body => pure (Stmt.loop token counter start test increment body)) :=
    hfill.seq fun body => completes_pure _
  have hincrement (start test : Expr) := completes_upTo depths .forStatement (c := ')') (by decide) (hbody start test)
  have htest (start : Expr) := completes_upTo depths .forStatement (c := ';') (by decide) (hincrement start)
  refine contract_upTo _ (by decide) (fun _ _ h => h) (fun _ _ h => fun h' => absurd h' h) htest
    fun start used₁ a hstart ha n₁ _ => ?_
  refine contract_upTo _ (by decide) (by simp [numberFirst]) (by simp [numberFirst]) (hincrement start)
    fun test used₂ b htest hb n₂ _ => ?_
  refine contract_upTo _ (by decide) (by simp [numberFirst]) (by simp [numberFirst]) (hbody start test)
    fun increment used₃ c hincrement hc n₃ _ => ?_
  refine .bindPure (Stmt.loop token counter start test increment) ((hnested n₃).mono (by simp [numberFirst]) ?_)
  exact fun body used rest _ _ hread => ⟨.loop ht hu hcounter hstart ha htest hb hincrement hc hread, by simp⟩

omit hnested in
theorem forStatement_eq (token : Token) : forStatement depths nested token = (do
    char '(' .forStatement
    if ← seesType then
      let ty ← type
      let name ← symbol .forVariable
      char '=' .forVariable
      loopRest depths nested token (some ⟨ty, name⟩)
    else loopRest depths nested token none) := by
  refine bind_congr fun _ => (bind_assoc seesType _ _).trans (bind_congr fun b => ?_)
  cases b
  · rfl
  · simp only [if_true, bind_assoc, pure_bind]
    rfl

omit hnested in
/-- tokens that complete a for statement behind the declaration of its variable -/
def loopFill : List Token :=
  [number, .ofKind (.char ';'), number, .ofKind (.char ';'), number, .ofKind (.char ')'), number, .ofKind (.char ';')]

omit hnested in
theorem completes_loopRest (hfill : Completes [number, .ofKind (.char ';')] nested) (token : Token)
    (counter : Option Param) : Completes loopFill (loopRest depths nested token counter) :=
  completes_upTo depths _ (by decide) fun _ => completes_upTo depths _ (by decide) fun _ =>
    completes_upTo depths _ (by decide) fun _ => hfill.seq fun _ => completes_pure _

theorem contract_forStatement (hfill : Completes [number, .ofKind (.char ';')] nested) (token : Token) {t : Token}
    (ht : t.kind = .symbol "for") (n : Nat) :
    Contract n (fun _ _ => True) nothing (fun s used rest => StatementRead depths (depth + 1) s (t :: used) rest)
      (forStatement depths nested token) := by
  rw [forStatement_eq]
  refine .read (.ofKind (.char '(')) loopFill (takes_char _ _) rfl inner_char trivial
    (fun _ tail htail => completes_loopRest hfill token none tail htail) fun u hu n₁ _ => ?_
  refine .choiceOfType (fun word ty hword n₂ _ => ?_) ?_
  · refine .read (.ofKind (.symbol "x")) _ (takes_symbol _) rfl inner_symbol trivial
      (fun name => .read (t := .ofKind (.char '=')) (takes_char _ _) rfl (completes_loopRest hfill token _))
      fun name hname n₃ _ => ?_
    refine .read (.ofKind (.char '=')) _ (takes_char _ _) rfl inner_char trivial
      (fun _ => completes_loopRest hfill token _) fun e he n₄ _ => ?_
    have hcounter : CounterRead (some ⟨ty, name⟩) [word, name, e] := by
      refine ⟨?_, by simpa using ⟨mem_declarable hword, kind_of_named hname⟩⟩
      simpa [Param.counterPieces, kind_of_type hword, kind_of_isChar he] using
        Spells.tokens [.symbol ty.name, name.kind, .char '=']
    exact (contract_loopRest hnested hfill token ht (kind_of_isChar hu) hcounter n₄).mono (by simp)
      fun s used rest _ _ h => h.1
  · have hcounter : CounterRead none [] := ⟨.nil, by simp⟩
    exact (contract_loopRest hnested hfill token ht (kind_of_isChar hu) hcounter n₁).mono
      (fun used t' h => ⟨trivial, fun hused => h.type? hused⟩) fun s used rest _ _ h => h

/-! ## Blocks -/

theorem contract_block (n : Nat) :
    Contract n (fun used t => used = [] → t.closes = true) nothing (fun body used _ => BlockRead depths depth body used)
      (block nested) :=
  .statementsToBrace (fun s used => ∃ rest, StatementRead depths depth s used rest)
    (fun n => (hnested n).mono (fun _ _ h => h) fun _ _ rest _ _ h => ⟨⟨rest, h⟩, h.nonempty⟩) .none .more n

theorem completes_block : Completes [.ofKind (.char '}')] (block nested) :=
  completes_statementsToBrace fun hends hok =>
    Contract.shrinks hnested StatementRead.nonempty hends hok

/-! ## Declarations -/

omit hnested in
/-- the initial value of a declared variable, if its equals sign has come -/
def startRest (depths : Depths) (token : Token) (ty : Ty) (names : List Token) (comes : Bool) : Parser Stmt := do
  if comes then
    let start ← fullExpression depths
    char ';' .variableDeclaration
    return .var token ty names (some start)
  else
    char ';' .variableDeclaration
    return .var token ty names none

omit hnested in
theorem declaredNames_eq (token : Token) (ty : Ty) (name : Token) : declaredNames depths token ty name = (do
    let others ← whole (fun n (_ : Unit) => moreNames n) ()
    startRest depths token ty (name :: others) (← takeChar '=')) := by
  have hrest (n : Nat) : (do
      let others ← moreNames n
      let start ← if ← takeChar '=' then some <$> fullExpression depths else pure none
      char ';' .variableDeclaration
      return .var token ty (name :: others) start : Parser Stmt) =
      moreNames n >>= fun others => takeChar '=' >>= startRest depths token ty (name :: others) := by
    refine bind_congr fun others => bind_congr fun b => ?_
    cases b
    · rfl
    · simp only [if_true, bind_map_left]
      rfl
  exact (bind_congr hrest).trans rfl

omit hnested in
theorem contract_declaredNames (token : Token) {word name : Token} {ty : Ty} (hword : word.type? = some ty)
    (hname : name.IsName) (n : Nat) :
    Contract n (fun used t => used = [] → t.isChar '(' = false) nothing
      (fun s used rest => StatementRead depths (depth + 1) s (word :: name :: used) rest)
      (declaredNames depths token ty name) := by
  rw [declaredNames_eq]
  refine .bind [.ofKind (.char ';')] (Contract.moreNames n) (fun _ _ h h' => absurd h' h) (by simp [continuingMarks])
    (fun others tail _ => ⟨_, rfl⟩) fun others used mid hothers n₁ _ => ?_
  refine .choice inner_char (fun t ht n₂ _ => ?_) ?_
  · refine contract_upTo [] (by decide) (by simp) (by simp) (fun e => completes_pure _) fun e used₁ u he hu n₃ _ =>
      .pure _ fun rest _ _ => ?_
    have hinit : Spells (startPieces (some e)) ((t :: used₁).map (·.kind)) := by
      simpa [kind_of_isChar ht, startPieces] using (Spells.token (.char '=') (.expr he.written .nil) :)
    simpa using StatementRead.var hword hname hothers hinit (by simpa using ⟨he.writable, he.shallow⟩) hu
  · refine .read (.ofKind (.char ';')) [] (takes_char _ _) rfl inner_char (by simp [continuingMarks])
      (fun _ => completes_pure _) fun u hu n₃ _ => .pure _ fun rest _ => ⟨fun _ _ => ?_, by simp⟩
    have hinit : Spells (startPieces none) (([] : List Token).map (·.kind)) := .nil
    exact StatementRead.var hword hname hothers hinit (by simp) (kind_of_isChar hu)

omit hnested in
theorem contract_parameter (place : Construct) (n : Nat) :
    Contract n itemFirst nothing (fun p used _ => ParameterRead p used ∧ used ≠ []) (parameter place) := by
  refine .read (.ofKind (.symbol "int")) [.ofKind (.symbol "x")] takes_type rfl inner_type (fun _ => ⟨by decide, fun _ => rfl⟩)
    (fun ty => .read (takes_symbol _) rfl (completes_pure _)) fun word hword n₁ _ => ?_
  refine .read (.ofKind (.symbol "x")) [] (takes_symbol _) rfl inner_symbol (by simp [itemFirst])
    (fun name => completes_pure _) fun name hname n₂ _ => .pure _ fun rest _ => ⟨⟨?_, ?_⟩, by simp⟩
  · obtain ⟨ty, hty⟩ := Option.isSome_iff_exists.1 hword
    simp [hty, kind_of_type hty]
  · obtain ⟨ty, hty⟩ := Option.isSome_iff_exists.1 hword
    simpa [hty] using ⟨mem_declarable hty, kind_of_named hname⟩

omit hnested in
theorem contract_parameters (place : Construct) (n : Nat) :
    Contract n itemFirst nothing (fun params used _ => ParametersRead params used ∧ used ≠ [])
      (listUpTo (parameter place) ')' place) :=
  .listUpTo (by decide) (contract_parameter place) .none .one .more n

theorem completes_functionBody (token : Token) (ty : Ty) (name brace : Token) (params : List Param) (place : Construct) :
    Completes [.ofKind (.char '{'), .ofKind (.char '}')] (do
      char '{' place
      return Stmt.fn (.mk token ty name params brace (← block nested))) :=
  .read (takes_char _ _) rfl ((completes_block hnested).seq fun _ => completes_pure _)

theorem contract_declaredFunction (token : Token) {word name t : Token} {ty : Ty} (hword : word.type? = some ty)
    (hname : name.IsName) (ht : t.kind = .char '(') (n : Nat) :
    Contract n (fun _ _ => True) nothing
      (fun s used rest => StatementRead depths (depth + 1) s (word :: name :: t :: used) rest)
      (declaredFunction nested token ty name) := by
  refine .bind [.ofKind (.char '{'), .ofKind (.char '}')]
    (contract_parameters _ n) (fun _ _ _ => trivial) (by simp [continuingMarks])
    (fun params => .current fun brace => completes_functionBody hnested _ _ _ _ _ _)
    fun params used mid ⟨hparams, hsome⟩ n₁ _ => ?_
  refine .current (fun brace brace' => .bind fun _ => .bind fun body => alike_pure _ _) fun brace => ?_
  refine .read (.ofKind (.char '{')) [.ofKind (.char '}')] (takes_char _ _) rfl inner_char (by simp [continuingMarks])
    (fun _ => (completes_block hnested).seq fun body => completes_pure _) fun u hu n₂ _ => ?_
  refine .bindPure (fun body => Stmt.fn (.mk token ty name params brace body)) ?_
  refine (contract_block hnested n₂).mono (by simp) fun body used₁ rest _ _ hbody => ⟨fun _ => ?_, by simp⟩
  exact .fn hword hname ht hparams (kind_of_isChar hu) hbody

omit hnested in
/-- a declaration, the type of which has been read -/
def declarationRest (depths : Depths) (nested : Parser Stmt) (token : Token) (ty : Ty) : Parser Stmt := do
  let name ← symbol .declaration
  if ← takeChar '(' then declaredFunction nested token ty name
  else declaredNames depths token ty name

theorem contract_declarationRest (token : Token) {word : Token} {ty : Ty} (hword : word.type? = some ty) (n : Nat) :
    Contract n (fun _ _ => True) nothing (fun s used rest => StatementRead depths (depth + 1) s (word :: used) rest)
      (declarationRest depths nested token ty) := by
  refine .read (.ofKind (.symbol "x")) [.ofKind (.char ';')] (takes_symbol _) rfl inner_symbol trivial
    (fun name tail _ => ⟨_, rfl⟩) fun name hname n₁ _ => ?_
  refine .choice inner_char (fun t ht n₂ _ => ?_) ?_
  · exact contract_declaredFunction hnested token hword (kind_of_named hname) (kind_of_isChar ht) n₂
  · refine (contract_declaredNames token hword (kind_of_named hname) n₁).mono (fun used t h => ⟨trivial, h⟩)
      fun s used rest _ _ h => ⟨fun _ => h, fun _ t ht => closes_of_isChar ht (by decide)⟩

end Nested

/-! ## Statements -/

/-- a statement that starts with none of the words and characters of the other kinds -/
def expressionStatement (depths : Depths) (token : Token) : Parser Stmt := do
  let e ← fullExpression depths
  char ';' .expressionStatement
  return .expr token e

def returnRest (depths : Depths) (token : Token) : Parser Stmt := do
  let value ← fullExpression depths
  char ';' .returnStatement
  return .ret token value

/-- a parser that is refused if there is no depth for what it nests -/
def guarded (depth : Nat) (p : Parser Stmt) : Parser Stmt :=
  (if depth = 0 then refuse .tooDeep else pure ()) >>= fun _ => p

/-- a statement whose first token is known -/
def statementAt (depths : Depths) (depth : Nat) (token : Token) : Parser Stmt := do
  if ← takeWord "if" then guarded depth (ifStatement depths (statement depths depth) token)
  else if ← takeWord "for" then guarded depth (forStatement depths (statement depths depth) token)
  else if ← takeWord "return" then returnRest depths token
  else if ← takeChar '{' then return .block token (← block (statement depths depth))
  else if ← seesType then
    let ty ← type
    declarationRest depths (statement depths depth) token ty
  else expressionStatement depths token

theorem statement_succ (depth : Nat) : statement depths (depth + 1) = current >>= statementAt depths depth := rfl

theorem completes_statement (depth : Nat) : Completes [number, .ofKind (.char ';')] (statement depths (depth + 1)) :=
  fun tail htail => completes_upTo depths .expressionStatement (c := ';') (by decide)
    (fun e => completes_pure (Stmt.expr number e)) tail htail

theorem alike_ifStatement (nested : Parser Stmt) (token token' : Token) :
    Alike (ifStatement depths nested token) (ifStatement depths nested token') := by
  rw [ifStatement_eq, ifStatement_eq]
  refine .bind fun first => .bind fun others => .bind fun b => ?_
  cases b
  · exact alike_pure _ _
  · exact .bind fun otherwise => alike_pure _ _

theorem alike_forStatement (nested : Parser Stmt) (token token' : Token) :
    Alike (forStatement depths nested token) (forStatement depths nested token') :=
  .bind fun _ => .bind fun _ => .bind fun _ => .bind fun _ => .bind fun _ => .bind fun _ => .bind fun _ =>
    .bind fun _ => .bind fun _ => alike_pure _ _

theorem alike_declarationRest (nested : Parser Stmt) (token token' : Token) (ty : Ty) :
    Alike (declarationRest depths nested token ty) (declarationRest depths nested token' ty) := by
  refine .bind fun name => .bind fun b => ?_
  cases b
  · rw [if_neg (by simp), if_neg (by simp), declaredNames_eq, declaredNames_eq]
    refine .bind fun others => .bind fun b => ?_
    cases b
    · exact .bind fun _ => alike_pure _ _
    · exact .bind fun start => .bind fun _ => alike_pure _ _
  · exact .bind fun params => .bind fun brace => .bind fun _ => .bind fun body => alike_pure _ _

theorem alike_guarded (depth : Nat) {p q : Parser Stmt} (h : Alike p q) : Alike (guarded depth p) (guarded depth q) :=
  .bind fun _ => h

theorem alike_statementAt (depth : Nat) (token token' : Token) :
    Alike (statementAt depths depth token) (statementAt depths depth token') := by
  refine .bind fun b => ?_
  cases b
  case true => exact alike_guarded depth (alike_ifStatement _ _ _)
  refine .bind fun b => ?_
  cases b
  case true => exact alike_guarded depth (alike_forStatement _ _ _)
  refine .bind fun b => ?_
  cases b
  case true => exact .bind fun value => .bind fun _ => alike_pure _ _
  refine .bind fun b => ?_
  cases b
  case true => exact .bind fun body => alike_pure _ _
  refine .bind fun b => ?_
  cases b
  case true => exact .bind fun ty => alike_declarationRest _ _ _ _
  exact .bind fun e => .bind fun _ => alike_pure _ _

/-- with no depth for what is nested all is refused -/
theorem contract_guarded {size depth : Nat} {first : List Token → Token → Prop}
    {reads : Stmt → List Token → List Token → Prop} {p : Parser Stmt}
    (hp : ∀ d, depth = d + 1 → Contract size first nothing reads p) :
    Contract size first nothing reads (guarded depth p) := by
  cases depth with
  | zero => exact Contract.tooDeep
  | succ d => exact hp d rfl

theorem contract_statement_succ {depth : Nat}
    (ih : ∀ n, Contract n numberFirst nothing (StatementRead depths depth) (statement depths depth)) (n : Nat) :
    Contract n numberFirst nothing (StatementRead depths (depth + 1)) (statement depths (depth + 1)) := by
  rw [statement_succ]
  refine .current (alike_statementAt depth) fun token => ?_
  refine .choice inner_word (fun t ht n₁ _ => ?_) ?_
  · refine contract_guarded fun d hd => ?_
    subst hd
    exact (contract_ifStatement ih (completes_statement d) token (kind_of_isSymbol ht) n₁).mono
      (fun used t' _ => by simp [numberFirst]) fun s used rest _ _ h => ⟨h, by simp⟩
  refine .choice inner_word (fun t ht n₁ _ => ?_) ?_
  · refine contract_guarded fun d hd => ?_
    subst hd
    exact (contract_forStatement ih (completes_statement d) token (kind_of_isSymbol ht) n₁).mono
      (fun used t' _ => by simp [numberFirst]) fun s used rest _ _ h => ⟨fun _ => ⟨h, by simp⟩, by simp⟩
  refine .choice inner_word (fun t ht n₁ _ => ?_) ?_
  · refine contract_upTo [] (by decide) (by simp [numberFirst]) (by simp [numberFirst]) (fun e => completes_pure _)
      fun value used u hvalue hu n₂ _ => .pure _ fun rest _ => ?_
    exact ⟨fun _ => ⟨fun _ => ⟨.ret (kind_of_isSymbol ht) hvalue hu, by simp⟩, by simp⟩, by simp⟩
  refine .choice inner_char (fun t ht n₁ _ => ?_) ?_
  · refine .bindPure (Stmt.block token) ?_
    refine (contract_block ih n₁).mono (by simp [numberFirst]) fun body used rest _ _ hbody => ?_
    exact ⟨fun _ => ⟨fun _ => ⟨fun _ => ⟨.block (kind_of_isChar ht) hbody, by simp⟩, by simp⟩, by simp⟩, by simp⟩
  refine .choiceOfType (fun word ty hword n₁ _ => ?_) ?_
  · refine (contract_declarationRest ih token hword n₁).mono (by simp [numberFirst]) fun s used rest _ _ h => ?_
    exact ⟨fun _ => ⟨fun _ => ⟨fun _ => ⟨fun _ => ⟨h, by simp⟩, by simp⟩, by simp⟩, by simp⟩, by simp⟩
  · refine contract_upTo [] (by decide) (fun used t h => ?_) (fun used t h => ?_) (fun e => completes_pure _)
      fun e used u he hu n₁ _ => .pure _ fun rest _ => ?_
    · exact ⟨⟨⟨⟨⟨h, fun h' => h.not_isSymbol h'⟩, fun h' => h.not_isSymbol h'⟩, fun h' => h.not_isSymbol h'⟩,
        fun h' => h.not_isChar h'⟩, fun h' => h.type? h'⟩
    · simp [numberFirst, h]
    · have : StatementRead depths (depth + 1) (.expr token e) (used ++ [u]) rest := .expr he hu
      exact ⟨⟨fun _ => ⟨fun _ => ⟨fun _ => ⟨fun _ => ⟨this, by simp⟩, by simp⟩, by simp⟩, by simp⟩, by simp⟩, by simp⟩

/-- the contract of statements with any depth -/
theorem contract_statement (depth : Nat) (n : Nat) :
    Contract n numberFirst nothing (StatementRead depths depth) (statement depths depth) := by
  induction depth generalizing n with
  | zero => exact Contract.tooDeep
  | succ depth ih => exact contract_statement_succ ih n

end Parser

/-! ## Scripts -/

open LevelScript.Syntax.Parser

/-- the contract of a statement that stands in no other one -/
theorem contract_fullStatement (n : Nat) :
    Contract n numberFirst nothing (StatementRead depths depths.statement) (statement depths depths.statement) :=
  contract_statement _ n

theorem parseStatement_eq_ok {ts rest : List Token} {s : Stmt} :
    parseStatement depths ts = .ok (s, rest) ↔ statement depths depths.statement ts = .ok (s, rest) := by
  rw [parseStatement, StateT.run]
  split
  · rename_i h
    simp [h]
  · rfl

theorem parseStatement_eq_error {ts rest : List Token} {cause : RefusalCause} (hcause : cause ≠ .tooDeep) :
    parseStatement depths ts = .error ⟨cause, rest⟩ ↔ statement depths depths.statement ts = .error ⟨cause, rest⟩ := by
  rw [parseStatement, StateT.run]
  split
  · rename_i h
    simp [h, hcause.symm]
  · rfl

theorem parseStatement_shrinks {ts rest : List Token} {s : Stmt} (hends : Ends ts)
    (hok : parseStatement depths ts = .ok (s, rest)) : Ends rest ∧ rest.length < ts.length :=
  Contract.shrinks contract_fullStatement StatementRead.nonempty hends (parseStatement_eq_ok.1 hok)

/-- a bound beyond the number of tokens changes nothing -/
theorem parseUpTo_eq_of_length_le (n m : Nat) {ts : List Token} (hends : Ends ts) (hn : ts.length ≤ n)
    (hm : ts.length ≤ m) : parseUpTo depths n ts = parseUpTo depths m ts := by
  induction n generalizing m ts with
  | zero =>
    rw [List.length_eq_zero_iff.1 (Nat.le_zero.1 hn)] at hends
    exact absurd hends not_ends_nil
  | succ n ih =>
    cases m with
    | zero =>
      rw [List.length_eq_zero_iff.1 (Nat.le_zero.1 hm)] at hends
      exact absurd hends not_ends_nil
    | succ m =>
      rw [parseUpTo, parseUpTo]
      rcases hs : parseStatement depths ts with r | ⟨s, rest⟩
      · rfl
      · obtain ⟨hends', hlt⟩ := parseStatement_shrinks hends hs
        simp only [ih m hends' (by omega) (by omega)]

/-- a script is nothing, or a statement and a script -/
theorem parse_eq {ts : List Token} (hends : Ends ts) : parse ts depths =
    if ended ts then .ok [] else match parseStatement depths ts with
      | .error r => .error r
      | .ok (s, rest) => (s :: ·) <$> parse rest depths := by
  obtain ⟨t, ts, rfl⟩ := hends.exists_cons
  rw [parse, parsePrefix, List.length_cons, parseUpTo]
  split_ifs with hended
  · rfl
  · rcases hs : parseStatement depths (t :: ts) with r | ⟨s, rest⟩
    · rfl
    · obtain ⟨hends', hlt⟩ := parseStatement_shrinks hends hs
      rw [List.length_cons] at hlt
      simp only [parseUpTo_eq_of_length_le ts.length rest.length hends' (by omega) le_rfl, parse, parsePrefix]
      split <;> rfl

/-- tokens behind which there are others are not at the end of a script -/
theorem not_ended {used : List Token} (hused : used ≠ []) (hinner : Inner used) (rest : List Token) :
    ended (used ++ rest) = false := by
  obtain ⟨t, used, rfl⟩ := List.exists_cons_of_ne_nil hused
  have := hinner t List.mem_cons_self
  unfold ended
  split <;> simp_all

/-- a script that starts with a statement is this statement and the script behind it -/
theorem parse_of_statement {ts rest : List Token} {s : Stmt} (hends : Ends ts)
    (hok : statement depths depths.statement ts = .ok (s, rest)) : parse ts depths = (s :: ·) <$> parse rest depths := by
  obtain ⟨used, rfl, hinner, hread, -⟩ := (contract_fullStatement ts.length).accepts le_rfl hends hok
  rw [parse_eq hends, not_ended hread.nonempty hinner, parseStatement_eq_ok.2 hok]
  rfl

end LevelScript.Syntax
