/-
The nodes that the parser makes of a source text.

`Node.ParsedFrom`: a program, a statement or an expression that a parser has read from some place of a list of tokens
on, or a part of such a node. What a name in the tree is spelled with is a token of the text (`Node.Legible`), and a name of
a text holds no line feed, since letters, digits and underscores are all that names are made of.
-/
import LevelScript.Proofs.ScriptRoundTrip
import LevelScript.Proofs.SourceTiling

namespace LevelScript.Syntax

/-! ## Nodes and their parts -/

/-- a node of a tree: the whole of it, a statement or an expression -/
inductive Node where
  | program (script : List Stmt)
  | statement (s : Stmt)
  | expression (e : Expr)

/-- the nodes right below a node; the body of a function is a block of its own -/
def Node.parts : Node → List Node
  | .program script => script.map .statement
  | .statement (.branch _ arms otherwise) =>
    arms.map (.expression ·.1) ++ arms.map (.statement ·.2) ++ otherwise.toList.map .statement
  | .statement (.loop _ _ start condition increment body) =>
    [.expression start, .expression condition, .expression increment, .statement body]
  | .statement (.ret _ value) => [.expression value]
  | .statement (.block _ body) => body.map .statement
  | .statement (.expr _ e) => [.expression e]
  | .statement (.var _ _ _ start) => start.toList.map .expression
  | .statement (.fn decl) => [.statement (.block decl.brace decl.body)]
  | .expression (.int ..) | .expression (.float ..) | .expression (.string ..) | .expression (.symbol ..) => []
  | .expression (.binary _ left _ right) => [.expression left, .expression right]
  | .expression (.assign _ target value) => [.expression target, .expression value]
  | .expression (.call _ callee arguments) => .expression callee :: arguments.map .expression
  | .expression (.member _ target _) => [.expression target]
  | .expression (.index _ target place) => [.expression target, .expression place]
  | .expression (.list _ elements) => elements.map .expression
  | .expression (.cast _ _ operand) => [.expression operand]

/-- the tokens of a node that name something: a member, variables, a function, parameters -/
def Node.nameTokens : Node → List Token
  | .statement (.loop _ counter ..) => counter.toList.map (·.name)
  | .statement (.var _ _ names _) => names
  | .statement (.fn decl) => decl.nameToken :: decl.params.map (·.name)
  | .expression (.member _ _ name) => [name]
  | _ => []

/-- a node that some parser, of whatever depths, has read from the tokens, or a part of one -/
inductive Node.ParsedFrom (tokens : List Token) : Node → Prop where
  | program {depths : Depths} {script : List Stmt} : parse tokens depths = .ok script → ParsedFrom tokens (.program script)
  | statement {depths : Depths} {before ts rest : List Token} {depth : Nat} {s : Stmt} : tokens = before ++ ts →
      ts ≠ [] → (Parser.statement depths depth).run ts = .ok (s, rest) → ParsedFrom tokens (.statement s)
  | expression {before ts rest : List Token} {depth : Nat} {e : Expr} : tokens = before ++ ts → ts ≠ [] →
      (Parser.expression depth).run ts = .ok (e, rest) → ParsedFrom tokens (.expression e)
  | part {n m : Node} : ParsedFrom tokens n → m ∈ n.parts → ParsedFrom tokens m

/-! ## Names of a text -/

/-- if the token is a name, then one without a line feed -/
def TokenKind.Plain (kind : TokenKind) : Prop := ∀ name, kind = .symbol name → '\n' ∉ name.toList

def Token.PlainName (t : Token) : Prop := t.IsName ∧ t.kind.Plain

theorem isSymbolPart_of_name {cs lexeme rest : List Char} {name : String}
    (hsplit : splitLexeme cs = some (lexeme, rest)) (hkind : kindOf? lexeme = some (.symbol name)) :
    ∀ c ∈ name.toList, isSymbolPart c = true := by
  cases cs with
  | nil => simp [splitLexeme] at hsplit
  | cons c more =>
    simp only [splitLexeme] at hsplit
    split at hsplit
    case isTrue hstart =>
      cases hsplit
      simp only [kindOf?, hstart, if_true, Option.some.injEq, TokenKind.symbol.injEq] at hkind
      rw [← hkind, String.toList_ofList]
      refine List.forall_mem_cons.2 ⟨by simp [isSymbolPart, hstart], fun d hd => ?_⟩
      exact List.mem_takeWhile_imp hd
    case isFalse hstart =>
      -- what starts with another character is no name
      obtain ⟨d, tail, rfl, hd⟩ : ∃ d tail, lexeme = d :: tail ∧ isSymbolStart d = false := by
        split at hsplit
        · cases hsplit
          exact ⟨c, _, rfl, by simpa using hstart⟩
        · split at hsplit
          · cases hsplit
            exact ⟨c, _, rfl, by simpa using hstart⟩
          · split at hsplit <;> cases hsplit
            exact ⟨c, _, rfl, by simpa using hstart⟩
      simp only [kindOf?, hd, Bool.false_eq_true, if_false] at hkind
      split_ifs at hkind
      · obtain ⟨x, -, hx⟩ := Option.map_eq_some_iff.1 hkind
        cases hx
      · cases hkind
      · cases hkind
      · cases hkind

theorem scanFrom_plain (file : Option String) (p : Position) (cs : List Char) :
    ∀ t ∈ (scanFrom file p cs).tokens, t.kind.Plain := by
  induction hn : cs.length using Nat.strongRecOn generalizing p cs with
  | ind n ih =>
    rcases hg : splitGap false p cs with ⟨start, rest⟩
    cases rest with
    | nil =>
      rw [scanFrom_ended hg]
      intro t ht
      rw [List.mem_singleton.1 ht]
      nofun
    | cons c more =>
      rcases scanFrom_begun hg with ⟨fault, hs⟩ | ⟨lexeme, rest, kind, hl, hk, hs⟩
      · rw [hs]
        exact List.forall_mem_nil _
      · have hless : rest.length < n := by
          have hlexeme := splitLexeme_length_lt hl
          have hgap : (c :: more).length ≤ cs.length := by simpa only [hg] using splitGap_length_le false p cs
          omega
        rw [hs]
        refine List.forall_mem_cons.2 ⟨?_, ih rest.length hless _ rest rfl⟩
        rintro name rfl hfeed
        exact absurd (isSymbolPart_of_name hl hk _ hfeed) (by decide)

/-- the tokens of a text are what scanning gives, and the last of them marks the end -/
theorem scanned_of_tokenize {source : String} {file : Option String} {tokens : List Token}
    (h : tokenize source file = .ok tokens) :
    tokens = (scanFrom file {} source.toList).tokens ∧ EndsAt source.toList tokens := by
  have horigin : (⟨{}, {}, file⟩ : Span).stop = .endOf [] := rfl
  obtain ⟨-, -, hends, -⟩ := scanFrom_tiles file source.toList horigin
  rcases tokenize_cases source file with ⟨fault, -, herror⟩ | ⟨hnone, hok⟩
  · rw [herror] at h
    cases h
  · rw [hok] at h
    cases h
    exact ⟨rfl, hends hnone⟩

theorem plain_of_tokenize {source : String} {file : Option String} {tokens : List Token}
    (h : tokenize source file = .ok tokens) : ∀ t ∈ tokens, t.kind.Plain := by
  rw [(scanned_of_tokenize h).1]
  exact scanFrom_plain file {} source.toList

/-- behind some of the tokens of a text, the end of the text is still to come -/
theorem ends_of_suffix {source : String} {file : Option String} {tokens before ts : List Token}
    (h : tokenize source file = .ok tokens) (htokens : tokens = before ++ ts) (hne : ts ≠ []) : Ends ts := by
  obtain ⟨-, front, last, hlast, heof, -⟩ := scanned_of_tokenize h
  refine ⟨ts.getLast hne, List.getLast_mem hne, ?_⟩
  have hsame : (before ++ ts).getLast? = some last := by
    rw [← htokens, hlast]
    simp
  rw [List.getLast?_append_of_ne_nil _ hne, List.getLast?_eq_getLast_of_ne_nil hne] at hsame
  rw [Option.some.inj hsame, heof]

/-! ## Names in what has been read -/

/-- every name in the node is a plain one -/
inductive Node.Legible : Node → Prop where
  | intro {n : Node} : (∀ t ∈ n.nameTokens, t.PlainName) → (∀ m ∈ n.parts, m.Legible) → Legible n

theorem Node.Legible.names {n : Node} (h : n.Legible) : ∀ t ∈ n.nameTokens, t.PlainName := by
  cases h with
  | intro hnames _ => exact hnames

theorem Node.Legible.parts {n : Node} (h : n.Legible) : ∀ m ∈ n.parts, m.Legible := by
  cases h with
  | intro _ hparts => exact hparts

theorem mem_commas {items : List (List TokenKind)} {item : List TokenKind} (hitem : item ∈ items) {kind : TokenKind}
    (hkind : kind ∈ item) : kind ∈ commas items := by
  induction items using commas.induct with
  | case1 => cases hitem
  | case2 only => rwa [commas, ← List.mem_singleton.1 hitem]
  | case3 first next others ih =>
    rw [commas, List.mem_append, List.mem_cons]
    rcases List.mem_cons.1 hitem with rfl | hrest
    · exact .inl hkind
    · exact .inr (.inr (ih hrest))

theorem writable_of_mem {es : List Expr} (h : Expr.AllWritable es) : ∀ e ∈ es, e.Writable := by
  induction es with
  | nil => simp
  | cons e es ih => exact List.forall_mem_cons.2 ⟨h.1, ih h.2⟩

/-- the names of an expression are spelled with the tokens that it is written with -/
theorem Expr.Written.legible {e : Expr} {ks : List TokenKind} (h : e.Written ks) (hw : e.Writable)
    (hks : ∀ k ∈ ks, k.Plain) : (Node.expression e).Legible := by
  have noNames {e : Expr} (h : (Node.expression e).nameTokens = []) :
      ∀ t ∈ (Node.expression e).nameTokens, t.PlainName := by simp [h]
  induction h with
  | group _ ih => exact ih hw fun k hk => hks k (by simp [hk])
  | int | float | string | symbol => exact .intro (noNames rfl) (List.forall_mem_nil _)
  | binary _ _ ihl ihr =>
    have hleft := ihl hw.1 fun k hk => hks k (by simp [hk])
    have hright := ihr hw.2 fun k hk => hks k (by simp [hk])
    exact .intro (noNames rfl) (by simp [Node.parts, hleft, hright])
  | assign _ _ iht ihv =>
    have htarget := iht hw.1 fun k hk => hks k (by simp [hk])
    have hvalue := ihv hw.2 fun k hk => hks k (by simp [hk])
    exact .intro (noNames rfl) (by simp [Node.parts, htarget, hvalue])
  | call _ _ ihc iha =>
    have hcallee := ihc hw.1 fun k hk => hks k (by simp [hk])
    have harguments := fun item hitem => iha item hitem (writable_of_mem hw.2 _ (List.mem_map_of_mem hitem))
      fun k hk => hks k (by simp [mem_commas (List.mem_map_of_mem hitem) hk])
    exact .intro (noNames rfl)
      (List.forall_mem_cons.2 ⟨hcallee, List.forall_mem_map.2 (List.forall_mem_map.2 harguments)⟩)
  | member _ ih =>
    have htarget := ih hw.1 fun k hk => hks k (by simp [hk])
    exact .intro (List.forall_mem_singleton.2 ⟨hw.2, hks _ (by simp)⟩) (by simp [Node.parts, htarget])
  | index _ _ iht ihp =>
    have htarget := iht hw.1 fun k hk => hks k (by simp [hk])
    have hplace := ihp hw.2 fun k hk => hks k (by simp [hk])
    exact .intro (noNames rfl) (by simp [Node.parts, htarget, hplace])
  | list _ ih =>
    have helements := fun item hitem => ih item hitem (writable_of_mem hw _ (List.mem_map_of_mem hitem))
      fun k hk => hks k (by simp [mem_commas (List.mem_map_of_mem hitem) hk])
    exact .intro (noNames rfl) (List.forall_mem_map.2 (List.forall_mem_map.2 helements))
  | cast _ ih =>
    have hoperand := ih hw.2 fun k hk => hks k (by simp [hk])
    exact .intro (noNames rfl) (by simp [Node.parts, hoperand])

/-- a piece that is spelled with plain tokens -/
def Piece.Plain : Piece → Prop
  | .token kind => kind.Plain
  | .expr e => ∃ ks, e.Written ks ∧ ∀ k ∈ ks, k.Plain

theorem Spells.plain {ps : List Piece} {ks : List TokenKind} (h : Spells ps ks) (hks : ∀ k ∈ ks, k.Plain) :
    ∀ p ∈ ps, p.Plain := by
  induction h with
  | nil => exact List.forall_mem_nil _
  | token kind _ ih =>
    rw [List.forall_mem_cons] at hks
    exact List.forall_mem_cons.2 ⟨hks.1, ih hks.2⟩
  | expr hwritten _ ih =>
    rw [List.forall_mem_append] at hks
    exact List.forall_mem_cons.2 ⟨⟨_, hwritten, hks.1⟩, ih hks.2⟩

theorem Piece.Plain.legible {e : Expr} (h : (Piece.expr e).Plain) (hw : e.Writable) : (Node.expression e).Legible := by
  obtain ⟨ks, hwritten, hks⟩ := h
  exact hwritten.legible hw hks

theorem mem_allPieces {ss : List Stmt} {s : Stmt} (hs : s ∈ ss) {p : Piece} (hp : p ∈ s.pieces) :
    p ∈ Stmt.allPieces ss := by
  induction ss with
  | nil => cases hs
  | cons first others ih =>
    rw [Stmt.allPieces, List.mem_append]
    rcases List.mem_cons.1 hs with rfl | hrest
    · exact .inl hp
    · exact .inr (ih hrest)

theorem mem_armPieces {arms : List (Expr × Stmt)} {arm : Expr × Stmt} (harm : arm ∈ arms) (behind : Bool) :
    .expr arm.1 ∈ Stmt.armPieces behind arms ∧ ∀ p ∈ arm.2.pieces, p ∈ Stmt.armPieces behind arms := by
  induction arms generalizing behind with
  | nil => cases harm
  | cons first others ih =>
    obtain ⟨test, body⟩ := first
    rcases List.mem_cons.1 harm with rfl | hrest
    · simp +contextual [Stmt.armPieces]
    · obtain ⟨htest, hbody⟩ := ih hrest true
      rw [Stmt.armPieces]
      exact ⟨by simp [htest], fun p hp => by simp [hbody p hp]⟩

/-- the names of a statement are spelled with the tokens that it is written with -/
theorem Stmt.Readable.legible {depths : Depths} {depth : Nat} {s : Stmt} (h : s.Readable depths depth)
    (hpieces : ∀ p ∈ s.pieces, p.Plain) :
    (Node.statement s).Legible := by
  induction h with
  | @branch _ _ arms otherwise _ htests _ _ iharms ihelse =>
    simp only [Stmt.pieces, List.forall_mem_append] at hpieces
    obtain ⟨hchain, helse⟩ := hpieces
    refine .intro (List.forall_mem_nil _) ?_
    simp only [Node.parts, List.forall_mem_append, List.forall_mem_map]
    refine ⟨⟨fun arm harm => ?_, fun arm harm => ?_⟩, fun s hs => ?_⟩
    · exact (hchain _ (mem_armPieces harm false).1).legible (htests arm harm).1
    · exact iharms arm harm fun p hp => hchain p ((mem_armPieces harm false).2 p hp)
    · obtain rfl := Option.mem_toList.1 hs
      exact ihelse s rfl fun p hp => helse p (List.mem_cons_of_mem _ hp)
  | @loop _ _ counter start condition increment _ hcounter hstart hcondition hincrement _ ih =>
    have hfirst := (hpieces (.expr start) (by simp [Stmt.pieces])).legible hstart.1
    have hsecond := (hpieces (.expr condition) (by simp [Stmt.pieces])).legible hcondition.1
    have hthird := (hpieces (.expr increment) (by simp [Stmt.pieces])).legible hincrement.1
    have hbody := ih fun p hp => hpieces p (by simp [Stmt.pieces, hp])
    refine .intro ?_ (by simp [Node.parts, hfirst, hsecond, hthird, hbody])
    simp only [Node.nameTokens, List.forall_mem_map]
    intro p hp
    obtain rfl := Option.mem_toList.1 hp
    exact ⟨(hcounter p rfl).2, hpieces (.token _) (by simp [Stmt.pieces, Param.counterPieces])⟩
  | ret hvalue =>
    have hlegible := (hpieces (.expr _) (by simp [Stmt.pieces])).legible hvalue.1
    exact .intro (List.forall_mem_nil _) (by simp [Node.parts, hlegible])
  | block _ ih =>
    refine .intro (List.forall_mem_nil _) (List.forall_mem_map.2 fun s hs => ?_)
    exact ih s hs fun p hp => hpieces p (by simp [Stmt.pieces, mem_allPieces hs hp])
  | expr he =>
    have hlegible := (hpieces (.expr _) (by simp [Stmt.pieces])).legible he.1
    exact .intro (List.forall_mem_nil _) (by simp [Node.parts, hlegible])
  | @var _ _ _ names start _ _ hnames hstart =>
    have hitems : ∀ k ∈ commas (names.map fun name => [name.kind]), k.Plain :=
      fun k hk => hpieces (.token k) (by simp [Stmt.pieces, hk])
    refine .intro (fun t ht => ⟨hnames t ht, hitems _ ?_⟩) (List.forall_mem_map.2 fun e he => ?_)
    · exact mem_commas (List.mem_map_of_mem (f := fun name => [name.kind]) ht) (List.mem_singleton_self _)
    · obtain rfl := Option.mem_toList.1 he
      exact (hpieces (.expr e) (by simp [Stmt.pieces, startPieces])).legible (hstart e rfl).1
  | @fn _ decl _ hname hparams _ ih =>
    obtain ⟨token, result, name, params, brace, body⟩ := decl
    have hitems : ∀ k ∈ commas (params.map fun p => [.symbol p.type.name, p.name.kind]), k.Plain :=
      fun k hk => hpieces (.token k) (by simp [Stmt.pieces, Function.pieces, hk])
    have hbody : ∀ s ∈ body, (Node.statement s).Legible := fun s hs =>
      ih s hs fun p hp => hpieces p (by simp [Stmt.pieces, Function.pieces, mem_allPieces hs hp])
    have hblock : (Node.statement (.block brace body)).Legible :=
      .intro (List.forall_mem_nil _) (List.forall_mem_map.2 hbody)
    refine .intro (List.forall_mem_cons.2 ⟨⟨hname, ?_⟩, List.forall_mem_map.2 fun p hp => ⟨(hparams p hp).2, ?_⟩⟩)
      (List.forall_mem_singleton.2 hblock)
    · exact hpieces (.token name.kind) (by simp [Stmt.pieces, Function.pieces])
    · exact hitems _ (mem_commas (List.mem_map_of_mem (f := fun p => [.symbol p.type.name, p.name.kind]) hp) (by simp))

/-! ## What the parser makes of a text -/

/-- the tokens that are used up are tokens of the text -/
theorem plain_of_used {tokens before used rest : List Token} (hplain : ∀ t ∈ tokens, t.kind.Plain)
    (htokens : tokens = before ++ (used ++ rest)) : ∀ k ∈ used.map (·.kind), k.Plain :=
  List.forall_mem_map.2 fun t ht => hplain t (by simp [htokens, ht])

/-- every node that the parser makes of a text is legible -/
theorem Node.ParsedFrom.legible {source : String} {file : Option String} {tokens : List Token}
    (htokens : tokenize source file = .ok tokens) {n : Node} (h : n.ParsedFrom tokens) : n.Legible := by
  have hplain := plain_of_tokenize htokens
  induction h with
  | @program _ script hparse =>
    have hne : tokens ≠ [] := by
      obtain ⟨-, front, last, rfl, -⟩ := scanned_of_tokenize htokens
      simp
    have hends := ends_of_suffix htokens (List.nil_append tokens).symm hne
    obtain ⟨used, rest, hsplit, -, -, hread⟩ := scriptRead_of_ok hends hparse
    have hpieces := hread.written.plain (plain_of_used hplain (hsplit.trans (List.nil_append _).symm))
    refine .intro (List.forall_mem_nil _) (List.forall_mem_map.2 fun s hs => ?_)
    exact (hread.readable s hs).legible fun p hp => hpieces p (mem_allPieces hs hp)
  | @statement _ before ts rest depth s hsplit hne hrun =>
    obtain ⟨used, rfl, -, hread, -⟩ :=
      (Parser.contract_statement depth ts.length).accepts le_rfl (ends_of_suffix htokens hsplit hne) hrun
    exact hread.readable.legible (hread.written.plain (plain_of_used hplain hsplit))
  | @expression before ts rest depth e hsplit hne hrun =>
    obtain ⟨used, rfl, -, hread, -⟩ :=
      ((Parser.contract_expression depth).1 ts.length).accepts le_rfl (ends_of_suffix htokens hsplit hne) hrun
    exact hread.written.legible hread.writable (plain_of_used hplain hsplit)
  | part _ hm ih => exact ih.parts _ hm

end LevelScript.Syntax
