/-
Tokens tile the source text.

A position is true in a text if its line and its column are those of its offset (`Position.endOf`), a token stands in a
text if its span has true positions and its lexeme is the text between them. `tokens_tile`: every token that scanning
gives stands in the text, and from the start of the text to the first token, and from each token to the next, there is
nothing but blanks and comments (`Gap`). If the whole text could be scanned, its last token, and no other, marks the
end of the text.

The invariant of scanning is that the text splits into what has been read and what remains, and that the current
position is the end of the first part.
-/
import Mathlib.Data.List.DropRight
import Mathlib.Tactic
import LevelScript.Syntax.Lexeme

namespace LevelScript.Syntax

/-! ## Positions -/

/-- the position behind a text: a line more than it has line feeds, and a column more than it has characters behind the
last of them -/
def Position.endOf (text : List Char) : Position where
  line := 1 + text.count '\n'
  column := 1 + (text.rtakeWhile (· ≠ '\n')).length
  offset := text.length

/-- the position is the end of the part of the text in front of its offset -/
def Position.TrueIn (text : List Char) (p : Position) : Prop := p = .endOf (text.take p.offset)

theorem Position.step_endOf (text : List Char) (c : Char) : (endOf text).step c = endOf (text ++ [c]) := by
  by_cases hc : c = '\n'
  · subst hc
    simp [step, endOf, Nat.add_assoc]
  · have hcount : (text ++ [c]).count '\n' = text.count '\n' := by simp [List.count_append, hc]
    simp [step, endOf, hc, hcount, Nat.add_assoc]

theorem Position.after_endOf (text more : List Char) : (endOf text).after more = endOf (text ++ more) := by
  induction more generalizing text with
  | nil => simp [after]
  | cons c more ih =>
    have hstep : (endOf text).after (c :: more) = (endOf (text ++ [c])).after more := by
      rw [← step_endOf]
      rfl
    rw [hstep, ih, List.append_assoc, List.singleton_append]

theorem Position.endOf_trueIn (text more : List Char) : (endOf text).TrueIn (text ++ more) := by
  have htake : (text ++ more).take (endOf text).offset = text := List.take_left' rfl
  rw [TrueIn, htake]

/-! ## Gaps -/

/-- a text of blanks and comments in front of another text; a comment goes on to the end of its line or of the text -/
inductive Gap (behind : List Char) : List Char → Prop where
  | nil : Gap behind []
  | blank {c : Char} {gap : List Char} : c ∈ [' ', '\t', '\r', '\n'] → Gap behind gap → Gap behind (c :: gap)
  | comment {line gap : List Char} : '\n' ∉ line → (∀ c ∈ (gap ++ behind).head?, c = '\n') → Gap behind gap →
      Gap behind ('/' :: '/' :: (line ++ gap))

/-- what is left of a gap inside of a comment -/
def InComment (behind gap : List Char) : Prop :=
  ∃ line more, gap = line ++ more ∧ '\n' ∉ line ∧ (∀ c ∈ (more ++ behind).head?, c = '\n') ∧ Gap behind more

theorem mem_of_isGap {c : Char} (h : isGap c = true) : c ∈ [' ', '\t', '\r', '\n'] := by
  simpa [isGap, or_assoc] using h

/-- a slash in front of a comment that starts with a slash opens it -/
theorem InComment.opened {behind rest gap : List Char} (h : InComment behind gap) (hgap : gap ++ behind = '/' :: rest) :
    Gap behind ('/' :: gap) := by
  obtain ⟨line, more, rfl, hline, hhead, hmore⟩ := h
  cases line with
  | nil =>
    -- the comment cannot be over, since a line feed is no slash
    have hslash := hhead '/' (by rw [← List.nil_append more, hgap, List.head?_cons, Option.mem_some])
    cases hslash
  | cons c line =>
    cases hgap
    exact .comment (fun hmem => hline (List.mem_cons_of_mem _ hmem)) hhead hmore

/-- what is dropped in front of a token is a gap, and the position behind it is the one where the token starts -/
theorem splitGap_spec {inComment : Bool} {p q : Position} {cs rest : List Char}
    (h : splitGap inComment p cs = (q, rest)) :
    ∃ gap, cs = gap ++ rest ∧ q = p.after gap ∧ if inComment then InComment rest gap else Gap rest gap := by
  induction cs generalizing inComment p with
  | nil =>
    cases h
    refine ⟨[], rfl, rfl, ?_⟩
    cases inComment with
    | true => exact ⟨[], [], rfl, by simp, by simp, .nil⟩
    | false => exact .nil
  | cons c cs ih =>
    unfold splitGap at h
    split_ifs at h with hcomment hblank hslash
    · obtain ⟨gap, rfl, rfl, hgap⟩ := ih h
      refine ⟨c :: gap, rfl, rfl, ?_⟩
      rw [if_pos hcomment]
      by_cases hc : c = '\n'
      · -- the line feed ends the comment and is a blank behind it
        rw [if_neg (by simpa using hc)] at hgap
        exact ⟨[], c :: gap, rfl, by simp, by simp [hc], .blank (by simp [hc]) hgap⟩
      · rw [if_pos (by simpa using hc)] at hgap
        obtain ⟨line, more, rfl, hline, hhead, hmore⟩ := hgap
        exact ⟨c :: line, more, rfl, by simp [Ne.symm hc, hline], hhead, hmore⟩
    · obtain ⟨gap, rfl, rfl, hgap⟩ := ih h
      refine ⟨c :: gap, rfl, rfl, ?_⟩
      rw [if_neg (by simp)] at hgap
      rw [if_neg hcomment]
      exact .blank (mem_of_isGap hblank) hgap
    · obtain ⟨rfl, hnext⟩ := hslash
      obtain ⟨gap, rfl, rfl, hgap⟩ := ih h
      refine ⟨'/' :: gap, rfl, rfl, ?_⟩
      rw [if_pos rfl] at hgap
      rw [if_neg hcomment]
      obtain ⟨more, hmore⟩ := List.head?_eq_some_iff.1 hnext
      exact hgap.opened hmore
    · cases h
      refine ⟨[], rfl, rfl, ?_⟩
      rw [if_neg hcomment]
      exact .nil

/-! ## Scanning -/

theorem kindOf?_ne_eof {lexeme : List Char} {kind : TokenKind} (hne : lexeme ≠ []) (h : kindOf? lexeme = some kind) :
    kind ≠ .eof := by
  rintro rfl
  cases lexeme with
  | nil => exact hne rfl
  | cons c rest =>
    simp only [kindOf?] at h
    split_ifs at h
    · cases h
    · obtain ⟨x, -, hx⟩ := Option.map_eq_some_iff.1 h
      cases hx
    · cases h
    · cases h
    · cases h

theorem scanFrom_ended {file : Option String} {p start : Position} {cs : List Char}
    (hg : splitGap false p cs = (start, [])) : scanFrom file p cs = ⟨[⟨.eof, "", ⟨start, start, file⟩⟩], none⟩ := by
  rw [scanFrom]
  split
  · simp_all
  · simp_all

/-- behind a gap comes a token and the scan of what remains, or a fault -/
theorem scanFrom_begun {file : Option String} {p start : Position} {cs more : List Char} {c : Char}
    (hg : splitGap false p cs = (start, c :: more)) :
    (∃ fault, scanFrom file p cs = ⟨[], some fault⟩) ∨
      ∃ lexeme rest kind, splitLexeme (c :: more) = some (lexeme, rest) ∧ kindOf? lexeme = some kind ∧
        scanFrom file p cs =
          ⟨⟨kind, String.ofList lexeme, ⟨start, start.after lexeme, file⟩⟩ ::
            (scanFrom file (start.after lexeme) rest).tokens, (scanFrom file (start.after lexeme) rest).fault⟩ := by
  rw [scanFrom]
  split
  · simp_all
  · rename_i start' c' more' hg'
    rw [hg] at hg'
    cases hg'
    split
    · exact .inl ⟨_, rfl⟩
    · rename_i lexeme rest hl
      split
      · exact .inl ⟨_, rfl⟩
      · rename_i kind hk
        exact .inr ⟨lexeme, rest, kind, hl, hk, rfl⟩

theorem tokenize_cases (source : String) (file : Option String) :
    (∃ fault, (scan source file).fault = some fault ∧ tokenize source file = .error fault) ∨
      (scan source file).fault = none ∧ tokenize source file = .ok (scan source file).tokens := by
  rcases h : (scan source file).fault with _ | fault
  · exact .inr ⟨rfl, by simp [tokenize, h]⟩
  · exact .inl ⟨fault, rfl, by simp [tokenize, h]⟩

/-! ## Tiling -/

/-- the token has true positions, and its lexeme is the text between them -/
structure Token.StandsIn (text : List Char) (t : Token) : Prop where
  start : t.span.start.TrueIn text
  stop : t.span.stop.TrueIn text
  ordered : t.span.start.offset ≤ t.span.stop.offset
  lexeme : t.lexeme.toList = text.extract t.span.start.offset t.span.stop.offset

/-- the second span starts behind the first one, with a gap in between -/
structure Span.Precedes (text : List Char) (a b : Span) : Prop where
  ordered : a.stop.offset ≤ b.start.offset
  gap : Gap (text.drop b.start.offset) (text.extract a.stop.offset b.start.offset)

/-- the last token marks the end of the text, and no other one does -/
def EndsAt (text : List Char) (tokens : List Token) : Prop :=
  ∃ before last, tokens = before ++ [last] ∧ last.kind = .eof ∧ last.span.start.offset = text.length ∧
    ∀ t ∈ before, t.kind ≠ .eof

theorem extract_middle (front middle back : List Char) :
    (front ++ (middle ++ back)).extract front.length (front ++ middle).length = middle := by
  simp [List.extract_eq_take_drop]

theorem standsIn_of_lexeme (front lexeme rest : List Char) (kind : TokenKind) (file : Option String) :
    Token.StandsIn (front ++ (lexeme ++ rest))
      ⟨kind, String.ofList lexeme, ⟨.endOf front, .endOf (front ++ lexeme), file⟩⟩ where
  start := Position.endOf_trueIn front _
  stop := List.append_assoc front lexeme rest ▸ Position.endOf_trueIn (front ++ lexeme) rest
  ordered := by simp [Position.endOf]
  lexeme := by
    rw [String.toList_ofList]
    exact (extract_middle front lexeme rest).symm

theorem precedes_of_gap {a b : Span} {front gap rest : List Char} (ha : a.stop = .endOf front)
    (hb : b.start = .endOf (front ++ gap)) (h : Gap rest gap) : a.Precedes (front ++ (gap ++ rest)) b where
  ordered := by simp [ha, hb, Position.endOf]
  gap := by
    have hbehind : (front ++ (gap ++ rest)).drop b.start.offset = rest := by
      rw [← List.append_assoc, hb]
      exact List.drop_left' rfl
    have hbetween : (front ++ (gap ++ rest)).extract a.stop.offset b.start.offset = gap := by
      rw [ha, hb]
      exact extract_middle front gap rest
    rw [hbehind, hbetween]
    exact h

/-- the tokens of a scan stand in the text, the first of them behind a span and each other one behind the one before it;
the scan comes to the end of the text unless it has a fault -/
structure Scan.Tiles (text : List Char) (behind : Span) (s : Scan) : Prop where
  stands : ∀ t ∈ s.tokens, t.StandsIn text
  chain : (behind :: s.tokens.map (·.span)).IsChain (Span.Precedes text)
  ends : s.fault = none → EndsAt text s.tokens
  inner : s.fault ≠ none → ∀ t ∈ s.tokens, t.kind ≠ .eof

section Tiles

variable {text : List Char} {behind : Span} {t : Token}

theorem tiles_fault (fault : ScanFault) : Scan.Tiles text behind ⟨[], some fault⟩ where
  stands := by simp
  chain := .singleton _
  ends := by simp
  inner := by simp

theorem tiles_end (hstands : t.StandsIn text) (hprecedes : behind.Precedes text t.span) (heof : t.kind = .eof)
    (hoffset : t.span.start.offset = text.length) : Scan.Tiles text behind ⟨[t], none⟩ where
  stands := by simpa using hstands
  chain := .cons_cons hprecedes (.singleton _)
  ends _ := ⟨[], t, rfl, heof, hoffset, by simp⟩
  inner hfault := absurd rfl hfault

theorem Scan.Tiles.cons {s : Scan} (h : s.Tiles text t.span) (hstands : t.StandsIn text)
    (hprecedes : behind.Precedes text t.span) (hinner : t.kind ≠ .eof) :
    Scan.Tiles text behind ⟨t :: s.tokens, s.fault⟩ where
  stands := List.forall_mem_cons.2 ⟨hstands, h.stands⟩
  chain := .cons_cons hprecedes h.chain
  ends hfault := by
    obtain ⟨before, last, htokens, hlast, hoffset, hbefore⟩ := h.ends hfault
    exact ⟨t :: before, last, congrArg _ htokens, hlast, hoffset, List.forall_mem_cons.2 ⟨hinner, hbefore⟩⟩
  inner hfault := List.forall_mem_cons.2 ⟨hinner, h.inner hfault⟩

end Tiles

/-- scanning goes on behind a span that ends where what remains of the text begins -/
theorem scanFrom_tiles (file : Option String) (cs : List Char) {front : List Char} {behind : Span}
    (hbehind : behind.stop = .endOf front) : (scanFrom file (.endOf front) cs).Tiles (front ++ cs) behind := by
  induction hn : cs.length using Nat.strongRecOn generalizing front cs behind with
  | ind n ih =>
    rcases hg : splitGap false (.endOf front) cs with ⟨start, rest⟩
    obtain ⟨gap, rfl, rfl, hgap⟩ := splitGap_spec hg
    rw [if_neg (by simp)] at hgap
    rw [Position.after_endOf] at hg
    cases rest with
    | nil =>
      rw [scanFrom_ended hg]
      have hstands := standsIn_of_lexeme (front ++ gap) [] [] .eof file
      simp only [List.append_nil] at hstands
      refine tiles_end ?_ (precedes_of_gap hbehind rfl hgap) rfl ?_
      · rw [List.append_nil]
        exact hstands
      · simp [Position.endOf]
    | cons c more =>
      rcases scanFrom_begun hg with ⟨fault, hs⟩ | ⟨lexeme, rest, kind, hl, hk, hs⟩
      · rw [hs]
        exact tiles_fault fault
      · obtain ⟨happend, hne⟩ := splitLexeme_append hl
        have hless : rest.length < n := by
          have := splitLexeme_length_lt hl
          rw [List.length_append] at hn
          omega
        have htext : front ++ (gap ++ c :: more) = front ++ gap ++ lexeme ++ rest := by simp [← happend]
        have hprecedes := precedes_of_gap (b := ⟨.endOf (front ++ gap), .endOf (front ++ gap ++ lexeme), file⟩) hbehind
          rfl hgap
        have hstands := standsIn_of_lexeme (front ++ gap) lexeme rest kind file
        rw [← List.append_assoc] at hstands
        rw [htext] at hprecedes ⊢
        rw [hs, Position.after_endOf]
        exact (ih rest.length hless rest rfl rfl).cons hstands hprecedes (kindOf?_ne_eof hne hk)

/-- **Tokens tile the source text.** Every token that scanning gives, up to the end of the text or to the first fault,
stands in the text; between the start of the text and the first token, and between each token and the next, there are
only blanks and comments. If there is no fault, the last token, and no other, marks the end of the text. -/
theorem tokens_tile (source : String) (file : Option String) :
    let text := source.toList
    let tokens := (scan source file).tokens
    (∀ t ∈ tokens, t.StandsIn text) ∧
      (⟨{}, {}, file⟩ :: tokens.map (·.span)).IsChain (Span.Precedes text) ∧
      (∀ fault, tokenize source file = .error fault → ∀ t ∈ tokens, t.kind ≠ .eof) ∧
      ∀ all, tokenize source file = .ok all → all = tokens ∧ EndsAt text all := by
  intro text tokens
  have horigin : (⟨{}, {}, file⟩ : Span).stop = .endOf [] := rfl
  obtain ⟨hstands, hchain, hends, hinner⟩ := scanFrom_tiles file text horigin
  rcases tokenize_cases source file with ⟨fault, hfault, herror⟩ | ⟨hnone, hok⟩
  · have hsome : (scan source file).fault ≠ none := by simp [hfault]
    refine ⟨hstands, hchain, fun _ _ => hinner hsome, ?_⟩
    intro all hall
    rw [herror] at hall
    cases hall
  · refine ⟨hstands, hchain, ?_, ?_⟩
    · intro fault hfault
      rw [hok] at hfault
      cases hfault
    · intro all hall
      rw [hok] at hall
      cases hall
      exact ⟨rfl, hends hnone⟩

/-- a comment, a string over two lines and a character that starts no token; the text of the string is found between the
offsets of its token, and the comment between the two tokens -/
theorem tokens_tile_comment :
    let source := "x // y\r\n \"a\nb\" $ z"
    let x : Span := { start := ⟨1, 1, 0⟩, stop := ⟨1, 2, 1⟩ }
    let text : Span := { start := ⟨2, 2, 9⟩, stop := ⟨3, 3, 14⟩ }
    (scan source).tokens.map (fun t => (t.lexeme, t.span)) = [("x", x), ("\"a\nb\"", text)] ∧
      (∀ t ∈ (scan source).tokens, t.StandsIn source.toList) ∧ x.Precedes source.toList text := by
  intro source x text
  have hscan : (scan source).tokens.map (fun t => (t.lexeme, t.span)) = [("x", x), ("\"a\nb\"", text)] := by
    decide +kernel
  have hspans : (scan source).tokens.map (·.span) = [x, text] := by
    have hmap := congrArg (List.map Prod.snd) hscan
    rwa [List.map_map] at hmap
  obtain ⟨hstands, hchain, -⟩ := tokens_tile source none
  rw [hspans] at hchain
  exact ⟨hscan, hstands, (List.isChain_cons_cons.1 (List.isChain_cons_cons.1 hchain).2).1⟩

end LevelScript.Syntax
