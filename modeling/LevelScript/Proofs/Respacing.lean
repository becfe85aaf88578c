/-
Spacing does not change the tokens of a program.

A `Lexeme` is a way to write one token: a name, a number, a string or a punctuation character. `Lexeme.text` writes it
down and `Lexeme.kind` is the kind and value of its token, which it has on its own, wherever it stands. A text is
`Spaced` if it writes lexemes one after the other with a gap between any two: a blank, and then any blanks and comments.

`tokenize_spaced`: tokenizing such a text gives back the lexemes, one token each, and the mark of the end. So neither the
choice of the gaps nor what the comments say has an influence on the tokens. The run lemma is `scanFrom_spaced`, its step
`scanFrom_written`.
-/
import LevelScript.Proofs.Scanning

namespace LevelScript.Syntax

/-! ## Lexemes -/

/-- a way to write one token; a string need not be closed -/
inductive Lexeme where
  | name (first : Char) (rest : List Char) (hfirst : isSymbolStart first = true)
      (hrest : ∀ c ∈ rest, isSymbolPart c = true)
  | number (first : Char) (rest : List Char) (hfirst : first.isDigit = true) (hrest : ∀ c ∈ rest, isNumberPart c = true)
  | string (body : List Char) (closed : Bool) (hbody : '"' ∉ body)
  | mark (c : Char) (hc : isPunctuation c = true)

namespace Lexeme

def text : Lexeme → List Char
  | name first rest _ _ => first :: rest
  | number first rest _ _ => first :: rest
  | string body closed _ => '"' :: (body ++ if closed then ['"'] else [])
  | mark c _ => [c]

/-- the number that digits spell to the base ten -/
def spelled (digits : List Char) : Nat := Nat.ofDigits 10 (digits.reverse.map fun c => c.toNat - 48)

def kind : Lexeme → TokenKind
  | name first rest _ _ => .symbol (String.ofList (first :: rest))
  | number first rest _ _ =>
    if '.' ∈ rest then
      .float (Decimal.ofQuotient false (spelled (wholeDigits (first :: rest))) 1 +
        fractionValue (fractionDigits (first :: rest)))
    else .int (spelled (first :: rest))
  | string body _ _ => .string (String.ofList body)
  | mark c _ => .char c

/-- a number with a point has a whole part that is not too large for a floating-point number -/
def InRange : Lexeme → Prop
  | number first rest _ _ => '.' ∈ rest → spelled (wholeDigits (first :: rest)) < Decimal.overflowStart
  | _ => True

/-- a lexeme other than a string without its closing quote -/
def Closed : Lexeme → Prop
  | string _ closed _ => closed = true
  | _ => True

/-- the lexeme is over in front of the text -/
def EndsBefore (behind : List Char) : Lexeme → Prop
  | name _ _ _ _ => ∀ c ∈ behind.head?, isSymbolPart c = false
  | number _ _ _ _ => ∀ c ∈ behind.head?, isNumberPart c = false
  | string _ closed _ => closed = false → behind = []
  | mark c _ => c = '/' → behind.head? ≠ some '/'

theorem endsBefore_nil (l : Lexeme) : l.EndsBefore [] := by
  cases l with
  | name => simp [EndsBefore]
  | number => simp [EndsBefore]
  | string => simp [EndsBefore]
  | mark => simp [EndsBefore]

theorem Closed.endsBefore {l : Lexeme} (h : l.Closed) {blank : Char} (hblank : blank ∈ [' ', '\t', '\r', '\n'])
    (behind : List Char) : l.EndsBefore (blank :: behind) := by
  obtain ⟨hsymbol, hnumber, -, hmark⟩ := gap_apart blank hblank
  cases l with
  | name => simpa [EndsBefore] using hsymbol
  | number => simpa [EndsBefore] using hnumber
  | string body closed =>
    intro hopen
    rw [Closed, hopen] at h
    cases h
  | mark c =>
    intro _ hslash
    rw [List.head?_cons, Option.some.injEq] at hslash
    rw [hslash] at hmark
    exact absurd hmark (by decide)

/-! ## One lexeme -/

/-- the characters of a lexeme are taken off a text in which it is over -/
theorem splitLexeme_text {l : Lexeme} {behind : List Char} (h : l.EndsBefore behind) :
    splitLexeme (l.text ++ behind) = some (l.text, behind) := by
  cases l with
  | name first rest hfirst hrest =>
    obtain ⟨htake, hdrop⟩ := takeWhile_run hrest h
    simp [text, splitLexeme, hfirst, htake, hdrop]
  | number first rest hfirst hrest =>
    obtain ⟨htake, hdrop⟩ := takeWhile_run hrest h
    simp [text, splitLexeme, isSymbolStart_of_isDigit hfirst, hfirst, htake, hdrop]
  | string body closed hbody =>
    cases closed with
    | true =>
      have hquote : ∀ c ∈ ('"' :: behind).head?, decide (c ≠ '"') = false := by simp
      obtain ⟨htake, hdrop⟩ := takeWhile_run (quoteFree hbody) hquote
      have htext : (string body true hbody).text ++ behind = '"' :: (body ++ '"' :: behind) := by simp [text]
      rw [htext, splitLexeme_quote, htake, hdrop]
      rfl
    | false =>
      obtain rfl := h rfl
      have hquote : ∀ c ∈ ([] : List Char).head?, decide (c ≠ '"') = false := by simp
      obtain ⟨htake, hdrop⟩ := takeWhile_run (quoteFree hbody) hquote
      have htext : (string body false hbody).text ++ [] = '"' :: (body ++ []) := by simp [text]
      rw [htext, splitLexeme_quote, htake, hdrop]
      simp [text]
  | mark c hc =>
    obtain ⟨hstart, hdigit, hquote, -⟩ := punctuation_apart c (mem_of_isPunctuation hc)
    simp [text, splitLexeme, hstart, hdigit, hquote, hc]

/-- the characters of a lexeme tell its kind and value -/
theorem kindOf?_text {l : Lexeme} (h : l.InRange) : kindOf? l.text = some l.kind := by
  cases l with
  | name first rest hfirst hrest => simp [text, kindOf?, hfirst, kind]
  | number first rest hfirst hrest =>
    rw [text, kindOf?_number rest hfirst, kind]
    by_cases hpoint : '.' ∈ rest
    · have hrange := h hpoint
      rw [spelled, ← Text.digitsValue_eq] at hrange
      rw [if_pos hpoint, if_pos hpoint, pointValue?_eq, if_neg (Nat.not_le.2 hrange), Text.digitsValue_eq, spelled]
      rfl
    · rw [if_neg hpoint, if_neg hpoint, Text.digitsValue_eq, spelled]
  | string body closed hbody =>
    have hplain : isSymbolStart '"' = false ∧ Char.isDigit '"' = false := by decide
    have htake : (body ++ if closed then ['"'] else []).takeWhile (· ≠ '"') = body := by
      cases closed with
      | true => exact (takeWhile_run (quoteFree hbody) (by simp)).1
      | false => exact (takeWhile_run (quoteFree hbody) (by simp)).1
    simp only [text, kindOf?, hplain, stringBody, List.drop_one, List.tail_cons, htake, kind]
    simp
  | mark c hc =>
    obtain ⟨hstart, hdigit, hquote, -⟩ := punctuation_apart c (mem_of_isPunctuation hc)
    simp [text, kindOf?, hstart, hdigit, hquote, kind]

theorem isGap_eq_false {c : Char} (h : c ∉ [' ', '\t', '\r', '\n']) : isGap c = false :=
  Bool.eq_false_iff.2 fun hgap => h (mem_of_isGap hgap)

theorem splitGap_solid {c : Char} {rest : List Char} (hc : isGap c = false) (hrest : c = '/' → rest.head? ≠ some '/')
    (p : Position) : splitGap false p (c :: rest) = (p, c :: rest) := by
  rw [splitGap, if_neg (by simp), if_neg (by simp [hc]), if_neg fun h => hrest h.1 h.2]

/-- neither a blank nor a comment starts with the characters of a lexeme -/
theorem splitGap_text {l : Lexeme} {behind : List Char} (h : l.EndsBefore behind) (p : Position) :
    splitGap false p (l.text ++ behind) = (p, l.text ++ behind) := by
  cases l with
  | name first rest hfirst hrest =>
    refine splitGap_solid ?_ ?_ p
    · refine isGap_eq_false fun hmem => ?_
      have hpart := (gap_apart first hmem).1
      simp [isSymbolPart, hfirst] at hpart
    · rintro rfl
      cases hfirst
  | number first rest hfirst hrest =>
    refine splitGap_solid ?_ ?_ p
    · refine isGap_eq_false fun hmem => ?_
      have hpart := (gap_apart first hmem).2.1
      simp [isNumberPart, hfirst] at hpart
    · rintro rfl
      cases hfirst
  | string body closed hbody => rfl
  | mark c hc => exact splitGap_solid (punctuation_apart c (mem_of_isPunctuation hc)).2.2.2 h p

end Lexeme

/-! ## Spacing -/

/-- any blanks, and comments up to the end of their line -/
inductive Filler : List Char → Prop where
  | nil : Filler []
  | blank {c : Char} {more : List Char} : c ∈ [' ', '\t', '\r', '\n'] → Filler more → Filler (c :: more)
  | comment {line more : List Char} : '\n' ∉ line → Filler more → Filler ('/' :: '/' :: (line ++ '\n' :: more))

/-- the text writes the lexemes one after the other; behind each there is a blank and then any blanks and comments, and
nothing behind the last one is needed -/
inductive Spaced : List Lexeme → List Char → Prop where
  | nil : Spaced [] []
  | last (l : Lexeme) : Spaced [l] l.text
  | cons {l : Lexeme} {lexemes : List Lexeme} {blank : Char} {gap text : List Char} : l.Closed →
      blank ∈ [' ', '\t', '\r', '\n'] → Filler gap → Spaced lexemes text →
      Spaced (l :: lexemes) (l.text ++ blank :: (gap ++ text))

theorem Position.after_append (p : Position) (cs more : List Char) : p.after (cs ++ more) = (p.after cs).after more :=
  List.foldl_append

theorem splitGap_comment {line : List Char} (hline : '\n' ∉ line) (p : Position) (behind : List Char) :
    splitGap true p (line ++ '\n' :: behind) = splitGap false (p.after (line ++ ['\n'])) behind := by
  induction line generalizing p with
  | nil => rfl
  | cons c line ih =>
    rw [List.mem_cons, not_or] at hline
    have hc : decide (c ≠ '\n') = true := decide_eq_true (Ne.symm hline.1)
    rw [List.cons_append, splitGap, if_pos rfl, hc, ih hline.2]
    rfl

/-- a filler is dropped in front of any text -/
theorem Filler.splitGap {gap : List Char} (h : Filler gap) (p : Position) (behind : List Char) :
    splitGap false p (gap ++ behind) = Syntax.splitGap false (p.after gap) behind := by
  induction h generalizing p with
  | nil => rfl
  | @blank c more hc hmore ih =>
    have hgap : isGap c = true := by simpa [isGap, or_assoc] using hc
    rw [List.cons_append, Syntax.splitGap, if_neg (by simp), if_pos hgap, ih]
    rfl
  | @comment line more hline hmore ih =>
    have hin : '\n' ∉ '/' :: line := by simp [hline]
    have htext : '/' :: '/' :: (line ++ '\n' :: more) ++ behind =
        '/' :: ('/' :: line ++ '\n' :: (more ++ behind)) := by simp
    have hafter : p.after ('/' :: '/' :: (line ++ '\n' :: more)) =
        ((p.step '/').after ('/' :: line ++ ['\n'])).after more := by
      rw [← Position.after_append]
      simp [Position.after]
    rw [htext, Syntax.splitGap, if_neg (by simp), if_neg (by decide), if_pos (by simp), splitGap_comment hin, ih, hafter]

/-- scanning a lexeme behind a filler gives its token, and goes on behind it -/
theorem scanFrom_written {l : Lexeme} (hrange : l.InRange) {behind : List Char} (hends : l.EndsBefore behind)
    {gap : List Char} (hgap : Filler gap) (file : Option String) (p : Position) :
    ∃ start stop, scanFrom file p (gap ++ (l.text ++ behind)) =
      ⟨⟨l.kind, String.ofList l.text, ⟨start, stop, file⟩⟩ :: (scanFrom file stop behind).tokens,
        (scanFrom file stop behind).fault⟩ := by
  have hsplit := hgap.splitGap p (l.text ++ behind)
  rw [Lexeme.splitGap_text hends] at hsplit
  obtain ⟨c, more, htext⟩ : ∃ c more, l.text ++ behind = c :: more := by
    cases l with
    | name => exact ⟨_, _, rfl⟩
    | number => exact ⟨_, _, rfl⟩
    | string => exact ⟨_, _, rfl⟩
    | mark => exact ⟨_, _, rfl⟩
  have hlexeme := Lexeme.splitLexeme_text hends
  rw [htext] at hsplit hlexeme ⊢
  exact ⟨_, _, scanFrom_lexeme hsplit hlexeme (Lexeme.kindOf?_text hrange)⟩

/-- what listings of tokens and messages about them show: kind, value and characters, but not the place -/
def Token.form (t : Token) : TokenKind × String := (t.kind, t.lexeme)

def Lexeme.form (l : Lexeme) : TokenKind × String := (l.kind, String.ofList l.text)

/-- behind a filler, scanning a text that writes lexemes gives their tokens and the mark of the end -/
theorem scanFrom_spaced {lexemes : List Lexeme} {text : List Char} (h : Spaced lexemes text)
    (hrange : ∀ l ∈ lexemes, l.InRange) {gap : List Char} (hgap : Filler gap) (file : Option String) (p : Position) :
    (scanFrom file p (gap ++ text)).tokens.map Token.form = lexemes.map Lexeme.form ++ [(.eof, "")] ∧
      (scanFrom file p (gap ++ text)).fault = none := by
  induction h generalizing gap p with
  | nil =>
    have hend : splitGap false p (gap ++ []) = (p.after gap, []) := hgap.splitGap p []
    rw [scanFrom_ended hend]
    exact ⟨rfl, rfl⟩
  | last l =>
    obtain ⟨start, stop, hscan⟩ := scanFrom_written (hrange l (by simp)) l.endsBefore_nil hgap file p
    have hend : scanFrom file stop [] = ⟨[⟨.eof, "", ⟨stop, stop, file⟩⟩], none⟩ := scanFrom_ended rfl
    rw [List.append_nil, hend] at hscan
    rw [hscan]
    exact ⟨rfl, rfl⟩
  | @cons l lexemes blank more text hclosed hblank hmore htext ih =>
    obtain ⟨start, stop, hscan⟩ :=
      scanFrom_written (hrange l (by simp)) (hclosed.endsBefore hblank (more ++ text)) hgap file p
    obtain ⟨htokens, hfault⟩ := ih (fun l' hl' => hrange l' (by simp [hl'])) (.blank hblank hmore) stop
    rw [List.cons_append] at htokens hfault
    rw [hscan]
    refine ⟨?_, hfault⟩
    rw [List.map_cons, htokens]
    rfl

/-- **Spacing does not change tokens.** A text that writes lexemes one after the other, the last one possibly an open
string, is tokenized into exactly one token for each of them, in order, and the mark of the end. Kind and value of a token
are those of its lexeme, whatever the gaps are. -/
theorem tokenize_spaced {lexemes : List Lexeme} {text lead : List Char} (h : Spaced lexemes text) (hlead : Filler lead)
    (hrange : ∀ l ∈ lexemes, l.InRange) (file : Option String) :
    ∃ tokens, tokenize (String.ofList (lead ++ text)) file = .ok tokens ∧
      tokens.map Token.form = lexemes.map Lexeme.form ++ [(.eof, "")] := by
  obtain ⟨htokens, hfault⟩ := scanFrom_spaced h hrange hlead file {}
  have hscan : scan (String.ofList (lead ++ text)) file = scanFrom file {} (lead ++ text) := by
    rw [scan, String.toList_ofList]
  rw [← hscan] at htokens hfault
  rcases tokenize_cases (String.ofList (lead ++ text)) file with ⟨fault, hsome, -⟩ | ⟨-, hok⟩
  · rw [hsome] at hfault
    cases hfault
  · exact ⟨_, hok, htokens⟩

/-- two slashes open a comment in a gap and stand for themselves inside of a string, a quote is part of a comment, and a
point makes a number a floating-point number -/
theorem tokenize_spaced_sample :
    let name : Lexeme := .name 'x' ['1'] rfl (List.forall_mem_singleton.2 rfl)
    let whole : Lexeme := .number '0' ['0', '7'] rfl (List.forall_mem_cons.2 ⟨rfl, List.forall_mem_singleton.2 rfl⟩)
    let half : Lexeme := .number '1' ['.', '5'] rfl (List.forall_mem_cons.2 ⟨rfl, List.forall_mem_singleton.2 rfl⟩)
    let unclosed : Lexeme := .string "// y".toList false (by decide)
    let lead := "// z\n".toList
    let text := "x1 // \"1\n007\t\r1.5\n\"// y".toList
    Spaced [name, whole, half, unclosed] text ∧ Filler lead ∧ (∀ l ∈ [name, whole, half, unclosed], l.InRange) ∧
      ∃ tokens, tokenize (String.ofList (lead ++ text)) = .ok tokens ∧ tokens.map Token.form =
        [(.symbol "x1", "x1"), (.int 7, "007"), half.form, (.string "// y", "\"// y"), (.eof, "")] := by
  intro name whole half unclosed lead text
  have hspaced : Spaced [name, whole, half, unclosed] text := by
    have hlast : Spaced [unclosed] "\"// y".toList := .last unclosed
    have hhalf : Spaced [half, unclosed] "1.5\n\"// y".toList := .cons (l := half) trivial (by decide) .nil hlast
    have hwhole : Spaced [whole, half, unclosed] "007\t\r1.5\n\"// y".toList :=
      .cons (l := whole) trivial (by decide) (.blank (by decide) .nil) hhalf
    have hcomment : Filler "// \"1\n".toList := @Filler.comment " \"1".toList [] (by decide) .nil
    exact .cons (l := name) trivial (by decide) hcomment hwhole
  have hlead : Filler lead := @Filler.comment " z".toList [] (by decide) .nil
  have hrange : ∀ l ∈ [name, whole, half, unclosed], l.InRange := by
    have hone : 1 < Decimal.overflowStart := by decide +kernel
    simp only [List.forall_mem_cons]
    refine ⟨trivial, ?_, fun _ => hone, trivial, by simp⟩
    intro hpoint
    exact absurd hpoint (by decide)
  obtain ⟨tokens, hok, hforms⟩ := tokenize_spaced hspaced hlead hrange none
  exact ⟨hspaced, hlead, hrange, tokens, hok, hforms⟩

end LevelScript.Syntax
