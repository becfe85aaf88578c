/-
What scanning does at the start of a text.

In front of a token `scanFrom` takes one of three ways, and each has its equation here: a token and the scan of what
remains (`scanFrom_lexeme`), a character that starts no token (`scanFrom_unknown`), and a number that is too large
(`scanFrom_tooLarge`). The lemmas on character classes tell which way is taken.
-/
import LevelScript.Proofs.NumberRange
import LevelScript.Proofs.SourceTiling

namespace LevelScript.Syntax

/-! ## The three ways -/

section Ways

variable {file : Option String} {p start : Position} {cs more lexeme rest : List Char} {c : Char}

theorem scanFrom_lexeme {kind : TokenKind} (hg : splitGap false p cs = (start, c :: more))
    (hl : splitLexeme (c :: more) = some (lexeme, rest)) (hk : kindOf? lexeme = some kind) :
    scanFrom file p cs =
      ⟨⟨kind, String.ofList lexeme, ⟨start, start.after lexeme, file⟩⟩ ::
        (scanFrom file (start.after lexeme) rest).tokens, (scanFrom file (start.after lexeme) rest).fault⟩ := by
  rw [scanFrom]
  split
  · simp_all
  · rename_i start' c' more' hg'
    rw [hg] at hg'
    cases hg'
    split
    · simp_all
    · rename_i lexeme' rest' hl'
      rw [hl] at hl'
      cases hl'
      simp only [hk]

theorem scanFrom_unknown (hg : splitGap false p cs = (start, c :: more)) (hl : splitLexeme (c :: more) = none) :
    scanFrom file p cs = ⟨[], some (.unknownCharacter c ⟨start, start.step c, file⟩)⟩ := by
  rw [scanFrom]
  split
  · simp_all
  · rename_i start' c' more' hg'
    rw [hg] at hg'
    cases hg'
    split
    · rfl
    · simp_all

theorem scanFrom_tooLarge (hg : splitGap false p cs = (start, c :: more))
    (hl : splitLexeme (c :: more) = some (lexeme, rest)) (hk : kindOf? lexeme = none) :
    scanFrom file p cs = ⟨[], some .numberTooLarge⟩ := by
  rw [scanFrom]
  split
  · simp_all
  · rename_i start' c' more' hg'
    rw [hg] at hg'
    cases hg'
    split
    · simp_all
    · rename_i lexeme' rest' hl'
      rw [hl] at hl'
      cases hl'
      simp only [hk]

end Ways

/-! ## Runs of characters -/

theorem takeWhile_run {α : Type} {p : α → Bool} {run behind : List α} (hrun : ∀ a ∈ run, p a = true)
    (hbehind : ∀ a ∈ behind.head?, p a = false) :
    (run ++ behind).takeWhile p = run ∧ (run ++ behind).dropWhile p = behind := by
  rw [List.takeWhile_append_of_pos hrun, List.dropWhile_append_of_pos hrun]
  cases behind with
  | nil => simp
  | cons a behind =>
    have ha : p a = false := hbehind a (by simp)
    simp [ha]

theorem quoteFree {body : List Char} (hbody : '"' ∉ body) : ∀ c ∈ body, decide (c ≠ '"') = true := by
  intro c hc
  exact decide_eq_true (fun heq => hbody (heq ▸ hc))

theorem splitLexeme_quote (rest : List Char) : splitLexeme ('"' :: rest) =
    some ('"' :: rest.takeWhile (· ≠ '"') ++ (rest.dropWhile (· ≠ '"')).take 1, (rest.dropWhile (· ≠ '"')).drop 1) :=
  rfl

/-! ## Classes of characters -/

theorem isSymbolStart_of_isDigit {c : Char} (h : c.isDigit = true) : isSymbolStart c = false := by
  obtain ⟨hlow, hhigh⟩ : 48 ≤ c.toNat ∧ c.toNat ≤ 57 := Char.isDigit_iff_toNat.1 h
  have hne : c ≠ '_' := by
    rintro rfl
    exact absurd hhigh (by decide)
  have hupper : c.isUpper = false := by
    apply decide_eq_false
    rintro ⟨hstart, -⟩
    have hstart : 65 ≤ c.toNat := UInt32.le_iff_toNat_le.1 hstart
    omega
  have hlower : c.isLower = false := by
    have hstart : ¬ c.val ≥ 'a'.val := by
      intro hstart
      have hstart : 97 ≤ c.toNat := UInt32.le_iff_toNat_le.1 hstart
      omega
    change (decide (c.val ≥ 'a'.val) && decide (c.val ≤ 'z'.val)) = false
    rw [decide_eq_false hstart, Bool.false_and]
  have hletter : c.isAlpha = false := by
    change (c.isUpper || c.isLower) = false
    rw [hupper, hlower, Bool.or_self]
  simp [isSymbolStart, hne, hletter]

theorem mem_of_isPunctuation {c : Char} (h : isPunctuation c = true) : c ∈ "+-*/()\x7b\x7d;=><,.[]".toList := by
  simpa [isPunctuation] using h

/-- punctuation is none of the characters that start another token or stand between tokens -/
theorem punctuation_apart : ∀ c ∈ "+-*/()\x7b\x7d;=><,.[]".toList,
    isSymbolStart c = false ∧ c.isDigit = false ∧ c ≠ '"' ∧ isGap c = false := by
  intro c hc
  have hall : ("+-*/()\x7b\x7d;=><,.[]".toList.all fun d =>
      !isSymbolStart d && !d.isDigit && d != '"' && !isGap d) = true := by
    decide
  have hone := List.all_eq_true.1 hall c hc
  simpa [and_assoc] using hone

/-- blanks neither start nor continue a token -/
theorem gap_apart : ∀ c ∈ [' ', '\t', '\r', '\n'],
    isSymbolPart c = false ∧ isNumberPart c = false ∧ c ≠ '"' ∧ isPunctuation c = false := by
  intro c hc
  simp only [List.mem_cons, List.not_mem_nil, or_false] at hc
  rcases hc with rfl | rfl | rfl | rfl <;> decide

/-! ## Kinds -/

/-- a literal of digits and points is an integer without a point, and with one a floating-point number, if its whole
part is in range -/
theorem kindOf?_number {first : Char} (rest : List Char) (hfirst : first.isDigit = true) :
    kindOf? (first :: rest) =
      if '.' ∈ rest then (pointValue? (first :: rest)).map .float
      else some (.int (Text.digitsValue (first :: rest))) := by
  simp [kindOf?, isSymbolStart_of_isDigit hfirst, hfirst]

/-- a number with a point is made up of the digits in front of the first point, that point, and more -/
theorem wholeDigits_point {number : List Char} (h : '.' ∈ number) :
    ∃ behind, number = wholeDigits number ++ '.' :: behind := by
  induction number with
  | nil => cases h
  | cons c number ih =>
    by_cases hc : c = '.'
    · rw [hc, wholeDigits, List.takeWhile_cons_of_neg (by simp)]
      exact ⟨number, rfl⟩
    · obtain ⟨behind, hbehind⟩ := ih (List.mem_of_ne_of_mem (Ne.symm hc) h)
      rw [wholeDigits, List.takeWhile_cons_of_pos (by simpa using hc)]
      exact ⟨behind, congrArg (c :: ·) hbehind⟩

/-- a number has no value if it has a point and a whole part that is out of range, and otherwise it has one -/
theorem kindOf?_number_eq_none {first : Char} (rest : List Char) (hfirst : first.isDigit = true) :
    kindOf? (first :: rest) = none ↔
      '.' ∈ first :: rest ∧ Decimal.overflowStart ≤ Text.digitsValue (wholeDigits (first :: rest)) := by
  have hpoint : '.' ≠ first := by
    rintro rfl
    cases hfirst
  rw [kindOf?_number rest hfirst, pointValue?_eq, List.mem_cons, or_iff_right hpoint]
  by_cases hdotted : '.' ∈ rest
  · simp [hdotted]
  · simp [hdotted]

end LevelScript.Syntax
