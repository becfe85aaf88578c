/-
Which texts can be tokenized.

`Region` tells, character by character from the left, whether a text is inside of a comment, a string, a name or a number.
With it two kinds of trouble are placed without a scan: a character outside of the alphabet that stands neither in a
comment nor in a string (`StrayAt`), and a number with a point whose whole part is too large for a floating-point number
(`OversizedAt`).

`tokenize_verdict`: tokenizing fails exactly where the first of them stands, with the fault that belongs to it, and
succeeds if there is none. A text with characters of the alphabet alone may therefore still fail, by a number.

The invariant of the scan is that the text is `Clear` up to the current place and that the region there is over
(`Region.Settled`).
-/
import LevelScript.Proofs.Scanning

namespace LevelScript.Syntax

/-! ## Regions of a text -/

/-- what a text is in the midst of; a slash may become a comment -/
inductive Region where
  | code
  | slash
  | comment
  | literal
  | name
  | number
  deriving DecidableEq, Repr

namespace Region

/-- the region that a character begins outside of comments, strings, names and numbers -/
def begun (c : Char) : Region :=
  if c = '"' then .literal
  else if c = '/' then .slash
  else if isSymbolStart c then .name
  else if c.isDigit then .number
  else .code

/-- the region behind one more character -/
def step (r : Region) (c : Char) : Region :=
  match r with
  | .code => begun c
  | .slash => if c = '/' then .comment else begun c
  | .comment => if c = '\n' then .code else .comment
  | .literal => if c = '"' then .code else .literal
  | .name => if isSymbolPart c then .name else begun c
  | .number => if isNumberPart c then .number else begun c

def atEnd (text : List Char) : Region := text.foldl step .code

/-- neither in a comment nor in a string -/
def Outside (r : Region) : Prop := r ≠ .comment ∧ r ≠ .literal

/-- in no token that could go on with a digit -/
def Vacant (r : Region) : Prop := r = .code ∨ r = .slash

instance : DecidablePred Vacant := fun r => inferInstanceAs (Decidable (r = .code ∨ r = .slash))

/-- the region is over in front of what remains of the text -/
def Settled (behind : List Char) : Region → Prop
  | .code => True
  | .slash => behind.head? ≠ some '/'
  | .comment => ∀ c ∈ behind.head?, c = '\n'
  | .literal => behind = []
  | .name => ∀ c ∈ behind.head?, isSymbolPart c = false
  | .number => ∀ c ∈ behind.head?, isNumberPart c = false

theorem atEnd_snoc (text : List Char) (c : Char) : atEnd (text ++ [c]) = (atEnd text).step c := by
  simp [atEnd]

/-- behind a region that is over every character begins a new one -/
theorem Settled.step {r : Region} {c : Char} {behind : List Char} (h : r.Settled (c :: behind)) :
    r.step c = begun c := by
  cases r with
  | code => rfl
  | slash =>
    have hc : c ≠ '/' := by simpa [Settled] using h
    rw [Region.step, if_neg hc]
  | comment =>
    obtain rfl : c = '\n' := by simpa [Settled] using h
    decide
  | literal => cases h
  | name =>
    have hc : isSymbolPart c = false := by simpa [Settled] using h
    rw [Region.step, hc, if_neg (by simp)]
  | number =>
    have hc : isNumberPart c = false := by simpa [Settled] using h
    rw [Region.step, hc, if_neg (by simp)]

end Region

/-! ## Trouble -/

/-- the characters that may stand outside of comments and strings -/
def InAlphabet (c : Char) : Prop :=
  c ∈ [' ', '\t', '\r', '\n'] ∨ isSymbolPart c = true ∨ c = '"' ∨ isPunctuation c = true

/-- a character outside of the alphabet at the start of a text that goes on behind a region -/
def Stray (r : Region) (behind : List Char) : Prop := r.Outside ∧ ∃ c ∈ behind.head?, ¬ InAlphabet c

/-- a number with a point and too many digits in front of it at the start of a text that goes on behind a region -/
def Oversized (r : Region) (behind : List Char) : Prop :=
  r.Vacant ∧ ∃ digits more, behind = digits ++ '.' :: more ∧ digits ≠ [] ∧ (∀ c ∈ digits, c.isDigit = true) ∧
    Decimal.overflowStart ≤ Nat.ofDigits 10 (digits.reverse.map fun c => c.toNat - 48)

/-- a character outside of the alphabet that stands neither in a comment nor in a string -/
def StrayAt (text : List Char) (p : Nat) : Prop := Stray (.atEnd (text.take p)) (text.drop p)

/-- the start of a number with a point whose whole part has no floating-point number -/
def OversizedAt (text : List Char) (p : Nat) : Prop := Oversized (.atEnd (text.take p)) (text.drop p)

/-- no trouble in front of a place -/
def Clear (text : List Char) (p : Nat) : Prop := ∀ k < p, ¬ StrayAt text k ∧ ¬ OversizedAt text k

/-- what a fault says about the text; no fault says that there is no trouble at all -/
def Verdict (text : List Char) (file : Option String) : Option ScanFault → Prop
  | none => Clear text text.length
  | some (.unknownCharacter c span) => ∃ p, Clear text p ∧ StrayAt text p ∧ text[p]? = some c ∧
      span = ⟨.endOf (text.take p), .endOf (text.take (p + 1)), file⟩
  | some .numberTooLarge => ∃ p, Clear text p ∧ OversizedAt text p

theorem begun_of_isDigit {c : Char} (h : c.isDigit = true) : Region.begun c = .number := by
  have hquote : c ≠ '"' := by
    rintro rfl
    cases h
  have hslash : c ≠ '/' := by
    rintro rfl
    cases h
  simp [Region.begun, hquote, hslash, isSymbolStart_of_isDigit h, h]

theorem Oversized.head_isDigit {r : Region} {c : Char} {behind : List Char} (h : Oversized r (c :: behind)) :
    c.isDigit = true := by
  obtain ⟨-, digits, more, htext, hne, hdigits, -⟩ := h
  cases digits with
  | nil => exact absurd rfl hne
  | cons d digits =>
    cases htext
    exact hdigits c (by simp)

theorem not_stray {r : Region} {c : Char} (hc : InAlphabet c) (behind : List Char) : ¬ Stray r (c :: behind) := by
  rintro ⟨-, d, hd, hout⟩
  rw [List.head?_cons, Option.mem_some] at hd
  exact hout (hd ▸ hc)

theorem not_oversized {r : Region} (hr : ¬ r.Vacant) (behind : List Char) : ¬ Oversized r behind := fun h => hr h.1

/-- one more character in front of which there is no trouble -/
theorem Clear.snoc {front behind : List Char} {c : Char} (h : Clear (front ++ c :: behind) front.length)
    (hstray : ¬ Stray (.atEnd front) (c :: behind)) (hsize : ¬ Oversized (.atEnd front) (c :: behind)) :
    Clear (front ++ c :: behind) (front ++ [c]).length := by
  intro k hk
  have hlength : (front ++ [c]).length = front.length + 1 := by simp
  rw [hlength] at hk
  rcases Nat.lt_succ_iff_lt_or_eq.1 hk with hless | rfl
  · exact h k hless
  · rw [StrayAt, OversizedAt, List.take_left, List.drop_left]
    exact ⟨hstray, hsize⟩

/-- **step lemma**: a character of the alphabet that starts no number -/
theorem Clear.plain {front behind : List Char} {c : Char} (h : Clear (front ++ c :: behind) front.length)
    (hc : InAlphabet c) (hdigit : c.isDigit = false) : Clear (front ++ c :: behind) (front ++ [c]).length := by
  refine h.snoc (not_stray hc behind) fun hsize => ?_
  rw [hsize.head_isDigit] at hdigit
  cases hdigit

/-- characters that keep up a region and are no trouble in it -/
structure Region.KeptBy (r : Region) (p : Char → Bool) : Prop where
  step : ∀ c, p c = true → r.step c = r
  calm : ∀ c behind, p c = true → ¬ Stray r (c :: behind) ∧ ¬ Oversized r (c :: behind)

/-- **run lemma**: a run of characters that keep up the region -/
theorem Clear.run {r : Region} {p : Char → Bool} (hkept : r.KeptBy p) {run : List Char} (hrun : ∀ c ∈ run, p c = true)
    {front behind : List Char} (hr : Region.atEnd front = r) (h : Clear (front ++ (run ++ behind)) front.length) :
    Clear (front ++ (run ++ behind)) (front ++ run).length ∧ Region.atEnd (front ++ run) = r := by
  induction run generalizing front with
  | nil =>
    rw [List.append_nil]
    exact ⟨h, hr⟩
  | cons c run ih =>
    have hc : p c = true := hrun c (by simp)
    obtain ⟨hstray, hsize⟩ := hkept.calm c (run ++ behind) hc
    have hclear : Clear (front ++ c :: (run ++ behind)) (front ++ [c]).length :=
      Clear.snoc h (hr ▸ hstray) (hr ▸ hsize)
    have hregion : Region.atEnd (front ++ [c]) = r := by rw [Region.atEnd_snoc, hr, hkept.step c hc]
    have htext : front ++ c :: (run ++ behind) = front ++ [c] ++ (run ++ behind) := by simp
    rw [htext] at hclear
    have hrest := ih (fun d hd => hrun d (by simp [hd])) hregion hclear
    rw [← htext] at hrest
    simpa using hrest

/-- a character and all characters behind it that keep up the region it is in -/
theorem Clear.taken {r : Region} {p : Char → Bool} (hkept : r.KeptBy p) {front more : List Char} {c : Char}
    (hr : Region.atEnd (front ++ [c]) = r) (h : Clear (front ++ c :: more) (front ++ [c]).length) :
    Clear (front ++ c :: more) (front ++ c :: more.takeWhile p).length ∧
      Region.atEnd (front ++ c :: more.takeWhile p) = r := by
  have htext : front ++ c :: more = front ++ [c] ++ (more.takeWhile p ++ more.dropWhile p) := by
    simp [List.takeWhile_append_dropWhile]
  have htaken : front ++ c :: more.takeWhile p = front ++ [c] ++ more.takeWhile p := by simp
  rw [htext] at h ⊢
  rw [htaken]
  exact Clear.run hkept (fun d hd => List.mem_takeWhile_imp hd) hr h

theorem comment_kept : Region.KeptBy .comment fun c => decide (c ≠ '\n') where
  step c hc := by rw [Region.step, if_neg (of_decide_eq_true hc)]
  calm c behind _ := ⟨fun hstray => hstray.1.1 rfl, not_oversized (by decide) _⟩

theorem literal_kept : Region.KeptBy .literal fun c => decide (c ≠ '"') where
  step c hc := by rw [Region.step, if_neg (of_decide_eq_true hc)]
  calm c behind _ := ⟨fun hstray => hstray.1.2 rfl, not_oversized (by decide) _⟩

theorem name_kept : Region.KeptBy .name isSymbolPart where
  step c hc := by rw [Region.step, if_pos hc]
  calm c behind hc := ⟨not_stray (.inr (.inl hc)) behind, not_oversized (by decide) _⟩

theorem number_kept : Region.KeptBy .number isNumberPart where
  step c hc := by rw [Region.step, if_pos hc]
  calm c behind hc := by
    have halphabet : InAlphabet c := by
      by_cases hdigit : c.isDigit = true
      · exact .inr (.inl (by simp [isSymbolPart, hdigit]))
      · obtain rfl : c = '.' := by simpa [isNumberPart, hdigit] using hc
        exact .inr (.inr (.inr (by decide)))
    exact ⟨not_stray halphabet behind, not_oversized (by decide) _⟩

/-! ## Blanks and comments -/

theorem begun_of_gap {c : Char} (h : c ∈ [' ', '\t', '\r', '\n']) : Region.begun c = .code := by
  simp only [List.mem_cons, List.not_mem_nil, or_false] at h
  rcases h with rfl | rfl | rfl | rfl <;> rfl

theorem gap_not_digit {c : Char} (h : c ∈ [' ', '\t', '\r', '\n']) : c.isDigit = false := by
  simp only [List.mem_cons, List.not_mem_nil, or_false] at h
  rcases h with rfl | rfl | rfl | rfl <;> rfl

/-- there is no trouble in blanks and comments, and the region behind them is over -/
theorem Clear.gap {gap behind : List Char} (hgap : Gap behind gap) {front : List Char}
    (hsettled : (Region.atEnd front).Settled (gap ++ behind))
    (h : Clear (front ++ (gap ++ behind)) front.length) :
    Clear (front ++ (gap ++ behind)) (front ++ gap).length ∧ (Region.atEnd (front ++ gap)).Settled behind := by
  induction hgap generalizing front with
  | nil =>
    rw [List.append_nil]
    exact ⟨h, hsettled⟩
  | @blank c gap hc hgap ih =>
    have hregion : Region.atEnd (front ++ [c]) = .code := by
      rw [Region.atEnd_snoc, hsettled.step, begun_of_gap hc]
    have htext : front ++ (c :: gap ++ behind) = front ++ [c] ++ (gap ++ behind) := by simp
    have hclear : Clear (front ++ c :: (gap ++ behind)) (front ++ [c]).length := h.plain (.inl hc) (gap_not_digit hc)
    have hsettled' : (Region.atEnd (front ++ [c])).Settled (gap ++ behind) := by
      rw [hregion]
      trivial
    have hrest := ih hsettled' (by rw [← htext]; exact hclear)
    rw [← htext] at hrest
    simpa using hrest
  | @comment line gap hline hhead hgap ih =>
    -- the two slashes
    have hslash : InAlphabet '/' := .inr (.inr (.inr (by decide)))
    have hfirst : Region.atEnd (front ++ ['/']) = .slash := by
      rw [Region.atEnd_snoc, hsettled.step]
      decide
    have hsecond : Region.atEnd (front ++ ['/', '/']) = .comment := by
      have happend : front ++ ['/', '/'] = front ++ ['/'] ++ ['/'] := by simp
      rw [happend, Region.atEnd_snoc, hfirst]
      decide
    have hone : Clear (front ++ '/' :: '/' :: (line ++ gap ++ behind)) (front ++ ['/']).length :=
      Clear.plain h hslash (by decide)
    have htwo : Clear (front ++ ['/'] ++ '/' :: (line ++ gap ++ behind)) (front ++ ['/'] ++ ['/']).length := by
      refine Clear.plain ?_ hslash (by decide)
      simpa using hone
    -- the line
    have hnone : ∀ c ∈ line, decide (c ≠ '\n') = true := by
      intro c hc
      exact decide_eq_true fun heq => hline (heq ▸ hc)
    have hopened : Clear (front ++ ['/', '/'] ++ (line ++ (gap ++ behind))) (front ++ ['/', '/']).length := by
      simpa using htwo
    have hthree := Clear.run comment_kept hnone hsecond hopened
    -- what is left of the gap
    have hsettled' : (Region.atEnd (front ++ ['/', '/'] ++ line)).Settled (gap ++ behind) := by
      rw [hthree.2]
      exact hhead
    have hrest := ih hsettled' (by simpa using hthree.1)
    simpa using hrest

/-- behind blanks and comments stands neither of them -/
theorem splitGap_head {inComment : Bool} {p q : Position} {cs more : List Char} {c : Char}
    (h : splitGap inComment p cs = (q, c :: more)) : isGap c = false ∧ (c = '/' → more.head? ≠ some '/') := by
  induction cs generalizing inComment p with
  | nil => cases h
  | cons d cs ih =>
    unfold splitGap at h
    split_ifs at h with hcomment hblank hslash
    · exact ih h
    · exact ih h
    · exact ih h
    · cases h
      exact ⟨by simpa using hblank, fun hc hhead => hslash ⟨hc, hhead⟩⟩

/-! ## Tokens -/

/-- a character that starts neither a token nor a gap is outside of the alphabet -/
theorem not_inAlphabet {c : Char} {more : List Char} (hsplit : splitLexeme (c :: more) = none) (hgap : isGap c = false) :
    ¬ InAlphabet c := by
  simp only [splitLexeme] at hsplit
  split_ifs at hsplit with hsymbol hdigit hquote hmark
  rintro (hblank | hpart | rfl | hpunctuation)
  · have : isGap c = true := by simpa [isGap, or_assoc] using hblank
    rw [this] at hgap
    cases hgap
  · simp [isSymbolPart, hsymbol, hdigit] at hpart
  · exact hquote rfl
  · exact hmark hpunctuation

/-- a number has no value exactly if it is oversized -/
theorem oversized_iff {r : Region} {c : Char} {more : List Char} (hr : r.Vacant) (hc : c.isDigit = true) :
    Oversized r (c :: more) ↔ kindOf? (c :: more.takeWhile isNumberPart) = none := by
  have hpart : isNumberPart c = true := by simp [isNumberPart, hc]
  have hnumber : c :: more.takeWhile isNumberPart = (c :: more).takeWhile isNumberPart := by
    rw [List.takeWhile_cons_of_pos hpart]
  rw [kindOf?_number_eq_none _ hc, hnumber, Text.digitsValue_eq]
  constructor
  · rintro ⟨-, digits, behind, htext, -, hdigits, hsize⟩
    have hparts : ∀ d ∈ digits, isNumberPart d = true := fun d hd => by simp [isNumberPart, hdigits d hd]
    have htake : (c :: more).takeWhile isNumberPart = digits ++ '.' :: behind.takeWhile isNumberPart := by
      rw [htext, List.takeWhile_append_of_pos hparts, List.takeWhile_cons_of_pos (by decide)]
    have hwhole : wholeDigits (digits ++ '.' :: behind.takeWhile isNumberPart) = digits := by
      refine (takeWhile_run ?_ (by simp)).1
      intro d hd
      refine decide_eq_true ?_
      rintro rfl
      exact absurd (hdigits _ hd) (by decide)
    rw [htake, hwhole]
    exact ⟨by simp, hsize⟩
  · rintro ⟨hdotted, hsize⟩
    obtain ⟨behind, hbehind⟩ := wholeDigits_point hdotted
    refine ⟨hr, wholeDigits ((c :: more).takeWhile isNumberPart), behind ++ (c :: more).dropWhile isNumberPart, ?_, ?_,
      ?_, hsize⟩
    · calc c :: more = (c :: more).takeWhile isNumberPart ++ (c :: more).dropWhile isNumberPart :=
            List.takeWhile_append_dropWhile.symm
        _ = wholeDigits ((c :: more).takeWhile isNumberPart) ++ '.' :: behind ++
            (c :: more).dropWhile isNumberPart := congrArg (· ++ _) hbehind
        _ = _ := by simp
    · have hne : c ≠ '.' := by
        rintro rfl
        cases hc
      rw [← hnumber, wholeDigits, List.takeWhile_cons_of_pos (by simpa using hne)]
      exact List.cons_ne_nil _ _
    · intro d hd
      have hpart := List.mem_takeWhile_imp ((List.takeWhile_sublist _).subset hd)
      have hne := List.mem_takeWhile_imp (p := fun x => decide (x ≠ '.')) hd
      simpa [isNumberPart, of_decide_eq_true hne] using hpart

/-- a region that is over in front of a token is no comment, and in front of a number it is vacant -/
theorem Region.Settled.outside {r : Region} {c : Char} {more : List Char} (h : r.Settled (c :: more))
    (hgap : isGap c = false) : r.Outside := by
  cases r with
  | comment =>
    obtain rfl : c = '\n' := by simpa [Settled] using h
    cases hgap
  | literal => cases h
  | code => exact ⟨by decide, by decide⟩
  | slash => exact ⟨by decide, by decide⟩
  | name => exact ⟨by decide, by decide⟩
  | number => exact ⟨by decide, by decide⟩

theorem Region.Settled.vacant {r : Region} {c : Char} {more : List Char} (h : r.Settled (c :: more))
    (hc : c.isDigit = true) : r.Vacant := by
  cases r with
  | code => exact .inl rfl
  | slash => exact .inr rfl
  | comment =>
    obtain rfl : c = '\n' := by simpa [Settled] using h
    cases hc
  | literal => cases h
  | name =>
    have hpart : isSymbolPart c = false := by simpa [Settled] using h
    simp [isSymbolPart, hc] at hpart
  | number =>
    have hpart : isNumberPart c = false := by simpa [Settled] using h
    simp [isNumberPart, hc] at hpart

/-- only numbers can lack a kind -/
theorem number_of_kindOf?_eq_none {c : Char} {more lexeme behind : List Char}
    (hsplit : splitLexeme (c :: more) = some (lexeme, behind)) (hkind : kindOf? lexeme = none) :
    c.isDigit = true ∧ lexeme = c :: more.takeWhile isNumberPart := by
  simp only [splitLexeme] at hsplit
  split_ifs at hsplit with hsymbol hdigit hquote hmark
  · cases hsplit
    simp [kindOf?, hsymbol] at hkind
  · cases hsplit
    exact ⟨hdigit, rfl⟩
  · subst hquote
    cases hsplit
    cases hkind
  · cases hsplit
    simp [kindOf?, hsymbol, hdigit, hquote] at hkind

theorem begun_of_isSymbolStart {c : Char} (h : isSymbolStart c = true) : Region.begun c = .name := by
  have hquote : c ≠ '"' := by
    rintro rfl
    cases h
  have hslash : c ≠ '/' := by
    rintro rfl
    cases h
  simp [Region.begun, hquote, hslash, h]

theorem head_dropWhile {p : Char → Bool} (cs : List Char) : ∀ c ∈ (cs.dropWhile p).head?, p c = false := by
  intro c hc
  have hhead := List.head?_dropWhile_not p cs
  rw [hc] at hhead
  simpa using hhead

section Tokens

variable {front more : List Char} {c : Char}

theorem Clear.string (hregion : Region.atEnd (front ++ ['"']) = .literal)
    (h : Clear (front ++ '"' :: more) (front ++ ['"']).length) :
    let closing := more.dropWhile (· ≠ '"')
    let lexeme := '"' :: more.takeWhile (· ≠ '"') ++ closing.take 1
    Clear (front ++ '"' :: more) (front ++ lexeme).length ∧ (Region.atEnd (front ++ lexeme)).Settled (closing.drop 1) := by
  intro closing lexeme
  obtain ⟨hclear, hend⟩ := Clear.taken literal_kept hregion h
  have hhead : ∀ d ∈ closing.head?, decide (d ≠ '"') = false := head_dropWhile more
  have htext : front ++ '"' :: more = front ++ '"' :: more.takeWhile (· ≠ '"') ++ closing := by
    simp only [closing, List.append_assoc, List.cons_append, List.takeWhile_append_dropWhile]
  have hlexeme : front ++ lexeme = front ++ '"' :: more.takeWhile (· ≠ '"') ++ closing.take 1 := by
    simp only [lexeme, List.append_assoc]
  rw [hlexeme]
  cases hclosing : closing with
  | nil =>
    -- the string is open and ends with the text
    rw [List.take_nil, List.append_nil, hend]
    exact ⟨hclear, rfl⟩
  | cons d behind =>
    obtain rfl : d = '"' := by simpa [hclosing] using hhead
    rw [hclosing] at htext
    rw [htext] at hclear ⊢
    have hcode : Region.atEnd (front ++ '"' :: more.takeWhile (· ≠ '"') ++ ['"']) = .code := by
      rw [Region.atEnd_snoc, hend]
      decide
    rw [List.take_succ_cons, List.take_zero, hcode]
    exact ⟨hclear.plain (.inr (.inr (.inl rfl))) (by decide), trivial⟩

theorem Clear.mark (hc : isPunctuation c = true) (hhead : c = '/' → more.head? ≠ some '/')
    (hregion : Region.atEnd (front ++ [c]) = Region.begun c) : (Region.atEnd (front ++ [c])).Settled more := by
  obtain ⟨hstart, hdigit, hquote, -⟩ := punctuation_apart c (mem_of_isPunctuation hc)
  rw [hregion]
  by_cases hslash : c = '/'
  · have hbegun : Region.begun c = .slash := by rw [hslash]; rfl
    rw [hbegun]
    exact hhead hslash
  · have hbegun : Region.begun c = .code := by simp [Region.begun, hquote, hslash, hstart, hdigit]
    rw [hbegun]
    trivial

/-- there is no trouble in a token that has a kind, and the region behind it is over -/
theorem Clear.token {lexeme behind : List Char} {kind : TokenKind}
    (hsettled : (Region.atEnd front).Settled (c :: more)) (hhead : c = '/' → more.head? ≠ some '/')
    (hsplit : splitLexeme (c :: more) = some (lexeme, behind)) (hkind : kindOf? lexeme = some kind)
    (h : Clear (front ++ c :: more) front.length) :
    Clear (front ++ c :: more) (front ++ lexeme).length ∧ (Region.atEnd (front ++ lexeme)).Settled behind := by
  have hregion : Region.atEnd (front ++ [c]) = .begun c := by rw [Region.atEnd_snoc, hsettled.step]
  simp only [splitLexeme] at hsplit
  split_ifs at hsplit with hsymbol hdigit hquote hmark
  · cases hsplit
    have hplain : c.isDigit = false := by
      by_contra hdigit
      rw [isSymbolStart_of_isDigit (by simpa using hdigit)] at hsymbol
      cases hsymbol
    have halphabet : InAlphabet c := .inr (.inl (by simp [isSymbolPart, hsymbol]))
    obtain ⟨hclear, hend⟩ :=
      Clear.taken name_kept (hregion.trans (begun_of_isSymbolStart hsymbol)) (h.plain halphabet hplain)
    rw [hend]
    exact ⟨hclear, head_dropWhile more⟩
  · cases hsplit
    have halphabet : InAlphabet c := .inr (.inl (by simp [isSymbolPart, hdigit]))
    have hsize : ¬ Oversized (.atEnd front) (c :: more) := by
      rw [oversized_iff (hsettled.vacant hdigit) hdigit, hkind]
      simp
    obtain ⟨hclear, hend⟩ :=
      Clear.taken number_kept (hregion.trans (begun_of_isDigit hdigit)) (h.snoc (not_stray halphabet more) hsize)
    rw [hend]
    exact ⟨hclear, head_dropWhile more⟩
  · subst hquote
    cases hsplit
    exact Clear.string hregion (h.plain (.inr (.inr (.inl rfl))) (by decide))
  · cases hsplit
    obtain ⟨-, hdigit, -, -⟩ := punctuation_apart c (mem_of_isPunctuation hmark)
    exact ⟨h.plain (.inr (.inr (.inr hmark))) hdigit, Clear.mark hmark hhead hregion⟩

end Tokens

/-! ## Whole texts -/

/-- scanning what remains of a text behind a region that is over: its fault is the first trouble of the text -/
theorem scanFrom_verdict (file : Option String) (cs : List Char) {front : List Char}
    (hsettled : (Region.atEnd front).Settled cs) (h : Clear (front ++ cs) front.length) :
    Verdict (front ++ cs) file (scanFrom file (.endOf front) cs).fault := by
  induction hn : cs.length using Nat.strongRecOn generalizing front cs with
  | ind n ih =>
    rcases hg : splitGap false (.endOf front) cs with ⟨start, rest⟩
    obtain ⟨gap, rfl, rfl, hgap⟩ := splitGap_spec hg
    rw [if_neg (by simp)] at hgap
    rw [Position.after_endOf] at hg
    obtain ⟨hclear, hover⟩ := Clear.gap hgap hsettled h
    cases rest with
    | nil =>
      rw [scanFrom_ended hg]
      simpa [Verdict] using hclear
    | cons c more =>
      obtain ⟨hsolid, hhead⟩ := splitGap_head hg
      rw [← List.append_assoc] at hclear ⊢
      cases hl : splitLexeme (c :: more) with
      | none =>
        rw [scanFrom_unknown hg hl]
        refine ⟨(front ++ gap).length, hclear, ?_, ?_, ?_⟩
        · rw [StrayAt, List.take_left, List.drop_left]
          exact ⟨hover.outside hsolid, c, rfl, not_inAlphabet hl hsolid⟩
        · simp
        · have htake : (front ++ gap ++ c :: more).take ((front ++ gap).length + 1) = front ++ gap ++ [c] := by
            have hsnoc : front ++ gap ++ c :: more = front ++ gap ++ [c] ++ more := by simp
            rw [hsnoc]
            exact List.take_left' (by simp [Nat.add_assoc])
          rw [List.take_left, htake, Position.step_endOf]
      | some split =>
        obtain ⟨lexeme, behind⟩ := split
        cases hk : kindOf? lexeme with
        | none =>
          rw [scanFrom_tooLarge hg hl hk]
          refine ⟨(front ++ gap).length, hclear, ?_⟩
          obtain ⟨hdigit, rfl⟩ := number_of_kindOf?_eq_none hl hk
          rw [OversizedAt, List.take_left, List.drop_left, oversized_iff (hover.vacant hdigit) hdigit]
          exact hk
        | some kind =>
          obtain ⟨htoken, hend⟩ := Clear.token hover hhead hl hk hclear
          obtain ⟨happend, -⟩ := splitLexeme_append hl
          have hless : behind.length < n := by
            have := splitLexeme_length_lt hl
            rw [List.length_append] at hn
            omega
          have htext : front ++ gap ++ c :: more = front ++ gap ++ lexeme ++ behind := by simp [← happend]
          rw [scanFrom_lexeme hg hl hk, Position.after_endOf, htext]
          rw [htext] at htoken
          exact ih behind.length hless behind hend htoken rfl

theorem StrayAt.lt {text : List Char} {p : Nat} (h : StrayAt text p) : p < text.length := by
  obtain ⟨-, c, hc, -⟩ := h
  by_contra hle
  rw [List.drop_eq_nil_of_le (Nat.not_lt.1 hle)] at hc
  cases hc

theorem OversizedAt.lt {text : List Char} {p : Nat} (h : OversizedAt text p) : p < text.length := by
  obtain ⟨-, digits, more, htext, -⟩ := h
  by_contra hle
  rw [List.drop_eq_nil_of_le (Nat.not_lt.1 hle)] at htext
  simp at htext

/-- a character outside of the alphabet starts no number -/
theorem StrayAt.not_oversizedAt {text : List Char} {p : Nat} (h : StrayAt text p) : ¬ OversizedAt text p := by
  intro hsize
  obtain ⟨-, c, hc, hout⟩ := h
  obtain ⟨more, hmore⟩ := List.head?_eq_some_iff.1 hc
  rw [OversizedAt, hmore] at hsize
  exact hout (.inr (.inl (by simp [isSymbolPart, hsize.head_isDigit])))

theorem Clear.le {text : List Char} {p q : Nat} (h : Clear text p) (hq : StrayAt text q ∨ OversizedAt text q) : p ≤ q := by
  by_contra hlt
  obtain ⟨hstray, hsize⟩ := h q (Nat.not_le.1 hlt)
  exact hq.elim hstray hsize

/-- a text has one verdict -/
theorem Verdict.unique {text : List Char} {file : Option String} {a b : Option ScanFault} (ha : Verdict text file a)
    (hb : Verdict text file b) : a = b := by
  have hclean : ∀ {q}, Clear text text.length → StrayAt text q ∨ OversizedAt text q → False := by
    intro q hclear hq
    have hle := hclear.le hq
    have hlt := hq.elim StrayAt.lt OversizedAt.lt
    omega
  match a, b with
  | none, none => rfl
  | none, some (.unknownCharacter _ _) =>
    obtain ⟨q, -, hq, -⟩ := hb
    exact (hclean ha (.inl hq)).elim
  | none, some .numberTooLarge =>
    obtain ⟨q, -, hq⟩ := hb
    exact (hclean ha (.inr hq)).elim
  | some (.unknownCharacter _ _), none =>
    obtain ⟨p, -, hp, -⟩ := ha
    exact (hclean hb (.inl hp)).elim
  | some .numberTooLarge, none =>
    obtain ⟨p, -, hp⟩ := ha
    exact (hclean hb (.inr hp)).elim
  | some (.unknownCharacter c _), some (.unknownCharacter d _) =>
    obtain ⟨p, hclear, hp, hc, rfl⟩ := ha
    obtain ⟨q, hclear', hq, hd, rfl⟩ := hb
    obtain rfl : p = q := Nat.le_antisymm (hclear.le (.inl hq)) (hclear'.le (.inl hp))
    obtain rfl : c = d := Option.some.inj (hc.symm.trans hd)
    rfl
  | some (.unknownCharacter _ _), some .numberTooLarge =>
    obtain ⟨p, hclear, hp, -⟩ := ha
    obtain ⟨q, hclear', hq⟩ := hb
    obtain rfl : p = q := Nat.le_antisymm (hclear.le (.inr hq)) (hclear'.le (.inl hp))
    exact (hp.not_oversizedAt hq).elim
  | some .numberTooLarge, some (.unknownCharacter _ _) =>
    obtain ⟨p, hclear, hp⟩ := ha
    obtain ⟨q, hclear', hq, -⟩ := hb
    obtain rfl : p = q := Nat.le_antisymm (hclear.le (.inl hq)) (hclear'.le (.inr hp))
    exact (hq.not_oversizedAt hp).elim
  | some .numberTooLarge, some .numberTooLarge => rfl

theorem scan_verdict (source : String) (file : Option String) :
    Verdict source.toList file (scan source file).fault := by
  have hclear : Clear ([] ++ source.toList) ([] : List Char).length := fun k hk => absurd hk (Nat.not_lt_zero k)
  have hsettled : (Region.atEnd []).Settled source.toList := trivial
  exact scanFrom_verdict file source.toList hsettled hclear

theorem tokenize_eq_error (source : String) (file : Option String) (fault : ScanFault) :
    tokenize source file = .error fault ↔ Verdict source.toList file (some fault) := by
  have hverdict := scan_verdict source file
  rcases tokenize_cases source file with ⟨found, hfound, htokenize⟩ | ⟨hnone, htokenize⟩
  · rw [hfound] at hverdict
    rw [htokenize, Except.error.injEq]
    constructor
    · rintro rfl
      exact hverdict
    · intro h
      exact Option.some.inj (hverdict.unique h)
  · rw [hnone] at hverdict
    rw [htokenize]
    constructor
    · intro h
      cases h
    · intro h
      cases hverdict.unique h

theorem tokenize_eq_ok (source : String) (file : Option String) :
    (∃ tokens, tokenize source file = .ok tokens) ↔ Verdict source.toList file none := by
  have hverdict := scan_verdict source file
  rcases tokenize_cases source file with ⟨found, hfound, htokenize⟩ | ⟨hnone, htokenize⟩
  · rw [hfound] at hverdict
    rw [htokenize]
    constructor
    · rintro ⟨tokens, htokens⟩
      cases htokens
    · intro h
      cases hverdict.unique h
  · rw [hnone] at hverdict
    exact ⟨fun _ => hverdict, fun _ => ⟨_, htokenize⟩⟩

/-- **Which texts can be tokenized.** Tokens are returned exactly for the texts without trouble. A character outside of
the alphabet and of comments and strings in front of which there is no trouble is the one that is refused, at its place
and over its width; and a number with a point and a whole part that is too large in front of which there is no trouble is
the only other thing that stops tokenizing. The first is reported as the error E001, the second as a failure of the host. -/
theorem tokenize_verdict (source : String) (file : Option String) :
    let text := source.toList
    ((∃ tokens, tokenize source file = .ok tokens) ↔ Clear text text.length) ∧
      (∀ c span, tokenize source file = .error (.unknownCharacter c span) ↔
        ∃ p, Clear text p ∧ StrayAt text p ∧ text[p]? = some c ∧
          span = ⟨.endOf (text.take p), .endOf (text.take (p + 1)), file⟩) ∧
      (tokenize source file = .error .numberTooLarge ↔ ∃ p, Clear text p ∧ OversizedAt text p) ∧
      (∀ c span, ∃ d, (ScanFault.unknownCharacter c span).failure source = .script ⟨.scanning, d⟩ ∧ d.code = "E001" ∧
        d.span = some span) ∧
      ScanFault.numberTooLarge.failure source = .host .intTooLarge := by
  intro text
  refine ⟨tokenize_eq_ok source file, ?_, tokenize_eq_error source file .numberTooLarge, ?_, rfl⟩
  · intro c span
    exact tokenize_eq_error source file (.unknownCharacter c span)
  · intro c span
    exact ⟨_, rfl, rfl, rfl⟩

/-- every character of the text is in the alphabet, and yet it cannot be tokenized: a one and four hundred zeros in front
of a point are too large for a floating-point number -/
theorem tokenize_wide_literal :
    let text := '1' :: (List.replicate 400 '0' ++ ['.', '0'])
    (∀ c ∈ text, InAlphabet c) ∧ (∀ p, ¬ StrayAt text p) ∧
      tokenize (String.ofList text) = .error .numberTooLarge := by
  intro text
  have halphabet : ∀ c ∈ text, InAlphabet c := by
    intro c hc
    simp only [text, List.mem_cons, List.mem_append, List.mem_replicate, List.not_mem_nil, or_false] at hc
    rcases hc with rfl | ⟨-, rfl⟩ | rfl | rfl
    · exact .inr (.inl rfl)
    · exact .inr (.inl rfl)
    · exact .inr (.inr (.inr rfl))
    · exact .inr (.inl rfl)
  refine ⟨halphabet, ?_, ?_⟩
  · rintro p ⟨-, c, hc, hout⟩
    exact hout (halphabet c (List.mem_of_mem_drop (List.mem_of_mem_head? hc)))
  · have hdigits : ∀ c ∈ '1' :: List.replicate 400 '0', c.isDigit = true := by
      intro c hc
      rcases List.mem_cons.1 hc with rfl | hc
      · rfl
      · rw [List.eq_of_mem_replicate hc]
        rfl
    have hsize : Decimal.overflowStart ≤ Text.digitsValue ('1' :: List.replicate 400 '0') := by decide +kernel
    rw [Text.digitsValue_eq] at hsize
    rw [tokenize_eq_error, String.toList_ofList]
    refine ⟨0, fun k hk => absurd hk (Nat.not_lt_zero k), .inl rfl, '1' :: List.replicate 400 '0', ['0'], rfl, ?_, ?_, ?_⟩
    · exact List.cons_ne_nil _ _
    · exact hdigits
    · exact hsize

end LevelScript.Syntax
