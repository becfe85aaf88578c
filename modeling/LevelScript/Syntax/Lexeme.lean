/-
From a source text to its tokens.

`splitGap` drops blanks and comments, `splitLexeme` takes the characters of one token, and `kindOf?` reads the kind of a
token off its characters alone. `scanFrom` alternates the two until the text ends or holds a character that starts no
token. Nothing is lost on the way: the gaps and lexemes are the text.
-/
import LevelScript.Syntax.Token
import LevelScript.Text.Basic
import LevelScript.Diagnostic

namespace LevelScript.Syntax

/-! ## Characters -/

/-- a letter or underscore, which starts a name -/
def isSymbolStart (c : Char) : Bool :=
  c.isAlpha || c = '_'

def isSymbolPart (c : Char) : Bool :=
  isSymbolStart c || c.isDigit

/-- a character inside a number; any count of points is allowed -/
def isNumberPart (c : Char) : Bool :=
  c.isDigit || c = '.'

/-- the punctuation characters, each a token of its own -/
def isPunctuation (c : Char) : Bool :=
  "+-*/()\x7b\x7d;=><,.[]".toList.contains c

def isGap (c : Char) : Bool :=
  c = ' ' || c = '\t' || c = '\r' || c = '\n'

/-! ## Gaps and lexemes -/

/-- what follows the blanks and comments at the start of a text, and its position; the flag tells whether the text starts
inside a comment, which ends with its line -/
def splitGap (inComment : Bool) (p : Position) : List Char → Position × List Char
  | [] => (p, [])
  | c :: rest =>
    if inComment then splitGap (c ≠ '\n') (p.step c) rest
    else if isGap c then splitGap false (p.step c) rest
    else if c = '/' ∧ rest.head? = some '/' then splitGap true (p.step c) rest
    else (p, c :: rest)

/-- the characters of the token at the start of a text, and what follows them; a string runs to the next quote or to the
end of the text -/
def splitLexeme : List Char → Option (List Char × List Char)
  | [] => none
  | c :: rest =>
    if isSymbolStart c then some (c :: rest.takeWhile isSymbolPart, rest.dropWhile isSymbolPart)
    else if c.isDigit then some (c :: rest.takeWhile isNumberPart, rest.dropWhile isNumberPart)
    else if c = '"' then
      let closing := rest.dropWhile (· ≠ '"')
      some (c :: rest.takeWhile (· ≠ '"') ++ closing.take 1, closing.drop 1)
    else if isPunctuation c then some ([c], rest)
    else none

/-- the value of the digits after a point, added up from the left -/
def fractionValue (digits : List Char) : Float :=
  (digits.foldl (fun (sum, unit) c => (sum + Float.ofNat (c.toNat - 48) / unit, unit * 10.0)) (0.0, 10.0)).1

/-- the value of a number with a point: the digits before the first point and those after it, further points left out;
none if the whole part is beyond the largest floating-point number -/
def pointValue? (number : List Char) : Option Float :=
  let whole := number.takeWhile (· ≠ '.')
  let fraction := (number.dropWhile (· ≠ '.')).filter Char.isDigit
  (Decimal.ofInt? (Text.digitsValue whole)).map (· + fractionValue fraction)

/-- the text of a string literal between its quotes; the closing quote may be missing -/
def stringBody (lexeme : List Char) : String :=
  String.ofList ((lexeme.drop 1).takeWhile (· ≠ '"'))

/-- the kind of the token that is written with the given characters -/
def kindOf? : List Char → Option TokenKind
  | [] => some .eof
  | c :: rest =>
    if isSymbolStart c then some (.symbol (String.ofList (c :: rest)))
    else if c.isDigit then
      if rest.contains '.' then (pointValue? (c :: rest)).map .float
      else some (.int (Text.digitsValue (c :: rest)))
    else if c = '"' then some (.string (stringBody (c :: rest)))
    else some (.char c)

/-! ## Scanning -/

/-- why scanning stops before the end of the text -/
inductive ScanFault where
  | unknownCharacter (c : Char) (span : Span)
  | numberTooLarge
  deriving DecidableEq, Repr

/-- the wording of a fault; a character that starts no token is quoted with its source line -/
def ScanFault.failure (source : String) : ScanFault → Failure
  | .unknownCharacter c span =>
    .script ⟨.scanning, {
      code := "E001"
      message := "Unknown character when tokenizing: '" ++ String.singleton c ++ "'"
      span := some span
      sourceLine := Text.line? source span.start.line }⟩
  | .numberTooLarge => .host .intTooLarge

/-- the tokens of a text up to its end or to the first fault -/
structure Scan where
  tokens : List Token
  fault : Option ScanFault

theorem splitGap_length_le (inComment : Bool) (p : Position) (cs : List Char) :
    (splitGap inComment p cs).2.length ≤ cs.length := by
  induction cs generalizing inComment p with
  | nil => simp [splitGap]
  | cons c rest ih =>
    unfold splitGap
    split
    · exact Nat.le_succ_of_le (ih _ _)
    · split
      · exact Nat.le_succ_of_le (ih _ _)
      · split
        · exact Nat.le_succ_of_le (ih _ _)
        · simp

theorem splitLexeme_append {cs lexeme rest : List Char} (h : splitLexeme cs = some (lexeme, rest)) :
    lexeme ++ rest = cs ∧ lexeme ≠ [] := by
  cases cs with
  | nil => simp [splitLexeme] at h
  | cons c tail =>
    simp only [splitLexeme] at h
    split at h
    · cases h; simp
    · split at h
      · cases h; simp
      · split at h
        · cases h
          refine ⟨?_, by simp⟩
          rw [List.append_assoc, List.take_append_drop, List.cons_append, List.takeWhile_append_dropWhile]
        · split at h <;> cases h
          simp

theorem splitLexeme_length_lt {cs lexeme rest : List Char} (h : splitLexeme cs = some (lexeme, rest)) :
    rest.length < cs.length := by
  obtain ⟨rfl, hne⟩ := splitLexeme_append h
  have := List.length_pos_iff.2 hne
  simp
  omega

/-- the tokens of the text that remains at a position -/
def scanFrom (file : Option String) (p : Position) (cs : List Char) : Scan :=
  match _hg : splitGap false p cs with
  | (start, []) => ⟨[⟨.eof, "", ⟨start, start, file⟩⟩], none⟩
  | (start, c :: more) =>
    match _hl : splitLexeme (c :: more) with
    | none => ⟨[], some (.unknownCharacter c ⟨start, start.step c, file⟩)⟩
    | some (lexeme, rest) =>
      match kindOf? lexeme with
      | none => ⟨[], some .numberTooLarge⟩
      | some kind =>
        let stop := start.after lexeme
        let next := scanFrom file stop rest
        ⟨⟨kind, String.ofList lexeme, ⟨start, stop, file⟩⟩ :: next.tokens, next.fault⟩
termination_by cs.length
decreasing_by
  have h1 := splitGap_length_le false p cs
  have h2 := splitLexeme_length_lt _hl
  rw [_hg] at h1
  exact Nat.lt_of_lt_of_le h2 h1

def scan (source : String) (file : Option String := none) : Scan :=
  scanFrom file {} source.toList

/-- all tokens of a source text, the last of which marks its end -/
def tokenize (source : String) (file : Option String := none) : Except ScanFault (List Token) :=
  let s := scan source file
  match s.fault with
  | some fault => .error fault
  | none => .ok s.tokens

end LevelScript.Syntax
