/-
Documents read as data.

A document is a value in flow form (brackets, braces, quoted texts: every JSON document is one), a plain word, or a
value in block form: a list whose items follow dashes in one column, or a mapping whose keys stand in one column. A
comment runs from a number sign to the end of its line. A document of blanks alone stands for nothing. A mapping takes in
what stands under the plain key `<<`. Anchors, tags and texts in block form are not read, and keys and dates are words.

Words, quoted texts and values in flow form are read off a list of characters, and block forms off a `Cursor`, since the
columns tell where they end. Every reader takes a bound on its depth; that of `read` is more than any document needs.
-/
import LevelScript.Document.Scalar

namespace LevelScript.Document

inductive Flaw where
  | malformed
  | number (e : HostError)
  deriving DecidableEq, Repr

def Flaw.failure : Flaw → HostError
  | .malformed => .invalidValue "while parsing a document"
  | .number e => e

/-! ## Blanks -/

/-- where reading stands: the characters that remain, and the line and the column of the first of them -/
structure Cursor where
  rest : List Char
  line : Nat := 0
  column : Nat := 0

/-- the cursor behind blanks, line ends and comments -/
def skipFrom (comment : Bool) (line column : Nat) : List Char → Cursor
  | [] => ⟨[], line, column⟩
  | c :: rest =>
    if c = '\n' then skipFrom false (line + 1) 0 rest
    else if comment || c = '#' then skipFrom true line (column + 1) rest
    else if c = ' ' then skipFrom false line (column + 1) rest
    else ⟨c :: rest, line, column⟩

/-- the characters behind blanks, line ends and comments -/
def skip (chars : List Char) : List Char :=
  (skipFrom false 0 0 chars).rest

/-- the cursor moved on to the first character that is no blank of the given remainder of its text -/
def Cursor.advance (here : Cursor) (rest : List Char) : Cursor :=
  let passed := here.rest.take (here.rest.length - rest.length)
  let lines := passed.count '\n'
  let column := if lines = 0 then here.column + passed.length else (passed.reverse.takeWhile (· ≠ '\n')).length
  skipFrom false (here.line + lines) column rest

/-- whether a text ends or goes on with a blank -/
def atBlank : List Char → Bool
  | [] => true
  | c :: _ => c = ' ' || c = '\n' || c = '\t'

/-- the cursor behind a mark of three equal characters at the start of a line, if it stands there -/
def Cursor.afterMark? (here : Cursor) (mark : Char) : Option Cursor :=
  if here.column = 0 && here.rest.take 3 = List.replicate 3 mark && atBlank (here.rest.drop 3) then
    some (here.advance (here.rest.drop 3))
  else none

/-- whether the document has ended, with the text or with the mark of an end -/
def Cursor.atEnd (here : Cursor) : Bool :=
  here.rest.isEmpty || (here.afterMark? '.').isSome

/-! ## Words and quoted texts -/

/-- the characters that structure values in flow form -/
def isFlowMark (c : Char) : Bool :=
  c = ',' || c = '[' || c = ']' || c = '\x7b' || c = '\x7d'

/-- whether a plain word ends before the first character; in flow form it also ends before marks -/
def endsWord (flow afterBlank : Bool) : List Char → Bool
  | [] => true
  | c :: rest =>
    c = '\n' || c = '\t' || (c = '#' && afterBlank) ||
      (c = ':' && (atBlank rest || (flow && (rest.head?.elim false isFlowMark)))) ||
      (flow && (isFlowMark c || c = '?'))

/-- a plain word up to its end, blanks behind it included, and what follows -/
def splitWord (flow afterBlank : Bool) : List Char → List Char × List Char
  | [] => ([], [])
  | c :: rest =>
    if endsWord flow afterBlank (c :: rest) then ([], c :: rest)
    else
      let (word, others) := splitWord flow (c = ' ') rest
      (c :: word, others)

def startsWord (flow : Bool) : List Char → Bool
  | [] => false
  | c :: rest =>
    if c = '-' then !atBlank rest
    else if c = '?' || c = ':' then !flow && !atBlank rest
    else !(atBlank [c] || isFlowMark c || "#&*!|>'\"%@".contains c || c.toNat = 0x60)

/-- the character that an escape of one letter stands for -/
def escaped? (c : Char) : Option Char :=
  ([('0', '\x00'), ('a', '\x07'), ('b', '\x08'), ('t', '\t'), ('\t', '\t'), ('n', '\n'), ('v', '\x0b'), ('f', '\x0c'),
    ('r', '\r'), ('e', '\x1b'), (' ', ' '), ('"', '"'), ('\\', '\\'), ('/', '/'), ('N', '\u0085'), ('_', '\u00a0'),
    ('L', '\u2028'), ('P', '\u2029')] : List (Char × Char)).lookup c

/-- how many hexadecimal digits follow an escape letter -/
def escapeWidth? (c : Char) : Option Nat :=
  ([('x', 2), ('u', 4), ('U', 8)] : List (Char × Nat)).lookup c

/-- a text in double quotes, the opening one read; `skipped` characters belong to an escape and are passed over -/
def readDouble (skipped : Nat) (chars : List Char) : Except Flaw (List Char × List Char) :=
  match skipped, chars with
  | _, [] => .error .malformed
  | n + 1, _ :: rest => readDouble n rest
  | 0, '"' :: rest => .ok ([], rest)
  | 0, '\\' :: rest =>
    match rest with
    | [] => .error .malformed
    | c :: digits => match escaped? c, escapeWidth? c with
      | some e, _ => (readDouble 1 rest).map fun (text, others) => (e :: text, others)
      | none, some width =>
        let code := digits.take width
        if code.length = width && code.all (fun d => d ≠ '_' && inBase 16 d) then
          (readDouble (width + 1) rest).map fun (text, others) =>
            (Char.ofNat (code.foldl (fun n d => 16 * n + baseDigit d) 0) :: text, others)
        else .error .malformed
      | none, none => .error .malformed
  | 0, c :: rest =>
    if c = '\n' then .error .malformed else (readDouble 0 rest).map fun (text, others) => (c :: text, others)

/-- a text in single quotes, the opening one read; a quote within it is written twice -/
def readSingle : List Char → Except Flaw (List Char × List Char)
  | [] => .error .malformed
  | '\'' :: '\'' :: rest => (readSingle rest).map fun (text, others) => ('\'' :: text, others)
  | '\'' :: rest => .ok ([], rest)
  | c :: rest =>
    if c = '\n' then .error .malformed else (readSingle rest).map fun (text, others) => (c :: text, others)

/-- a quoted text or a plain word; tells whether it is quoted -/
def readText (flow : Bool) : List Char → Except Flaw ((Bool × String) × List Char)
  | '"' :: rest => (readDouble 0 rest).map fun (text, others) => ((true, String.ofList text), others)
  | '\'' :: rest => (readSingle rest).map fun (text, others) => ((true, String.ofList text), others)
  | chars =>
    if startsWord flow chars then
      let (word, others) := splitWord flow false chars
      .ok ((false, String.ofList (word.reverse.dropWhile (· = ' ')).reverse), others)
    else .error .malformed

/-- the plain key under which a mapping takes in others -/
def mergeKey : String := "<<"

/-- the data that a quoted text or a plain word stands for; two plain words stand for nothing but keys -/
def scalarOf (quoted : Bool) (text : String) : Except Flaw Data :=
  if quoted then .ok (.text text)
  else if text = mergeKey ∨ text = "=" then .error .malformed
  else (ofWord text).mapError .number

def readScalar (flow : Bool) (chars : List Char) : Except Flaw (Data × List Char) := do
  let ((quoted, text), rest) ← readText flow chars
  return (← scalarOf quoted text, rest)

/-! ## Mappings -/

/-- an entry of a mapping as it is read: whether its key is quoted, the key and the value -/
abbrev Entry := (Bool × String) × Data

def Entry.isMerge (e : Entry) : Bool :=
  !e.1.1 && e.1.2 = mergeKey

/-- the entries that a mapping takes in: those of another one, or those of a list of mappings, the last one first -/
def takenIn : Data → Except Flaw (List (String × Data))
  | .record entries => .ok entries
  | .list items => List.flatten <$> items.reverse.mapM fun
    | .record entries => .ok entries
    | _ => .error .malformed
  | _ => .error .malformed

/-- the mapping of the entries; what it takes in comes first, so that entries of its own replace it -/
def mappingOf (entries : List Entry) : Except Flaw Data := do
  let taken ← (entries.filter (·.isMerge)).mapM fun e => takenIn e.2
  return .ofPairs (taken.flatten ++ (entries.filter (!·.isMerge)).map fun e => (e.1.2, e.2))

/-! ## Flow form -/

/-- what follows an entry: more entries after a comma, or the end of the collection -/
def afterEntry (close : Char) (chars : List Char) : Except Flaw (Bool × List Char) :=
  match skip chars with
  | c :: rest => if c = ',' then .ok (true, rest) else if c = close then .ok (false, rest) else .error .malformed
  | [] => .error .malformed

mutual

def readFlow : Nat → List Char → Except Flaw (Data × List Char)
  | 0, _ => .error .malformed
  | bound + 1, chars => match chars with
    | '[' :: rest => (readItems bound rest).map fun (items, others) => (.list items, others)
    | '\x7b' :: rest => do
      let (entries, others) ← readEntries bound rest
      return (← mappingOf entries, others)
    | _ => readScalar true chars

def readItems : Nat → List Char → Except Flaw (List Data × List Char)
  | 0, _ => .error .malformed
  | bound + 1, chars => match skip chars with
    | ']' :: rest => .ok ([], rest)
    | start => do
      let (item, rest) ← readFlow bound start
      match ← afterEntry ']' rest with
      | (true, rest) =>
        let (items, rest) ← readItems bound rest
        return (item :: items, rest)
      | (false, rest) => return ([item], rest)

/-- the entries of a mapping up to its closing brace; a key without a value stands for nothing -/
def readEntries : Nat → List Char → Except Flaw (List Entry × List Char)
  | 0, _ => .error .malformed
  | bound + 1, chars => match skip chars with
    | '\x7d' :: rest => .ok ([], rest)
    | start => do
      let (key, rest) ← readText true start
      let (value, rest) ← match skip rest with
        | ':' :: rest => match skip rest with
          | c :: others =>
            if c = ',' || c = '\x7d' then pure (Data.null, c :: others) else readFlow bound (c :: others)
          | [] => throw .malformed
        | rest => pure (Data.null, rest)
      match ← afterEntry '\x7d' rest with
      | (true, rest) =>
        let (entries, rest) ← readEntries bound rest
        return ((key, value) :: entries, rest)
      | (false, rest) => return ([(key, value)], rest)

end

/-! ## Block form -/

def Cursor.atDash (here : Cursor) : Bool :=
  match here.rest with
  | '-' :: rest => atBlank rest
  | _ => false

/-- what follows the colon of a block key, if the characters start with one -/
def afterColon? (chars : List Char) : Option (List Char) :=
  match chars.dropWhile (· = ' ') with
  | ':' :: rest => if atBlank rest then some rest else none
  | _ => none

/-- a value that ends on the line of its key, or in flow form -/
def readInline (bound : Nat) (here : Cursor) : Except Flaw (Data × Cursor) := do
  let (value, rest) ← match here.rest with
    | c :: _ => if c = '[' || c = '\x7b' then readFlow bound here.rest else readScalar false here.rest
    | [] => throw .malformed
  return (value, here.advance rest)

mutual

/-- a value that starts in the given column or to the right of it; where there is none it stands for nothing -/
def readBlock : Nat → Nat → Cursor → Except Flaw (Data × Cursor)
  | 0, _, _ => .error .malformed
  | bound + 1, least, here =>
    if here.atEnd || here.column < least then .ok (.null, here)
    else if here.atDash then (readDashes bound here.column here).map fun (items, after) => (.list items, after)
    else match readText false here.rest with
      | .ok (_, rest) => match afterColon? rest with
        | some _ => do
          let (entries, after) ← readKeys bound here.column here
          return (← mappingOf entries, after)
        | none => readInline bound here
      | .error _ => readInline bound here

/-- the items of a block list whose dashes stand in the given column -/
def readDashes : Nat → Nat → Cursor → Except Flaw (List Data × Cursor)
  | 0, _, _ => .error .malformed
  | bound + 1, column, here =>
    if here.atDash && here.column = column then do
      let (item, after) ← readBlock bound (column + 1) (here.advance (here.rest.drop 1))
      let (items, after) ← readDashes bound column after
      return (item :: items, after)
    else .ok ([], here)

/-- the entries of a block mapping whose keys stand in the given column; a list may stand in the column of its key -/
def readKeys : Nat → Nat → Cursor → Except Flaw (List Entry × Cursor)
  | 0, _, _ => .error .malformed
  | bound + 1, column, here =>
    if here.atEnd || here.column ≠ column || here.atDash then .ok ([], here)
    else do
      let (key, rest) ← readText false here.rest
      match afterColon? rest with
      | none => throw .malformed
      | some rest =>
        let next := here.advance rest
        let (value, after) ←
          if next.line = here.line && !next.rest.isEmpty then readInline bound next
          else if next.atDash && next.column = column then do
            let (items, after) ← readDashes bound column next
            pure (Data.list items, after)
          else readBlock bound (column + 1) next
        let (entries, after) ← readKeys bound column after
        return ((key, value) :: entries, after)

end

/-- the data of a document; a mark of byte order in front of it and the marks of its start and end are passed over, and
behind the mark of its start the line has no value in block form -/
def read (text : String) : Except Flaw Data := do
  let chars := match text.toList with
    | '\ufeff' :: rest => rest
    | chars => chars
  let bound := 4 * chars.length + 4
  let start := skipFrom false 0 0 chars
  let (value, after) ← match start.afterMark? '-' with
    | some next =>
      if next.line = start.line && !next.rest.isEmpty then readInline bound next else readBlock bound 0 next
    | none => readBlock bound 0 start
  if ((after.afterMark? '.').getD after).rest.isEmpty then return value else throw .malformed

end LevelScript.Document
