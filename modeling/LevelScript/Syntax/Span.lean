/-
Places in a source text.

A position counts lines and columns from one and characters from zero; only a line feed starts a new line. A span is the
half-open stretch between two positions, together with the name of the file, if the text has one.
-/

namespace LevelScript.Syntax

/-- a place between two characters of a source text -/
structure Position where
  line : Nat := 1
  column : Nat := 1
  offset : Nat := 0
  deriving DecidableEq, Repr, Inhabited

def Position.step (p : Position) (c : Char) : Position :=
  if c = '\n' then ⟨p.line + 1, 1, p.offset + 1⟩ else ⟨p.line, p.column + 1, p.offset + 1⟩

def Position.after (p : Position) (cs : List Char) : Position :=
  cs.foldl Position.step p

/-- a stretch of source text; `stop` is the position after its last character -/
structure Span where
  start : Position
  stop : Position
  file : Option String := none
  deriving DecidableEq, Repr, Inhabited

def Position.text (p : Position) : String :=
  s!"{p.line}:{p.column}"

/-- the name of the file and a colon; nothing for a text without a name -/
def Span.filePart (s : Span) : String :=
  match s.file with
  | none => ""
  | some name => if name.isEmpty then "" else name ++ ":"

def Span.startText (s : Span) : String :=
  s.filePart ++ s.start.text

def Span.text (s : Span) : String :=
  s.filePart ++ s.start.text ++ "-" ++ s.stop.text

end LevelScript.Syntax
