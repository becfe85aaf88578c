/-
Diagnostics: what is wrong, and where.

A diagnostic has a code, a message and, unless the failure lies outside the script, a span and the source line that it
points into. `Diagnostic.text` is the form for people: place and message, the line with the span underlined, and hints.
-/
import LevelScript.Syntax.Span
import LevelScript.Text.Quoted

namespace LevelScript

open LevelScript.Syntax

/-- a failure with its place in the source; codes start with E0 for characters, E1 for grammar and E2 for evaluation -/
structure Diagnostic where
  code : String
  message : String
  span : Option Span := none
  sourceLine : Option String := none
  hints : List String := []
  deriving DecidableEq, Repr, Inhabited

/-- every diagnostic is an error -/
def Diagnostic.severity : String := "error"

/-- a line number, set flush right in three columns -/
def marginText (line : Nat) : String :=
  let digits := toString line
  String.ofList (List.replicate (3 - digits.length) ' ') ++ digits

/-- the carets under a span: from its column to its end, or to the end of the line if it goes on; one caret at least -/
def underline (span : Span) (line : String) : String :=
  let stop := if span.start.line = span.stop.line then span.stop.column else line.length + 1
  String.ofList (List.replicate (span.start.column - 1) ' ' ++ List.replicate (max 1 (stop - span.start.column)) '^')

def Diagnostic.headline (d : Diagnostic) : String :=
  let place := match d.span with
    | some span => span.startText ++ ": "
    | none => ""
  place ++ Diagnostic.severity ++ "[" ++ d.code ++ "]: " ++ d.message

/-- the quoted source line with its underline, if both line and span are known -/
def Diagnostic.excerpt (d : Diagnostic) : List String :=
  match d.span, d.sourceLine with
  | some span, some line =>
    ["  |", marginText span.start.line ++ " | " ++ line, "    | " ++ underline span line]
  | _, _ => []

/-- a diagnostic for people, with or without the source line -/
def Diagnostic.text (d : Diagnostic) (showSource : Bool := true) : String :=
  "\n".intercalate (d.headline :: (if showSource then d.excerpt else []) ++ d.hints.map ("    = hint: " ++ ·))

/-- several diagnostics for people, with their count -/
def Diagnostic.reportText (ds : List Diagnostic) (showSource : Bool := true) : String :=
  let count := if ds.isEmpty then [] else [toString ds.length ++ " error(s)"]
  "\n\n".intercalate (ds.map (·.text showSource) ++ count)

/-- the diagnostic with the line of the source that its span starts in, unless it quotes a line already -/
def Diagnostic.quoting (d : Diagnostic) (line? : Nat → Option String) : Diagnostic :=
  match d.span, d.sourceLine with
  | some span, none => { d with sourceLine := line? span.start.line }
  | _, _ => d

inductive Stage where
  | scanning
  | parsing
  | running
  deriving DecidableEq, Repr, Inhabited

/-- an error of a script: the stage it arises in and its diagnostic -/
structure ScriptError where
  stage : Stage
  diagnostic : Diagnostic
  deriving DecidableEq, Repr, Inhabited

/-- a failure of the machinery that evaluates scripts, which no diagnostic describes -/
inductive HostError where
  | intTooLarge
  | infinityToInt
  | nanToInt
  | tooManyDigits
  | tooManyDigitsRead (digits : Nat)
  | invalidValue (message : String)
  | wrongType (message : String)
  | indexOutOfRange
  | nothingToLeave
  | noAttribute (message : String)
  | unknownName (name : String)
  | notImplemented (message : String)
  | unreadable (message : String)
  | tooDeep
  | endless
  deriving DecidableEq, Repr, Inhabited

/-- the advice at the end of the messages on long numbers -/
def HostError.digitAdvice : String :=
  "; use sys.set_int_max_str_digits() to increase the limit"

/-- the wording of a failure; running out of depth or of steps has none -/
def HostError.message : HostError → String
  | .intTooLarge => "int too large to convert to float"
  | .infinityToInt => "cannot convert float infinity to integer"
  | .nanToInt => "cannot convert float NaN to integer"
  | .tooManyDigits => "Exceeds the limit (4300 digits) for integer string conversion" ++ digitAdvice
  | .tooManyDigitsRead digits =>
    "Exceeds the limit (4300 digits) for integer string conversion: value has " ++ toString digits ++ " digits" ++
      digitAdvice
  | .invalidValue message | .wrongType message | .noAttribute message | .notImplemented message
  | .unreadable message => message
  | .indexOutOfRange => "list index out of range"
  | .nothingToLeave => "pop from empty list"
  | .unknownName name => Text.quoted name
  | .tooDeep | .endless => ""

/-- what ends a piece of work early -/
inductive Failure where
  | script (error : ScriptError)
  | host (error : HostError)
  deriving DecidableEq, Repr, Inhabited

end LevelScript
