/-
Documents as they are written.

A document of arguments is a mapping with the one key `args` and a list of records below it. A record of words and
numbers stands on one line in braces; a record that holds a list stands in block form, one key a line and the list in
brackets. A line in braces that has grown beyond the page goes on below, after a comma.
-/
import LevelScript.Document.Reading

namespace LevelScript.Document

/-- the column after which a line in braces is broken -/
def pageWidth : Nat := 80

/-- the layout of floating-point numbers in documents: a point stands before every exponent -/
def floatLayout : Decimal.Layout :=
  { pointBeforeExponent := true, infinity := ".inf", nan := ".nan" }

/-- whether a text stands for itself when it is written as a plain word -/
def isPlain (text : String) : Bool :=
  match readScalar true text.toList with
  | .ok (.text word, []) => word = text
  | _ => false

/-- a text as it is written: as it stands if it is read back as itself, else in single quotes -/
def textForm (text : String) : String :=
  if isPlain text then text
  else "'" ++ String.ofList (text.toList.flatMap fun c => if c = '\'' then ['\'', '\''] else [c]) ++ "'"

def intForm (n : Int) : Except HostError String :=
  match Decimal.intText? n with
  | some text => .ok text
  | none => .error .tooManyDigits

def flowForm : Data → Except HostError String
  | .null => .ok "null"
  | .bool b => .ok (if b then "true" else "false")
  | .int n => intForm n
  | .float x => .ok (floatLayout.write x)
  | .text s => .ok (textForm s)
  | .list items => (forms items).map fun texts => "[" ++ ", ".intercalate texts ++ "]"
  | .record entries => (entryForms entries).map fun texts => "\x7b" ++ ", ".intercalate texts ++ "\x7d"
where
  /-- items in flow form -/
  forms : List Data → Except HostError (List String)
    | [] => .ok []
    | d :: ds => do return (← flowForm d) :: (← forms ds)
  /-- entries in flow form -/
  entryForms : List (String × Data) → Except HostError (List String)
    | [] => .ok []
    | (key, d) :: ds => do return (textForm key ++ ": " ++ (← flowForm d)) :: (← entryForms ds)

/-- the rest of a mapping in braces after a line that has begun -/
def bracedLines (line : String) : List String → List String
  | [] => [line ++ "\x7d"]
  | entry :: entries =>
    let line := line ++ ","
    if pageWidth < line.length then line :: bracedLines ("  " ++ entry) entries
    else bracedLines (line ++ " " ++ entry) entries

def isCollection : Data → Bool
  | .list _ | .record _ => true
  | _ => false

def recordLines (entries : List (String × Data)) : Except HostError (List String) := do
  match ← flowForm.entryForms entries with
  | [] => return ["- \x7b\x7d"]
  | first :: others =>
    if entries.any fun e => isCollection e.2 then return ("- " ++ first) :: others.map ("  " ++ ·)
    else return bracedLines ("- \x7b" ++ first) others

def itemLines : Data → Except HostError (List String)
  | .record entries => recordLines entries
  | d => do return ["- " ++ (← flowForm d)]

/-- the lines of the document that holds records under a key -/
def keyLines (key : String) (records : List Data) : Except HostError (List String) := do
  let lines ← records.mapM itemLines
  return if records.isEmpty then [textForm key ++ ": []"] else (textForm key ++ ":") :: lines.flatten

/-- the text of a document; in block form are the lists under its keys -/
def write : Data → Except HostError String
  | .record [(key, .list records)] => do return String.join ((← keyLines key records).map (· ++ "\n"))
  | d => do return (← flowForm d) ++ "\n"

end LevelScript.Document
