/-
Plain data, as level files hold it: numbers, texts, lists, and mappings with their keys in order.

`Data.literal` writes data the way log records quote it: words for nothing and the two truth values, quoted texts, lists
in brackets and mappings in braces.
-/
import LevelScript.Decimal.Reading
import LevelScript.Text.Quoted
import LevelScript.Syntax.Token

namespace LevelScript

inductive Data where
  | null
  | bool (b : Bool)
  | int (n : Int)
  | float (x : Float)
  | text (s : String)
  | list (items : List Data)
  | record (entries : List (String × Data))
  deriving Inhabited

namespace Data

def kindName : Data → String
  | .null => "NoneType"
  | .bool _ => "bool"
  | .int _ => "int"
  | .float _ => "float"
  | .text _ => "str"
  | .list _ => "list"
  | .record _ => "dict"

/-- the last entry under a key -/
def get? : Data → String → Option Data
  | .record entries, key => (entries.reverse.find? (·.1 = key)).map (·.2)
  | _, _ => none

/-- the text of data; data that holds a number of too many digits has none -/
def literal? : Data → Option String
  | .null => some "None"
  | .bool b => some (if b then "True" else "False")
  | .int n => Decimal.intText? n
  | .float x => some (Syntax.literalLayout.write x)
  | .text s => some (Text.quoted s)
  | .list items => (literals? items).map fun texts => "[" ++ ", ".intercalate texts ++ "]"
  | .record entries => (entryLiterals? entries).map fun texts => "\x7b" ++ ", ".intercalate texts ++ "\x7d"
where
  /-- the texts of items -/
  literals? : List Data → Option (List String)
    | [] => some []
    | d :: ds => do return (← d.literal?) :: (← literals? ds)
  /-- the texts of entries -/
  entryLiterals? : List (String × Data) → Option (List String)
    | [] => some []
    | (key, d) :: ds => do return (Text.quoted key ++ ": " ++ (← d.literal?)) :: (← entryLiterals? ds)

/-- a record with each key once, at its first place and with its last value -/
def ofPairs (pairs : List (String × Data)) : Data :=
  .record (pairs.foldl (fun entries (key, d) =>
    if entries.any (·.1 = key) then entries.map fun e => if e.1 = key then (key, d) else e
    else entries ++ [(key, d)]) [])

end Data

end LevelScript
