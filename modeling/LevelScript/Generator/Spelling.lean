/-
Arguments as a user spells them on the command line: `name=value`, with the value in the form that its type asks for.
-/
import LevelScript.Generator.Record
import LevelScript.Text.Basic

namespace LevelScript.Generator

open LevelScript.Text

/-- a text without a pair of equal quotes around it -/
def unquoted (text : List Char) : List Char :=
  match text with
  | [] => text
  | quote :: rest =>
    if (quote = '"' ∨ quote = '\'') ∧ rest.getLast? = some quote then rest.dropLast else text

/-- a text as a whole number; the message quotes at most two hundred characters -/
def intOfText (text : String) : Except HostError Int :=
  match Decimal.readInt text with
  | .value n => .ok n
  | .malformed => .error (.invalidValue ("invalid literal for int() with base 10: " ++
      String.ofList ((quoted text).toList.take 200)))
  | .tooLong digits => .error (.tooManyDigitsRead digits)

/-- the value of a type that a text spells; vectors are numbers with commas between them -/
def ofSpelling (text : String) (type : Ty) : Except HostError Val :=
  let text := trim text
  match type with
  | .bool =>
    let word := lower text
    if word = "true" ∨ word = "1" then .ok (.bool true)
    else if word = "false" ∨ word = "0" then .ok (.bool false)
    else .error (.invalidValue ("Invalid bool value: " ++ text))
  | .int => .int <$> intOfText text
  | .float => .float <$> floatOfText text
  | .string => .ok (.string (String.ofList (unquoted text.toList)))
  | t => match componentCount? t with
    | none => .error (.invalidValue ("Cannot build a " ++ t.name ++ " argument from text"))
    | some count =>
      let components := pieces ',' text.toList
      if components.length = count then do vectorOf (← components.mapM fun p => floatOfText (String.ofList p))
      else .error (.invalidValue ("Expected " ++ toString count ++ " comma-separated components: " ++ text))

/-- the name and the text of a value in `name=value` -/
def splitSetting (setting : String) : Except HostError (String × String) :=
  let chars := setting.toList
  if chars.contains '=' then
    .ok (trim (String.ofList (chars.takeWhile (· ≠ '='))),
      trim (String.ofList ((chars.dropWhile (· ≠ '=')).drop 1)))
  else .error (.invalidValue ("Invalid parameter format: " ++ setting ++ " (expected name=value)"))

end LevelScript.Generator
