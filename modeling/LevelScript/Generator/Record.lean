/-
Arguments as they stand in a level: a mapping with `name`, `type` and `val` for each.

Reading keeps the records that are well-formed, in order, and logs a warning for every other one; only a number that
cannot be converted ends the reading. Writing is the way back.
-/
import LevelScript.Generator.Run
import LevelScript.Value.Text

namespace LevelScript.Generator

def warning (message : String) : Record :=
  ⟨.warning, generatorLogger, message⟩

/-- data in a warning; a warning about data that has no text is logged all the same -/
def loggedData (d : Data) : String :=
  d.literal?.getD ""

/-- the text of data in a message -/
def quotedData (d : Data) : Except HostError String :=
  match d.literal? with
  | some text => .ok text
  | none => .error .tooManyDigits

/-- the failure that data does not have the expected form -/
def unexpected {α : Type} (expected : String) (d : Data) : Except HostError α := do
  throw (.wrongType ("expected " ++ expected ++ ", got " ++ (← quotedData d)))

def floatOfInt (n : Int) : Except HostError Float :=
  match Decimal.ofInt? n with
  | some x => .ok x
  | none => .error .intTooLarge

def floatOfText (text : String) : Except HostError Float :=
  match Decimal.readFloat? text with
  | some x => .ok x
  | none => .error (.invalidValue ("could not convert string to float: " ++ Text.quoted text))

/-- a component of a vector: a number, a truth value or a text that spells a number -/
def componentOf : Data → Except HostError Float
  | .bool b => .ok (if b then 1.0 else 0.0)
  | .int n => floatOfInt n
  | .float x => .ok x
  | .text s => floatOfText s
  | d => .error (.wrongType ("float() argument must be a string or a real number, not '" ++ d.kindName ++ "'"))

/-- a floating-point number as a whole one, toward zero -/
def intOfFloat (x : Float) : Except HostError Int :=
  match Decimal.truncate? x with
  | some n => .ok n
  | none => .error (if x.isNaN then .nanToInt else .infinityToInt)

/-- the value of a type that data stands for -/
def valOf (type : Ty) (d : Data) : Except HostError Val :=
  match type, d with
  | .bool, .bool b => .ok (.bool b)
  | .bool, .int n => .ok (.bool (n ≠ 0))
  | .bool, _ => unexpected "a bool" d
  | .int, .int n => .ok (.int n)
  | .int, .float x => .int <$> intOfFloat x
  | .int, _ => unexpected "an int" d
  | .float, .int n => .float <$> floatOfInt n
  | .float, .float x => .ok (.float x)
  | .float, _ => unexpected "a float" d
  | t, d => match componentCount? t with
    | none => .error (.wrongType ("unsupported argument type " ++ t.name))
    | some count => match d with
      | .list components =>
        if components.length = count then do vectorOf (← components.mapM componentOf)
        else unexpected (toString count ++ " components") d
      | _ => unexpected (toString count ++ " components") d

/-- whether a failure to read a value only costs the record; a number out of range is no such failure -/
def isMalformed : HostError → Bool
  | .intTooLarge | .infinityToInt => false
  | _ => true

/-- the type that a record names, if an argument can have it -/
def typeOf? (d : Data) : Except HostError (Option Ty) := do
  let word ← match d with
    | .text s => pure s
    | d => quotedData d
  return (Ty.ofKeyword? word).filter argumentTypes.contains

/-- the argument of a record, or a warning -/
def argumentOf (d : Data) : Except HostError (Argument ⊕ Record) := do
  match d with
  | .record _ =>
    match d.get? "name" with
    | some (.text name) =>
      if name.isEmpty then return .inr (warning ("Skipping generator arg without a name: " ++ loggedData d))
      else match ← typeOf? ((d.get? "type").getD (.text "")) with
        | none => return .inr (warning ("Invalid type for generator arg " ++ name ++ ": " ++
            loggedData ((d.get? "type").getD .null)))
        | some type => match valOf type ((d.get? "val").getD .null) with
          | .ok v => return .inl ⟨name, v⟩
          | .error e =>
            if isMalformed e then
              return .inr (warning ("Invalid value for generator arg " ++ name ++ ": " ++ e.message))
            else throw e
    | _ => return .inr (warning ("Skipping generator arg without a name: " ++ loggedData d))
  | _ => return .inr (warning ("Skipping generator arg that is not a mapping: " ++ loggedData d))

/-- the arguments of a list of records and the warnings about the records that are skipped; a failure comes with the
warnings before it -/
def argumentsOf : List Data → Except HostError (List Argument) × List Record
  | [] => (.ok [], [])
  | d :: ds => match argumentOf d with
    | .error e => (.error e, [])
    | .ok (.inl a) =>
      let (rest, warnings) := argumentsOf ds
      (rest.map (a :: ·), warnings)
    | .ok (.inr w) =>
      let (rest, warnings) := argumentsOf ds
      (rest, w :: warnings)

/-- the records that data holds: the items of a list, the keys of a mapping, or the characters of a text -/
def recordsOf : Data → Except HostError (List Data)
  | .list items => .ok items
  | .record entries => .ok (entries.map fun e => .text e.1)
  | .text s => .ok (s.toList.map fun c => .text (String.singleton c))
  | d => .error (.wrongType ("'" ++ d.kindName ++ "' object is not iterable"))

/-- the arguments that data holds, and the warnings -/
def ofData (d : Data) : Except HostError (List Argument) × List Record :=
  match recordsOf d with
  | .ok records => argumentsOf records
  | .error e => (.error e, [])

def recordOf (h : Heap) (a : Argument) : Except HostError Data := do
  if argumentTypes.contains a.type then
    return .record [("name", .text a.name), ("type", .text a.type.name), ("val", ← h.toData maxListDepth a.val)]
  else throw (.invalidValue ("Generator arg " ++ a.name ++ " has unsupported type " ++ a.type.name))

def toData (h : Heap) (arguments : List Argument) : Except HostError (List Data) :=
  arguments.mapM (recordOf h)

end LevelScript.Generator
