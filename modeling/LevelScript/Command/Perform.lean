/-
Commands: what a request does and what it prints.

A command prints results and the output of scripts on one channel, and complaints and log records on another. It ends
with the code 0 if all went well and 1 if not; only a failure of the machinery that evaluates scripts ends it without a
code. A script that a command has loaded is unloaded in any case.
-/
import LevelScript.Command.Files
import LevelScript.Command.Request
import LevelScript.Generator.Run
import LevelScript.Generator.Spelling
import LevelScript.Syntax.Shape

namespace LevelScript.Command

open LevelScript.Syntax
open LevelScript.Generator

/-! ## The console -/

/-- what a command works with and what it has printed so far; `saved` are the files written, the last one first -/
structure Console where
  disk : Disk
  threshold : Nat
  space : Workspace := {}
  out : String := ""
  err : String := ""
  saved : List (String × String) := []

abbrev Step (α : Type) := ExceptT HostError (StateM Console) α

def say (line : String) : Step Unit :=
  modify fun c => { c with out := c.out ++ line ++ "\n" }

def complain (line : String) : Step Unit :=
  modify fun c => { c with err := c.err ++ line ++ "\n" }

def weightOf : Level → Nat
  | .debug => 10
  | .warning => 30

/-- show the log records that weigh enough -/
def Console.log (c : Console) (records : List Record) : Console :=
  let shown := records.filter fun r => c.threshold ≤ weightOf r.level
  { c with err := c.err ++ String.join (shown.map fun r => r.text ++ "\n") }

/-- the console after the workspace has changed: what scripts have printed and logged meanwhile is shown -/
def Console.follow (c : Console) (space : Workspace) : Console :=
  let printed := (space.output.toList.drop c.space.output.size).map (·.2)
  let records := space.log.toList.drop c.space.log.size
  { c with space := space, out := c.out ++ String.join printed }.log records

def ofOutcome {α : Type} : Except HostError α → Step α
  | .ok a => pure a
  | .error e => throw e

def onSpace {α : Type} (change : Workspace → α × Workspace) : Step α := do
  let c ← get
  let (result, space) := change c.space
  set (c.follow space)
  return result

/-- the text of a script file; if there is no such file this is said -/
def readSource (file : String) : Step (Option String) := do
  match (← get).disk.read file with
  | .ok text => return some (String.ofList (Text.unixBreaks text.toList))
  | .error .isDirectory => throw (.unreadable (FileFault.isDirectory.message file))
  | .error _ =>
    complain ("Error: File not found: " ++ plainPath file)
    return none

/-! ## Checking and showing files -/

/-- check a file: whether it could be read, and what is wrong with it -/
def checkFile (file : String) : Step (Bool × List Diagnostic) := do
  match ← readSource file with
  | none => return (false, [])
  | some source => match statementsOf source (some file) (← get).space.platform.depths with
    | .ok statements =>
      say ("OK: " ++ baseName file ++ " - " ++ toString statements.length ++ " statement(s)")
      return (true, [])
    | .error (.script e) => return (true, [e.diagnostic])
    | .error (.host e) => throw e

/-- check files without running them; what is wrong is reported at the end -/
def check (files : List String) : Step Nat := do
  let results ← files.mapM checkFile
  let diagnostics := results.flatMap (·.2)
  if diagnostics.isEmpty then return if results.all (·.1) then 0 else 1
  else
    complain (Diagnostic.reportText diagnostics)
    return 1

def tokenLine (t : Token) : String :=
  "[" ++ t.kind.name ++ " " ++ t.lexeme ++ " (" ++ toString t.span.start.line ++ ", " ++
    toString t.span.start.column ++ ")]"

/-- the lines that show a source text: its tokens, or the outline of its statements -/
def dumpText (depths : Depths) (tokens : Bool) (source file : String) : Except Failure String :=
  if tokens then do
    let tokens ← (tokenize source (some file)).mapError (·.failure source)
    return "\n".intercalate (tokens.map tokenLine)
  else do
    let statements ← statementsOf source (some file) depths
    (programShape statements).outlineText.mapError .host

def dump (file : String) (tokens : Bool) : Step Nat := do
  match ← readSource file with
  | none => return 1
  | some source => match dumpText (← get).space.platform.depths tokens source file with
    | .ok text =>
      say text
      return 0
    | .error (.script e) =>
      complain e.diagnostic.text
      return 1
    | .error (.host e) => throw e

/-! ## Working with a script -/

def withScript (file : String) (dynamic : Bool) (work : Nat → Step Nat) : Step Nat := do
  match ← readSource file with
  | none => return 1
  | some source => match ← onSpace (·.load file source dynamic) with
    | .error (.script e) =>
      complain e.diagnostic.text
      return 1
    | .error (.host e) => throw e
    | .ok number =>
      let outcome ← ExceptT.lift (work number).run
      onSpace fun w => ((), w.unload number)
      ofOutcome outcome

def displayed (v : Val) : Step String := do
  ofOutcome ((← get).space.heap.display maxListDepth v)

def listScript (number : Nat) : Step Nat := do
  let script := (← get).space.script number
  say ("Functions (" ++ toString script.functions.length ++ "):")
  for f in script.functions do
    say ("  " ++ f.signature)
  say ("Globals (" ++ toString script.globals.length ++ "):")
  for (name, v) in script.globals do
    say ("  " ++ v.type.name ++ " " ++ name ++ " = " ++ (← displayed v))
  return 0

/-! ## Running a function -/

abbrev Attempt (α : Type) := ExceptT String (ExceptT HostError (StateM Console)) α

/-- the records that a document of arguments holds; `path` is its file -/
def recordsIn (path : String) (document : Data) : Except HostError (List Data) :=
  let items : Data := match document with
    | .null => .list []
    | .record _ => (document.get? "args").getD (.list [])
    | other => other
  match items with
  | .list records => .ok records
  | _ => .error (.invalidValue (path ++ ": expected a list of generator args"))

def readRecords (disk : Disk) (path : String) : Except HostError (List Data) := do
  let text ← (disk.read path).mapError fun fault => .unreadable (fault.message path)
  recordsIn path (← disk.documents.load (String.ofList (Text.unixBreaks text.toList)))

/-- whether a failure to read or to write a file of arguments is complained about; any other one ends the command -/
def isComplaint : HostError → Bool
  | .unreadable _ | .invalidValue _ | .nanToInt | .tooManyDigits | .tooManyDigitsRead _ => true
  | _ => false

/-- end an attempt by a failure, which is complained about in a message that starts with what was attempted -/
def refuse {α : Type} (attempted : String) (e : HostError) : Attempt α :=
  if isComplaint e then throw (attempted ++ ": " ++ e.message) else throwThe HostError e

/-- the arguments in a file; records that are skipped are logged -/
def storedArguments (path : String) : Attempt (List Argument) := do
  let attempted := "Could not read args file " ++ path
  match readRecords (← get).disk path with
  | .error e => refuse attempted e
  | .ok records =>
    let (arguments, warnings) := argumentsOf records
    modify (·.log warnings)
    match arguments with
    | .ok arguments => return arguments
    | .error e => refuse attempted e

/-- the argument that a setting `name=value` gives for one of the parameters -/
def settingOf (params : List Parameter) (setting : String) : Except HostError Argument := do
  let (name, text) ← splitSetting setting
  match params.reverse.find? (·.name = name) with
  | none => throw (.invalidValue ("Unknown parameter: " ++ name))
  | some p => return ⟨name, ← ofSpelling text p.type⟩

/-- the arguments of a run: the defaults of the parameters, changed by those of the file, changed by the settings -/
def gather (run : Run) (params : List Parameter) (defaults : List Argument) : Attempt (List Argument) := do
  let stored ← match run.argsFile with
    | some path => storedArguments path
    | none => pure []
  match run.settings.mapM (settingOf params) with
  | .error e => throw e.message
  | .ok settings => return merge (merge defaults stored) settings

/-- the document of the arguments that have a parameter -/
def documentOf (h : Heap) (params : List Parameter) (arguments : List Argument) : Except HostError Data := do
  return .record [("args", .list (← toData h (arguments.filter fun a => params.any (·.name = a.name))))]

/-- write the arguments that have a parameter to a file -/
def save (path : String) (params : List Parameter) (arguments : List Argument) : Attempt Unit := do
  let c ← get
  let attempted := "Could not write args file " ++ path
  match documentOf c.space.heap params arguments >>= c.disk.documents.dump with
  | .error e => refuse attempted e
  | .ok text => match c.disk.writeFault? path with
    | some fault => refuse attempted (.unreadable (fault.message path))
    | none => set { c with saved := (path, text) :: c.saved }

def callAndReport (number : Nat) (function : String) (arguments : List Argument) : Step Nat := do
  match ← ofOutcome (← onSpace (·.generate number arguments function)) with
  | .error message =>
    match ((← get).space.script number).lastError with
    | some d => complain d.text
    | none => complain ("Error: " ++ message)
    return 1
  | v =>
    say ("Result: " ++ (← displayed v))
    return 0

def defaultsOf (params : List Parameter) : Step (List Argument) := do
  let c ← get
  let (arguments, heap) ← ofOutcome (defaultArguments c.space.heap params)
  set { c with space := { c.space with heap := heap } }
  return arguments

def runFunction (run : Run) (number : Nat) : Step Nat := do
  let script := (← get).space.script number
  match script.get? run.function with
  | some (.fn ..) =>
    let params := script.generatorParams run.function
    let defaults ← defaultsOf params
    let attempt : Attempt (List Argument) := do
      let arguments ← gather run params defaults
      match run.saveFile with
      | some path => save path params arguments
      | none => pure ()
      return arguments
    match ← attempt.run with
    | .ok arguments => callAndReport number run.function arguments
    | .error message =>
      complain ("Error: " ++ message)
      return 1
  | _ =>
    complain ("Error: Function '" ++ run.function ++ "' not found in " ++ run.file)
    return 1

/-! ## Commands -/

def perform : Action → Step Nat
  | .check files => check files
  | .list file dynamic => withScript file dynamic listScript
  | .run run => withScript run.file run.dynamic (runFunction run)
  | .dump file tokens => dump file tokens

/-- the outcome of a request: its code, or the failure that ended it, and the console after it -/
def Request.outcome (r : Request) (disk : Disk) (platform : Platform := .standard) : Except HostError Nat × Console :=
  (perform r.action).run.run { disk := disk, threshold := r.threshold, space := { platform := platform } }

end LevelScript.Command
