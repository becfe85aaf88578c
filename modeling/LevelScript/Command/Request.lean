/-
The command line: what is asked for.

A command line names an action and what it works on. Words that start with a dash are options; an option may be cut
short as long as only one option starts that way, and its value is the next word, or stands behind an equals sign or
right behind its letter. The letters of options without a value can share a dash, and the last of them may be one with a
value; a letter that is not known ends them and is left over. A negative number is no option, nor is any word after two
dashes alone. The operands of an action are taken from the first run of words between options.
-/
import LevelScript.Text.Basic
import LevelScript.Workspace

namespace LevelScript.Command

/-! ## Options -/

structure Flag where
  long : String
  letter : Option Char := none
  valued : Bool := false
  deriving DecidableEq, Repr

def helpFlag : Flag := ⟨"help", some 'h', false⟩

/-- why a command line gives no request: it asks for help, or it is misused -/
inductive Unserved where
  | help
  | misuse
  deriving DecidableEq, Repr

/-- a word of a command line as it counts among given options: an operand; an option with the value in the same word, if
there is one, the options without a value in front of it, and whether letters are left over behind it; options that do
not fit together; an option that is not known; or two dashes -/
inductive Piece where
  | operand (text : String)
  | options (front : List Flag) (last : Flag) (value : Option String) (leftOver : Bool)
  | garbled
  | unknown
  | divider
  deriving DecidableEq, Repr

def splitEquals (chars : List Char) : List Char × Option (List Char) :=
  (chars.takeWhile (· ≠ '='), match chars.dropWhile (· ≠ '=') with
    | _ :: value => some value
    | [] => none)

/-- whether the characters after a dash make it a negative number -/
def isNegative (chars : List Char) : Bool :=
  let isDigit := fun c => (Text.digitValue? c).isSome
  let tail := chars.dropWhile isDigit
  if tail.isEmpty then !chars.isEmpty
  else match tail with
    | '.' :: places => !places.isEmpty && places.all isDigit
    | _ => false

/-- a word that starts with a dash but names no option -/
def strayPiece (word : List Char) : Piece :=
  if isNegative (word.drop 1) || word.contains ' ' then .operand (String.ofList word) else .unknown

/-- an option with the characters right behind its letter: they are its value, from behind an equals sign if there is one,
or, if it has none, the letters of further options, among which a dash has no place -/
def clusterOf (flags front : List Flag) (flag : Flag) : List Char → Piece
  | [] => .options front flag none false
  | '=' :: value => if flag.valued then .options front flag (some (String.ofList value)) false else .garbled
  | c :: rest =>
    if flag.valued then .options front flag (some (String.ofList (c :: rest))) false
    else if c = '-' then .garbled
    else match flags.find? (·.letter = some c) with
      | some next => clusterOf flags (front ++ [flag]) next rest
      | none => .options front flag none true

/-- an option by its long name -/
def longOf (flag : Flag) (value : Option (List Char)) : Piece :=
  if value.isSome && !flag.valued then .garbled else .options [] flag (value.map String.ofList) false

/-- a word among options -/
def pieceOf (flags : List Flag) (word : String) : Except Unserved Piece :=
  match word.toList with
  | '-' :: '-' :: chars =>
    let (name, value) := splitEquals chars
    let named := flags.filter fun f => f.long.toList = name
    let meant := if named.isEmpty then flags.filter fun f => name.isPrefixOf f.long.toList else named
    match meant with
    | [] => .ok (strayPiece word.toList)
    | [flag] => .ok (longOf flag value)
    | _ => .error .misuse
  | '-' :: letter :: chars =>
    match flags.find? (·.letter = some letter) with
    | none => .ok (strayPiece word.toList)
    | some flag => .ok (clusterOf flags [] flag chars)
  | _ => .ok (.operand word)

/-- the words of a command line among options; after two dashes all words are operands -/
def piecesOf (flags : List Flag) : List String → Except Unserved (List Piece)
  | [] => .ok []
  | word :: words =>
    if word = "--" then .ok (.divider :: words.map .operand)
    else do return (← pieceOf flags word) :: (← piecesOf flags words)

/-- the options and operands of an action; `stray` tells that there is a word too many -/
structure Words where
  options : List (String × String) := []
  operands : List String := []
  stray : Bool := false
  deriving DecidableEq, Repr

def Words.withOption (w : Words) (flag : Flag) (value : String) : Words :=
  { w with options := (flag.long, value) :: w.options }

/-- how far the run of operands that counts has come -/
inductive Stretch where
  | before
  | within
  | over
  deriving DecidableEq, Repr

def Stretch.afterOption : Stretch → Stretch
  | .before => .before
  | _ => .over

/-- sort out options and operands. Of the operands only the first `room` in the first run between options count; the
option that asks for help ends the reading. -/
def sortOut (room : Nat) (stretch : Stretch) : List Piece → Except Unserved Words
  | [] => .ok {}
  | .operand text :: rest =>
    match room, stretch with
    | _, .over | 0, _ => (sortOut 0 stretch rest).map ({ · with stray := true })
    | room + 1, _ => (sortOut room .within rest).map fun w => { w with operands := text :: w.operands }
  | .divider :: rest =>
    (sortOut room stretch rest).map fun w => { w with stray := w.stray || stretch = .over }
  | .unknown :: rest => (sortOut room stretch.afterOption rest).map ({ · with stray := true })
  | .garbled :: _ => .error .misuse
  | .options front last value leftOver :: rest =>
    let asksHelp := (last :: front).contains helpFlag
    match last.valued, value, rest with
    | false, _, rest =>
      if asksHelp then .error .help
      else (sortOut room stretch.afterOption rest).map fun w =>
        { w.withOption last "" with stray := w.stray || leftOver }
    | true, some text, rest | true, none, .operand text :: rest =>
      if asksHelp then .error .help
      else (sortOut room stretch.afterOption rest).map (·.withOption last text)
    | true, none, _ => .error .misuse

/-! ## Requests -/

/-- what to run: a function of a script, with arguments from a file and from settings `name=value` -/
structure Run where
  file : String
  function : String := "generate"
  settings : List String := []
  argsFile : Option String := none
  saveFile : Option String := none
  dynamic : Bool := false
  deriving DecidableEq, Repr

inductive Action where
  | check (files : List String)
  | list (file : String) (dynamic : Bool)
  | run (run : Run)
  | dump (file : String) (tokens : Bool)
  deriving DecidableEq, Repr

/-- an action, and the weight that a log record must have to be shown -/
structure Request where
  action : Action
  threshold : Nat
  deriving DecidableEq, Repr

def generalFlags : List Flag :=
  [helpFlag, ⟨"log-level", none, true⟩]

/-- the option for scoping by callers -/
def dynamicFlag : Flag := ⟨"dynamic-scope", none, false⟩

/-- the weight of log records that a word stands for -/
def weight? (word : String) : Option Nat :=
  ([("CRITICAL", 50), ("FATAL", 50), ("ERROR", 40), ("WARNING", 30), ("WARN", 30), ("INFO", 20), ("DEBUG", 10),
    ("NOTSET", 0)] : List (String × Nat)).lookup (Text.upper word)

/-- the variable of the environment that sets the level of the log -/
def levelVariable : String := "GOLFSCRIPT_LOG_LEVEL"

/-- the variable of the environment that switches scoping by callers on -/
def dynamicVariable : String := "GOLFSCRIPT_DYNAMIC_SCOPE"

def isSwitchedOn (value : String) : Bool :=
  ["1", "true", "yes", "on"].contains (Text.lower (Text.trim value))

/-- read the words after an action -/
def wordsOf (flags : List Flag) (room : Nat) (words : List String) : Except Unserved Words := do
  sortOut room .before (← piecesOf (helpFlag :: flags) words)

/-- the last value of an option, unless it is empty -/
def Words.last? (w : Words) (long : String) : Option String :=
  (w.options.reverse.lookup long).filter (!·.isEmpty)

def Words.has (w : Words) (long : String) : Bool :=
  w.options.any (·.1 = long)

/-- the first operand, which there must be -/
def Words.first (w : Words) : Except Unserved String :=
  match w.operands with
  | file :: _ => .ok file
  | [] => .error .misuse

/-- the action of a name, with the words that follow it; tells whether there is a word too many -/
def actionOf (dynamic : Bool) (name : String) (words : List String) : Except Unserved (Action × Bool) :=
  match name with
  | "check" => do
    let w ← wordsOf [] words.length words
    let _ ← w.first
    return (.check w.operands, w.stray)
  | "list" => do
    let w ← wordsOf [dynamicFlag] 1 words
    return (.list (← w.first) (dynamic || w.has "dynamic-scope"), w.stray)
  | "run" => do
    let w ← wordsOf [⟨"param", some 'p', true⟩, ⟨"args", none, true⟩, ⟨"save-args", none, true⟩, dynamicFlag] 2 words
    let file ← w.first
    let function := (w.operands[1]?.filter (· ≠ "--")).getD "generate"
    return (.run { file, function, settings := (w.options.filter (·.1 = "param")).map (·.2), argsFile := w.last? "args",
                   saveFile := w.last? "save-args", dynamic := dynamic || w.has "dynamic-scope" }, w.stray)
  | "dump" => do
    let w ← wordsOf [⟨"tokens", none, false⟩] 1 words
    return (.dump (← w.first) (w.has "tokens"), w.stray)
  | _ => .error .misuse

/-- read the options before the action, and then the action; `level` is the word for the log so far -/
def readAction (dynamic : Bool) (level : String) (stray : Bool) :
    List String → List Piece → Except Unserved (Action × String × Bool)
  | word :: words, .operand _ :: _ => do
    let (action, tooMany) ← actionOf dynamic word words
    return (action, level, stray || tooMany)
  | _ :: words, .unknown :: pieces => readAction dynamic level true words pieces
  | _ :: words, .options front last value _ :: pieces =>
    if (last :: front).contains helpFlag then .error .help
    else match value, words, pieces with
      | some text, words, pieces => readAction dynamic text stray words pieces
      | none, _ :: words, .operand text :: pieces => readAction dynamic text stray words pieces
      | none, _, _ => .error .misuse
  | _, _ => .error .misuse

/-- the request of a command line, in the given environment -/
def requestOf (env : String → Option String) (words : List String) : Except Unserved Request := do
  let dynamic := ((env dynamicVariable).map isSwitchedOn).getD false
  let level := (env levelVariable).getD "WARNING"
  let (action, level, stray) ← readAction dynamic level false words (← piecesOf generalFlags words)
  match weight? level with
  | some threshold => if stray then throw .misuse else return ⟨action, threshold⟩
  | none => throw .misuse

end LevelScript.Command
