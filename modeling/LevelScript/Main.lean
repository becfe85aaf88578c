/-
The program: it reads the files that a request names, performs the request, writes the file that it saves, and prints.

If the file cannot be written after all, the request is performed again with the fault known, so that it is refused in
its place; nothing has been printed by then.
-/
import LevelScript.Command.Perform

namespace LevelScript.Command

def usage : String :=
  "usage: levelscript [--log-level LEVEL] ACTION\n" ++
  "  check FILE...                    check scripts without running them\n" ++
  "  list FILE [--dynamic-scope]      list the functions and globals of a script\n" ++
  "  run FILE [FUNCTION] [-p NAME=VALUE]... [--args FILE] [--save-args FILE] [--dynamic-scope]\n" ++
  "                                   run a function of a script\n" ++
  "  dump FILE [--tokens]             show the statements or the tokens of a script"

def Action.reads : Action → List String
  | .check files => files
  | .list file _ | .dump file _ => [file]
  | .run r => r.file :: r.argsFile.toList

/-- what a failure of the machine means for a file -/
def faultOf : IO.Error → FileFault
  | .noFileOrDirectory .. => .missing
  | .inappropriateType .. => .isDirectory
  | _ => .notDirectory

def fetch (path : String) : IO (Except FileFault String) := do
  try
    return .ok (← IO.FS.readFile (plainPath path))
  catch e => return .error (faultOf e)

/-- write a text to a file of the machine; gives the fault, if there is one -/
def store (path text : String) : IO (Option FileFault) := do
  try
    IO.FS.writeFile (plainPath path) text
    return none
  catch e => return some (faultOf e)

/-- perform a request on files that have been read, and write the files that it saves -/
def serve (request : Request) (texts : List (String × Except FileFault String)) :
    IO (Except HostError Nat × Console) := do
  let disk : Disk := ⟨fun path => (texts.lookup path).getD (.error .missing), fun _ => none, .plain⟩
  let outcome := request.outcome disk
  for (path, text) in outcome.2.saved do
    match ← store path text with
    | some fault => return request.outcome { disk with writeFault? := fun _ => some fault }
    | none => pure ()
  return outcome

end LevelScript.Command

open LevelScript LevelScript.Command in
/-- perform the request of the command line; a misused command line ends with the code 2 -/
def main (words : List String) : IO UInt32 := do
  let level ← IO.getEnv levelVariable
  let dynamic ← IO.getEnv dynamicVariable
  let env := fun name => if name = levelVariable then level else if name = dynamicVariable then dynamic else none
  match requestOf env words with
  | .error .help =>
    IO.println usage
    return 0
  | .error .misuse =>
    IO.eprintln usage
    return 2
  | .ok request =>
    let texts ← request.action.reads.mapM fun path => return (path, ← fetch path)
    let (result, console) ← serve request texts
    IO.print console.out
    IO.eprint console.err
    match result with
    | .ok code => return code.toUInt32
    | .error e =>
      IO.eprintln e.message
      return 1
