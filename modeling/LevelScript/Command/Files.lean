/-
Paths, and the files that a command can reach.

A command reads files through a `Disk`, which answers with a text or with the reason why there is none. How the text of a
document stands for data, and the way back, are `Documents` that come with the disk: nothing here depends on their form.
`Directory` is the disk of a single tree of files: it resolves paths by steps from directory to directory, and keeps the
files that are written to it.
-/
import LevelScript.Document.Writing

namespace LevelScript.Command

/-! ## Paths -/

/-- the steps of a path; empty ones and steps to the same directory are left out -/
def pathSteps (path : String) : List String :=
  ((Text.pieces '/' path.toList).map String.ofList).filter fun step => step ≠ "" && step ≠ "."

/-- how a path from the root starts: with a slash, or with exactly two of them -/
def pathRoot (path : String) : String :=
  let slashes := path.toList.takeWhile (· = '/')
  if slashes.isEmpty then "" else if slashes.length = 2 then "//" else "/"

/-- a path without needless steps -/
def plainPath (path : String) : String :=
  let text := pathRoot path ++ "/".intercalate (pathSteps path)
  if text.isEmpty then "." else text

def baseName (path : String) : String :=
  (pathSteps path).getLast?.getD ""

/-! ## Faults -/

inductive FileFault where
  | missing
  | notDirectory
  | isDirectory
  deriving DecidableEq, Repr

def FileFault.message (fault : FileFault) (path : String) : String :=
  let reason := match fault with
    | .missing => "[Errno 2] No such file or directory"
    | .notDirectory => "[Errno 20] Not a directory"
    | .isDirectory => "[Errno 21] Is a directory"
  reason ++ ": " ++ Text.quoted (plainPath path)

/-! ## Disks -/

/-- how documents are read and written -/
structure Documents where
  load : String → Except HostError Data
  dump : Data → Except HostError String

/-- documents in the form that `Document.read` and `Document.write` know -/
def Documents.plain : Documents where
  load text := (Document.read text).mapError Document.Flaw.failure
  dump := Document.write

/-- the files in reach: the text of each, why a file cannot be written, and how documents are read and written -/
structure Disk where
  read : String → Except FileFault String
  writeFault? : String → Option FileFault
  documents : Documents

/-! ## Directories -/

/-- a tree of files, each with its steps from the root of the tree and its text -/
structure Directory where
  files : List (List String × String)

namespace Directory

/-- the tree of files with the given paths -/
def ofFiles (files : List (String × String)) : Directory :=
  ⟨files.map fun file => (pathSteps file.1, file.2)⟩

/-- whether the steps lead to a directory; the root is one, and so is all that a file lies below -/
def isDirectory (d : Directory) (steps : List String) : Bool :=
  steps.isEmpty || d.files.any fun file => steps ≠ file.1 && steps.isPrefixOf file.1

/-- the text of the file that the steps lead to -/
def text? (d : Directory) (steps : List String) : Option String :=
  d.files.lookup steps

/-- where steps from a directory of the tree lead to; all but the last one must lead to directories -/
def locate (d : Directory) : List String → List String → Except FileFault (List String)
  | here, [] => .ok here
  | here, ".." :: rest => if here.isEmpty then .error .missing else locate d here.dropLast rest
  | here, step :: rest =>
    let next := here ++ [step]
    if rest.isEmpty || d.isDirectory next then locate d next rest
    else .error (if (d.text? next).isSome then .notDirectory else .missing)

/-- where a path leads to; the tree holds no path from the root of the machine -/
def resolve (d : Directory) (path : String) : Except FileFault (List String) :=
  if pathRoot path = "" then d.locate [] (pathSteps path) else .error .missing

def read (d : Directory) (path : String) : Except FileFault String := do
  let steps ← d.resolve path
  match d.text? steps with
  | some text => return text
  | none => throw (if d.isDirectory steps then .isDirectory else .missing)

/-- why a file cannot be written -/
def writeFault? (d : Directory) (path : String) : Option FileFault :=
  match d.resolve path with
  | .ok steps => if d.isDirectory steps then some .isDirectory else none
  | .error fault => some fault

/-- the tree with a text in a file, which replaces the one before; a path that leads nowhere changes nothing -/
def put (d : Directory) (path text : String) : Directory :=
  match d.resolve path with
  | .ok steps => ⟨(steps, text) :: d.files⟩
  | .error _ => d

def disk (d : Directory) (documents : Documents := .plain) : Disk :=
  ⟨d.read, d.writeFault?, documents⟩

end Directory

end LevelScript.Command
