/-
What goes wrong while a script runs.

A fault is an error of the script: a cause, and the place of the construct that failed, once it is known. An interrupt
is a fault or a failure of the host that no script can handle.
-/
import LevelScript.Syntax.Tree
import LevelScript.Diagnostic

namespace LevelScript

open LevelScript.Syntax

inductive Cause where
  | undefinedSymbol (name : String)
  | alreadyDeclared (name : String)
  | invalidCast (source target : Ty)
  | operandTypes (operator : Operator) (left right : Ty)
  | argumentCount (function : String) (expected given : Nat)
  | notCallable (type : Ty)
  | invalidMember (type : Ty) (member : String)
  | noMembers (type : Ty)
  | noAssignableMembers (type : Ty)
  | expectedList (type : Ty)
  | invalidIndex (index : String)
  | indexTooLarge
  | signature (function : String) (expected given : Nat)
  | divisionByZero
  | notLoaded (path : String)
  | unknownFunction (name : String)
  | hostArgumentCount (function : String) (expected given : Nat)
  | hostArgumentType (param : String) (expected given : Ty)
  | missingArgument (param : String)
  | argumentType (param : String) (expected given : Ty)
  | nativeFailed (function message : String)
  | mathDomain (function : String) (argument : Float)
  | invalidTarget
  | severalNames
  | callTooDeep (function : String)
  | nestingTooDeep
  | raised (code message : String)
  deriving Inhabited

/-- the largest index that an assignment may grow a list to -/
def maxListIndex : Nat := 16000

def operatorVerb : Operator → String
  | .add => "add"
  | .sub => "subtract"
  | .mul => "multiply"
  | .div => "divide"
  | .lt => "less than"
  | .gt => "greater than"
  | .le => "less than equal"
  | .ge => "greater than equal"
  | .eq => "equal"

def Cause.code : Cause → String
  | .undefinedSymbol _ => "E201"
  | .alreadyDeclared _ => "E202"
  | .invalidCast .. => "E203"
  | .operandTypes .. => "E204"
  | .argumentCount .. | .notCallable _ => "E205"
  | .invalidMember .. | .noMembers _ | .noAssignableMembers _ => "E206"
  | .expectedList _ | .invalidIndex _ | .indexTooLarge => "E207"
  | .signature .. => "E208"
  | .divisionByZero => "E209"
  | .notLoaded _ | .unknownFunction _ | .hostArgumentCount .. | .hostArgumentType .. | .missingArgument _
  | .argumentType .. | .nativeFailed .. => "E210"
  | .mathDomain .. => "E211"
  | .invalidTarget => "E212"
  | .severalNames => "E213"
  | .callTooDeep _ | .nestingTooDeep => "E214"
  | .raised code _ => code

/-- the end of the messages on counts -/
def countsText (expected given : Nat) : String :=
  ": expected " ++ toString expected ++ ", got " ++ toString given

/-- the end of the messages on types -/
def typesText (expected given : Ty) : String :=
  ": expected " ++ expected.name ++ ", got " ++ given.name

def Cause.message : Cause → String
  | .undefinedSymbol name => "Could not find symbol " ++ name
  | .alreadyDeclared name => "Variable is already declared: " ++ name
  | .invalidCast source target => "Unable to perform cast from " ++ source.name ++ " to " ++ target.name
  | .operandTypes op left right =>
    "Unable to " ++ operatorVerb op ++ " these types: " ++ left.name ++ " and " ++ right.name
  | .argumentCount function expected given =>
    "Wrong number of args passed to function call " ++ function ++ countsText expected given
  | .notCallable type => "Expected a function when evaling call expr, got " ++ type.name
  | .invalidMember type member => "Invalid member for " ++ type.name ++ ": " ++ member
  | .noMembers type => "Invalid type for member access: " ++ type.name
  | .noAssignableMembers type => "Unable to perform member access on type " ++ type.name
  | .expectedList type => "Expected type list, got " ++ type.name
  | .invalidIndex index => "Invalid list index: " ++ index
  | .indexTooLarge => "List index larger than max of " ++ toString maxListIndex
  | .signature function expected given => "Wrong num of args to function " ++ function ++ countsText expected given
  | .divisionByZero => "Division by zero"
  | .notLoaded path => "Script " ++ path ++ " is not loaded"
  | .unknownFunction name => "Could not find function " ++ name
  | .hostArgumentCount function expected given =>
    "Invalid number of args to " ++ function ++ countsText expected given
  | .hostArgumentType param expected given => "Invalid arg type for " ++ param ++ typesText expected given
  | .missingArgument param => "Could not find argument " ++ param
  | .argumentType param expected given => "Invalid type for argument " ++ param ++ typesText expected given
  | .nativeFailed function message => function ++ ": " ++ message
  | .mathDomain function argument =>
    "Math domain error in " ++ function ++ "(" ++ Decimal.fixedText 6 argument ++ ")"
  | .invalidTarget => "Expected an assignable expression"
  | .severalNames => "Only single-name variable declarations can be evaluated"
  | .callTooDeep function => "Maximum call depth exceeded in " ++ function
  | .nestingTooDeep => "Maximum nesting depth exceeded"
  | .raised _ message => message

/-- an error of a running script and where it arises -/
structure Fault where
  cause : Cause
  span : Option Span := none
  deriving Inhabited

/-- the fault at the given place, unless it has a place already -/
def Fault.located (f : Fault) (span : Span) : Fault :=
  { f with span := f.span.or (some span) }

/-- the diagnostic of a fault, without the source line -/
def Fault.diagnostic (f : Fault) : Diagnostic :=
  { code := f.cause.code, message := f.cause.message, span := f.span }

/-- what ends an evaluation early -/
inductive Interrupt where
  | fault (f : Fault)
  | host (e : HostError)
  deriving Inhabited

def Interrupt.at (cause : Cause) (span : Span) : Interrupt :=
  .fault ⟨cause, some span⟩

/-- the interrupt by a fault whose place is not known yet -/
def Interrupt.unplaced (cause : Cause) : Interrupt :=
  .fault ⟨cause, none⟩

end LevelScript
