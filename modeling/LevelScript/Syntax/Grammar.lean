/-
The grammar: from tokens to syntax trees by recursive descent.

From the loosest to the tightest: assignment, comparison (both take everything to their right), sums, products (both
group to the left), casts, members and indices, calls, and primaries. A parser reads tokens off the front of a list; a
refusal keeps the cause and the tokens from the offending one on, so it marks the exact place.

An expression spends one unit of a budget of depth on what it nests, and so does a statement; repetition inside a rule
costs nothing. The budgets are the parser's `Depths`, which stand for the recursion that the machine allows. A statement
that exhausts one is refused as a whole, whatever else is wrong with it.

Where exhaustion is noticed is a choice of this grammar: an if or for statement, which cannot do without a nested one, is
refused before its condition is read if there is no depth for what it nests. A construct that has been begun can then
always be completed.
-/
import LevelScript.Syntax.Tree
import LevelScript.Diagnostic

namespace LevelScript.Syntax

/-! ## Refusals -/

inductive Construct where
  | ifStatement
  | forStatement
  | forVariable
  | expressionStatement
  | returnStatement
  | block
  | declaration
  | variableDeclaration
  | function (name : String)
  | cast
  | memberAccess
  | arrayAccess
  | callExpr
  | arrayDeclaration
  | primary
  deriving DecidableEq, Repr

def Construct.text : Construct → String
  | .ifStatement => "if statement"
  | .forStatement => "for statement"
  | .forVariable => "variable declaration in for statement"
  | .expressionStatement => "expression statement"
  | .returnStatement => "return statement"
  | .block => "block"
  | .declaration => "declaration"
  | .variableDeclaration => "variable declaration"
  | .function name => "function " ++ name
  | .cast => "cast"
  | .memberAccess => "member access"
  | .arrayAccess => "array access"
  | .callExpr => "call expr"
  | .arrayDeclaration => "array declaration"
  | .primary => "primary"

inductive RefusalCause where
  | expectedChar (c : Char) (place : Construct)
  | expectedSymbol (place : Construct)
  | expectedType
  | unknownPrimary
  | tooDeep
  deriving DecidableEq, Repr

structure Refusal where
  cause : RefusalCause
  rest : List Token

def RefusalCause.code : RefusalCause → String
  | .expectedChar .. | .expectedSymbol _ => "E101"
  | .expectedType => "E102"
  | .unknownPrimary => "E103"
  | .tooDeep => "E104"

def RefusalCause.message : RefusalCause → String
  | .expectedChar c place => "Expected '" ++ String.singleton c ++ "' when parsing " ++ place.text
  | .expectedSymbol place => "Expected symbol when parsing " ++ place.text
  | .expectedType => "Expected a type when parsing"
  | .unknownPrimary => "Unknown token when parsing primary"
  | .tooDeep => "Maximum nesting depth exceeded when parsing statement"

def RefusalCause.hints (cause : RefusalCause) (token : Token) : List String :=
  match cause with
  | .expectedType => ["types are: " ++ ", ".intercalate (Ty.declarable.map Ty.name)]
  | .tooDeep => []
  | _ => ["found " ++ token.describe]

/-- the diagnostic of a refusal; it points at the refused token and quotes its line, if the lines are known -/
def Refusal.diagnostic (r : Refusal) (line? : Nat → Option String) : Diagnostic :=
  match r.rest with
  | [] => { code := r.cause.code, message := r.cause.message }
  | token :: _ => {
      code := r.cause.code
      message := r.cause.message
      span := some token.span
      sourceLine := line? token.span.start.line
      hints := r.cause.hints token }

/-! ## Reading tokens -/

/-- a parser reads tokens off the front of a list or refuses one of them -/
abbrev Parser := StateT (List Token) (Except Refusal)

namespace Parser

def refuse {α : Type} (cause : RefusalCause) : Parser α :=
  fun tokens => .error ⟨cause, tokens⟩

def current : Parser Token :=
  fun tokens => .ok (tokens.headD default, tokens)

/-- the count of tokens that remain, an upper bound for any repetition -/
def remaining : Parser Nat :=
  fun tokens => .ok (tokens.length, tokens)

def ended (tokens : List Token) : Bool :=
  match tokens with
  | [] => true
  | t :: _ => match t.kind with
    | .eof => true
    | _ => false

/-- the tokens after a run of tokens that satisfy the given tests, if the list starts with one -/
def dropRun? : List (Token → Bool) → List Token → Option (List Token)
  | [], tokens => some tokens
  | _ :: _, [] => none
  | test :: tests, t :: tokens => if test t then dropRun? tests tokens else none

/-- read the given run of tokens, if it comes next -/
def takeRun (tests : List (Token → Bool)) : Parser Bool :=
  fun tokens => match dropRun? tests tokens with
    | some rest => .ok (true, rest)
    | none => .ok (false, tokens)

def takeChar (c : Char) : Parser Bool :=
  takeRun [(·.isChar c)]

def takeWord (word : String) : Parser Bool :=
  takeRun [(·.isSymbol word)]

/-- read the given punctuation character -/
def char (c : Char) (place : Construct) : Parser Unit := do
  unless ← takeChar c do refuse (.expectedChar c place)

/-- read a name; keywords count as names -/
def symbol (place : Construct) : Parser Token :=
  fun tokens => match tokens with
    | [] => .error ⟨.expectedSymbol place, []⟩
    | t :: rest => match t.kind with
      | .symbol _ => .ok (t, rest)
      | _ => .error ⟨.expectedSymbol place, tokens⟩

def type : Parser Ty :=
  fun tokens => match tokens with
    | [] => .error ⟨.expectedType, []⟩
    | t :: rest => match t.type? with
      | some ty => .ok (ty, rest)
      | none => .error ⟨.expectedType, tokens⟩

def seesType : Parser Bool :=
  fun tokens => .ok ((tokens.head?.bind Token.type?).isSome, tokens)

/-- whether an opening parenthesis and a type come next, which makes a cast -/
def seesCast : Parser Bool :=
  fun tokens => .ok ((dropRun? [(·.isChar '('), (·.type?.isSome)] tokens).isSome, tokens)

/-! ## Repetition -/

/-- items with commas between them, up to the closing character; one item at least, and at most as many as the bound -/
def commaSeparated {α : Type} (item : Parser α) (closer : Char) (place : Construct) : Nat → Parser (List α)
  | 0 => refuse (.expectedChar closer place)
  | bound + 1 => do
    let first ← item
    if ← takeChar ',' then
      return first :: (← commaSeparated item closer place bound)
    else
      char closer place
      return [first]

/-- items with commas between them, or none, up to the closing character -/
def listUpTo {α : Type} (item : Parser α) (closer : Char) (place : Construct) : Parser (List α) := do
  if ← takeChar closer then return []
  else commaSeparated item closer place (← remaining)

def moreNames : Nat → Parser (List Token)
  | 0 => return []
  | bound + 1 => do
    if ← takeChar ',' then
      let name ← symbol .variableDeclaration
      return name :: (← moreNames bound)
    else return []

def statementsToBrace (statement : Parser Stmt) : Nat → Parser (List Stmt)
  | 0 => refuse (.expectedChar '}' .block)
  | bound + 1 => do
    if ← takeChar '}' then return []
    else if ended (← get) then refuse (.expectedChar '}' .block)
    else
      let first ← statement
      return first :: (← statementsToBrace statement bound)

/-- the arms after the first one of an if statement -/
def elseIfArms (arm : Parser (Expr × Stmt)) : Nat → Parser (List (Expr × Stmt))
  | 0 => return []
  | bound + 1 => do
    if ← takeRun [(·.isSymbol "else"), (·.isSymbol "if")] then
      let first ← arm
      return first :: (← elseIfArms arm bound)
    else return []

/-- operators and right operands after a left operand, grouped to the left -/
def groupLeft (operator : Parser (Option Operator)) (operand : Parser Expr) (token : Token) :
    Nat → Expr → Parser Expr
  | 0, left => return left
  | bound + 1, left => do
    match ← operator with
    | none => return left
    | some op => groupLeft operator operand token bound (.binary token left op (← operand))

/-- members and indices after an expression -/
def postfixes (index : Parser Expr) (token : Token) : Nat → Expr → Parser Expr
  | 0, target => return target
  | bound + 1, target => do
    if ← takeChar '.' then
      let name ← symbol .memberAccess
      postfixes index token bound (.member token target name)
    else if ← takeChar '[' then
      let place ← index
      char ']' .arrayAccess
      postfixes index token bound (.index token target place)
    else return target

/-! ## Operators -/

/-- the first spelling of the list that comes next, and its operator -/
def takeOperator : List (List Char × Operator) → Parser (Option Operator)
  | [] => return none
  | (spelling, op) :: others => do
    if ← takeRun (spelling.map fun c t => t.isChar c) then return some op
    else takeOperator others

/-- the comparison operators, longer spellings first; a single equals sign is no comparison -/
def comparisonOperator : Parser (Option Operator) :=
  takeOperator [(['=', '='], .eq), (['<', '='], .le), (['>', '='], .ge), (['>'], .gt), (['<'], .lt)]

def sumOperator : Parser (Option Operator) :=
  takeOperator [(['+'], .add), (['-'], .sub)]

def productOperator : Parser (Option Operator) :=
  takeOperator [(['*'], .mul), (['/'], .div)]

/-! ## Expressions -/

def primary (nested : Parser Expr) : Parser Expr := do
  let token ← current
  match token.kind with
  | .int value => modify (·.tail); return .int token value
  | .float value => modify (·.tail); return .float token value
  | .symbol name => modify (·.tail); return .symbol token name
  | .string text => modify (·.tail); return .string token text
  | _ =>
    if ← takeChar '[' then
      return .list token (← listUpTo nested ']' .arrayDeclaration)
    else if ← takeChar '(' then
      let inner ← nested
      char ')' .primary
      return inner
    else refuse .unknownPrimary

/-- a primary with at most one list of arguments behind it -/
def callExpression (nested : Parser Expr) : Parser Expr := do
  let token ← current
  let callee ← primary nested
  if ← takeChar '(' then
    return .call token callee (← listUpTo nested ')' .callExpr)
  else return callee

def postfixExpression (nested : Parser Expr) : Parser Expr := do
  let token ← current
  let target ← callExpression nested
  postfixes nested token (← remaining) target

/-- a type in parentheses and its operand, or anything tighter -/
def castExpression (nested : Parser Expr) : Parser Expr := do
  let token ← current
  if ← seesCast then
    char '(' .cast
    let target ← type
    char ')' .cast
    return .cast token target (← postfixExpression nested)
  else postfixExpression nested

def product (nested : Parser Expr) : Parser Expr := do
  let token ← current
  let left ← castExpression nested
  groupLeft productOperator (castExpression nested) token (← remaining) left

def sum (nested : Parser Expr) : Parser Expr := do
  let token ← current
  let left ← product nested
  groupLeft sumOperator (product nested) token (← remaining) left

mutual

/-- an assignment or anything tighter; the value is itself an expression -/
def expression : Nat → Parser Expr
  | 0 => refuse .tooDeep
  | depth + 1 => do
    let token ← current
    let target ← comparison depth
    if ← takeChar '=' then return .assign token target (← expression depth)
    else return target

/-- comparisons; the right operand is itself a comparison -/
def comparison : Nat → Parser Expr
  | 0 => refuse .tooDeep
  | depth + 1 => do
    let token ← current
    let left ← sum (expression depth)
    match ← comparisonOperator with
    | none => return left
    | some op => return .binary token left op (← comparison depth)

end

/-! ## Statements -/

section Statements

variable (depths : Depths)

/-- an expression that stands in no other one -/
def fullExpression : Parser Expr :=
  expression depths.expression

def condition : Parser Expr := do
  char '(' .ifStatement
  let test ← fullExpression depths
  char ')' .ifStatement
  return test

/-- an arm of an if statement: a condition and the statement that it guards -/
def arm (nested : Parser Stmt) : Parser (Expr × Stmt) := do
  let test ← condition depths
  return (test, ← nested)

/-- the rest of an if statement -/
def ifStatement (nested : Parser Stmt) (token : Token) : Parser Stmt := do
  let first ← arm depths nested
  let others ← elseIfArms (arm depths nested) (← remaining)
  let otherwise ← if ← takeWord "else" then some <$> nested else pure none
  return .branch token (first :: others) otherwise

/-- the loop variable of a for statement, if it declares one -/
def loopVariable : Parser (Option Param) := do
  if ← seesType then
    let ty ← type
    let name ← symbol .forVariable
    char '=' .forVariable
    return some ⟨ty, name⟩
  else return none

/-- the rest of a for statement -/
def forStatement (nested : Parser Stmt) (token : Token) : Parser Stmt := do
  char '(' .forStatement
  let declared ← loopVariable
  let start ← fullExpression depths
  char ';' .forStatement
  let test ← fullExpression depths
  char ';' .forStatement
  let increment ← fullExpression depths
  char ')' .forStatement
  return .loop token declared start test increment (← nested)

/-- the statements of a block whose opening brace has been read -/
def block (nested : Parser Stmt) : Parser (List Stmt) := do
  statementsToBrace nested ((← remaining) + 1)

def parameter (place : Construct) : Parser Param := do
  let ty ← type
  return ⟨ty, ← symbol place⟩

/-- the rest of a declaration of variables -/
def declaredNames (token : Token) (ty : Ty) (name : Token) : Parser Stmt := do
  let others ← moreNames (← remaining)
  let start ← if ← takeChar '=' then some <$> fullExpression depths else pure none
  char ';' .variableDeclaration
  return .var token ty (name :: others) start

/-- the rest of a declaration of a function -/
def declaredFunction (nested : Parser Stmt) (token : Token) (ty : Ty) (name : Token) : Parser Stmt := do
  let place := Construct.function name.name
  let params ← listUpTo (parameter place) ')' place
  let brace ← current
  char '{' place
  return .fn (.mk token ty name params brace (← block nested))

def declaration (nested : Parser Stmt) (token : Token) : Parser Stmt := do
  let ty ← type
  let name ← symbol .declaration
  if ← takeChar '(' then declaredFunction nested token ty name
  else declaredNames depths token ty name

def statement : Nat → Parser Stmt
  | 0 => refuse .tooDeep
  | depth + 1 => do
    let token ← current
    let nested := statement depth
    let needed : Parser Unit := if depth = 0 then refuse .tooDeep else pure ()
    if ← takeWord "if" then
      needed
      ifStatement depths nested token
    else if ← takeWord "for" then
      needed
      forStatement depths nested token
    else if ← takeWord "return" then
      let value ← fullExpression depths
      char ';' .returnStatement
      return .ret token value
    else if ← takeChar '{' then return .block token (← block nested)
    else if ← seesType then declaration depths nested token
    else
      let e ← fullExpression depths
      char ';' .expressionStatement
      return .expr token e

end Statements

end Parser

/-! ## Scripts -/

/-- the statement at the front of a list of tokens and the tokens after it; one that is too deep is refused at its first
token -/
def parseStatement (depths : Depths) (tokens : List Token) : Except Refusal (Stmt × List Token) :=
  match (Parser.statement depths depths.statement).run tokens with
  | .error ⟨.tooDeep, _⟩ => .error ⟨.tooDeep, tokens⟩
  | outcome => outcome

structure Parse where
  statements : List Stmt
  refusal : Option Refusal

/-- the statements at the front of a list of tokens, at most as many as the bound -/
def parseUpTo (depths : Depths) : Nat → List Token → Parse
  | 0, _ => ⟨[], none⟩
  | bound + 1, tokens =>
    if Parser.ended tokens then ⟨[], none⟩
    else match parseStatement depths tokens with
      | .error refusal => ⟨[], some refusal⟩
      | .ok (stmt, rest) =>
        let others := parseUpTo depths bound rest
        ⟨stmt :: others.statements, others.refusal⟩

/-- the statements of a list of tokens up to its end or to the first refusal; no statement is empty, so there are not
more of them than tokens -/
def parsePrefix (tokens : List Token) (depths : Depths := .standard) : Parse :=
  parseUpTo depths tokens.length tokens

def parse (tokens : List Token) (depths : Depths := .standard) : Except Refusal (List Stmt) :=
  let p := parsePrefix tokens depths
  match p.refusal with
  | some refusal => .error refusal
  | none => .ok p.statements

end LevelScript.Syntax
