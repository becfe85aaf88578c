/-
Syntax trees.

Every node keeps the token that it starts with, so that an error while the script runs can point at the source. The
token of an operator node is the first token of its left operand.
-/
import LevelScript.Syntax.Token

namespace LevelScript.Syntax

inductive Operator where
  | add
  | sub
  | mul
  | div
  | lt
  | gt
  | le
  | ge
  | eq
  deriving DecidableEq, Repr, Inhabited

def Operator.text : Operator → String
  | .add => "+"
  | .sub => "-"
  | .mul => "*"
  | .div => "/"
  | .lt => "<"
  | .gt => ">"
  | .le => "<="
  | .ge => ">="
  | .eq => "=="

inductive Expr where
  | int (token : Token) (value : Nat)
  | float (token : Token) (value : Float)
  | string (token : Token) (text : String)
  | symbol (token : Token) (name : String)
  | binary (token : Token) (left : Expr) (operator : Operator) (right : Expr)
  | assign (token : Token) (target value : Expr)
  | call (token : Token) (callee : Expr) (arguments : List Expr)
  | member (token : Token) (target : Expr) (name : Token)
  | index (token : Token) (target place : Expr)
  | list (token : Token) (elements : List Expr)
  | cast (token : Token) (type : Ty) (operand : Expr)
  deriving Inhabited

def Expr.token : Expr → Token
  | .int t _ | .float t _ | .string t _ | .symbol t _ | .binary t .. | .assign t .. | .call t .. | .member t ..
  | .index t .. | .list t _ | .cast t .. => t

def Expr.span (e : Expr) : Span := e.token.span

structure Param where
  type : Ty
  name : Token
  deriving Inhabited

mutual

/-- a statement; the arms of an if statement are tried in order -/
inductive Stmt where
  | branch (token : Token) (arms : List (Expr × Stmt)) (otherwise : Option Stmt)
  | loop (token : Token) (counter : Option Param) (start condition increment : Expr) (body : Stmt)
  | ret (token : Token) (value : Expr)
  | block (token : Token) (body : List Stmt)
  | expr (token : Token) (expression : Expr)
  | var (token : Token) (type : Ty) (names : List Token) (start : Option Expr)
  | fn (decl : Function)

/-- a declared function; its body is the block that starts with the token `brace` -/
inductive Function where
  | mk (token : Token) (result : Ty) (name : Token) (params : List Param) (brace : Token) (body : List Stmt)

end

namespace Function

/-- the token that a declaration starts with; no two declarations of a script share it -/
def token : Function → Token
  | mk t .. => t

/-- the declared type of the result, which no call checks -/
def result : Function → Ty
  | mk _ r .. => r

def nameToken : Function → Token
  | mk _ _ n .. => n

def params : Function → List Param
  | mk _ _ _ ps .. => ps

def brace : Function → Token
  | mk _ _ _ _ b _ => b

def body : Function → List Stmt
  | mk _ _ _ _ _ b => b

def name (f : Function) : String := f.nameToken.name

def span (f : Function) : Span := f.token.span

/-- the head of a declaration, as in `int add(int a, int b)` -/
def signature (f : Function) : String :=
  f.result.name ++ " " ++ f.name ++ "(" ++ ", ".intercalate (f.params.map fun p => p.type.name ++ " " ++ p.name.name) ++
    ")"

end Function

def Stmt.token : Stmt → Token
  | .branch t .. | .loop t .. | .ret t _ | .block t _ | .expr t _ | .var t .. => t
  | .fn decl => decl.token

def Stmt.span (s : Stmt) : Span := s.token.span

/-- the functions that a script declares at its top level, in order -/
def functionsOf (script : List Stmt) : List Function :=
  script.filterMap fun
    | .fn decl => some decl
    | _ => none

/-- how deep the parser goes into an expression and into a statement; the language sets no bound of its own -/
structure Depths where
  expression : Nat := 240
  statement : Nat := 500
  /-- a number can be read, -/
  number : 2 ≤ expression := by decide
  /-- and so can a statement that nests no other one -/
  positive : 0 < statement := by decide

/-- how deep the parser goes unless a platform says otherwise -/
def Depths.standard : Depths := {}

end LevelScript.Syntax
