/-
Tokens of a script.

Names and keywords are one kind of token, and so are all punctuation characters: operators of two characters are put
together by the grammar. `Token.describe` is the form in messages, `TokenKind.text` the form in listings.
-/
import LevelScript.Syntax.Span
import LevelScript.Text.Quoted
import LevelScript.Decimal.Text
import LevelScript.Ty

namespace LevelScript.Syntax

inductive TokenKind where
  | int (value : Nat)
  | float (value : Float)
  | symbol (name : String)
  | string (text : String)
  | char (c : Char)
  | eof
  deriving Inhabited

/-- a token: its kind, the characters it was written with, and where they stand -/
structure Token where
  kind : TokenKind
  lexeme : String
  span : Span
  deriving Inhabited

def TokenKind.name : TokenKind → String
  | .int _ => "INT"
  | .float _ => "FLOAT"
  | .symbol _ => "SYMBOL"
  | .string _ => "STRING"
  | .char _ => "CHAR"
  | .eof => "EOF"

/-- numbers in the text of a value: fewest digits, an exponent below `10 ^ -4` and from `10 ^ 16` on -/
def literalLayout : Decimal.Layout := {}

/-- the value of a kind of token as listings show it; a number that is too long has no text -/
def TokenKind.valueText? : TokenKind → Option String
  | .int n => Decimal.intText? n
  | .float x => some (literalLayout.write x)
  | .symbol s | .string s => some (Text.quoted s)
  | .char c => some (Text.quoted (String.singleton c))
  | .eof => some ""

/-- a kind of token with its value, as in `INT(42)` -/
def TokenKind.text? (k : TokenKind) : Option String :=
  match k with
  | .eof => some "EOF"
  | _ => k.valueText?.map fun value => k.name ++ "(" ++ value ++ ")"

/-- a token as messages show it -/
def Token.describe (t : Token) : String :=
  match t.kind with
  | .eof => "end of file"
  | .string s => "\"" ++ s ++ "\""
  | _ => "'" ++ t.lexeme ++ "'"

/-- the text of a name, and of any other token its characters without quotes -/
def Token.name (t : Token) : String :=
  match t.kind with
  | .symbol s | .string s => s
  | _ => t.lexeme

def Token.isChar (t : Token) (c : Char) : Bool :=
  match t.kind with
  | .char d => d = c
  | _ => false

def Token.isSymbol (t : Token) (name : String) : Bool :=
  match t.kind with
  | .symbol s => s = name
  | _ => false

def Token.type? (t : Token) : Option Ty :=
  match t.kind with
  | .symbol s => Ty.ofKeyword? s
  | _ => none

end LevelScript.Syntax
