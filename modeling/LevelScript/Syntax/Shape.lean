/-
The uniform view of a syntax tree, and its outline.

A shape is a labelled node with named fields, whatever the construct; `Expr.shape` and `Stmt.shape` give it. The outline
writes a shape as indented text: the label of a node, below it a line for every field, and nested nodes four columns
further in. The tokens of nodes do not show, everything else does.
-/
import LevelScript.Syntax.Tree
import LevelScript.Diagnostic

namespace LevelScript.Syntax

/-- a node with its fields, or what a field may hold besides: a list, a token, a type or operator as it is written, a
literal, or nothing -/
inductive Shape where
  | node (label : String) (token : Token) (fields : List (String × Shape))
  | list (items : List Shape)
  | token (t : Token)
  | word (text : String)
  | int (value : Nat)
  | float (value : Float)
  | string (text : String)
  | absent
  deriving Inhabited

/-! ## Shapes of trees -/

mutual

def Expr.shape : Expr → Shape
  | .int t value => .node "IntLiteral" t [("value", .int value)]
  | .float t value => .node "FloatLiteral" t [("value", .float value)]
  | .string t text => .node "StringLiteral" t [("value", .string text)]
  | .symbol t name => .node "Symbol" t [("name", .string name)]
  | .binary t left op right =>
    .node "BinaryOp" t [("left", left.shape), ("operator", .word op.text), ("right", right.shape)]
  | .assign t target value => .node "Assignment" t [("target", target.shape), ("value", value.shape)]
  | .call t callee arguments => .node "Call" t [("callee", callee.shape), ("arguments", .list (Expr.shapes arguments))]
  | .member t target name => .node "MemberAccess" t [("target", target.shape), ("member", .token name)]
  | .index t target place => .node "ArrayAccess" t [("target", target.shape), ("index", place.shape)]
  | .list t elements => .node "ArrayDecl" t [("elements", .list (Expr.shapes elements))]
  | .cast t type operand => .node "Cast" t [("target_type", .word type.name), ("operand", operand.shape)]

def Expr.shapes : List Expr → List Shape
  | [] => []
  | e :: es => e.shape :: Expr.shapes es

end

def Shape.optional : Option Shape → Shape
  | none => .absent
  | some s => s

mutual

def Stmt.shape : Stmt → Shape
  | .branch t arms otherwise =>
    .node "IfStatement" t [("conditions", .list (arms.map fun arm => arm.1.shape)),
      ("bodies", .list (Stmt.armShapes arms)), ("else_body", Stmt.optionalShape otherwise)]
  | .loop t counter start condition increment body =>
    .node "ForStatement" t [("decl_type", .optional (counter.map fun p => .word p.type.name)),
      ("decl_symbol", .optional (counter.map fun p => .token p.name)), ("init", start.shape),
      ("condition", condition.shape), ("increment", increment.shape), ("body", body.shape)]
  | .ret t value => .node "ReturnStatement" t [("value", value.shape)]
  | .block t body => .node "Block" t [("statements", .list (Stmt.shapes body))]
  | .expr t e => .node "ExpressionStatement" t [("expression", e.shape)]
  | .var t type names start =>
    .node "VarDecl" t [("var_type", .word type.name), ("names", .list (names.map .token)),
      ("initializer", .optional (start.map Expr.shape))]
  | .fn decl => decl.shape

def Function.shape : Function → Shape
  | .mk t result name params brace body =>
    .node "FnDecl" t [("return_type", .word result.name), ("name_token", .token name),
      ("param_types", .list (params.map fun p => .word p.type.name)),
      ("param_names", .list (params.map fun p => .token p.name)),
      ("body", .node "Block" brace [("statements", .list (Stmt.shapes body))])]

def Stmt.shapes : List Stmt → List Shape
  | [] => []
  | s :: ss => s.shape :: Stmt.shapes ss

/-- the shapes of the bodies of an if statement -/
def Stmt.armShapes : List (Expr × Stmt) → List Shape
  | [] => []
  | (_, body) :: arms => body.shape :: Stmt.armShapes arms

def Stmt.optionalShape : Option Stmt → Shape
  | none => .absent
  | some s => s.shape

end

def programShape (script : List Stmt) : Shape :=
  .node "Program" (script.head?.elim default Stmt.token) [("statements", .list (Stmt.shapes script))]

/-- the label of a node; nothing else has one -/
def Shape.label : Shape → String
  | .node label .. => label
  | _ => ""

/-! ## Outlines -/

/-- a line of an outline; one step of indentation is two columns -/
def outlineLine (indent : Nat) (text : String) : String :=
  String.ofList (List.replicate (2 * indent) ' ') ++ text

/-- the text of what fits on the line of a field: names, types and operators as they are, literals as literals -/
def Shape.inlineText : Shape → Except HostError String
  | .token t => .ok t.name
  | .word text => .ok text
  | .int value => match Decimal.intText? value with
    | some text => .ok text
    | none => .error .tooManyDigits
  | .float value => .ok (literalLayout.write value)
  | .string text => .ok (Text.quoted text)
  | .absent => .ok "None"
  | .node .. | .list _ => .ok ""

/-- the outline of a node whose nested nodes spend a budget of depth; `indent` counts steps -/
def Shape.outline : Nat → Nat → Shape → Except HostError (List String)
  | 0, _, _ => .error .tooDeep
  | depth + 1, indent, .node label _ fields => do
    let parts ← fields.mapM fun (name, part) => do
      match part with
      | .node .. => return outlineLine indent ("  " ++ name ++ ":") :: (← part.outline depth (indent + 2))
      | .list items =>
        let inner ← items.mapM fun item => match item with
          | .node .. => item.outline depth (indent + 2)
          | _ => do return [outlineLine indent ("    " ++ (← item.inlineText))]
        return outlineLine indent ("  " ++ name ++ ": [") :: inner.flatten ++ [outlineLine indent "  ]"]
      | _ => return [outlineLine indent ("  " ++ name ++ ": " ++ (← part.inlineText))]
    return outlineLine indent label :: parts.flatten
  | _ + 1, indent, other => do return [outlineLine indent (← other.inlineText)]

def maxOutlineDepth : Nat := 900

def Shape.outlineText (s : Shape) (indent : Nat := 0) : Except HostError String := do
  return "\n".intercalate (← s.outline maxOutlineDepth indent)

end LevelScript.Syntax
