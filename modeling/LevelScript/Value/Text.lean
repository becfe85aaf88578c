/-
The texts of values.

`Heap.display` is what a script prints: floating-point numbers with six places and strings as they are. `Heap.literal`
is the form for debugging, with the type of every value; a list inside itself is shown as `[...]`. Both spend a budget of
depth on nested lists.
-/
import LevelScript.Value.Cast
import LevelScript.Data

namespace LevelScript

/-- the depth that nested lists may have when they are shown, copied or compared -/
def maxListDepth : Nat := 400

def displayVector (components : List Float) : String :=
  "<" ++ ", ".intercalate (components.map (Decimal.fixedText 6)) ++ ">"

/-- a value as a script prints it -/
def Heap.display (h : Heap) : Nat → Val → Except HostError String
  | 0, _ => .error .tooDeep
  | depth + 1, v => match v with
    | .void => .ok "<void>"
    | .bool b => .ok (if b then "true" else "false")
    | .int n => match Decimal.intText? n with
      | some text => .ok text
      | none => .error .tooManyDigits
    | .float x => .ok (Decimal.fixedText 6 x)
    | .vec2 x y => .ok (displayVector [x, y])
    | .vec3 x y z => .ok (displayVector [x, y, z])
    | .list a => do
      let texts ← (h.items a).toList.mapM (h.display depth)
      return "[" ++ ", ".intercalate texts ++ "]"
    | .string s => .ok s
    | .fn .. => .ok "<fn>"
    | .native _ => .ok "<native_fn>"
    | .error message => .ok ("<error: " ++ message ++ ">")

/-- the debugging form of a value with the given type and contents -/
def typedLiteral (t : Ty) (contents : String) : String :=
  "Val(" ++ t.name ++ ", " ++ contents ++ ")"

def literalVector (components : List Float) : String :=
  "[" ++ ", ".intercalate (components.map Syntax.literalLayout.write) ++ "]"

/-- a value in the debugging form; `enclosing` are the addresses of the lists that it stands in -/
def Heap.literal (h : Heap) : Nat → List Nat → Val → Except HostError String
  | 0, _, _ => .error .tooDeep
  | depth + 1, enclosing, v => (typedLiteral v.type) <$> match v with
    | .void => .ok "None"
    | .bool b => .ok (if b then "True" else "False")
    | .int n => match Decimal.intText? n with
      | some text => .ok text
      | none => .error .tooManyDigits
    | .float x => .ok (Syntax.literalLayout.write x)
    | .vec2 x y => .ok (literalVector [x, y])
    | .vec3 x y z => .ok (literalVector [x, y, z])
    | .list a =>
      if enclosing.contains a then .ok "[...]"
      else do
        let texts ← (h.items a).toList.mapM (h.literal depth (a :: enclosing))
        return "[" ++ ", ".intercalate texts ++ "]"
    | .string s | .error s => .ok (Text.quoted s)
    | .fn _ decl => .ok decl.name
    | .native f => .ok f.name

/-- a value as plain data; vectors become lists, and what has no data becomes nothing -/
def Heap.toData (h : Heap) : Nat → Val → Except HostError Data
  | 0, _ => .error .tooDeep
  | depth + 1, v => match v with
    | .void | .fn .. | .native _ => .ok .null
    | .bool b => .ok (.bool b)
    | .int n => .ok (.int n)
    | .float x => .ok (.float x)
    | .vec2 x y => .ok (.list [.float x, .float y])
    | .vec3 x y z => .ok (.list [.float x, .float y, .float z])
    | .list a => .list <$> (h.items a).toList.mapM (h.toData depth)
    | .string s | .error s => .ok (.text s)

/-- whether two values are equal: numbers of the same type by value, lists item by item, and functions and natives only
if they are the same one -/
def Heap.equal (h : Heap) : Nat → Val → Val → Except HostError Bool
  | 0, _, _ => .error .tooDeep
  | depth + 1, v, w => match v, w with
    | .void, .void => .ok true
    | .bool a, .bool b => .ok (a = b)
    | .int a, .int b => .ok (a = b)
    | .float a, .float b => .ok (a == b)
    | .vec2 a b, .vec2 c d => .ok (a == c && b == d)
    | .vec3 a b c, .vec3 d e f => .ok (a == d && b == e && c == f)
    | .list a, .list b =>
      if a = b then .ok true
      else
        let xs := (h.items a).toList
        let ys := (h.items b).toList
        if xs.length ≠ ys.length then .ok false
        else (xs.zip ys).foldlM (fun same (x, y) => if same then h.equal depth x y else .ok false) true
    | .string a, .string b | .error a, .error b => .ok (a = b)
    | .fn a f, .fn b g => .ok (a = b && f.token.span = g.token.span)
    | .native f, .native g => .ok (f = g)
    | _, _ => .ok false

end LevelScript
