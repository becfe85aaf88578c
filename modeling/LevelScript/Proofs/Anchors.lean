/-
The tokens that a syntax tree keeps.

Every node keeps the token that it starts with, and besides these a tree keeps the names of members, variables,
parameters and functions as tokens. They are its anchors: the places that an error can point at while the tree runs.
-/
import Mathlib.Tactic
import LevelScript.Syntax.Tree

namespace LevelScript.Syntax

mutual

def Expr.anchors : Expr → List Token
  | .int t _ | .float t _ | .string t _ | .symbol t _ => [t]
  | .binary t left _ right => t :: (left.anchors ++ right.anchors)
  | .assign t target value => t :: (target.anchors ++ value.anchors)
  | .call t callee arguments => t :: (callee.anchors ++ Expr.listAnchors arguments)
  | .member t target name => t :: name :: target.anchors
  | .index t target place => t :: (target.anchors ++ place.anchors)
  | .list t elements => t :: Expr.listAnchors elements
  | .cast t _ operand => t :: operand.anchors

def Expr.listAnchors : List Expr → List Token
  | [] => []
  | e :: es => e.anchors ++ Expr.listAnchors es

end

mutual

def Stmt.anchors : Stmt → List Token
  | .branch t arms otherwise => t :: (Stmt.armAnchors arms ++ Stmt.optionalAnchors otherwise)
  | .loop t counter start condition increment body =>
    t :: ((counter.map Param.name).toList ++ (start.anchors ++ (condition.anchors ++ (increment.anchors ++ body.anchors))))
  | .ret t e => t :: e.anchors
  | .block t body => t :: Stmt.listAnchors body
  | .expr t e => t :: e.anchors
  | .var t _ names start => t :: (names ++ start.elim [] Expr.anchors)
  | .fn decl => decl.anchors

def Function.anchors : Function → List Token
  | .mk t _ name params brace body => t :: name :: brace :: (params.map Param.name ++ Stmt.listAnchors body)

def Stmt.listAnchors : List Stmt → List Token
  | [] => []
  | stmt :: rest => stmt.anchors ++ Stmt.listAnchors rest

def Stmt.armAnchors : List (Expr × Stmt) → List Token
  | [] => []
  | (condition, body) :: rest => condition.anchors ++ (body.anchors ++ Stmt.armAnchors rest)

def Stmt.optionalAnchors : Option Stmt → List Token
  | none => []
  | some body => body.anchors

end

theorem Expr.token_mem_anchors (e : Expr) : e.token ∈ e.anchors := by
  cases e <;> simp [Expr.token, Expr.anchors]

theorem Stmt.token_mem_anchors (stmt : Stmt) : stmt.token ∈ stmt.anchors := by
  cases stmt with
  | fn decl =>
    cases decl
    simp [Stmt.token, Stmt.anchors, Function.anchors, Function.token]
  | _ => simp [Stmt.token, Stmt.anchors]

theorem Function.token_mem_anchors (decl : Function) : decl.token ∈ decl.anchors := by
  cases decl
  simp [Function.anchors, Function.token]

theorem Function.body_anchors (decl : Function) : Stmt.listAnchors decl.body ⊆ decl.anchors := by
  cases decl
  simp only [Function.anchors, Function.body]
  intro t ht
  simp [ht]

theorem Expr.anchors_of_mem {e : Expr} {es : List Expr} (h : e ∈ es) : e.anchors ⊆ Expr.listAnchors es := by
  induction es with
  | nil => cases h
  | cons first es ih =>
    intro t ht
    rw [Expr.listAnchors, List.mem_append]
    rcases List.mem_cons.1 h with rfl | h
    · exact .inl ht
    · exact .inr (ih h ht)

end LevelScript.Syntax
