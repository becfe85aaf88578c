/-
How syntax trees are written.

`Expr.spelled` turns an expression back into the kinds of its tokens. Where the operand of a construct stands in
parentheses is left to a rule: without any they are the yield of the expression, what its constructs are made of and no
more; with those that the precedence of operators demands they are its canonical form. `Expr.Written` allows parentheses
around any expression in it. A statement is made of `Piece`s, tokens of its own and expressions. `Expr.depth` is the
depth that it takes to read the canonical form of an expression.
-/
import Mathlib.Tactic
import LevelScript.Proofs.Contract

namespace LevelScript.Syntax

/-! ## Levels of precedence -/

/-- the levels of the grammar, from the loosest to the tightest; `access` are members and indices -/
inductive Level where
  | assignment
  | comparison
  | sum
  | product
  | cast
  | access
  | call
  | primary
  deriving DecidableEq, Repr

/-- how tight a level binds -/
def Level.rank : Level → Nat
  | .assignment => 0
  | .comparison => 1
  | .sum => 2
  | .product => 3
  | .cast => 4
  | .access => 5
  | .call => 6
  | .primary => 7

/-- the level of the expressions that an operator forms -/
def Operator.level : Operator → Level
  | .add | .sub => .sum
  | .mul | .div => .product
  | .lt | .gt | .le | .ge | .eq => .comparison

/-- the level of the left operand: sums and products group to the left -/
def Operator.leftLevel : Operator → Level
  | .add | .sub => .sum
  | .mul | .div => .product
  | .lt | .gt | .le | .ge | .eq => .sum

/-- the level of the right operand: comparisons group to the right -/
def Operator.rightLevel : Operator → Level
  | .add | .sub => .product
  | .mul | .div => .cast
  | .lt | .gt | .le | .ge | .eq => .comparison

def Expr.level : Expr → Level
  | .assign .. => .assignment
  | .binary _ _ op _ => op.level
  | .cast .. => .cast
  | .member .. | .index .. => .access
  | .call .. => .call
  | .int .. | .float .. | .string .. | .symbol .. | .list .. => .primary

/-! ## Expressions as tokens -/

def Operator.marks : Operator → List Char
  | .add => ['+']
  | .sub => ['-']
  | .mul => ['*']
  | .div => ['/']
  | .lt => ['<']
  | .gt => ['>']
  | .le => ['<', '=']
  | .ge => ['>', '=']
  | .eq => ['=', '=']

/-- tokens in parentheses, if they are to stand in some -/
def enclosed (inParentheses : Bool) (kinds : List TokenKind) : List TokenKind :=
  if inParentheses then .char '(' :: (kinds ++ [.char ')']) else kinds

/-- lists of tokens with commas between them -/
def commas : List (List TokenKind) → List TokenKind
  | [] => []
  | [item] => item
  | item :: next :: others => item ++ .char ',' :: commas (next :: others)

mutual

/-- the tokens of an expression. `group` tells whether an expression of the second level has to stand in parentheses
where the grammar asks for the first one. -/
def Expr.spelled (group : Level → Level → Bool) : Expr → List TokenKind
  | .int _ value => [.int value]
  | .float _ value => [.float value]
  | .string _ text => [.string text]
  | .symbol _ name => [.symbol name]
  | .binary _ left op right =>
    enclosed (group op.leftLevel left.level) (left.spelled group) ++ (op.marks.map .char ++
      enclosed (group op.rightLevel right.level) (right.spelled group))
  | .assign _ target value =>
    enclosed (group .comparison target.level) (target.spelled group) ++ .char '=' ::
      enclosed (group .assignment value.level) (value.spelled group)
  | .call _ callee arguments =>
    enclosed (group .primary callee.level) (callee.spelled group) ++ .char '(' ::
      (commas (Expr.spellings group arguments) ++ [.char ')'])
  | .member _ target name =>
    enclosed (group .access target.level) (target.spelled group) ++ [.char '.', name.kind]
  | .index _ target place =>
    enclosed (group .access target.level) (target.spelled group) ++ .char '[' ::
      (enclosed (group .assignment place.level) (place.spelled group) ++ [.char ']'])
  | .list _ elements => .char '[' :: (commas (Expr.spellings group elements) ++ [.char ']'])
  | .cast _ type operand =>
    .char '(' :: .symbol type.name :: .char ')' :: enclosed (group .access operand.level) (operand.spelled group)

def Expr.spellings (group : Level → Level → Bool) : List Expr → List (List TokenKind)
  | [] => []
  | e :: es => enclosed (group .assignment e.level) (e.spelled group) :: Expr.spellings group es

end

/-- the tokens that the constructs of an expression consist of, without any parentheses for grouping -/
def Expr.yield (e : Expr) : List TokenKind :=
  e.spelled fun _ _ => false

/-- an expression stands in parentheses where the grammar asks for a tighter one -/
def tighter (position own : Level) : Bool :=
  own.rank < position.rank

/-- the tokens of an expression with the parentheses that it needs where the grammar asks for a level -/
def Expr.spelledAt (position : Level) (e : Expr) : List TokenKind :=
  enclosed (tighter position e.level) (e.spelled tighter)

/-- the canonical form of an expression: the parentheses that the precedence of operators demands, and no others -/
def Expr.canonical (e : Expr) : List TokenKind :=
  e.spelledAt .assignment

/-- a list of tokens, and what is left of it when the parentheses around some expressions are deleted -/
inductive Ungrouped : List TokenKind → List TokenKind → Prop where
  | nil : Ungrouped [] []
  | keep {written kept : List TokenKind} (kind : TokenKind) : Ungrouped written kept →
      Ungrouped (kind :: written) (kind :: kept)
  | group {inner written kept : List TokenKind} (e : Expr) : Ungrouped inner e.yield → Ungrouped written kept →
      Ungrouped (.char '(' :: (inner ++ .char ')' :: written)) (e.yield ++ kept)

theorem Ungrouped.append {ks ys ls zs : List TokenKind} (h : Ungrouped ks ys) (h' : Ungrouped ls zs) :
    Ungrouped (ks ++ ls) (ys ++ zs) := by
  induction h with
  | nil => exact h'
  | keep kind _ ih => exact .keep kind ih
  | group e hinner _ _ ih =>
    rw [List.cons_append, List.append_assoc, List.append_assoc]
    exact .group e hinner ih

theorem Ungrouped.refl (ks : List TokenKind) : Ungrouped ks ks := by
  induction ks with
  | nil => exact .nil
  | cons kind ks ih => exact .keep kind ih

/-- tokens that an expression may be written with: those of its constructs, with parentheses around any of the
expressions in it. Elements of lists and arguments are given together with their own tokens. -/
inductive Expr.Written : Expr → List TokenKind → Prop where
  | group {e : Expr} {ks : List TokenKind} : Written e ks → Written e (.char '(' :: (ks ++ [.char ')']))
  | int {token : Token} {value : Nat} : Written (.int token value) [.int value]
  | float {token : Token} {value : Float} : Written (.float token value) [.float value]
  | string {token : Token} {text : String} : Written (.string token text) [.string text]
  | symbol {token : Token} {name : String} : Written (.symbol token name) [.symbol name]
  | binary {token : Token} {op : Operator} {left right : Expr} {ks ls : List TokenKind} : Written left ks →
    Written right ls → Written (.binary token left op right) (ks ++ (op.marks.map .char ++ ls))
  | assign {token : Token} {target value : Expr} {ks ls : List TokenKind} : Written target ks → Written value ls →
    Written (.assign token target value) (ks ++ .char '=' :: ls)
  | call {token : Token} {callee : Expr} {ks : List TokenKind} {items : List (Expr × List TokenKind)} :
    Written callee ks → (∀ item ∈ items, Written item.1 item.2) →
    Written (.call token callee (items.map (·.1))) (ks ++ .char '(' :: (commas (items.map (·.2)) ++ [.char ')']))
  | member {token name : Token} {target : Expr} {ks : List TokenKind} : Written target ks →
    Written (.member token target name) (ks ++ [.char '.', name.kind])
  | index {token : Token} {target place : Expr} {ks ls : List TokenKind} : Written target ks → Written place ls →
    Written (.index token target place) (ks ++ .char '[' :: (ls ++ [.char ']']))
  | list {token : Token} {items : List (Expr × List TokenKind)} : (∀ item ∈ items, Written item.1 item.2) →
    Written (.list token (items.map (·.1))) (.char '[' :: (commas (items.map (·.2)) ++ [.char ']']))
  | cast {token : Token} {type : Ty} {operand : Expr} {ks : List TokenKind} : Written operand ks →
    Written (.cast token type operand) (.char '(' :: .symbol type.name :: .char ')' :: ks)

section Yields

variable (token name : Token) (e e' : Expr) (es : List Expr)

theorem yield_binary (op : Operator) :
    (Expr.binary token e op e').yield = e.yield ++ (op.marks.map .char ++ e'.yield) := by
  simp [Expr.yield, Expr.spelled, enclosed]

theorem yield_assign : (Expr.assign token e e').yield = e.yield ++ .char '=' :: e'.yield := by
  simp [Expr.yield, Expr.spelled, enclosed]

/-- the yields of a list of expressions -/
theorem spellings_yield : Expr.spellings (fun _ _ => false) es = es.map Expr.yield := by
  induction es with
  | nil => rfl
  | cons e es ih => simp [Expr.spellings, enclosed, ih, Expr.yield]

theorem yield_call :
    (Expr.call token e es).yield = e.yield ++ .char '(' :: (commas (es.map Expr.yield) ++ [.char ')']) := by
  simp [Expr.yield, Expr.spelled, enclosed, ← spellings_yield]

theorem yield_member : (Expr.member token e name).yield = e.yield ++ [.char '.', name.kind] := by
  simp [Expr.yield, Expr.spelled, enclosed]

theorem yield_index : (Expr.index token e e').yield = e.yield ++ .char '[' :: (e'.yield ++ [.char ']']) := by
  simp [Expr.yield, Expr.spelled, enclosed]

theorem yield_list : (Expr.list token es).yield = .char '[' :: (commas (es.map Expr.yield) ++ [.char ']']) := by
  simp [Expr.yield, Expr.spelled, ← spellings_yield]

theorem yield_cast (ty : Ty) :
    (Expr.cast token ty e).yield = .char '(' :: .symbol ty.name :: .char ')' :: e.yield := by
  simp [Expr.yield, Expr.spelled, enclosed]

end Yields

theorem Ungrouped.commas {items : List (Expr × List TokenKind)} (h : ∀ item ∈ items, Ungrouped item.2 item.1.yield) :
    Ungrouped (Syntax.commas (items.map (·.2))) (Syntax.commas ((items.map (·.1)).map Expr.yield)) := by
  induction items with
  | nil => exact .nil
  | cons item items ih =>
    have hitems := ih fun item hitem => h item (by simp [hitem])
    cases items with
    | nil => exact h item (by simp)
    | cons next others => exact (h item (by simp)).append (.keep (.char ',') hitems)

/-- the parentheses that an expression may be written with besides its yield are around expressions -/
theorem Expr.Written.ungrouped {e : Expr} {ks : List TokenKind} (h : e.Written ks) : Ungrouped ks e.yield := by
  induction h with
  | @group e ks _ ih =>
    have := Ungrouped.group e ih .nil
    rwa [List.append_nil] at this
  | int | float | string | symbol => exact .refl _
  | binary _ _ ihl ihr =>
    rw [yield_binary]
    exact ihl.append ((Ungrouped.refl _).append ihr)
  | assign _ _ iht ihv =>
    rw [yield_assign]
    exact iht.append (.keep _ ihv)
  | call _ _ ihc iha =>
    rw [yield_call]
    exact ihc.append (.keep _ ((Ungrouped.commas iha).append (.refl _)))
  | member _ ih =>
    rw [yield_member]
    exact ih.append (.refl _)
  | index _ _ iht ihp =>
    rw [yield_index]
    exact iht.append (.keep _ (ihp.append (.refl _)))
  | list _ ih =>
    rw [yield_list]
    exact .keep _ ((Ungrouped.commas ih).append (.refl _))
  | cast _ ih =>
    rw [yield_cast]
    exact .keep _ (.keep _ (.keep _ ih))

/-! ## What the tokens of a tree do not say -/

mutual

/-- an expression without the places and the exact characters of its tokens -/
def Expr.bare : Expr → Expr
  | .int _ value => .int default value
  | .float _ value => .float default value
  | .string _ text => .string default text
  | .symbol _ name => .symbol default name
  | .binary _ left op right => .binary default left.bare op right.bare
  | .assign _ target value => .assign default target.bare value.bare
  | .call _ callee arguments => .call default callee.bare (Expr.bareAll arguments)
  | .member _ target name => .member default target.bare (.ofKind name.kind)
  | .index _ target place => .index default target.bare place.bare
  | .list _ elements => .list default (Expr.bareAll elements)
  | .cast _ type operand => .cast default type operand.bare

def Expr.bareAll : List Expr → List Expr
  | [] => []
  | e :: es => e.bare :: Expr.bareAll es

end

/-! ## Expressions that can be written -/

/-- the words of the language: those of statements and the names of types -/
def keywords : List String :=
  ["if", "else", "for", "return"] ++ Ty.declarable.map Ty.name

mutual

/-- the names in an expression, of variables and functions; a member may have any name -/
def Expr.names : Expr → List String
  | .int .. | .float .. | .string .. => []
  | .symbol _ name => [name]
  | .binary _ left _ right => left.names ++ right.names
  | .assign _ target value => target.names ++ value.names
  | .call _ callee arguments => callee.names ++ Expr.namesAll arguments
  | .member _ target _ => target.names
  | .index _ target place => target.names ++ place.names
  | .list _ elements => Expr.namesAll elements
  | .cast _ _ operand => operand.names

def Expr.namesAll : List Expr → List String
  | [] => []
  | e :: es => e.names ++ Expr.namesAll es

end

def Token.IsName (t : Token) : Prop := ∃ name, t.kind = .symbol name

mutual

/-- an expression that tokens can stand for: its members are names, and its casts are to types that have one -/
def Expr.Writable : Expr → Prop
  | .int .. | .float .. | .string .. | .symbol .. => True
  | .binary _ left _ right => left.Writable ∧ right.Writable
  | .assign _ target value => target.Writable ∧ value.Writable
  | .call _ callee arguments => callee.Writable ∧ Expr.AllWritable arguments
  | .member _ target name => target.Writable ∧ name.IsName
  | .index _ target place => target.Writable ∧ place.Writable
  | .list _ elements => Expr.AllWritable elements
  | .cast _ type operand => type ∈ Ty.declarable ∧ operand.Writable

def Expr.AllWritable : List Expr → Prop
  | [] => True
  | e :: es => e.Writable ∧ Expr.AllWritable es

end

/-! ## Depth -/

/-- the depth that the grammar spends on the way from one level to a tighter one: a unit for each of the two loosest -/
def descent (position own : Level) : Nat :=
  min own.rank 2 - min position.rank 2

/-- the depth of an expression where the grammar asks for a level, from its depth at its own level; parentheses hold an
expression of the loosest level -/
def depthFrom (position own : Level) (depth : Nat) : Nat :=
  if tighter position own then descent position .primary + (descent .assignment own + depth)
  else descent position own + depth

mutual

/-- the depth that it takes to read the canonical form of an expression at its own level -/
def Expr.ownDepth : Expr → Nat
  | .int .. | .float .. | .string .. | .symbol .. => 0
  | .binary _ left op right =>
    (if op.level = .comparison then 1 else 0) + max (depthFrom op.leftLevel left.level left.ownDepth)
      (depthFrom op.rightLevel right.level right.ownDepth)
  | .assign _ target value =>
    1 + max (depthFrom .comparison target.level target.ownDepth) (depthFrom .assignment value.level value.ownDepth)
  | .call _ callee arguments => max (depthFrom .primary callee.level callee.ownDepth) (Expr.depthOfAll arguments)
  | .member _ target _ => depthFrom .access target.level target.ownDepth
  | .index _ target place =>
    max (depthFrom .access target.level target.ownDepth) (depthFrom .assignment place.level place.ownDepth)
  | .list _ elements => Expr.depthOfAll elements
  | .cast _ _ operand => depthFrom .access operand.level operand.ownDepth

def Expr.depthOfAll : List Expr → Nat
  | [] => 0
  | e :: es => max (depthFrom .assignment e.level e.ownDepth) (Expr.depthOfAll es)

end

/-- the depth that it takes to read the canonical form of an expression where the grammar asks for a level -/
def Expr.depthAt (position : Level) (e : Expr) : Nat :=
  depthFrom position e.level e.ownDepth

/-- the depth that it takes to read the canonical form of an expression -/
def Expr.depth (e : Expr) : Nat :=
  e.depthAt .assignment

/-! ## Statements as tokens -/

/-- what a statement is written with: tokens of its own, and expressions -/
inductive Piece where
  | token (kind : TokenKind)
  | expr (e : Expr)

def Param.counterPieces : Option Param → List Piece
  | none => []
  | some p => [.token (.symbol p.type.name), .token p.name.kind, .token (.char '=')]

def startPieces : Option Expr → List Piece
  | none => []
  | some e => [.token (.char '='), .expr e]

mutual

/-- the pieces of a statement: keywords, names, types and the punctuation of its constructs, and its expressions -/
def Stmt.pieces : Stmt → List Piece
  | .branch _ arms otherwise => Stmt.armPieces false arms ++ Stmt.elsePieces otherwise
  | .loop _ counter start condition increment body =>
    .token (.symbol "for") :: .token (.char '(') :: (Param.counterPieces counter ++ .expr start :: .token (.char ';') ::
      .expr condition :: .token (.char ';') :: .expr increment :: .token (.char ')') :: body.pieces)
  | .ret _ value => [.token (.symbol "return"), .expr value, .token (.char ';')]
  | .block _ body => .token (.char '{') :: (Stmt.allPieces body ++ [.token (.char '}')])
  | .expr _ e => [.expr e, .token (.char ';')]
  | .var _ type names start =>
    .token (.symbol type.name) :: ((commas (names.map fun name => [name.kind])).map .token ++
      (startPieces start ++ [.token (.char ';')]))
  | .fn decl => decl.pieces

def Function.pieces : Function → List Piece
  | .mk _ result name params _ body =>
    .token (.symbol result.name) :: .token name.kind :: .token (.char '(') ::
      ((commas (params.map fun p => [.symbol p.type.name, p.name.kind])).map .token ++
        .token (.char ')') :: .token (.char '{') :: (Stmt.allPieces body ++ [.token (.char '}')]))

def Stmt.allPieces : List Stmt → List Piece
  | [] => []
  | s :: ss => s.pieces ++ Stmt.allPieces ss

/-- the pieces of the arms of an if statement; `behind` tells whether another arm comes before them -/
def Stmt.armPieces (behind : Bool) : List (Expr × Stmt) → List Piece
  | [] => []
  | (test, body) :: arms =>
    (if behind then [.token (.symbol "else")] else []) ++ .token (.symbol "if") :: .token (.char '(') :: .expr test ::
      .token (.char ')') :: (body.pieces ++ Stmt.armPieces true arms)

def Stmt.elsePieces : Option Stmt → List Piece
  | none => []
  | some s => .token (.symbol "else") :: s.pieces

end

/-- pieces as tokens, with expressions written in the given way -/
def spell (write : Expr → List TokenKind) (ps : List Piece) : List TokenKind :=
  ps.flatMap fun
    | .token kind => [kind]
    | .expr e => write e

section Spell

variable (write : Expr → List TokenKind)

@[simp] theorem spell_nil : spell write [] = [] := rfl

@[simp] theorem spell_token (kind : TokenKind) (ps : List Piece) :
    spell write (.token kind :: ps) = kind :: spell write ps := rfl

@[simp] theorem spell_expr (e : Expr) (ps : List Piece) : spell write (.expr e :: ps) = write e ++ spell write ps := rfl

@[simp] theorem spell_append (ps qs : List Piece) : spell write (ps ++ qs) = spell write ps ++ spell write qs :=
  List.flatMap_append

@[simp] theorem spell_tokens (kinds : List TokenKind) : spell write (kinds.map .token) = kinds := by
  induction kinds with
  | nil => rfl
  | cons kind kinds ih => rw [List.map_cons, spell_token, ih]

end Spell

/-- the tokens that the constructs of a script consist of: keywords, names, types, literals, operators and the
punctuation of each construct -/
def scriptYield (script : List Stmt) : List TokenKind :=
  spell Expr.yield (Stmt.allPieces script)

def Stmt.canonical (s : Stmt) : List TokenKind :=
  spell Expr.canonical s.pieces

def scriptCanonical (script : List Stmt) : List TokenKind :=
  spell Expr.canonical (Stmt.allPieces script)

/-- tokens that pieces may be written with: in each expression there may be parentheses around expressions -/
inductive Spells : List Piece → List TokenKind → Prop where
  | nil : Spells [] []
  | token {ps : List Piece} {ks : List TokenKind} (kind : TokenKind) : Spells ps ks →
    Spells (.token kind :: ps) (kind :: ks)
  | expr {e : Expr} {ps : List Piece} {ws ks : List TokenKind} : e.Written ws → Spells ps ks →
    Spells (.expr e :: ps) (ws ++ ks)

theorem Spells.append {ps qs : List Piece} {ks ls : List TokenKind} (h : Spells ps ks) (h' : Spells qs ls) :
    Spells (ps ++ qs) (ks ++ ls) := by
  induction h with
  | nil => exact h'
  | token kind _ ih => exact .token kind ih
  | expr hwritten _ ih =>
    rw [List.append_assoc]
    exact .expr hwritten ih

theorem Spells.tokens (kinds : List TokenKind) : Spells (kinds.map .token) kinds := by
  induction kinds with
  | nil => exact .nil
  | cons kind kinds ih => exact .token kind ih

theorem Spells.ungrouped {ps : List Piece} {ks : List TokenKind} (h : Spells ps ks) :
    Ungrouped ks (spell Expr.yield ps) := by
  induction h with
  | nil => exact .nil
  | token kind _ ih => exact .keep kind ih
  | expr hwritten _ ih => exact hwritten.ungrouped.append ih

/-! ## Statements without the places of their tokens -/

def Param.bare (p : Param) : Param := ⟨p.type, .ofKind p.name.kind⟩

mutual

def Stmt.bare : Stmt → Stmt
  | .branch _ arms otherwise => .branch default (Stmt.bareArms arms) (Stmt.bareElse otherwise)
  | .loop _ counter start condition increment body =>
    .loop default (counter.map Param.bare) start.bare condition.bare increment.bare body.bare
  | .ret _ value => .ret default value.bare
  | .block _ body => .block default (Stmt.bareAll body)
  | .expr _ e => .expr default e.bare
  | .var _ type names start => .var default type (names.map fun name => .ofKind name.kind) (start.map Expr.bare)
  | .fn decl => .fn decl.bare

def Function.bare : Function → Function
  | .mk _ result name params _ body =>
    .mk default result (.ofKind name.kind) (params.map Param.bare) default (Stmt.bareAll body)

def Stmt.bareAll : List Stmt → List Stmt
  | [] => []
  | s :: ss => s.bare :: Stmt.bareAll ss

def Stmt.bareArms : List (Expr × Stmt) → List (Expr × Stmt)
  | [] => []
  | (test, body) :: arms => (test.bare, body.bare) :: Stmt.bareArms arms

def Stmt.bareElse : Option Stmt → Option Stmt
  | none => none
  | some s => some s.bare

end

/-! ## Names in statements -/

mutual

def Stmt.names : Stmt → List String
  | .branch _ arms otherwise => Stmt.namesInArms arms ++ Stmt.namesInElse otherwise
  | .loop _ counter start condition increment body =>
    (counter.toList.map fun p => p.name.name) ++ start.names ++ condition.names ++ increment.names ++ body.names
  | .ret _ value => value.names
  | .block _ body => Stmt.namesAll body
  | .expr _ e => e.names
  | .var _ _ names start => names.map Token.name ++ Expr.namesAll start.toList
  | .fn decl => decl.names

def Function.names : Function → List String
  | .mk _ _ name params _ body => name.name :: (params.map fun p => p.name.name) ++ Stmt.namesAll body

def Stmt.namesAll : List Stmt → List String
  | [] => []
  | s :: ss => s.names ++ Stmt.namesAll ss

def Stmt.namesInArms : List (Expr × Stmt) → List String
  | [] => []
  | (test, body) :: arms => test.names ++ body.names ++ Stmt.namesInArms arms

def Stmt.namesInElse : Option Stmt → List String
  | none => []
  | some s => s.names

end

/-! ## To which if statement an `else` belongs -/

def Stmt.isBranch : Stmt → Bool
  | .branch .. => true
  | _ => false

/-- whether a chain of arms is still open at the end of a statement, so that an `else` right behind would belong to it -/
def Stmt.endsOpen : Stmt → Bool
  | .branch _ _ none => true
  | .branch _ _ (some s) => s.endsOpen
  | .loop _ _ _ _ _ body => body.endsOpen
  | _ => false

/-- the bodies of an if statement that have an `else` right behind them -/
def bodiesBeforeElse (arms : List (Expr × Stmt)) (otherwise : Option Stmt) : List Stmt :=
  (if otherwise.isSome then arms else arms.dropLast).map (·.2)

/-- every `else` in a statement belongs to the nearest chain of arms before it that is still open: no body in front of
one ends open, and an `if` behind one goes on with the chain -/
inductive Stmt.Attached : Stmt → Prop where
  | branch {token : Token} {arms : List (Expr × Stmt)} {otherwise : Option Stmt} :
    (∀ arm ∈ arms, arm.2.Attached) → (∀ s ∈ otherwise, s.Attached) → (∀ s ∈ otherwise, s.isBranch = false) →
    (∀ s ∈ bodiesBeforeElse arms otherwise, s.endsOpen = false) → Attached (.branch token arms otherwise)
  | loop {token : Token} {counter : Option Param} {start condition increment : Expr} {body : Stmt} :
    body.Attached → Attached (.loop token counter start condition increment body)
  | ret {token : Token} {value : Expr} : Attached (.ret token value)
  | block {token : Token} {body : List Stmt} : (∀ s ∈ body, s.Attached) → Attached (.block token body)
  | expr {token : Token} {e : Expr} : Attached (.expr token e)
  | var {token : Token} {type : Ty} {names : List Token} {start : Option Expr} : Attached (.var token type names start)
  | fn {decl : Function} : (∀ s ∈ decl.body, s.Attached) → Attached (.fn decl)

/-! ## Statements that can be written -/

/-- an expression that can be written, and whose canonical form is not too deep to be read -/
def Expr.Readable (depths : Depths) (e : Expr) : Prop := e.Writable ∧ e.depth ≤ depths.expression

def Param.Writable (p : Param) : Prop := p.type ∈ Ty.declarable ∧ p.name.IsName

/-- a statement that can be written, and that is not too deep to be read with the given depth -/
inductive Stmt.Readable (depths : Depths) : Nat → Stmt → Prop where
  | branch {depth : Nat} {token : Token} {arms : List (Expr × Stmt)} {otherwise : Option Stmt} : arms ≠ [] →
    (∀ arm ∈ arms, arm.1.Readable depths) → (∀ arm ∈ arms, arm.2.Readable depths depth) →
    (∀ s ∈ otherwise, s.Readable depths depth) → Readable depths (depth + 1) (.branch token arms otherwise)
  | loop {depth : Nat} {token : Token} {counter : Option Param} {start condition increment : Expr} {body : Stmt} :
    (∀ p ∈ counter, p.Writable) → start.Readable depths → condition.Readable depths → increment.Readable depths →
    body.Readable depths depth → Readable depths (depth + 1) (.loop token counter start condition increment body)
  | ret {depth : Nat} {token : Token} {value : Expr} : value.Readable depths →
    Readable depths (depth + 1) (.ret token value)
  | block {depth : Nat} {token : Token} {body : List Stmt} : (∀ s ∈ body, s.Readable depths depth) →
    Readable depths (depth + 1) (.block token body)
  | expr {depth : Nat} {token : Token} {e : Expr} : e.Readable depths → Readable depths (depth + 1) (.expr token e)
  | var {depth : Nat} {token : Token} {type : Ty} {names : List Token} {start : Option Expr} : type ∈ Ty.declarable →
    names ≠ [] → (∀ name ∈ names, name.IsName) → (∀ e ∈ start, e.Readable depths) →
    Readable depths (depth + 1) (.var token type names start)
  | fn {depth : Nat} {decl : Function} : decl.result ∈ Ty.declarable → decl.nameToken.IsName →
    (∀ p ∈ decl.params, p.Writable) → (∀ s ∈ decl.body, s.Readable depths depth) →
    Readable depths (depth + 1) (.fn decl)

end LevelScript.Syntax
