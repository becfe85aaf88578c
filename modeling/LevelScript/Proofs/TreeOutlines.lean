/-
The outline of a tree determines the tree.

The shapes of trees are made of nodes with the fields of their kinds (`Node.Legible.fits`), so that nodes of one outline
are alike. What is alike in two trees is the same in both: no two operators, types, names, numbers or texts are shown in
one way. So trees that the parser has made, of any two texts, are equal up to the places of their tokens if their
outlines are one text (`outline_determines_tree`).
-/
import LevelScript.Proofs.NumberTexts
import LevelScript.Proofs.Outlines
import LevelScript.Proofs.ParsedNodes
import LevelScript.Proofs.QuotedTexts

namespace LevelScript.Syntax

/-! ## Shapes of nodes -/

def Node.shape : Node → Shape
  | .program script => programShape script
  | .statement s => s.shape
  | .expression e => e.shape

def Node.form : Node → NodeForm
  | .program _ => .program
  | .statement (.branch ..) => .branch
  | .statement (.loop ..) => .loop
  | .statement (.ret ..) => .ret
  | .statement (.block ..) => .block
  | .statement (.expr ..) => .statement
  | .statement (.var ..) => .var
  | .statement (.fn _) => .fn
  | .expression (.int ..) => .int
  | .expression (.float ..) => .float
  | .expression (.string ..) => .string
  | .expression (.symbol ..) => .symbol
  | .expression (.binary ..) => .binary
  | .expression (.assign ..) => .assign
  | .expression (.call ..) => .call
  | .expression (.member ..) => .member
  | .expression (.index ..) => .index
  | .expression (.list ..) => .list
  | .expression (.cast ..) => .cast

def Node.bare : Node → Node
  | .program script => .program (Stmt.bareAll script)
  | .statement s => .statement s.bare
  | .expression e => .expression e.bare

theorem Node.label_shape (n : Node) : n.shape.label = n.form.label := by
  rcases n with script | s | e
  · rfl
  · rcases s with _ | _ | _ | _ | _ | _ | decl
    case fn => cases decl; rfl
    all_goals rfl
  · cases e <;> rfl

theorem shapes_expressions (es : List Expr) : Expr.shapes es = es.map Expr.shape := by
  induction es with
  | nil => rfl
  | cons e es ih => rw [Expr.shapes, ih, List.map_cons]

theorem shapes_statements (ss : List Stmt) : Stmt.shapes ss = ss.map Stmt.shape := by
  induction ss with
  | nil => rfl
  | cons s ss ih => rw [Stmt.shapes, ih, List.map_cons]

theorem shapes_bodies (arms : List (Expr × Stmt)) : Stmt.armShapes arms = arms.map (·.2.shape) := by
  induction arms with
  | nil => rfl
  | cons arm arms ih => rw [Stmt.armShapes, ih, List.map_cons]

theorem optionalShape_eq (otherwise : Option Stmt) :
    Stmt.optionalShape otherwise = .optional (otherwise.map Stmt.shape) := by
  cases otherwise <;> rfl

/-! ## Trees have outlines -/

/-- a shape that suits a field of a kind -/
def Suits (kind : FieldKind) (s : Shape) : Prop := kind.Holds s ∧ s.Fits

/-- a node whose shape is one of the language -/
def Node.Fits (n : Node) : Prop := n.shape.IsNode ∧ n.shape.Fits

theorem suits_node {s : Shape} (h : s.IsNode ∧ s.Fits) : Suits .single s := ⟨.inl h.1, h.2⟩

theorem suits_inline {s : Shape} (hs : s.Inline) (h : ∀ text, s.inlineText = .ok text → '\n' ∉ text.toList) :
    Suits .single s :=
  ⟨.inr hs, .inline hs h⟩

theorem suits_absent : Suits .single .absent :=
  suits_inline trivial fun text h => by cases h; decide

theorem suits_word {text : String} (h : '\n' ∉ text.toList) : Suits .single (.word text) :=
  suits_inline trivial fun text' htext => by cases htext; exact h

theorem intText?_of_inlineText {value : Nat} {text : String} (h : (Shape.int value).inlineText = .ok text) :
    Decimal.intText? value = some text := by
  -- the equations of `inlineText` would have the bound of `intText?` computed
  delta Shape.inlineText at h
  dsimp only at h
  cases hshown : Decimal.intText? value with
  | none =>
    rw [hshown] at h
    cases h
  | some shown =>
    rw [hshown] at h
    rw [Except.ok.inj h]

theorem suits_int (value : Nat) : Suits .single (.int value) :=
  suits_inline trivial fun _ htext => Decimal.lineFeed_not_mem_intText? (intText?_of_inlineText htext)

theorem suits_float (value : Float) : Suits .single (.float value) :=
  suits_inline trivial fun text htext => by cases htext; exact lineFeed_not_mem_write value

theorem suits_string (value : String) : Suits .single (.string value) :=
  suits_inline trivial fun text htext => by cases htext; exact Text.quoted_line value

theorem Token.PlainName.eq_symbol {t : Token} (h : t.PlainName) : t.kind = .symbol t.name ∧ '\n' ∉ t.name.toList := by
  obtain ⟨⟨name, hname⟩, hplain⟩ := h
  have hsame : t.name = name := by rw [Token.name, hname]
  exact ⟨by rw [hsame, hname], by rw [hsame]; exact hplain name hname⟩

theorem suits_token {t : Token} (h : t.PlainName) : Suits .single (.token t) :=
  suits_inline trivial fun text htext => by cases htext; exact h.eq_symbol.2

theorem lineFeed_not_mem_typeName (ty : Ty) : '\n' ∉ ty.name.toList := by
  cases ty <;> decide

theorem lineFeed_not_mem_operator (op : Operator) : '\n' ∉ op.text.toList := by
  cases op <;> decide

theorem suits_nodes {items : List Shape} (h : ∀ item ∈ items, item.IsNode ∧ item.Fits) : Suits .nodes (.list items) :=
  ⟨⟨items, rfl, fun item hitem => (h item hitem).1⟩, .list fun item hitem => (h item hitem).2⟩

theorem suits_lines {items : List Shape} (hinline : ∀ item ∈ items, item.Inline)
    (h : ∀ item ∈ items, Suits .single item) : Suits .lines (.list items) :=
  ⟨⟨items, rfl, hinline⟩, .list fun item hitem => (h item hitem).2⟩

theorem suits_tokens {names : List Token} (h : ∀ t ∈ names, t.PlainName) : Suits .lines (.list (names.map .token)) :=
  suits_lines (List.forall_mem_map.2 fun _ _ => trivial) (List.forall_mem_map.2 fun t ht => suits_token (h t ht))

theorem suits_types (types : List Ty) : Suits .lines (.list (types.map fun ty => .word ty.name)) :=
  suits_lines (List.forall_mem_map.2 fun _ _ => trivial)
    (List.forall_mem_map.2 fun ty _ => suits_word (lineFeed_not_mem_typeName ty))

/-- a node is one of the language if its fields are those of its kind and suit them -/
theorem fits_node (form : NodeForm) {token : Token} {fields : List (String × Shape)}
    (h : List.Forall₂ (fun f k => f.1 = k.1 ∧ Suits k.2 f.2) fields form.fields) :
    (Shape.node form.label token fields).IsNode ∧ (Shape.node form.label token fields).Fits := by
  refine ⟨trivial, .node form (h.imp fun f k hf => ⟨hf.1, hf.2.1⟩) fun f hf => ?_⟩
  obtain ⟨k, -, -, hsuits⟩ := counterpart h hf
  exact hsuits.2

theorem suits_optional {s : Option Shape} (h : ∀ shape ∈ s, Suits .single shape) : Suits .single (.optional s) := by
  cases s with
  | none => exact suits_absent
  | some shape => exact h shape rfl

theorem Node.fits_expression {e : Expr} (hnames : ∀ t ∈ (Node.expression e).nameTokens, t.PlainName)
    (hparts : ∀ m ∈ (Node.expression e).parts, m.Fits) : (Node.expression e).Fits := by
  cases e with
  | int t value => exact fits_node .int (.cons ⟨rfl, suits_int value⟩ .nil)
  | float t value => exact fits_node .float (.cons ⟨rfl, suits_float value⟩ .nil)
  | string t text => exact fits_node .string (.cons ⟨rfl, suits_string text⟩ .nil)
  | symbol t name => exact fits_node .symbol (.cons ⟨rfl, suits_string name⟩ .nil)
  | binary t left op right =>
    have hleft := suits_node (hparts (.expression left) (by simp [parts]))
    have hright := suits_node (hparts (.expression right) (by simp [parts]))
    have hoperator := suits_word (lineFeed_not_mem_operator op)
    exact fits_node .binary (.cons ⟨rfl, hleft⟩ (.cons ⟨rfl, hoperator⟩ (.cons ⟨rfl, hright⟩ .nil)))
  | assign t target value =>
    have htarget := suits_node (hparts (.expression target) (by simp [parts]))
    have hvalue := suits_node (hparts (.expression value) (by simp [parts]))
    exact fits_node .assign (.cons ⟨rfl, htarget⟩ (.cons ⟨rfl, hvalue⟩ .nil))
  | call t callee arguments =>
    have hcallee := suits_node (hparts (.expression callee) (by simp [parts]))
    have harguments : Suits .nodes (.list (Expr.shapes arguments)) := by
      rw [shapes_expressions]
      exact suits_nodes (List.forall_mem_map.2 fun e he => hparts (.expression e) (by simp [parts, he]))
    exact fits_node .call (.cons ⟨rfl, hcallee⟩ (.cons ⟨rfl, harguments⟩ .nil))
  | member t target name =>
    have htarget := suits_node (hparts (.expression target) (by simp [parts]))
    have hname := suits_token (hnames name (by simp [nameTokens]))
    exact fits_node .member (.cons ⟨rfl, htarget⟩ (.cons ⟨rfl, hname⟩ .nil))
  | index t target place =>
    have htarget := suits_node (hparts (.expression target) (by simp [parts]))
    have hplace := suits_node (hparts (.expression place) (by simp [parts]))
    exact fits_node .index (.cons ⟨rfl, htarget⟩ (.cons ⟨rfl, hplace⟩ .nil))
  | list t elements =>
    have helements : Suits .nodes (.list (Expr.shapes elements)) := by
      rw [shapes_expressions]
      exact suits_nodes (List.forall_mem_map.2 fun e he => hparts (.expression e) (by simp [parts, he]))
    exact fits_node .list (.cons ⟨rfl, helements⟩ .nil)
  | cast t type operand =>
    have hoperand := suits_node (hparts (.expression operand) (by simp [parts]))
    exact fits_node .cast (.cons ⟨rfl, suits_word (lineFeed_not_mem_typeName type)⟩ (.cons ⟨rfl, hoperand⟩ .nil))

/-- a list of statements that fit -/
theorem suits_statements {ss : List Stmt} (h : ∀ s ∈ ss, (Node.statement s).Fits) :
    Suits .nodes (.list (Stmt.shapes ss)) := by
  rw [shapes_statements]
  exact suits_nodes (List.forall_mem_map.2 h)

theorem Node.fits_statement {s : Stmt} (hnames : ∀ t ∈ (Node.statement s).nameTokens, t.PlainName)
    (hparts : ∀ m ∈ (Node.statement s).parts, m.Fits) : (Node.statement s).Fits := by
  cases s with
  | branch t arms otherwise =>
    have hconditions : Suits .nodes (.list (arms.map fun arm => arm.1.shape)) :=
      suits_nodes (List.forall_mem_map.2 fun arm harm => hparts (.expression arm.1)
        (List.mem_append_left _ (List.mem_append_left _ (List.mem_map_of_mem harm))))
    have hbodies : Suits .nodes (.list (Stmt.armShapes arms)) := by
      rw [shapes_bodies]
      exact suits_nodes (List.forall_mem_map.2 fun arm harm => hparts (.statement arm.2)
        (List.mem_append_left _ (List.mem_append_right _ (List.mem_map_of_mem harm))))
    have helse : Suits .single (Stmt.optionalShape otherwise) := by
      rw [optionalShape_eq]
      refine suits_optional fun shape hshape => ?_
      obtain ⟨s, hs, rfl⟩ := Option.mem_map.1 hshape
      exact suits_node (hparts (.statement s)
        (List.mem_append_right _ (List.mem_map_of_mem (Option.mem_toList.2 hs))))
    exact fits_node .branch (.cons ⟨rfl, hconditions⟩ (.cons ⟨rfl, hbodies⟩ (.cons ⟨rfl, helse⟩ .nil)))
  | loop t counter start condition increment body =>
    have htype : Suits .single (.optional (counter.map fun p => .word p.type.name)) := by
      refine suits_optional fun shape hshape => ?_
      obtain ⟨p, -, rfl⟩ := Option.mem_map.1 hshape
      exact suits_word (lineFeed_not_mem_typeName p.type)
    have hname : Suits .single (.optional (counter.map fun p => .token p.name)) := by
      refine suits_optional fun shape hshape => ?_
      obtain ⟨p, hp, rfl⟩ := Option.mem_map.1 hshape
      exact suits_token (hnames p.name (List.mem_map_of_mem (Option.mem_toList.2 hp)))
    have hstart := suits_node (hparts (.expression start) (by simp [parts]))
    have hcondition := suits_node (hparts (.expression condition) (by simp [parts]))
    have hincrement := suits_node (hparts (.expression increment) (by simp [parts]))
    have hbody := suits_node (hparts (.statement body) (by simp [parts]))
    exact fits_node .loop (.cons ⟨rfl, htype⟩ (.cons ⟨rfl, hname⟩ (.cons ⟨rfl, hstart⟩ (.cons ⟨rfl, hcondition⟩
      (.cons ⟨rfl, hincrement⟩ (.cons ⟨rfl, hbody⟩ .nil))))))
  | ret t value =>
    have hvalue := suits_node (hparts (.expression value) (by simp [parts]))
    exact fits_node .ret (.cons ⟨rfl, hvalue⟩ .nil)
  | block t body =>
    have hbody := suits_statements (List.forall_mem_map.1 hparts)
    exact fits_node .block (.cons ⟨rfl, hbody⟩ .nil)
  | expr t e =>
    have hexpression := suits_node (hparts (.expression e) (by simp [parts]))
    exact fits_node .statement (.cons ⟨rfl, hexpression⟩ .nil)
  | var t type names start =>
    have hstart : Suits .single (.optional (start.map Expr.shape)) := by
      refine suits_optional fun shape hshape => ?_
      obtain ⟨e, he, rfl⟩ := Option.mem_map.1 hshape
      exact suits_node (hparts (.expression e) (List.mem_map_of_mem (Option.mem_toList.2 he)))
    exact fits_node .var (.cons ⟨rfl, suits_word (lineFeed_not_mem_typeName type)⟩ (.cons ⟨rfl, suits_tokens hnames⟩
      (.cons ⟨rfl, hstart⟩ .nil)))
  | fn decl =>
    obtain ⟨t, result, name, params, brace, body⟩ := decl
    have hname := suits_token (hnames name List.mem_cons_self)
    have htypes := suits_types (params.map (·.type))
    have hparams : Suits .lines (.list ((params.map (·.name)).map .token)) :=
      suits_tokens fun t ht => hnames t (List.mem_cons_of_mem _ ht)
    have hbody := suits_node (hparts (.statement (.block brace body)) List.mem_cons_self)
    rw [List.map_map] at htypes hparams
    exact fits_node .fn (.cons ⟨rfl, suits_word (lineFeed_not_mem_typeName result)⟩ (.cons ⟨rfl, hname⟩
      (.cons ⟨rfl, htypes⟩ (.cons ⟨rfl, hparams⟩ (.cons ⟨rfl, hbody⟩ .nil)))))

/-- a node whose names are plain has a shape of the language -/
theorem Node.Legible.fits {n : Node} (h : n.Legible) : n.Fits := by
  induction h with
  | @intro n hnames _ ih =>
    cases n with
    | program script => exact fits_node .program (.cons ⟨rfl, suits_statements (List.forall_mem_map.1 ih)⟩ .nil)
    | statement s => exact fits_statement hnames ih
    | expression e => exact fits_expression hnames ih

/-! ## What is alike is the same -/

theorem Shape.Alike.fields {label label' : String} {token token' : Token} {fields fields' : List (String × Shape)}
    (h : (Shape.node label token fields).Alike (.node label' token' fields')) :
    List.Forall₂ Alike (fields.map (·.2)) (fields'.map (·.2)) := by
  cases h with
  | inline hinline => cases hinline
  | node _ hfields => exact hfields

theorem Shape.Alike.items {items items' : List Shape} (h : (Shape.list items).Alike (.list items')) :
    List.Forall₂ Alike items items' := by
  cases h with
  | inline hinline => cases hinline
  | list hitems => exact hitems

theorem Shape.Alike.label_eq {a b : Shape} (h : a.Alike b) (ha : a.IsNode) : a.label = b.label := by
  cases h with
  | inline hinline => exact absurd ha hinline.not_isNode
  | list => cases ha
  | node => rfl

/-- what stands on a line is alike only to what stands on a line with the same text -/
theorem Shape.Alike.text {a b : Shape} (h : a.Alike b) (ha : a.Inline) :
    b.Inline ∧ ∃ text, a.inlineText = .ok text ∧ b.inlineText = .ok text := by
  cases h with
  | inline _ hb htext htext' => exact ⟨hb, _, htext, htext'⟩
  | list | node => cases ha

theorem int_eq_of_alike {value value' : Nat} (h : (Shape.int value).Alike (.int value')) : value = value' := by
  obtain ⟨-, text, htext, htext'⟩ := h.text trivial
  exact Decimal.intText?_injective (intText?_of_inlineText htext) (intText?_of_inlineText htext')

theorem float_eq_of_alike {value value' : Float} (h : (Shape.float value).Alike (.float value')) : value = value' := by
  obtain ⟨-, text, htext, htext'⟩ := h.text trivial
  exact write_injective (Except.ok.inj (htext.trans htext'.symm))

theorem string_eq_of_alike {text text' : String} (h : (Shape.string text).Alike (.string text')) : text = text' := by
  obtain ⟨-, shown, hshown, hshown'⟩ := h.text trivial
  exact Text.quoted_injective (Except.ok.inj (hshown.trans hshown'.symm))

theorem word_eq_of_alike {text text' : String} (h : (Shape.word text).Alike (.word text')) : text = text' := by
  obtain ⟨-, shown, hshown, hshown'⟩ := h.text trivial
  exact Except.ok.inj (hshown.trans hshown'.symm)

theorem kind_eq_of_alike {t t' : Token} (ht : t.PlainName) (ht' : t'.PlainName)
    (h : (Shape.token t).Alike (.token t')) : t.kind = t'.kind := by
  obtain ⟨-, text, htext, htext'⟩ := h.text trivial
  rw [ht.eq_symbol.1, ht'.eq_symbol.1, Except.ok.inj (htext.trans htext'.symm)]

theorem operatorText_injective : Function.Injective Operator.text := by
  intro op op' h
  cases op <;> cases op' <;> first | rfl | exact absurd h (by decide)

theorem typeName_injective : Function.Injective Ty.name := by
  intro ty ty' h
  cases ty <;> cases ty' <;> first | rfl | exact absurd h (by decide)

theorem typeName_ne_none (ty : Ty) : ty.name ≠ "None" := by
  cases ty <;> decide

theorem type_eq_of_alike {ty ty' : Ty} (h : (Shape.word ty.name).Alike (.word ty'.name)) : ty = ty' :=
  typeName_injective (word_eq_of_alike h)

section Several

variable {α β : Type} {f : α → Shape} {g : α → β}

/-- lists are the same if what is alike in them is -/
theorem map_eq_of_alike {l l' : List α} (h : (Shape.list (l.map f)).Alike (.list (l'.map f)))
    (hsame : ∀ a ∈ l, ∀ a' ∈ l', (f a).Alike (f a') → g a = g a') : l.map g = l'.map g := by
  have hitems := h.items
  rw [List.forall₂_map_left_iff, List.forall₂_map_right_iff] at hitems
  clear h
  induction hitems with
  | nil => rfl
  | @cons a a' l l' halike _ ih =>
    rw [List.map_cons, List.map_cons, hsame a List.mem_cons_self a' List.mem_cons_self halike,
      ih fun b hb b' hb' => hsame b (List.mem_cons_of_mem _ hb) b' (List.mem_cons_of_mem _ hb')]

/-- what may be missing is missing in both or in neither, as far as nothing else looks as if it were missing -/
theorem option_eq_of_alike {x x' : Option α} (h : (Shape.optional (x.map f)).Alike (.optional (x'.map f)))
    (hpresent : ∀ a, ¬ (f a).Alike .absent ∧ ¬ Shape.absent.Alike (f a))
    (hsame : ∀ a ∈ x, ∀ a' ∈ x', (f a).Alike (f a') → g a = g a') : x.map g = x'.map g := by
  cases x with
  | none =>
    cases x' with
    | none => rfl
    | some a' => exact absurd h (hpresent a').2
  | some a =>
    cases x' with
    | none => exact absurd h (hpresent a).1
    | some a' => exact congrArg some (hsame a rfl a' rfl h)

/-- lists of pairs are equal if the lists of their parts are -/
theorem map_pair_eq {γ : Type} {k : α → γ} {l l' : List α} (hfirst : l.map g = l'.map g)
    (hsecond : l.map k = l'.map k) : (l.map fun a => (g a, k a)) = l'.map fun a => (g a, k a) := by
  rw [← List.zip_map', ← List.zip_map', hfirst, hsecond]

end Several

theorem isNode_expression (e : Expr) : e.shape.IsNode := by
  cases e <;> trivial

theorem isNode_statement (s : Stmt) : s.shape.IsNode := by
  rcases s with _ | _ | _ | _ | _ | _ | decl
  case fn => cases decl; trivial
  all_goals trivial

/-- nodes are not shown as what is missing is -/
theorem node_not_absent {s : Shape} (hs : s.IsNode) : ¬ s.Alike .absent ∧ ¬ Shape.absent.Alike s := by
  refine ⟨fun h => ?_, fun h => (h.text trivial).1.not_isNode hs⟩
  cases h with
  | inline hinline => exact hinline.not_isNode hs

/-- types are not shown as what is missing is -/
theorem type_not_absent (ty : Ty) :
    ¬ (Shape.word ty.name).Alike .absent ∧ ¬ Shape.absent.Alike (.word ty.name) := by
  refine ⟨fun h => ?_, fun h => ?_⟩
  · obtain ⟨-, text, htext, habsent⟩ := h.text trivial
    exact typeName_ne_none ty (Except.ok.inj (htext.trans habsent.symm))
  · obtain ⟨-, text, habsent, htext⟩ := h.text trivial
    exact typeName_ne_none ty (Except.ok.inj (htext.trans habsent.symm))

/-! ## Alike trees are the same -/

/-- any legible node with a shape like that of the node is the same up to the places of its tokens -/
def Node.Recognized (n : Node) : Prop := ∀ b : Node, b.Legible → n.shape.Alike b.shape → n.bare = b.bare

theorem bareStatements_eq (ss : List Stmt) : Stmt.bareAll ss = ss.map Stmt.bare := by
  induction ss with
  | nil => rfl
  | cons s ss ih => rw [Stmt.bareAll, ih, List.map_cons]

theorem bareElse_eq (otherwise : Option Stmt) : Stmt.bareElse otherwise = otherwise.map Stmt.bare := by
  cases otherwise <;> rfl

section Steps

variable {a b : Node} (ha : ∀ m ∈ a.parts, m.Recognized) (hb : ∀ m ∈ b.parts, m.Legible)
include ha hb

theorem expression_part {e e' : Expr} (he : .expression e ∈ a.parts) (he' : .expression e' ∈ b.parts)
    (h : e.shape.Alike e'.shape) : e.bare = e'.bare :=
  Node.expression.inj (ha _ he _ (hb _ he') h)

theorem statement_part {s s' : Stmt} (hs : .statement s ∈ a.parts) (hs' : .statement s' ∈ b.parts)
    (h : s.shape.Alike s'.shape) : s.bare = s'.bare :=
  Node.statement.inj (ha _ hs _ (hb _ hs') h)

theorem expressions_part {es es' : List Expr} (hes : ∀ e ∈ es, .expression e ∈ a.parts)
    (hes' : ∀ e ∈ es', .expression e ∈ b.parts) (h : (Shape.list (Expr.shapes es)).Alike (.list (Expr.shapes es'))) :
    Expr.bareAll es = Expr.bareAll es' := by
  rw [shapes_expressions, shapes_expressions] at h
  rw [Parser.bareAll_eq, Parser.bareAll_eq]
  exact map_eq_of_alike h fun e he e' he' => expression_part ha hb (hes e he) (hes' e' he')

theorem statements_part {ss ss' : List Stmt} (hss : ∀ s ∈ ss, .statement s ∈ a.parts)
    (hss' : ∀ s ∈ ss', .statement s ∈ b.parts) (h : (Shape.list (Stmt.shapes ss)).Alike (.list (Stmt.shapes ss'))) :
    Stmt.bareAll ss = Stmt.bareAll ss' := by
  rw [shapes_statements, shapes_statements] at h
  rw [bareStatements_eq, bareStatements_eq]
  exact map_eq_of_alike h fun s hs s' hs' => statement_part ha hb (hss s hs) (hss' s' hs')

end Steps

/-- alike lists of names are spelled with the same tokens -/
theorem names_eq_of_alike {names names' : List Token} (hnames : ∀ t ∈ names, t.PlainName)
    (hnames' : ∀ t ∈ names', t.PlainName)
    (h : (Shape.list (names.map .token)).Alike (.list (names'.map .token))) :
    (names.map fun name => Token.ofKind name.kind) = names'.map fun name => Token.ofKind name.kind :=
  map_eq_of_alike h fun t ht t' ht' halike =>
    congrArg Token.ofKind (kind_eq_of_alike (hnames t ht) (hnames' t' ht') halike)

/-- an expression whose parts are recognized is recognized -/
theorem recognized_expression {e e' : Expr} (hnames : ∀ t ∈ (Node.expression e).nameTokens, t.PlainName)
    (ha : ∀ m ∈ (Node.expression e).parts, m.Recognized)
    (hnames' : ∀ t ∈ (Node.expression e').nameTokens, t.PlainName)
    (hb : ∀ m ∈ (Node.expression e').parts, m.Legible)
    (hform : (Node.expression e).form = (Node.expression e').form) (h : e.shape.Alike e'.shape) : e.bare = e'.bare := by
  have hpart {m m' : Expr} (hm : .expression m ∈ (Node.expression e).parts)
      (hm' : .expression m' ∈ (Node.expression e').parts) := expression_part ha hb hm hm'
  cases e with
  | int t value =>
    cases e' with
    | int t' value' =>
      obtain ⟨hvalue, -⟩ := List.forall₂_cons.1 h.fields
      rw [Expr.bare, Expr.bare, int_eq_of_alike hvalue]
    | _ => cases hform
  | float t value =>
    cases e' with
    | float t' value' =>
      obtain ⟨hvalue, -⟩ := List.forall₂_cons.1 h.fields
      rw [Expr.bare, Expr.bare, float_eq_of_alike hvalue]
    | _ => cases hform
  | string t text =>
    cases e' with
    | string t' text' =>
      obtain ⟨htext, -⟩ := List.forall₂_cons.1 h.fields
      rw [Expr.bare, Expr.bare, string_eq_of_alike htext]
    | _ => cases hform
  | symbol t name =>
    cases e' with
    | symbol t' name' =>
      obtain ⟨hname, -⟩ := List.forall₂_cons.1 h.fields
      rw [Expr.bare, Expr.bare, string_eq_of_alike hname]
    | _ => cases hform
  | binary t left op right =>
    cases e' with
    | binary t' left' op' right' =>
      obtain ⟨hleft, hrest⟩ := List.forall₂_cons.1 h.fields
      obtain ⟨hop, hrest⟩ := List.forall₂_cons.1 hrest
      obtain ⟨hright, -⟩ := List.forall₂_cons.1 hrest
      rw [Expr.bare, Expr.bare, operatorText_injective (word_eq_of_alike hop),
        hpart (by simp [Node.parts]) (by simp [Node.parts]) hleft,
        hpart (by simp [Node.parts]) (by simp [Node.parts]) hright]
    | _ => cases hform
  | assign t target value =>
    cases e' with
    | assign t' target' value' =>
      obtain ⟨htarget, hrest⟩ := List.forall₂_cons.1 h.fields
      obtain ⟨hvalue, -⟩ := List.forall₂_cons.1 hrest
      rw [Expr.bare, Expr.bare, hpart (by simp [Node.parts]) (by simp [Node.parts]) htarget,
        hpart (by simp [Node.parts]) (by simp [Node.parts]) hvalue]
    | _ => cases hform
  | call t callee arguments =>
    cases e' with
    | call t' callee' arguments' =>
      obtain ⟨hcallee, hrest⟩ := List.forall₂_cons.1 h.fields
      obtain ⟨harguments, -⟩ := List.forall₂_cons.1 hrest
      rw [Expr.bare, Expr.bare, hpart (by simp [Node.parts]) (by simp [Node.parts]) hcallee,
        expressions_part ha hb (by simp +contextual [Node.parts]) (by simp +contextual [Node.parts]) harguments]
    | _ => cases hform
  | member t target name =>
    cases e' with
    | member t' target' name' =>
      obtain ⟨htarget, hrest⟩ := List.forall₂_cons.1 h.fields
      obtain ⟨hname, -⟩ := List.forall₂_cons.1 hrest
      rw [Expr.bare, Expr.bare, hpart (by simp [Node.parts]) (by simp [Node.parts]) htarget,
        kind_eq_of_alike (hnames name List.mem_cons_self) (hnames' name' List.mem_cons_self) hname]
    | _ => cases hform
  | index t target place =>
    cases e' with
    | index t' target' place' =>
      obtain ⟨htarget, hrest⟩ := List.forall₂_cons.1 h.fields
      obtain ⟨hplace, -⟩ := List.forall₂_cons.1 hrest
      rw [Expr.bare, Expr.bare, hpart (by simp [Node.parts]) (by simp [Node.parts]) htarget,
        hpart (by simp [Node.parts]) (by simp [Node.parts]) hplace]
    | _ => cases hform
  | list t elements =>
    cases e' with
    | list t' elements' =>
      obtain ⟨helements, -⟩ := List.forall₂_cons.1 h.fields
      rw [Expr.bare, Expr.bare,
        expressions_part ha hb (by simp [Node.parts]) (by simp [Node.parts]) helements]
    | _ => cases hform
  | cast t type operand =>
    cases e' with
    | cast t' type' operand' =>
      obtain ⟨htype, hrest⟩ := List.forall₂_cons.1 h.fields
      obtain ⟨hoperand, -⟩ := List.forall₂_cons.1 hrest
      rw [Expr.bare, Expr.bare, type_eq_of_alike htype,
        hpart (by simp [Node.parts]) (by simp [Node.parts]) hoperand]
    | _ => cases hform

/-- alike loop variables are the same -/
theorem counter_eq_of_alike {counter counter' : Option Param} (hnames : ∀ p ∈ counter, p.name.PlainName)
    (hnames' : ∀ p ∈ counter', p.name.PlainName)
    (htype : (Shape.optional (counter.map fun p => .word p.type.name)).Alike
      (.optional (counter'.map fun p => .word p.type.name)))
    (hname : (Shape.optional (counter.map fun p => .token p.name)).Alike
      (.optional (counter'.map fun p => .token p.name))) : counter.map Param.bare = counter'.map Param.bare := by
  have htypes : counter.map (·.type) = counter'.map (·.type) :=
    option_eq_of_alike htype (fun p => type_not_absent p.type) fun _ _ _ _ => type_eq_of_alike
  cases counter with
  | none =>
    cases counter' with
    | none => rfl
    | some p' => cases htypes
  | some p =>
    cases counter' with
    | none => cases htypes
    | some p' =>
      have hkind := kind_eq_of_alike (hnames p rfl) (hnames' p' rfl) hname
      have htype : p.type = p'.type := Option.some.inj htypes
      rw [Option.map_some, Option.map_some, Param.bare, Param.bare, htype, hkind]

/-- alike lists of parameters are the same -/
theorem params_eq_of_alike {params params' : List Param} (hnames : ∀ p ∈ params, p.name.PlainName)
    (hnames' : ∀ p ∈ params', p.name.PlainName)
    (htypes : (Shape.list (params.map fun p => .word p.type.name)).Alike
      (.list (params'.map fun p => .word p.type.name)))
    (hparams : (Shape.list (params.map fun p => .token p.name)).Alike
      (.list (params'.map fun p => .token p.name))) : params.map Param.bare = params'.map Param.bare := by
  have htypes : params.map (·.type) = params'.map (·.type) :=
    map_eq_of_alike htypes fun _ _ _ _ => type_eq_of_alike
  have hkinds : (params.map fun p => p.name.kind) = params'.map fun p => p.name.kind :=
    map_eq_of_alike hparams fun p hp p' hp' => kind_eq_of_alike (hnames p hp) (hnames' p' hp')
  have hpairs := congrArg (List.map fun pair => Param.mk pair.1 (.ofKind pair.2)) (map_pair_eq htypes hkinds)
  rwa [List.map_map, List.map_map] at hpairs

/-- an if statement whose parts are recognized is recognized -/
theorem branch_recognized {t t' : Token} {arms arms' : List (Expr × Stmt)} {otherwise otherwise' : Option Stmt}
    (ha : ∀ m ∈ (Node.statement (.branch t arms otherwise)).parts, m.Recognized)
    (hb : ∀ m ∈ (Node.statement (.branch t' arms' otherwise')).parts, m.Legible)
    (h : (Stmt.branch t arms otherwise).shape.Alike (Stmt.branch t' arms' otherwise').shape) :
    (Stmt.branch t arms otherwise).bare = (Stmt.branch t' arms' otherwise').bare := by
  obtain ⟨hconditions, hrest⟩ := List.forall₂_cons.1 h.fields
  obtain ⟨hbodies, hrest⟩ := List.forall₂_cons.1 hrest
  obtain ⟨helse, -⟩ := List.forall₂_cons.1 hrest
  dsimp only at hbodies helse
  rw [shapes_bodies, shapes_bodies] at hbodies
  rw [optionalShape_eq, optionalShape_eq] at helse
  have htests : arms.map (·.1.bare) = arms'.map (·.1.bare) := by
    refine map_eq_of_alike hconditions fun arm harm arm' harm' => expression_part ha hb ?_ ?_
    · exact List.mem_append_left _ (List.mem_append_left _ (List.mem_map_of_mem harm))
    · exact List.mem_append_left _ (List.mem_append_left _ (List.mem_map_of_mem harm'))
  have hblocks : arms.map (·.2.bare) = arms'.map (·.2.bare) := by
    refine map_eq_of_alike hbodies fun arm harm arm' harm' => statement_part ha hb ?_ ?_
    · exact List.mem_append_left _ (List.mem_append_right _ (List.mem_map_of_mem harm))
    · exact List.mem_append_left _ (List.mem_append_right _ (List.mem_map_of_mem harm'))
  have hlast : otherwise.map Stmt.bare = otherwise'.map Stmt.bare := by
    refine option_eq_of_alike helse (fun s => node_not_absent ?_) fun s hs s' hs' => statement_part ha hb ?_ ?_
    · exact isNode_statement s
    · exact List.mem_append_right _ (List.mem_map_of_mem (Option.mem_toList.2 hs))
    · exact List.mem_append_right _ (List.mem_map_of_mem (Option.mem_toList.2 hs'))
  rw [Stmt.bare, Stmt.bare, bareArms_eq_map, bareArms_eq_map, bareElse_eq, bareElse_eq, hlast]
  exact congrArg (Stmt.branch default · _) (map_pair_eq htests hblocks)

/-- a function whose body is recognized is recognized -/
theorem function_recognized {decl decl' : Function}
    (hnames : ∀ t ∈ (Node.statement (.fn decl)).nameTokens, t.PlainName)
    (ha : ∀ m ∈ (Node.statement (.fn decl)).parts, m.Recognized)
    (hnames' : ∀ t ∈ (Node.statement (.fn decl')).nameTokens, t.PlainName)
    (hb : ∀ m ∈ (Node.statement (.fn decl')).parts, m.Legible)
    (h : (Stmt.fn decl).shape.Alike (Stmt.fn decl').shape) : (Stmt.fn decl).bare = (Stmt.fn decl').bare := by
  obtain ⟨t, result, name, params, brace, body⟩ := decl
  obtain ⟨t', result', name', params', brace', body'⟩ := decl'
  obtain ⟨hresult, hrest⟩ := List.forall₂_cons.1 h.fields
  obtain ⟨hname, hrest⟩ := List.forall₂_cons.1 hrest
  obtain ⟨htypes, hrest⟩ := List.forall₂_cons.1 hrest
  obtain ⟨hparams, hrest⟩ := List.forall₂_cons.1 hrest
  obtain ⟨hblock, -⟩ := List.forall₂_cons.1 hrest
  have hkind := kind_eq_of_alike (hnames name List.mem_cons_self) (hnames' name' List.mem_cons_self) hname
  have hsignature : params.map Param.bare = params'.map Param.bare := params_eq_of_alike
    (fun p hp => hnames p.name (List.mem_cons_of_mem _ (List.mem_map_of_mem hp)))
    (fun p hp => hnames' p.name (List.mem_cons_of_mem _ (List.mem_map_of_mem hp))) htypes hparams
  have hbody : (Stmt.block brace body).bare = (Stmt.block brace' body').bare :=
    statement_part ha hb List.mem_cons_self List.mem_cons_self hblock
  rw [Stmt.bare, Stmt.bare, Stmt.block.injEq] at hbody
  rw [Stmt.bare, Stmt.bare, Function.bare, Function.bare, type_eq_of_alike hresult, hkind, hsignature, hbody.2]

/-- a statement whose parts are recognized is recognized -/
theorem recognized_statement {s s' : Stmt} (hnames : ∀ t ∈ (Node.statement s).nameTokens, t.PlainName)
    (ha : ∀ m ∈ (Node.statement s).parts, m.Recognized)
    (hnames' : ∀ t ∈ (Node.statement s').nameTokens, t.PlainName)
    (hb : ∀ m ∈ (Node.statement s').parts, m.Legible)
    (hform : (Node.statement s).form = (Node.statement s').form) (h : s.shape.Alike s'.shape) : s.bare = s'.bare := by
  have hexpr {m m' : Expr} (hm : .expression m ∈ (Node.statement s).parts)
      (hm' : .expression m' ∈ (Node.statement s').parts) := expression_part ha hb hm hm'
  have hstmt {m m' : Stmt} (hm : .statement m ∈ (Node.statement s).parts)
      (hm' : .statement m' ∈ (Node.statement s').parts) := statement_part ha hb hm hm'
  cases s with
  | branch t arms otherwise =>
    cases s' with
    | branch t' arms' otherwise' => exact branch_recognized ha hb h
    | _ => cases hform
  | loop t counter start condition increment body =>
    cases s' with
    | loop t' counter' start' condition' increment' body' =>
      obtain ⟨htype, hrest⟩ := List.forall₂_cons.1 h.fields
      obtain ⟨hname, hrest⟩ := List.forall₂_cons.1 hrest
      obtain ⟨hstart, hrest⟩ := List.forall₂_cons.1 hrest
      obtain ⟨hcondition, hrest⟩ := List.forall₂_cons.1 hrest
      obtain ⟨hincrement, hrest⟩ := List.forall₂_cons.1 hrest
      obtain ⟨hbody, -⟩ := List.forall₂_cons.1 hrest
      have hcounter := counter_eq_of_alike
        (fun p hp => hnames p.name (List.mem_map_of_mem (Option.mem_toList.2 hp)))
        (fun p hp => hnames' p.name (List.mem_map_of_mem (Option.mem_toList.2 hp))) htype hname
      rw [Stmt.bare, Stmt.bare, hcounter, hexpr (by simp [Node.parts]) (by simp [Node.parts]) hstart,
        hexpr (by simp [Node.parts]) (by simp [Node.parts]) hcondition,
        hexpr (by simp [Node.parts]) (by simp [Node.parts]) hincrement,
        hstmt (by simp [Node.parts]) (by simp [Node.parts]) hbody]
    | _ => cases hform
  | ret t value =>
    cases s' with
    | ret t' value' =>
      obtain ⟨hvalue, -⟩ := List.forall₂_cons.1 h.fields
      rw [Stmt.bare, Stmt.bare, hexpr (by simp [Node.parts]) (by simp [Node.parts]) hvalue]
    | _ => cases hform
  | block t body =>
    cases s' with
    | block t' body' =>
      obtain ⟨hbody, -⟩ := List.forall₂_cons.1 h.fields
      rw [Stmt.bare, Stmt.bare, statements_part ha hb (by simp [Node.parts]) (by simp [Node.parts]) hbody]
    | _ => cases hform
  | expr t e =>
    cases s' with
    | expr t' e' =>
      obtain ⟨hexpression, -⟩ := List.forall₂_cons.1 h.fields
      rw [Stmt.bare, Stmt.bare, hexpr (by simp [Node.parts]) (by simp [Node.parts]) hexpression]
    | _ => cases hform
  | var t type names start =>
    cases s' with
    | var t' type' names' start' =>
      obtain ⟨htype, hrest⟩ := List.forall₂_cons.1 h.fields
      obtain ⟨hlist, hrest⟩ := List.forall₂_cons.1 hrest
      obtain ⟨hstart, -⟩ := List.forall₂_cons.1 hrest
      have hvalue : start.map Expr.bare = start'.map Expr.bare := by
        refine option_eq_of_alike hstart (fun e => node_not_absent ?_) fun e he e' he' => hexpr ?_ ?_
        · exact isNode_expression e
        · exact List.mem_map_of_mem (Option.mem_toList.2 he)
        · exact List.mem_map_of_mem (Option.mem_toList.2 he')
      have hspelled : (names.map fun name => Token.ofKind name.kind) = names'.map fun name => .ofKind name.kind :=
        names_eq_of_alike hnames hnames' hlist
      rw [Stmt.bare, Stmt.bare, type_eq_of_alike htype, hspelled, hvalue]
    | _ => cases hform
  | fn decl =>
    cases s' with
    | fn decl' => exact function_recognized hnames ha hnames' hb h
    | _ => cases hform

/-- every legible node is recognized -/
theorem Node.Legible.recognized {a : Node} (h : a.Legible) : a.Recognized := by
  induction h with
  | @intro a hnames hparts ih =>
    intro b hb halike
    have hnode : a.shape.IsNode := (Legible.intro hnames hparts).fits.1
    -- the label tells which constructors are to be compared
    have hform : a.form = b.form := by
      apply NodeForm.label_injective
      rw [← label_shape, ← label_shape, halike.label_eq hnode]
    cases a with
    | program script =>
      cases b with
      | program script' =>
        obtain ⟨hstatements, -⟩ := List.forall₂_cons.1 halike.fields
        have hsame : Stmt.bareAll script = Stmt.bareAll script' := statements_part ih hb.parts
          (fun s hs => List.mem_map_of_mem hs) (fun s hs => List.mem_map_of_mem hs) hstatements
        rw [bare, bare, hsame]
      | statement s' => cases s' <;> cases hform
      | expression e' => cases e' <;> cases hform
    | statement s =>
      cases b with
      | program script' => cases s <;> cases hform
      | statement s' => exact congrArg statement (recognized_statement hnames ih hb.names hb.parts hform halike)
      | expression e' => cases s <;> cases e' <;> cases hform
    | expression e =>
      cases b with
      | program script' => cases e <;> cases hform
      | statement s' => cases e <;> cases s' <;> cases hform
      | expression e' => exact congrArg expression (recognized_expression hnames ih hb.names hb.parts hform halike)

/-- **An outline determines its tree.** Two nodes that the parser has made, each of a text of its own, are the same up
to the places of their tokens if both have an outline and the outlines are one text: of one kind, with the same
operators, types, names and literals, and with parts that are the same, in lists of the same length. -/
theorem outline_determines_tree {source source' : String} {file file' : Option String} {tokens tokens' : List Token}
    (htokens : tokenize source file = .ok tokens) (htokens' : tokenize source' file' = .ok tokens') {a b : Node}
    (ha : a.ParsedFrom tokens) (hb : b.ParsedFrom tokens') {indent : Nat} {text : String}
    (houtline : a.shape.outlineText indent = .ok text) (houtline' : b.shape.outlineText indent = .ok text) :
    a.bare = b.bare := by
  have hlegible := ha.legible htokens
  have hlegible' := hb.legible htokens'
  obtain ⟨hnode, hfits⟩ := hlegible.fits
  obtain ⟨hnode', hfits'⟩ := hlegible'.fits
  have halike : a.shape.Alike b.shape := Shape.alike_of_outlineText hfits hfits' hnode hnode' houtline houtline'
  exact hlegible.recognized b hlegible' halike

/-- the outline of the script that a text is, if there is one -/
def outlineOf? (source : String) : Option String := do
  let tokens ← (tokenize source).toOption
  let script ← (parse tokens).toOption
  (programShape script).outlineText.toOption

theorem eq_ok_of_toOption {ε α : Type} {c : Except ε α} {a : α} (h : c.toOption = some a) : c = .ok a := by
  cases c with
  | error => cases h
  | ok => exact congrArg Except.ok (Option.some.inj h)

theorem outlineOf?_eq_some {source text : String} (h : outlineOf? source = some text) :
    ∃ tokens script, tokenize source = .ok tokens ∧ parse tokens = .ok script ∧
      (programShape script).outlineText = .ok text := by
  obtain ⟨tokens, htokens, h⟩ := Option.bind_eq_some_iff.1 h
  obtain ⟨script, hscript, h⟩ := Option.bind_eq_some_iff.1 h
  exact ⟨tokens, script, eq_ok_of_toOption htokens, eq_ok_of_toOption hscript, eq_ok_of_toOption h⟩

/-- two texts of one call have one outline, and one tree but for the places -/
theorem outline_determines_tree_call :
    ∃ tokens tokens' script script' text, tokenize "f(x, y);" = .ok tokens ∧ tokenize "f (x,y) ;" = .ok tokens' ∧
      parse tokens = .ok script ∧ parse tokens' = .ok script' ∧ (programShape script).outlineText = .ok text ∧
      (programShape script').outlineText = .ok text ∧ Stmt.bareAll script = Stmt.bareAll script' := by
  have hsome : (outlineOf? "f(x, y);").isSome = true := by decide +kernel
  have hsame : outlineOf? "f (x,y) ;" = outlineOf? "f(x, y);" := by decide +kernel
  obtain ⟨text, htext⟩ := Option.isSome_iff_exists.1 hsome
  obtain ⟨tokens, script, htokens, hscript, houtline⟩ := outlineOf?_eq_some htext
  obtain ⟨tokens', script', htokens', hscript', houtline'⟩ := outlineOf?_eq_some (hsame.trans htext)
  have htree := outline_determines_tree htokens htokens' (.program hscript) (.program hscript') houtline houtline'
  exact ⟨tokens, tokens', script, script', text, htokens, htokens', hscript, hscript', houtline, houtline',
    Node.program.inj htree⟩

end LevelScript.Syntax
