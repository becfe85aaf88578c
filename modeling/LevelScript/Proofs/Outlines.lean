/-
An outline determines the shape that it shows.

The lines of a node are those of its fields in order, and its form says which fields these are and what each may hold.
So a reader of the lines always knows what comes next: the line of a field tells whether a node stands below it, and a
list ends with a bracket two columns to the left of its items. `outline_determined`: the outline of a node is over where
it is over, whatever lines follow, and it is the outline of one shape only, up to tokens and to the ways of coming by
one text (`Shape.Alike`). As no line holds a line feed, the same goes for the text that the lines are joined to
(`Shape.alike_of_outlineText`).
-/
import Mathlib.Tactic
import LevelScript.Proofs.Attempts
import LevelScript.Syntax.Shape

namespace LevelScript.Syntax

/-! ## Shapes of the language -/

/-- what stands on the line of a field or an item -/
def Shape.Inline : Shape → Prop
  | .node .. | .list _ => False
  | .token _ | .word _ | .int _ | .float _ | .string _ | .absent => True

/-- a node, which has lines of its own -/
def Shape.IsNode : Shape → Prop
  | .node .. => True
  | .list _ | .token _ | .word _ | .int _ | .float _ | .string _ | .absent => False

/-- what a field may hold: a node or what stands on its line, a list of nodes, or a list of lines -/
inductive FieldKind where
  | single
  | nodes
  | lines
  deriving DecidableEq

def FieldKind.Holds : FieldKind → Shape → Prop
  | .single, s => s.IsNode ∨ s.Inline
  | .nodes, s => ∃ items, s = .list items ∧ ∀ item ∈ items, item.IsNode
  | .lines, s => ∃ items, s = .list items ∧ ∀ item ∈ items, item.Inline

inductive NodeForm where
  | program
  | branch
  | loop
  | ret
  | block
  | statement
  | var
  | fn
  | int
  | float
  | string
  | symbol
  | binary
  | assign
  | call
  | member
  | index
  | list
  | cast
  deriving DecidableEq

def NodeForm.label : NodeForm → String
  | .program => "Program"
  | .branch => "IfStatement"
  | .loop => "ForStatement"
  | .ret => "ReturnStatement"
  | .block => "Block"
  | .statement => "ExpressionStatement"
  | .var => "VarDecl"
  | .fn => "FnDecl"
  | .int => "IntLiteral"
  | .float => "FloatLiteral"
  | .string => "StringLiteral"
  | .symbol => "Symbol"
  | .binary => "BinaryOp"
  | .assign => "Assignment"
  | .call => "Call"
  | .member => "MemberAccess"
  | .index => "ArrayAccess"
  | .list => "ArrayDecl"
  | .cast => "Cast"

/-- the fields of a kind of nodes in order, with what they may hold -/
def NodeForm.fields : NodeForm → List (String × FieldKind)
  | .program | .block => [("statements", .nodes)]
  | .branch => [("conditions", .nodes), ("bodies", .nodes), ("else_body", .single)]
  | .loop => [("decl_type", .single), ("decl_symbol", .single), ("init", .single), ("condition", .single),
      ("increment", .single), ("body", .single)]
  | .ret | .int | .float | .string => [("value", .single)]
  | .statement => [("expression", .single)]
  | .var => [("var_type", .single), ("names", .lines), ("initializer", .single)]
  | .fn => [("return_type", .single), ("name_token", .single), ("param_types", .lines), ("param_names", .lines),
      ("body", .single)]
  | .symbol => [("name", .single)]
  | .binary => [("left", .single), ("operator", .single), ("right", .single)]
  | .assign => [("target", .single), ("value", .single)]
  | .call => [("callee", .single), ("arguments", .nodes)]
  | .member => [("target", .single), ("member", .single)]
  | .index => [("target", .single), ("index", .single)]
  | .list => [("elements", .nodes)]
  | .cast => [("target_type", .single), ("operand", .single)]

def NodeForm.all : List NodeForm :=
  [.program, .branch, .loop, .ret, .block, .statement, .var, .fn, .int, .float, .string, .symbol, .binary, .assign,
    .call, .member, .index, .list, .cast]

theorem NodeForm.mem_all (form : NodeForm) : form ∈ all := by
  cases form <;> decide

theorem NodeForm.label_injective : Function.Injective label := by
  have hnodup : (all.map label).Nodup := by decide
  intro form form' h
  exact List.inj_on_of_nodup_map hnodup form.mem_all form'.mem_all h

/-- labels and names of fields are words -/
theorem NodeForm.lineFeed_not_mem (form : NodeForm) :
    '\n' ∉ form.label.toList ∧ ∀ field ∈ form.fields, '\n' ∉ field.1.toList := by
  cases form <;> decide

/-- a shape of nodes with the fields of their kinds, whose texts stand on one line each -/
inductive Shape.Fits : Shape → Prop
  | inline {s : Shape} : s.Inline → (∀ text, s.inlineText = .ok text → '\n' ∉ text.toList) → Fits s
  | list {items : List Shape} : (∀ item ∈ items, item.Fits) → Fits (.list items)
  | node (form : NodeForm) {token : Token} {fields : List (String × Shape)} :
      List.Forall₂ (fun f k => f.1 = k.1 ∧ k.2.Holds f.2) fields form.fields → (∀ f ∈ fields, f.2.Fits) →
      Fits (.node form.label token fields)

/-- shapes with one structure and one text for everything that stands on a line -/
inductive Shape.Alike : Shape → Shape → Prop
  | inline {a b : Shape} {text : String} : a.Inline → b.Inline → a.inlineText = .ok text → b.inlineText = .ok text →
      Alike a b
  | list {items items' : List Shape} : List.Forall₂ Alike items items' → Alike (.list items) (.list items')
  | node {label : String} {token token' : Token} {fields fields' : List (String × Shape)} :
      fields.map (·.1) = fields'.map (·.1) → List.Forall₂ Alike (fields.map (·.2)) (fields'.map (·.2)) →
      Alike (.node label token fields) (.node label token' fields')

/-! ## Lines -/

theorem outlineLine_injective {indent : Nat} {text text' : String}
    (h : outlineLine indent text = outlineLine indent text') : text = text' := by
  rw [outlineLine, outlineLine] at h
  exact (String.append_right_inj _).1 h

/-- a line two steps further in is a line that starts with four blanks -/
theorem outlineLine_deeper (indent : Nat) (text : String) :
    outlineLine (indent + 2) text = outlineLine indent ("    " ++ text) := by
  have hblanks : "    " = String.ofList (List.replicate 4 ' ') := rfl
  rw [outlineLine, outlineLine, ← String.append_assoc, hblanks, ← String.ofList_append, List.replicate_append_replicate]
  rfl

theorem lineFeed_not_mem_outlineLine {indent : Nat} {text : String} (h : '\n' ∉ text.toList) :
    '\n' ∉ (outlineLine indent text).toList := by
  rw [outlineLine, String.toList_append, String.toList_ofList, List.mem_append]
  rintro (hblank | htext)
  · exact absurd (List.eq_of_mem_replicate hblank) (by decide)
  · exact h htext

/-- the line of a field with a text is no line of a field with a node below it -/
theorem text_line_ne_node_line (name text : String) : "  " ++ name ++ ": " ++ text ≠ "  " ++ name ++ ":" := by
  intro h
  have hchars := congrArg String.toList h
  simp [String.toList_append] at hchars

/-- the end of a list is no item of it -/
theorem item_line_ne_end (text : String) : "    " ++ text ≠ "  ]" := by
  intro h
  have hchars := congrArg String.toList h
  simp [String.toList_append] at hchars

/-! ## Outlines of fields and items -/

def Shape.itemLines (depth indent : Nat) (item : Shape) : Except HostError (List String) :=
  match item with
  | .node .. => item.outline depth (indent + 2)
  | _ => do return [outlineLine indent ("    " ++ (← item.inlineText))]

def Shape.fieldLines (depth indent : Nat) (field : String × Shape) : Except HostError (List String) :=
  match field.2 with
  | .node .. => return outlineLine indent ("  " ++ field.1 ++ ":") :: (← field.2.outline depth (indent + 2))
  | .list items => do
    let inner ← items.mapM (itemLines depth indent)
    return outlineLine indent ("  " ++ field.1 ++ ": [") :: inner.flatten ++ [outlineLine indent "  ]"]
  | _ => return [outlineLine indent ("  " ++ field.1 ++ ": " ++ (← field.2.inlineText))]

theorem Shape.outline_node (depth indent : Nat) (label : String) (token : Token) (fields : List (String × Shape)) :
    (Shape.node label token fields).outline (depth + 1) indent = (do
      let parts ← fields.mapM (fieldLines depth indent)
      return outlineLine indent label :: parts.flatten) := by
  rw [outline]
  rfl

section Lines

variable {depth indent : Nat} {s : Shape} {name : String} {lines : List String}

theorem Shape.Inline.not_isNode (h : s.Inline) : ¬ s.IsNode := by
  cases s <;> simp_all [Inline, IsNode]

theorem Shape.itemLines_node (hs : s.IsNode) : s.itemLines depth indent = s.outline depth (indent + 2) := by
  cases s with
  | node => rfl
  | _ => cases hs

theorem Shape.itemLines_inline (hs : s.Inline) (h : s.itemLines depth indent = .ok lines) :
    ∃ text, s.inlineText = .ok text ∧ lines = [outlineLine indent ("    " ++ text)] := by
  cases s with
  | node | list => cases hs
  | _ => exact eq_ok_of_return h

theorem Shape.fieldLines_node (hs : s.IsNode) (h : fieldLines depth indent (name, s) = .ok lines) :
    ∃ inner, s.outline depth (indent + 2) = .ok inner ∧
      lines = outlineLine indent ("  " ++ name ++ ":") :: inner := by
  cases s with
  | node => exact eq_ok_of_return h
  | _ => cases hs

theorem Shape.fieldLines_inline (hs : s.Inline) (h : fieldLines depth indent (name, s) = .ok lines) :
    ∃ text, s.inlineText = .ok text ∧ lines = [outlineLine indent ("  " ++ name ++ ": " ++ text)] := by
  cases s with
  | node | list => cases hs
  | _ => exact eq_ok_of_return h

theorem Shape.fieldLines_list {items : List Shape} (h : fieldLines depth indent (name, .list items) = .ok lines) :
    ∃ inner, List.Forall₂ (fun item own => item.itemLines depth indent = .ok own) items inner ∧
      lines = outlineLine indent ("  " ++ name ++ ": [") :: (inner.flatten ++ [outlineLine indent "  ]"]) := by
  obtain ⟨inner, hinner, rfl⟩ := eq_ok_of_return (c := items.mapM (itemLines depth indent)) h
  exact ⟨inner, mapM_eq_ok.1 hinner, rfl⟩

/-- the outline of a node has its label first -/
theorem Shape.outline_label {label : String} {token : Token} {fields : List (String × Shape)}
    (h : (Shape.node label token fields).outline (depth + 1) indent = .ok lines) :
    ∃ parts, List.Forall₂ (fun field own => fieldLines depth indent field = .ok own) fields parts ∧
      lines = outlineLine indent label :: parts.flatten := by
  rw [outline_node] at h
  obtain ⟨parts, hparts, rfl⟩ := eq_ok_of_return h
  exact ⟨parts, mapM_eq_ok.1 hparts, rfl⟩

end Lines

/-! ## What comes next -/

/-- outlines of the given depth are over where they are over: nodes with one outline, whatever lines follow, are alike,
and the same lines follow -/
def Determined (depth : Nat) : Prop :=
  ∀ {depth' indent : Nat} {a b : Shape} {own own' rest rest' : List String}, a.Fits → b.Fits → a.IsNode → b.IsNode →
    a.outline depth indent = .ok own → b.outline depth' indent = .ok own' → own ++ rest = own' ++ rest' →
    a.Alike b ∧ rest = rest'

section Prefix

variable {depth depth' indent : Nat} {a b : Shape} {own own' rest rest' : List String}

def ItemKind (K : Shape → Prop) : Prop := K = Shape.IsNode ∨ K = Shape.Inline

variable {K : Shape → Prop}

theorem item_determined (ih : Determined depth) (ha : a.Fits) (hb : b.Fits) (hK : ItemKind K) (hkind : K a)
    (hkind' : K b) (hown : a.itemLines depth indent = .ok own) (hown' : b.itemLines depth' indent = .ok own')
    (h : own ++ rest = own' ++ rest') : a.Alike b ∧ rest = rest' := by
  rcases hK with rfl | rfl
  · rw [Shape.itemLines_node hkind] at hown
    rw [Shape.itemLines_node hkind'] at hown'
    exact ih ha hb hkind hkind' hown hown' h
  · obtain ⟨text, htext, rfl⟩ := Shape.itemLines_inline hkind hown
    obtain ⟨text', htext', rfl⟩ := Shape.itemLines_inline hkind' hown'
    obtain ⟨hline, hrest⟩ := List.cons.inj h
    obtain rfl := (String.append_right_inj _).1 (outlineLine_injective hline)
    exact ⟨.inline hkind hkind' htext htext', hrest⟩

/-- an item starts with four blanks, and so not with the end of its list -/
theorem Shape.itemLines_first (hK : ItemKind K) (ha : K a) (hown : a.itemLines depth indent = .ok own) :
    ∃ line more, own = line :: more ∧ line ≠ outlineLine indent "  ]" := by
  suffices ∃ text more, own = outlineLine indent ("    " ++ text) :: more by
    obtain ⟨text, more, rfl⟩ := this
    exact ⟨_, more, rfl, fun h => item_line_ne_end text (outlineLine_injective h)⟩
  rcases hK with rfl | rfl
  · rw [itemLines_node ha] at hown
    cases a with
    | node label token fields =>
      cases depth with
      | zero => cases hown
      | succ depth =>
        obtain ⟨parts, -, rfl⟩ := outline_label hown
        exact ⟨label, _, by rw [outlineLine_deeper]⟩
    | _ => cases ha
  · obtain ⟨text, -, rfl⟩ := itemLines_inline ha hown
    exact ⟨text, [], rfl⟩

theorem items_determined (ih : Determined depth) (hK : ItemKind K) {items items' : List Shape}
    {parts parts' : List (List String)} (hfits : ∀ item ∈ items, item.Fits) (hfits' : ∀ item ∈ items', item.Fits)
    (hkind : ∀ item ∈ items, K item) (hkind' : ∀ item ∈ items', K item)
    (hparts : List.Forall₂ (fun item own => item.itemLines depth indent = .ok own) items parts)
    (hparts' : List.Forall₂ (fun item own => item.itemLines depth' indent = .ok own) items' parts')
    (h : parts.flatten ++ outlineLine indent "  ]" :: rest = parts'.flatten ++ outlineLine indent "  ]" :: rest') :
    List.Forall₂ Shape.Alike items items' ∧ rest = rest' := by
  induction hparts generalizing items' parts' with
  | nil =>
    cases hparts' with
    | nil => exact ⟨.nil, (List.cons.inj h).2⟩
    | cons hown' _ =>
      obtain ⟨line, more, rfl, hline⟩ := Shape.itemLines_first hK (hkind' _ List.mem_cons_self) hown'
      exact absurd (List.cons.inj h).1.symm hline
  | cons hown _ ihItems =>
    rw [List.forall_mem_cons] at hfits hkind
    cases hparts' with
    | nil =>
      obtain ⟨line, more, rfl, hline⟩ := Shape.itemLines_first hK hkind.1 hown
      exact absurd (List.cons.inj h).1 hline
    | cons hown' hothers' =>
      rw [List.flatten_cons, List.flatten_cons, List.append_assoc, List.append_assoc] at h
      rw [List.forall_mem_cons] at hfits' hkind'
      obtain ⟨halike, hrest⟩ := item_determined ih hfits.1 hfits'.1 hK hkind.1 hkind'.1 hown hown' h
      obtain ⟨hothers, hbehind⟩ := ihItems hfits.2 hfits'.2 hkind.2 hkind'.2 hothers' hrest
      exact ⟨.cons halike hothers, hbehind⟩

theorem Shape.Fits.items {items : List Shape} (h : (Shape.list items).Fits) : ∀ item ∈ items, item.Fits := by
  cases h with
  | inline hinline => cases hinline
  | list hitems => exact hitems

/-- lists of one kind -/
theorem lists_determined (ih : Determined depth) (hK : ItemKind K) {name : String} {items items' : List Shape}
    (hfits : (Shape.list items).Fits) (hfits' : (Shape.list items').Fits) (hkind : ∀ item ∈ items, K item)
    (hkind' : ∀ item ∈ items', K item) (hown : Shape.fieldLines depth indent (name, .list items) = .ok own)
    (hown' : Shape.fieldLines depth' indent (name, .list items') = .ok own') (h : own ++ rest = own' ++ rest') :
    (Shape.list items).Alike (.list items') ∧ rest = rest' := by
  obtain ⟨parts, hparts, rfl⟩ := Shape.fieldLines_list hown
  obtain ⟨parts', hparts', rfl⟩ := Shape.fieldLines_list hown'
  simp only [List.cons_append, List.append_assoc, List.nil_append] at h
  obtain ⟨hitems, hrest⟩ :=
    items_determined ih hK hfits.items hfits'.items hkind hkind' hparts hparts' (List.cons.inj h).2
  exact ⟨.list hitems, hrest⟩

/-- a field of a known name and kind -/
theorem field_determined (ih : Determined depth) {name : String} {kind : FieldKind} (ha : a.Fits) (hb : b.Fits)
    (hkind : kind.Holds a) (hkind' : kind.Holds b) (hown : Shape.fieldLines depth indent (name, a) = .ok own)
    (hown' : Shape.fieldLines depth' indent (name, b) = .ok own') (h : own ++ rest = own' ++ rest') :
    a.Alike b ∧ rest = rest' := by
  cases kind with
  | single =>
    rcases hkind with hnode | hinline <;> rcases hkind' with hnode' | hinline'
    · obtain ⟨inner, hinner, rfl⟩ := Shape.fieldLines_node hnode hown
      obtain ⟨inner', hinner', rfl⟩ := Shape.fieldLines_node hnode' hown'
      exact ih ha hb hnode hnode' hinner hinner' (List.cons.inj h).2
    · obtain ⟨inner, -, rfl⟩ := Shape.fieldLines_node hnode hown
      obtain ⟨text, -, rfl⟩ := Shape.fieldLines_inline hinline' hown'
      exact absurd (outlineLine_injective (List.cons.inj h).1).symm (text_line_ne_node_line name text)
    · obtain ⟨text, -, rfl⟩ := Shape.fieldLines_inline hinline hown
      obtain ⟨inner, -, rfl⟩ := Shape.fieldLines_node hnode' hown'
      exact absurd (outlineLine_injective (List.cons.inj h).1) (text_line_ne_node_line name text)
    · obtain ⟨text, htext, rfl⟩ := Shape.fieldLines_inline hinline hown
      obtain ⟨text', htext', rfl⟩ := Shape.fieldLines_inline hinline' hown'
      obtain ⟨hline, hrest⟩ := List.cons.inj h
      obtain rfl := (String.append_right_inj _).1 (outlineLine_injective hline)
      exact ⟨.inline hinline hinline' htext htext', hrest⟩
  | nodes =>
    obtain ⟨items, rfl, hitems⟩ := hkind
    obtain ⟨items', rfl, hitems'⟩ := hkind'
    exact lists_determined ih (.inl rfl) ha hb hitems hitems' hown hown' h
  | lines =>
    obtain ⟨items, rfl, hitems⟩ := hkind
    obtain ⟨items', rfl, hitems'⟩ := hkind'
    exact lists_determined ih (.inr rfl) ha hb hitems hitems' hown hown' h

theorem fields_determined (ih : Determined depth) {fields fields' : List (String × Shape)}
    {kinds : List (String × FieldKind)} {parts parts' : List (List String)}
    (hfits : ∀ f ∈ fields, f.2.Fits) (hfits' : ∀ f ∈ fields', f.2.Fits)
    (hkinds : List.Forall₂ (fun f k => f.1 = k.1 ∧ k.2.Holds f.2) fields kinds)
    (hkinds' : List.Forall₂ (fun f k => f.1 = k.1 ∧ k.2.Holds f.2) fields' kinds)
    (hparts : List.Forall₂ (fun field own => Shape.fieldLines depth indent field = .ok own) fields parts)
    (hparts' : List.Forall₂ (fun field own => Shape.fieldLines depth' indent field = .ok own) fields' parts')
    (h : parts.flatten ++ rest = parts'.flatten ++ rest') :
    (fields.map (·.1) = fields'.map (·.1) ∧ List.Forall₂ Shape.Alike (fields.map (·.2)) (fields'.map (·.2))) ∧
      rest = rest' := by
  induction hkinds generalizing fields' parts parts' with
  | nil =>
    cases hkinds'
    cases hparts
    cases hparts'
    exact ⟨⟨rfl, .nil⟩, h⟩
  | @cons f k _ _ hfirst _ ihFields =>
    cases hkinds' with
    | @cons f' _ _ _ hfirst' hkinds' =>
      cases hparts with
      | cons hown hparts =>
        cases hparts' with
        | cons hown' hparts' =>
          rw [List.flatten_cons, List.flatten_cons, List.append_assoc, List.append_assoc] at h
          rw [List.forall_mem_cons] at hfits hfits'
          obtain ⟨name, a⟩ := f
          obtain ⟨name', b⟩ := f'
          obtain rfl : name = name' := hfirst.1.trans hfirst'.1.symm
          obtain ⟨halike, hrest⟩ := field_determined ih hfits.1 hfits'.1 hfirst.2 hfirst'.2 hown hown' h
          obtain ⟨⟨hnames, hothers⟩, hbehind⟩ := ihFields hfits.2 hfits'.2 hkinds' hparts hparts' hrest
          exact ⟨⟨congrArg (name :: ·) hnames, .cons halike hothers⟩, hbehind⟩

/-- the outline of a node is over where it is over, and nodes with one outline are alike -/
theorem outline_determined (depth : Nat) : Determined depth := by
  induction depth with
  | zero =>
    intro depth' indent a b own own' rest rest' _ _ _ _ hown
    cases hown
  | succ depth ih =>
    intro depth' indent a b own own' rest rest' ha hb hnode hnode' hown hown' h
    cases ha with
    | inline hinline => exact absurd hnode hinline.not_isNode
    | list => cases hnode
    | node form hkinds hfits =>
      cases hb with
      | inline hinline => exact absurd hnode' hinline.not_isNode
      | list => cases hnode'
      | node form' hkinds' hfits' =>
        cases depth' with
        | zero => cases hown'
        | succ depth' =>
          obtain ⟨parts, hparts, rfl⟩ := Shape.outline_label hown
          obtain ⟨parts', hparts', rfl⟩ := Shape.outline_label hown'
          obtain ⟨hline, hlines⟩ := List.cons.inj h
          obtain rfl := NodeForm.label_injective (outlineLine_injective hline)
          obtain ⟨hfields, hrest⟩ := fields_determined ih hfits hfits' hkinds hkinds' hparts hparts' hlines
          exact ⟨.node hfields.1 hfields.2, hrest⟩

end Prefix

/-! ## Texts of outlines -/

/-- no line feed in any of the lines -/
def OneLineEach (lines : List String) : Prop := ∀ line ∈ lines, '\n' ∉ line.toList

/-- an outline of the given depth is a list of lines -/
def Lined (depth : Nat) : Prop :=
  ∀ {indent : Nat} {s : Shape} {own : List String}, s.Fits → s.IsNode → s.outline depth indent = .ok own →
    OneLineEach own

section Texts

variable {depth indent : Nat} {s : Shape} {own : List String}

theorem Shape.Fits.text (h : s.Fits) (hs : s.Inline) {text : String} (htext : s.inlineText = .ok text) :
    '\n' ∉ text.toList := by
  cases h with
  | inline _ hline => exact hline text htext
  | list | node => cases hs

theorem oneLineEach_cons {line : String} {lines : List String} :
    OneLineEach (line :: lines) ↔ '\n' ∉ line.toList ∧ OneLineEach lines :=
  List.forall_mem_cons

theorem OneLineEach.flatten {parts : List (List String)} (h : ∀ part ∈ parts, OneLineEach part) :
    OneLineEach parts.flatten := by
  intro line hline
  obtain ⟨part, hpart, hmem⟩ := List.mem_flatten.1 hline
  exact h part hpart line hmem

theorem item_lined (ih : Lined depth) {K : Shape → Prop} (hK : ItemKind K) (hfits : s.Fits) (hs : K s)
    (hown : s.itemLines depth indent = .ok own) : OneLineEach own := by
  rcases hK with rfl | rfl
  · rw [Shape.itemLines_node hs] at hown
    exact ih hfits hs hown
  · obtain ⟨text, htext, rfl⟩ := Shape.itemLines_inline hs hown
    refine oneLineEach_cons.2 ⟨lineFeed_not_mem_outlineLine ?_, List.forall_mem_nil _⟩
    simp [String.toList_append, hfits.text hs htext]

theorem list_lined (ih : Lined depth) {K : Shape → Prop} (hK : ItemKind K) {name : String} (hname : '\n' ∉ name.toList)
    {items : List Shape} (hfits : (Shape.list items).Fits) (hitems : ∀ item ∈ items, K item)
    (hown : Shape.fieldLines depth indent (name, .list items) = .ok own) : OneLineEach own := by
  obtain ⟨parts, hparts, rfl⟩ := Shape.fieldLines_list hown
  refine oneLineEach_cons.2 ⟨lineFeed_not_mem_outlineLine (by simp [String.toList_append, hname]), ?_⟩
  refine List.forall_mem_append.2 ⟨OneLineEach.flatten fun part hpart => ?_,
    List.forall_mem_singleton.2 (lineFeed_not_mem_outlineLine (by decide))⟩
  obtain ⟨item, hitem, hlines⟩ := counterpart hparts.flip hpart
  exact item_lined ih hK (hfits.items item hitem) (hitems item hitem) hlines

theorem field_lined (ih : Lined depth) {name : String} (hname : '\n' ∉ name.toList) {kind : FieldKind} (hfits : s.Fits)
    (hs : kind.Holds s) (hown : Shape.fieldLines depth indent (name, s) = .ok own) : OneLineEach own := by
  cases kind with
  | single =>
    rcases hs with hnode | hinline
    · obtain ⟨inner, hinner, rfl⟩ := Shape.fieldLines_node hnode hown
      exact oneLineEach_cons.2 ⟨lineFeed_not_mem_outlineLine (by simp [String.toList_append, hname]),
        ih hfits hnode hinner⟩
    · obtain ⟨text, htext, rfl⟩ := Shape.fieldLines_inline hinline hown
      refine oneLineEach_cons.2 ⟨lineFeed_not_mem_outlineLine ?_, List.forall_mem_nil _⟩
      simp [String.toList_append, hname, hfits.text hinline htext]
  | nodes =>
    obtain ⟨items, rfl, hitems⟩ := hs
    exact list_lined ih (.inl rfl) hname hfits hitems hown
  | lines =>
    obtain ⟨items, rfl, hitems⟩ := hs
    exact list_lined ih (.inr rfl) hname hfits hitems hown

theorem outline_lined (depth : Nat) : Lined depth := by
  induction depth with
  | zero =>
    intro indent s own _ _ hown
    cases hown
  | succ depth ih =>
    intro indent s own hs hnode hown
    cases hs with
    | inline hinline => exact absurd hnode hinline.not_isNode
    | list => cases hnode
    | node form hkinds hfits =>
      obtain ⟨hlabel, hnames⟩ := form.lineFeed_not_mem
      obtain ⟨parts, hparts, rfl⟩ := Shape.outline_label hown
      refine oneLineEach_cons.2 ⟨lineFeed_not_mem_outlineLine hlabel, OneLineEach.flatten fun part hpart => ?_⟩
      obtain ⟨⟨name, field⟩, hmem, hlines⟩ := counterpart hparts.flip hpart
      obtain ⟨kind, hkind, rfl, hholds⟩ := counterpart hkinds hmem
      exact field_lined ih (hnames kind hkind) (hfits _ hmem) hholds hlines

theorem Shape.outline_ne_nil (hs : s.IsNode) (hown : s.outline depth indent = .ok own) : own ≠ [] := by
  cases s with
  | node label token fields =>
    cases depth with
    | zero => cases hown
    | succ depth =>
      obtain ⟨parts, -, rfl⟩ := outline_label hown
      exact List.cons_ne_nil _ _
  | _ => cases hs

/-- lines are read off the text that they are joined to -/
theorem intercalate_injective {lines lines' : List String} (hne : lines ≠ []) (hne' : lines' ≠ [])
    (hlines : OneLineEach lines) (hlines' : OneLineEach lines')
    (h : "\n".intercalate lines = "\n".intercalate lines') : lines = lines' := by
  have hsplit {lines : List String} (hne : lines ≠ []) (hlines : OneLineEach lines) :
      ("\n".intercalate lines).toList.splitOn '\n' = lines.map String.toList := by
    rw [String.toList_intercalate]
    exact List.splitOn_intercalate '\n' (by simpa [OneLineEach] using hlines) (by simpa using hne)
  have hmap := hsplit hne hlines
  rw [h, hsplit hne' hlines'] at hmap
  exact (List.map_injective_iff.2 fun _ _ => String.toList_inj.1) hmap.symm

/-- nodes whose outlines are one text are alike -/
theorem Shape.alike_of_outlineText {a b : Shape} (ha : a.Fits) (hb : b.Fits) (hnode : a.IsNode) (hnode' : b.IsNode)
    {text : String} (h : a.outlineText indent = .ok text) (h' : b.outlineText indent = .ok text) : a.Alike b := by
  obtain ⟨lines, hown, rfl⟩ := eq_ok_of_return h
  obtain ⟨lines', hown', htext⟩ := eq_ok_of_return h'
  obtain rfl := intercalate_injective (outline_ne_nil hnode hown) (outline_ne_nil hnode' hown')
    (outline_lined _ ha hnode hown) (outline_lined _ hb hnode' hown') htext
  exact (outline_determined _ ha hb hnode hnode' hown hown' (rfl : lines ++ [] = lines ++ [])).1

end Texts

end LevelScript.Syntax
