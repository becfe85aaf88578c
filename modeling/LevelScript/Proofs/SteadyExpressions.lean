/-
Expressions that call nothing and assign nothing mean the same when they are evaluated again.

All that evaluating such an expression does is to make lists and strings, so the second evaluation makes its own. It
starts from a heap in which the first one's lists stand behind the ones there were at the start: the lists that it makes
are those of the first evaluation, moved by a distance. In between, lists may have grown; that shows only where the
length of a list is asked for.

`Heap` numbers lists, so a number that was given to no list must not occur: `State.Closed`, which all runs keep
(`closed_eval`). The invariant of the two evaluations is `Tracks`; `eval_again` carries it through the expressions by
induction on the depth.
-/
import LevelScript.Proofs.PlainValues
import LevelScript.Proofs.Slots

namespace LevelScript

open LevelScript.Syntax Eval

/-- an expression that calls nothing and assigns nothing; if it asks for the length of a list, `lengths` holds -/
inductive Syntax.Expr.Steady (lengths : Prop) : Expr → Prop where
  | int {token : Token} {n : Nat} : Steady lengths (.int token n)
  | float {token : Token} {x : Float} : Steady lengths (.float token x)
  | string {token : Token} {text : String} : Steady lengths (.string token text)
  | symbol {token : Token} {name : String} : Steady lengths (.symbol token name)
  | binary {token : Token} {left right : Expr} {op : Operator} :
      Steady lengths left → Steady lengths right → Steady lengths (.binary token left op right)
  | member {token name : Token} {target : Expr} :
      (name.name = "length" → lengths) → Steady lengths target → Steady lengths (.member token target name)
  | index {token : Token} {target place : Expr} :
      Steady lengths target → Steady lengths place → Steady lengths (.index token target place)
  | list {token : Token} {elements : List Expr} :
      (∀ e ∈ elements, Steady lengths e) → Steady lengths (.list token elements)
  | cast {token : Token} {ty : Ty} {operand : Expr} : Steady lengths operand → Steady lengths (.cast token ty operand)

/-! ## What such an expression does to the state -/

/-- lists have been added; the lists that were there and the environment are the same -/
structure Appends (s t : State) : Prop where
  env : t.env = s.env
  size : s.heap.cells.size ≤ t.heap.cells.size
  items : ∀ a < s.heap.cells.size, t.heap.items a = s.heap.items a

instance : IsPreorder State Appends where
  refl _ := ⟨rfl, le_rfl, fun _ _ => rfl⟩
  trans _ _ _ h k := ⟨k.env.trans h.env, h.size.trans k.size,
    fun a ha => (k.items a (ha.trans_le h.size)).trans (h.items a ha)⟩

theorem appends_newString (text : String) : Keeps Appends (newString text) :=
  fun _ => ⟨rfl, le_rfl, fun _ _ => rfl⟩

theorem appends_newList (items : Array Val) : Keeps Appends (newList items) := by
  intro s
  refine ⟨rfl, ?_, fun a ha => ?_⟩
  · exact (Nat.le_succ _).trans_eq (s.heap.size_insert items).symm
  · exact (s.heap.items_insert items a).trans (if_neg ha.ne)

theorem appends_eval (setting : Setting) {lengths : Prop} (depth : Nat) {e : Expr} (h : e.Steady lengths) :
    Keeps Appends (eval setting depth e) := by
  induction depth generalizing e with
  | zero => exact keeps_throw _
  | succ depth ih =>
    cases h with
    | int => exact keeps_pure _
    | float => exact keeps_pure _
    | string => exact appends_newString _
    | symbol =>
      refine (keeps_lookup _).bind fun found => ?_
      cases found with
      | none => exact keeps_fail _ _
      | some v => exact keeps_pure v
    | binary hl hr => exact (ih hl).bind fun a => (ih hr).bind fun b => keeps_ofExcept _
    | member _ ht => exact (ih ht).bind fun v => keeps_readMember _ _ _
    | index ht hp =>
      refine (ih ht).bind fun v => ?_
      split
      · exact (ih hp).bind fun i => keeps_readItem _ _ _
      · exact keeps_fail _ _
    | list he =>
      exact (keeps_mapM fun e hmem => ih (he e hmem)).bind fun vs => appends_newList _
    | cast ho => exact (ih ho).bind fun v => keeps_ofExcept _

/-- lists have been added, and lists that were there may have grown; nothing else has changed -/
structure Grows (s t : State) : Prop where
  env : t.env = s.env
  size : s.heap.cells.size ≤ t.heap.cells.size
  items : ∀ a < s.heap.cells.size, ∀ (i : Nat) (v : Val), (s.heap.items a)[i]? = some v → (t.heap.items a)[i]? = some v

theorem Appends.grows {s t : State} (h : Appends s t) : Grows s t :=
  ⟨h.env, h.size, fun a ha i v hv => by rwa [h.items a ha]⟩

theorem Grows.trans {s t u : State} (h : Grows s t) (k : Grows t u) : Grows s u where
  env := k.env.trans h.env
  size := h.size.trans k.size
  items a ha i v hv := k.items a (ha.trans_le h.size) i v (h.items a ha i v hv)

/-! ## Moving lists -/

/-- the address of a list after those from `n` on have moved by `k` -/
def movedTo (n k a : Nat) : Nat := if a < n then a else a + k

namespace Val

/-- a value after the lists from address `n` on have moved by `k` -/
def moved (n k : Nat) : Val → Val
  | .list a => .list (movedTo n k a)
  | v => v

/-- if the value is a list, it is one of the first ones -/
def Within (size : Nat) : Val → Prop
  | .list a => a < size
  | _ => True

theorem Within.mono {size size' : Nat} {v : Val} (h : v.Within size) (hle : size ≤ size') : v.Within size' := by
  cases v with
  | list a => exact Nat.lt_of_lt_of_le h hle
  | _ => trivial

theorem within_of_type {v : Val} (h : v.type ≠ .list) (size : Nat) : v.Within size := by
  cases v with
  | list a => exact absurd rfl h
  | _ => trivial

variable {n k : Nat} {v w : Val}

@[simp] theorem type_moved (n k : Nat) (v : Val) : (v.moved n k).type = v.type := by
  cases v <;> rfl

theorem Within.moved_eq (h : v.Within n) : v.moved n k = v := by
  cases v with
  | list a => exact congrArg Val.list (if_pos h)
  | _ => rfl

theorem moved_of_type (h : v.type ≠ .list) : v.moved n k = v :=
  (within_of_type h n).moved_eq

theorem cast_moved {ty : Ty} {span : Option Span} (h : v.cast ty span = .ok w) :
    (v.moved n k).cast ty span = .ok (w.moved n k) := by
  rcases cast_cases h with rfl | ⟨hv, hw⟩
  · have hty : (w.moved n k).type = ty := (type_moved n k w).trans (cast_type h)
    unfold cast
    rw [if_pos hty]
  · rw [moved_of_type hv.type_ne_list, moved_of_type hw.type_ne_list]
    exact h

theorem Within.cast {size : Nat} {ty : Ty} {span : Option Span} (hv : v.Within size) (h : v.cast ty span = .ok w) :
    w.Within size := by
  rcases cast_cases h with rfl | ⟨-, hw⟩
  · exact hv
  · exact within_of_type hw.type_ne_list size

end Val

/-- no list refers to a list that has not been made -/
def Heap.Intact (h : Heap) : Prop := ∀ a, ∀ v ∈ h.items a, v.Within h.cells.size

theorem Heap.Intact.insert {h : Heap} (hh : h.Intact) {values : Array Val} (hv : ∀ v ∈ values, v.Within h.cells.size) :
    (h.insert values).2.Intact := by
  intro a v hmem
  rw [Heap.size_insert]
  rw [Heap.items_insert] at hmem
  split_ifs at hmem
  · exact (hv v hmem).mono (Nat.le_succ _)
  · exact (hh a v hmem).mono (Nat.le_succ _)

/-! ## Operators do not take lists -/

theorem apply_list_left (op : Operator) (address : Nat) (b : Val) (span : Span) :
    op.apply (.list address) b span = .error (.at (.operandTypes op .list b.type) span) := by
  cases op <;> cases b <;> rfl

theorem apply_list_right (op : Operator) (a : Val) (address : Nat) (span : Span) :
    op.apply a (.list address) span = .error (.at (.operandTypes op a.type .list) span) := by
  cases op <;> cases a <;> rfl

theorem apply_moved (op : Operator) (n k : Nat) (a b : Val) (span : Span) :
    op.apply (a.moved n k) (b.moved n k) span = op.apply a b span := by
  by_cases ha : a.type = .list
  · cases a <;> cases ha
    rw [Val.moved, apply_list_left, apply_list_left, Val.type_moved]
  · rw [Val.moved_of_type ha]
    by_cases hb : b.type = .list
    · cases b <;> cases hb
      rw [Val.moved, apply_list_right, apply_list_right]
    · rw [Val.moved_of_type hb]

/-! ## Two evaluations -/

/-- every list that a name means or a list holds has been made -/
structure State.Closed (s : State) : Prop where
  bound : ∀ name v, s.env.lookup? name = some v → v.Within s.heap.cells.size
  stored : ∀ a, ∀ v ∈ s.heap.items a, v.Within s.heap.cells.size

/-- the state `t` of the second evaluation has all that the state `s` of the first one has, with the lists that the
first one has made, those from address `n` on, moved by `k`; a list may have grown, unless lengths are asked for -/
structure Tracks (lengths : Prop) (n k : Nat) (s t : State) : Prop where
  env : t.env = s.env
  bound : ∀ name v, s.env.lookup? name = some v → v.Within n
  start : n ≤ s.heap.cells.size
  size : t.heap.cells.size = s.heap.cells.size + k
  stored : ∀ a, ∀ v ∈ s.heap.items a, v.Within s.heap.cells.size
  items : ∀ a < s.heap.cells.size, ∀ (i : Nat) (v : Val), (s.heap.items a)[i]? = some v →
    (t.heap.items (movedTo n k a))[i]? = some (v.moved n k)
  sizes : lengths → ∀ a < s.heap.cells.size, (t.heap.items (movedTo n k a)).size = (s.heap.items a).size

/-- a state that has grown is one that a second evaluation can start from -/
theorem State.Closed.tracks {lengths : Prop} {s t : State} (hs : s.Closed) (h : Grows s t)
    (hsizes : lengths → ∀ a < s.heap.cells.size, (t.heap.items a).size = (s.heap.items a).size) :
    Tracks lengths s.heap.cells.size (t.heap.cells.size - s.heap.cells.size) s t := by
  have hstays {a k : Nat} (ha : a < s.heap.cells.size) : movedTo s.heap.cells.size k a = a := if_pos ha
  refine ⟨h.env, hs.bound, le_rfl, ?_, hs.stored, ?_, ?_⟩
  · exact (Nat.add_sub_of_le h.size).symm
  · intro a ha i v hv
    rw [hstays ha, (hs.stored a v (Array.mem_of_getElem? hv)).moved_eq]
    exact h.items a ha i v hv
  · intro hlengths a ha
    rw [hstays ha]
    exact hsizes hlengths a ha

section

variable {lengths : Prop} {n k : Nat} {α β : Type}

/-- from a state with at least `least` lists, the second computation gives the value of the first one, with its lists
moved -/
def Again (lengths : Prop) (n k : Nat) (move : α → α) (within : Nat → α → Prop) (least : Nat) (c d : Eval α) : Prop :=
  ∀ s t a s', Tracks lengths n k s t → least ≤ s.heap.cells.size → c s = (.ok a, s') →
    ∃ t', d t = (.ok (move a), t') ∧ Tracks lengths n k s' t' ∧ least ≤ s'.heap.cells.size ∧
      within s'.heap.cells.size a

variable {move : α → α} {within : Nat → α → Prop} {move' : β → β} {within' : Nat → β → Prop} {least : Nat}

theorem Again.bind {c d : Eval α} {f g : α → Eval β} (h : Again lengths n k move within least c d)
    (hf : ∀ size a, least ≤ size → within size a → Again lengths n k move' within' size (f a) (g (move a))) :
    Again lengths n k move' within' least (c >>= f) (d >>= g) := by
  intro s t b u htrack hleast hrun
  obtain ⟨a, s', ha, hb⟩ := bind_eq_ok hrun
  obtain ⟨t', hd, htrack', hleast', hwithin⟩ := h s t a s' htrack hleast ha
  obtain ⟨t'', hg, htrack'', hsize, hwithin'⟩ := hf _ a hleast' hwithin s' t' b u htrack' le_rfl hb
  exact ⟨t'', (run_bind_ok hd g).trans hg, htrack'', hleast'.trans hsize, hwithin'⟩

theorem again_pure {a b : α} (hmove : b = move a) (hwithin : ∀ size, least ≤ size → within size a) :
    Again lengths n k move within least (pure a) (pure b) := by
  intro s t a' s' htrack hleast hrun
  cases hrun
  exact ⟨t, hmove ▸ rfl, htrack, hleast, hwithin _ hleast⟩

theorem again_fail {cause : Cause} {span : Span} {d : Eval α} :
    Again lengths n k move within least (fail cause span) d := by
  intro s t a s' _ _ hrun
  cases hrun

theorem again_ofExcept {r r' : Except Interrupt α} (h : ∀ a, r = .ok a → r' = .ok (move a))
    (hwithin : ∀ a, r = .ok a → ∀ size, least ≤ size → within size a) :
    Again lengths n k move within least (Eval.ofExcept r) (Eval.ofExcept r') := by
  intro s t a s' htrack hleast hrun
  cases hrun
  exact ⟨t, by rw [run_ofExcept, h a rfl], htrack, hleast, hwithin a rfl _ hleast⟩

end

/-- the second evaluation gives the value of the first one, with its lists moved -/
abbrev AgainVal (lengths : Prop) (n k least : Nat) (c d : Eval Val) : Prop :=
  Again lengths n k (Val.moved n k) Val.Within least c d

section

variable {lengths : Prop} {n k least : Nat}

theorem again_lookup (name : String) :
    Again lengths n k (Option.map (Val.moved n k)) (fun size found => ∀ v, found = some v → v.Within size) least
      (lookup? name) (lookup? name) := by
  intro s t found s' htrack hleast hrun
  cases hrun
  refine ⟨t, ?_, htrack, hleast, fun v hv => (htrack.bound name v hv).mono htrack.start⟩
  have hsame : (s.env.lookup? name).map (Val.moved n k) = s.env.lookup? name := by
    rcases hfound : s.env.lookup? name with _ | v
    · rfl
    · exact congrArg some (htrack.bound name v hfound).moved_eq
  rw [hsame, ← htrack.env]
  rfl

theorem again_newString (text : String) : AgainVal lengths n k least (newString text) (newString text) := by
  intro s t v s' htrack hleast hrun
  cases hrun
  exact ⟨_, rfl, ⟨htrack.env, htrack.bound, htrack.start, htrack.size, htrack.stored, htrack.items, htrack.sizes⟩,
    hleast, trivial⟩

theorem movedTo_lt {a size : Nat} (ha : a < size) (hn : n ≤ size) : movedTo n k a < size + k := by
  unfold movedTo
  split_ifs <;> omega

/-- after the same list has been added on both sides, with its items moved -/
theorem Tracks.insert {s t s' t' : State} {values : Array Val} (h : Tracks lengths n k s t)
    (hwithin : ∀ v ∈ values, v.Within s.heap.cells.size) (hsenv : s'.env = s.env) (htenv : t'.env = t.env)
    (hs : s'.heap = (s.heap.insert values).2) (ht : t'.heap = (t.heap.insert (values.map (Val.moved n k))).2) :
    Tracks lengths n k s' t' := by
  have hnew : movedTo n k s.heap.cells.size = t.heap.cells.size := by
    rw [movedTo, if_neg (Nat.not_lt.2 h.start), h.size]
  have hold {a : Nat} (ha : a < s.heap.cells.size) : movedTo n k a ≠ t.heap.cells.size :=
    (h.size ▸ movedTo_lt ha h.start).ne
  have hsize : s'.heap.cells.size = s.heap.cells.size + 1 := by rw [hs, Heap.size_insert]
  have hcases {a : Nat} (ha : a < s'.heap.cells.size) :
      (s'.heap.items a = values ∧ t'.heap.items (movedTo n k a) = values.map (Val.moved n k)) ∨
        a < s.heap.cells.size ∧ s'.heap.items a = s.heap.items a ∧
          t'.heap.items (movedTo n k a) = t.heap.items (movedTo n k a) := by
    rw [hs, ht, Heap.items_insert, Heap.items_insert]
    rcases Nat.lt_succ_iff_lt_or_eq.1 (hsize ▸ ha) with hlt | rfl
    · exact .inr ⟨hlt, if_neg hlt.ne, if_neg (hold hlt)⟩
    · exact .inl ⟨if_pos rfl, if_pos hnew⟩
  refine ⟨htenv.trans (h.env.trans hsenv.symm), hsenv ▸ h.bound, ?_, ?_, ?_, ?_, ?_⟩
  · rw [hsize]
    exact h.start.trans (Nat.le_succ _)
  · rw [ht, Heap.size_insert, h.size, hsize]
    omega
  · rw [hs]
    exact Heap.Intact.insert h.stored hwithin
  · intro a ha i v hv
    rcases hcases ha with ⟨hsa, hta⟩ | ⟨hlt, hsa, hta⟩
    · rw [hsa] at hv
      rw [hta, Array.getElem?_map, hv, Option.map_some]
    · rw [hsa] at hv
      rw [hta]
      exact h.items a hlt i v hv
  · intro hlengths a ha
    rcases hcases ha with ⟨hsa, hta⟩ | ⟨hlt, hsa, hta⟩
    · rw [hsa, hta, Array.size_map]
    · rw [hsa, hta]
      exact h.sizes hlengths a hlt

/-- the list that the second evaluation makes is the one that the first evaluation makes, moved -/
theorem again_newList {values : List Val} (hwithin : ∀ v ∈ values, v.Within least) :
    AgainVal lengths n k least (newList values.toArray) (newList (values.map (Val.moved n k)).toArray) := by
  intro s t v s' htrack hleast hrun
  cases hrun
  have hnew : movedTo n k s.heap.cells.size = t.heap.cells.size := by
    rw [movedTo, if_neg (Nat.not_lt.2 htrack.start), htrack.size]
  have hsize : s.heap.cells.size < (s.heap.insert values.toArray).2.cells.size := by simp
  refine ⟨_, congrArg (fun a => (Except.ok (Val.list a), _)) hnew.symm, ?_, hleast.trans hsize.le, hsize⟩
  refine htrack.insert (fun v hv => (hwithin v (by simpa using hv)).mono hleast) rfl rfl rfl ?_
  rw [List.map_toArray]
  rfl

theorem again_readMember {v : Val} {name : Token} (span : Span) (hlength : name.name = "length" → lengths)
    (hv : v.Within least) :
    AgainVal lengths n k least (readMember v name span) (readMember (v.moved n k) name span) := by
  cases v with
  | list a =>
    simp only [Val.moved, readMember]
    split_ifs with hname
    · intro s t w s' htrack hleast hrun
      cases hrun
      have hsizes := htrack.sizes (hlength hname) a (Nat.lt_of_lt_of_le hv hleast)
      refine ⟨t, ?_, htrack, hleast, trivial⟩
      change (Except.ok (Val.int (t.heap.items (movedTo n k a)).size), t) = _
      rw [hsizes]
      rfl
    · exact again_fail
  | vec2 x y =>
    simp only [Val.moved, readMember]
    split
    · exact again_pure rfl fun _ _ => trivial
    · exact again_fail
  | vec3 x y z =>
    simp only [Val.moved, readMember]
    split
    · exact again_pure rfl fun _ _ => trivial
    · exact again_fail
  | _ => exact again_fail

theorem again_readItem {a : Nat} {index : Val} (span : Span) (ha : a < least) :
    AgainVal lengths n k least (readItem a index span) (readItem (movedTo n k a) (index.moved n k) span) := by
  intro s t v s' htrack hleast hrun
  obtain ⟨m, hm, hpos, hv, rfl⟩ := readItem_eq_ok.1 hrun
  have hlt : a < s'.heap.cells.size := Nat.lt_of_lt_of_le ha hleast
  have hindex : (index.moved n k).cast .int span = .ok (.int m) := Val.cast_moved hm
  have hmoved := htrack.items a hlt m.toNat v hv
  have hread : readItem (movedTo n k a) (index.moved n k) span t = (.ok (v.moved n k), t) :=
    readItem_eq_ok.2 ⟨m, hindex, hpos, hmoved, rfl⟩
  exact ⟨t, hread, htrack, hleast, htrack.stored a v (Array.mem_of_getElem? hv)⟩

theorem again_mapM {f : Expr → Eval Val} {l : List Expr}
    (hf : ∀ e ∈ l, ∀ least, AgainVal lengths n k least (f e) (f e)) (least : Nat) :
    Again lengths n k (List.map (Val.moved n k)) (fun size vs => ∀ v ∈ vs, v.Within size) least (l.mapM f)
      (l.mapM f) := by
  induction l generalizing least with
  | nil => exact again_pure rfl (by simp)
  | cons e l ih =>
    rw [List.mapM_cons]
    refine (hf e List.mem_cons_self least).bind fun size v hsize hv => ?_
    refine (ih (fun e he => hf e (List.mem_cons_of_mem _ he)) size).bind fun size' vs hsize' hvs => ?_
    refine again_pure rfl fun size'' hsize'' w hw => ?_
    rcases List.mem_cons.1 hw with rfl | hw
    · exact hv.mono (hsize'.trans hsize'')
    · exact (hvs w hw).mono hsize''

/-- **The same again.** An expression that calls nothing and assigns nothing gives the same value when it is evaluated
again, up to the lists that it makes itself, in a state that has all that the first one had. -/
theorem eval_again (setting : Setting) (depth : Nat) {e : Expr} (h : e.Steady lengths) (least : Nat) :
    AgainVal lengths n k least (eval setting depth e) (eval setting depth e) := by
  induction depth generalizing e least with
  | zero => exact fun _ _ _ _ _ _ hrun => nomatch hrun
  | succ depth ih =>
    cases h with
    | int => exact again_pure rfl fun _ _ => trivial
    | float => exact again_pure rfl fun _ _ => trivial
    | string => exact again_newString _
    | symbol =>
      refine (again_lookup _).bind fun size found _ hfound => ?_
      cases found with
      | none => exact again_fail
      | some v => exact again_pure rfl fun _ hsize => (hfound v rfl).mono hsize
    | @binary token left right op hl hr =>
      refine (ih hl least).bind fun size a _ _ => (ih hr size).bind fun size' b _ _ => ?_
      refine again_ofExcept (fun v hv => ?_) fun v hv size'' _ => Val.within_of_type (plain_apply hv).type_ne_list _
      rw [apply_moved, Val.moved_of_type (plain_apply hv).type_ne_list, hv]
    | member hlength ht =>
      exact (ih ht least).bind fun size v _ hv => again_readMember _ hlength hv
    | @index token target place ht hp =>
      refine (ih ht least).bind fun size v _ hv => ?_
      cases v with
      | list a =>
        refine (ih hp size).bind fun size' i hsize' _ => ?_
        exact again_readItem _ (Nat.lt_of_lt_of_le hv hsize')
      | _ => exact again_fail
    | list he =>
      exact (again_mapM (fun e hmem least => ih (he e hmem) least) least).bind fun size vs _ hvs => again_newList hvs
    | cast ho =>
      refine (ih ho least).bind fun size v _ hv => ?_
      exact again_ofExcept (fun w hw => Val.cast_moved hw) fun w hw size' hsize' => (hv.cast hw).mono hsize'

end

end LevelScript
