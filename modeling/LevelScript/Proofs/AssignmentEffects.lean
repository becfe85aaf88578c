/-
What an assignment that succeeds has changed.

Its value, and the list and the index in its target, are evaluated and only make lists. Then one slot is written:
`Denotes` says which one the target means, `Written` what the state is afterwards, and `Stores` which value the slot gets
and which one the assignment itself comes to. A slot is a binding or an item of a list, whatever names and items refer to
that list; an item that the list has not had yet is new, as are the zeros in front of it. Vectors are values: a new
component in one slot leaves every other slot that holds the same vector as it is.

`assignment_writes_one_slot` puts the three together for every target, every intact state and every way in which lists
are shared. The states from which the loads and calls of a workspace assign are intact (`assignments_start_intact`).
-/
import LevelScript.Proofs.FailedAssignments
import LevelScript.Proofs.IntactRuns

namespace LevelScript

open LevelScript.Syntax Eval

/-! ## Slots -/

/-- the environment `f` is `e` with the innermost binding of a name changed from one value to another; the frames further
out, and all other bindings, are the same -/
inductive Env.Rebinds (name : String) (old new : Val) (e f : Env) : Prop
  | mk {outer inner : List Frame} {g g' : Frame} :
      e.frames = outer ++ g :: inner → f.frames = outer ++ g' :: inner → (∀ k ∈ inner, k.binds name = false) →
      g.get? name = some old → g'.name = g.name → g'.names = g.names →
      (∀ x, g'.get? x = if x = name then some new else g.get? x) → Rebinds name old new e f

/-- the items of a list with a value at a place, which may lie behind the end; the list then gets zeros up to there -/
structure Filled (before : Array Val) (place : Nat) (v : Val) (after : Array Val) : Prop where
  size : after.size = max before.size (place + 1)
  item : after[place]? = some v
  others : ∀ i < before.size, i ≠ place → after[i]? = before[i]?
  zeros : ∀ i, before.size ≤ i → i < place → after[i]? = some (.int 0)

/-- the states before and after one slot is written: it held the value `old` and holds the value `new`, and all else is
the same. A slot that is new held the zero that it would have got as a part of the list -/
inductive Written (t u : State) : Slot → Val → Val → Prop
  | binding {name : String} {old new : Val} {env : Env} :
      t.env.Rebinds name old new env → u = { t with env := env } → Written t u (.binding name) old new
  | item {a place : Nat} {new : Val} {items : Array Val} {heap : Heap} : a < t.heap.cells.size →
      Filled (t.heap.items a) place new items → heap.cells.size = t.heap.cells.size →
      (∀ b, heap.items b = if b = a then items else t.heap.items b) → u = { t with heap := heap } →
      Written t u (.item a place) ((t.heap.items a)[place]?.getD (.int 0)) new

/-- the slot that a target means in the state `s`, and the state in which its list and its index have been evaluated -/
inductive Denotes (setting : Setting) : Nat → Expr → State → Slot → State → Prop
  | symbol {depth : Nat} {token : Token} {name : String} {s : State} :
      Denotes setting (depth + 1) (.symbol token name) s (.binding name) s
  | item {depth : Nat} {token : Token} {owner index : Expr} {a : Nat} {m : Int} {i : Val} {s t u : State} :
      eval setting depth owner s = (.ok (.list a), t) → eval setting depth index t = (.ok i, u) →
      i.cast .int index.span = .ok (.int m) → 0 ≤ m → m ≤ maxListIndex →
      Denotes setting (depth + 1) (.index token owner index) s (.item a m.toNat) u
  | member {depth : Nat} {token name : Token} {owner : Expr} {slot : Slot} {s t : State} :
      Denotes setting depth owner s slot t → Denotes setting (depth + 1) (.member token owner name) s slot t

/-- a vector with another number as one of its components -/
structure Val.Differs (old : Val) (place : Nat) (c : Float) (new : Val) : Prop where
  type : new.type = old.type
  component : new.component? place = some c
  others : ∀ i ≠ place, new.component? i = old.component? i

/-- what an assignment of the value `v` to a target puts in the place of the value `old` of the slot, and the value that
the assignment comes to: a name keeps the type of its value, an item takes any value, and a member changes one
component -/
inductive Stores (v : Val) (span : Span) : Expr → Val → Val → Val → Prop
  | symbol {token : Token} {name : String} {old new : Val} : v.cast old.type span = .ok new →
      Stores v span (.symbol token name) old new new
  | item {token : Token} {owner index : Expr} {old : Val} : Stores v span (.index token owner index) old v v
  | member {token name : Token} {owner : Expr} {old new : Val} {place : Nat} {c : Float} :
      v.cast .float span = .ok (.float c) → componentIndex? old.type name.name = some place →
      old.Differs place c new → Stores v span (.member token owner name) old new (.float c)

/-! ## Writing a slot -/

theorem Env.rebinds_assign {e : Env} {name : String} {old : Val} (h : e.lookup? name = some old) (new : Val) :
    e.Rebinds name old new (e.assign name new) := by
  have hnames {g : Frame} (hg : g.get? name = some old) : (g.set name new).names = g.names := by
    rw [Frame.names_set, if_pos (Frame.binds_of_get? hg)]
  rcases assignIn?_cases name new e.locals with ⟨hfree, hnone⟩ | ⟨inner, g, outer, hlocals, hfree, hbinds, hsome⟩
  · have hglobal : e.globals.get? name = some old := by
      have hskip := findSome?_of_free hfree []
      rw [List.append_nil] at hskip
      rwa [lookup?, hskip] at h
    have hassign : (e.assign name new).frames = e.globals.set name new :: e.locals.reverse := by
      rw [assign, hnone, frames]
    have hinner (k : Frame) (hk : k ∈ e.locals.reverse) : k.binds name = false := hfree k (List.mem_reverse.1 hk)
    have hframes : e.frames = [] ++ e.globals :: e.locals.reverse := rfl
    exact .mk hframes hassign hinner hglobal rfl (hnames hglobal) (e.globals.get?_set name new)
  · have hg : g.get? name = some old := by
      rw [lookup?, hlocals, findSome?_of_free hfree, List.findSome?_cons] at h
      rcases hg : g.get? name with _ | w
      · rw [Frame.binds_eq_isSome, hg] at hbinds
        cases hbinds
      · rw [hg] at h
        exact h
    have hframes (k : Frame) :
        e.globals :: (inner ++ k :: outer).reverse = (e.globals :: outer.reverse) ++ k :: inner.reverse := by
      simp
    have hinner (k : Frame) (hk : k ∈ inner.reverse) : k.binds name = false := hfree k (List.mem_reverse.1 hk)
    have hbefore : e.frames = (e.globals :: outer.reverse) ++ g :: inner.reverse := by
      rw [frames, hlocals, hframes]
    have hafter : (e.assign name new).frames = (e.globals :: outer.reverse) ++ g.set name new :: inner.reverse := by
      rw [assign, hsome, frames, hframes]
    exact .mk hbefore hafter hinner hg rfl (hnames hg) (g.get?_set name new)

/-- a list that has grown to hold a place gets a value there -/
theorem filled_grown (before : Array Val) (place : Nat) (v : Val) :
    Filled before place v ((grown place before).setIfInBounds place v) := by
  have hsize : (grown place before).size = max before.size (place + 1) := by
    rw [grown, Array.size_append, Array.size_replicate]
    omega
  refine ⟨?_, ?_, ?_, ?_⟩
  · rw [Array.size_setIfInBounds, hsize]
  · rw [Array.getElem?_setIfInBounds_self_of_lt (lt_size_grown place before)]
  · intro i hi hne
    rw [Array.getElem?_setIfInBounds_ne hne.symm, grown, Array.getElem?_append_left hi]
  · intro i hi hlt
    have hgap : i - before.size < place + 1 - before.size := by omega
    rw [Array.getElem?_setIfInBounds_ne hlt.ne', grown, Array.getElem?_append_right hi, Array.getElem?_replicate,
      if_pos hgap]

/-- what a list holds at a place when it has grown to hold it -/
theorem getElem?_grown_self (before : Array Val) (place : Nat) :
    (grown place before)[place]? = some (before[place]?.getD (.int 0)) := by
  rcases hitem : before[place]? with _ | w
  · have hle : before.size ≤ place := Array.getElem?_eq_none_iff.1 hitem
    have hgap : place - before.size < place + 1 - before.size := by omega
    rw [grown, Array.getElem?_append_right hle, Array.getElem?_replicate, if_pos hgap]
    rfl
  · exact getElem?_grown place hitem

/-- a slot of the state `t`, and the state in which it is there -/
inductive Taken (t : State) : Slot → State → Prop
  | binding {name : String} {old : Val} : t.env.lookup? name = some old → Taken t (.binding name) t
  | item {a place : Nat} : a < t.heap.cells.size →
      Taken t (.item a place) { t with heap := t.heap.modify a (grown place) }

/-- **One slot is written.** A slot that has been taken holds a value, and a new one in its place changes that slot
only. -/
theorem Taken.written {t t' u : State} {slot : Slot} (h : Taken t slot t') {old new : Val}
    (hget : slot.get t' = (.ok old, t')) (hset : slot.set new t' = (.ok (), u)) : Written t u slot old new := by
  cases h with
  | @binding name found hfound =>
    have hlookup : lookup? name t = (.ok (some found), t) := congrArg (fun found => (Except.ok found, t)) hfound
    have hold : (Slot.binding name).get t = (.ok found, t) := run_bind_ok hlookup _
    rw [hold] at hget
    cases hget
    cases hset
    exact .binding (Env.rebinds_assign hfound new) rfl
  | @item a place ha =>
    have hitems (b : Nat) : (t.heap.modify a (grown place)).items b =
        if b = a then grown place (t.heap.items b) else t.heap.items b := by
      rw [Heap.items_modify]
      by_cases hb : a = b
      · rw [if_pos ⟨hb, hb ▸ ha⟩, if_pos hb.symm]
      · rw [if_neg fun h => hb h.1, if_neg (Ne.symm hb)]
    have hold : old = (t.heap.items a)[place]?.getD (.int 0) := by
      have hread : (Slot.item a place).get { t with heap := t.heap.modify a (grown place) } =
          (.ok (((t.heap.modify a (grown place)).items a)[place]?.getD .void),
            { t with heap := t.heap.modify a (grown place) }) := rfl
      rw [hread, hitems, if_pos rfl, getElem?_grown_self] at hget
      cases hget
      rfl
    subst hold
    cases hset
    refine .item ha (filled_grown _ place new) ?_ ?_ rfl
    · rw [Heap.size_modify, Heap.size_modify]
    · intro b
      rw [Heap.items_modify, Heap.size_modify, hitems]
      by_cases hb : a = b
      · rw [if_pos ⟨hb, hb ▸ ha⟩, if_pos hb.symm, if_pos hb.symm, hb]
      · rw [if_neg fun h => hb h.1, if_neg (Ne.symm hb), if_neg (Ne.symm hb)]

/-! ## Finding the slot -/

section Finding

variable {setting : Setting} {n depth : Nat} {target : Expr} {s t' : State} {slot : Slot}

/-- a target that is resolved, with a list and an index whose evaluation only makes lists, means a slot -/
theorem denotes_of_resolve (hs : setting.Intact) (hstate : s.Intact n) (hparts : QuietParts setting depth target s)
    (h : resolve setting depth target s = (.ok slot, t')) :
    ∃ t, Denotes setting depth target s slot t ∧ Appends s t ∧ Taken t slot t' := by
  induction depth generalizing target with
  | zero => cases h
  | succ depth ih =>
    cases target with
    | symbol token name =>
      rw [resolve] at h
      rw [run_bind_ok (m := lookup? name) rfl] at h
      split_ifs at h with hbound
      · cases h
        obtain ⟨old, hold⟩ := Option.isSome_iff_exists.1 hbound
        exact ⟨s, .symbol, refl s, .binding hold⟩
      · cases h
    | member token owner name =>
      obtain ⟨t, hdenotes, happends, htaken⟩ := ih hparts h
      exact ⟨t, .member hdenotes, happends, htaken⟩
    | index token owner index =>
      obtain ⟨v, t, i, u, hv, hst, hi, htu⟩ := hparts
      rw [resolve] at h
      rw [run_bind_ok hv] at h
      cases v with
      | list a =>
        dsimp only at h
        rw [run_bind_ok hi] at h
        obtain ⟨m, hm, hpos, hlarge, rfl, rfl⟩ := growSlot_eq_ok h
        have hmade : a < t.heap.cells.size := by
          have hvalue := (((intactness hs).run depth).eval owner n n le_rfl s hstate).2
          rw [hv] at hvalue
          exact hvalue _ rfl
        have hindex : m ≤ maxListIndex := by omega
        exact ⟨u, .item hv hi hm hpos hindex, trans_of Appends hst htu, .item (hmade.trans_le htu.size)⟩
      | _ => cases h
    | _ => cases h

end Finding

/-! ## Storing the value -/

theorem differs_setComponent {v : Val} {member : String} {place : Nat} (h : componentIndex? v.type member = some place)
    (c : Float) : v.Differs place c (v.setComponent place c) := by
  refine ⟨v.type_setComponent place c, ?_, ?_⟩
  · rcases type_of_componentIndex h with ⟨hv, hplace⟩ | ⟨hv, hplace⟩
    · cases v <;> cases hv
      interval_cases place <;> rfl
    · cases v <;> cases hv
      interval_cases place <;> rfl
  · intro i hi
    rcases type_of_componentIndex h with ⟨hv, hplace⟩ | ⟨hv, hplace⟩
    · cases v <;> cases hv
      interval_cases place <;> rcases i with _ | _ | i <;> first | rfl | exact absurd rfl hi
    · cases v <;> cases hv
      interval_cases place <;> rcases i with _ | _ | _ | i <;> first | rfl | exact absurd rfl hi

/-- a store that succeeds puts one new value in the slot -/
theorem stores_of_store {setting : Setting} {depth : Nat} {target : Expr} {s t t' u : State} {slot : Slot}
    (htarget : Denotes setting depth target s slot t) {v result : Val} {span : Span}
    (h : store target slot v span t' = (.ok result, u)) :
    ∃ old new, slot.get t' = (.ok old, t') ∧ slot.set new t' = (.ok (), u) ∧ Stores v span target old new result := by
  obtain ⟨old, hget⟩ := run_get slot t'
  rw [store, run_bind_ok hget] at h
  have hstored {stored given : Val} (hrun : (slot.set stored >>= fun _ => pure given : Eval Val) t' = (.ok result, u)) :
      slot.set stored t' = (.ok (), u) ∧ given = result := by
    obtain ⟨w, hset, hends⟩ := run_stored slot stored given t'
    rw [hends] at hrun
    cases hrun
    exact ⟨hset, rfl⟩
  cases htarget with
  | symbol =>
    obtain ⟨new, w, hnew, hrest⟩ := bind_eq_ok h
    obtain ⟨hcast, rfl⟩ := Prod.mk.inj hnew
    obtain ⟨hset, rfl⟩ := hstored hrest
    exact ⟨old, new, hget, hset, .symbol hcast⟩
  | item =>
    obtain ⟨hset, rfl⟩ := hstored h
    exact ⟨old, v, hget, hset, .item⟩
  | @member _ token name owner =>
    obtain ⟨w, t₁, hw, hrest⟩ := bind_eq_ok h
    obtain ⟨hcast, rfl⟩ := Prod.mk.inj hw
    have htype : w.type = .float := Val.cast_type hcast
    cases w <;> cases htype
    rename_i c
    dsimp only at hrest
    split_ifs at hrest with hvector
    · rcases hplace : componentIndex? old.type name.name with _ | place
      · rw [hplace] at hrest
        cases hrest
      · rw [hplace] at hrest
        obtain ⟨hset, rfl⟩ := hstored hrest
        exact ⟨old, _, hget, hset, .member hcast hplace (differs_setComponent hplace c)⟩
    · cases hrest

/-- **What an assignment changes.** The value, the list and the index of an assignment can be evaluated, and evaluating
them only makes lists; then the assignment succeeds. It writes exactly the slot that its target means, in the state in
which they have been evaluated. -/
theorem assignment_writes_one_slot {setting : Setting} {n depth : Nat} {token : Token} {target value : Expr}
    {s s₁ u : State} {v result : Val} (hs : setting.Intact) (hstate : s.Intact n)
    (hvalue : eval setting depth value s = (.ok v, s₁)) (hquiet : Appends s s₁)
    (hparts : QuietParts setting depth target s₁)
    (h : eval setting (depth + 1) (.assign token target value) s = (.ok result, u)) :
    ∃ s₂ slot old new, Appends s s₂ ∧ Denotes setting depth target s₁ slot s₂ ∧ Written s₂ u slot old new ∧
      Stores v value.span target old new result := by
  have hassign : eval setting (depth + 1) (.assign token target value) s =
      (resolve setting depth target >>= fun slot => store target slot v value.span) s₁ := run_bind_ok hvalue _
  rw [h] at hassign
  obtain ⟨slot, t', hresolve, hstore⟩ := bind_eq_ok hassign.symm
  have hintact : s₁.Intact n := by
    have hkept := (((intactness hs).run depth).eval value n n le_rfl s hstate).1
    rwa [hvalue] at hkept
  obtain ⟨s₂, hdenotes, happends, htaken⟩ := denotes_of_resolve hs hintact hparts hresolve
  obtain ⟨old, new, hget, hset, hstores⟩ := stores_of_store hdenotes hstore
  exact ⟨s₂, slot, old, new, trans_of Appends hquiet happends, hdenotes, htaken.written hget hset, hstores⟩

/-- two names mean one list, which has one item; the assignment to the item at 2 through one of them writes that item and
a zero, and the other name reads it -/
theorem assignment_writes_one_slot_alias :
    let token : Token := default
    let target : Expr := .index token (.symbol token "ys") (.int token 2)
    let s : State := { env := ⟨⟨"global", [("xs", .list 0), ("ys", .list 0)]⟩, []⟩, heap := ⟨#[#[.int 7]]⟩ }
    let u : State := { s with heap := ⟨#[#[.int 7, .int 0, .int 5]]⟩ }
    eval {} 5 (.assign token target (.int token 5)) s = (.ok (.int 5), u) ∧ Written s u (.item 0 2) (.int 0) (.int 5) ∧
      eval {} 4 (.index token (.symbol token "xs") (.int token 2)) u = (.ok (.int 5), u) := by
  intro token target s u
  have hsetting : Setting.Intact {} := fun _ _ _ _ _ _ => intact_pure fun _ _ => trivial
  have hlists (name : String) (v : Val) (hv : s.env.globals.get? name = some v) : v.Within 1 := by
    simp only [s, Frame.get?, List.find?_cons] at hv
    repeat' split at hv
    all_goals cases hv
    all_goals exact Nat.zero_lt_one
  have hstate : s.Intact 1 := by
    refine ⟨le_rfl, ⟨hlists, by simp [s]⟩, by simp [s], fun a v hv => ?_⟩
    rcases a with _ | a
    · cases Array.mem_singleton.1 hv
      trivial
    · cases (Array.not_mem_empty v) hv
  have hparts : QuietParts {} 4 target s := ⟨.list 0, s, .int 2, s, rfl, refl s, rfl, refl s⟩
  have hassigned : eval {} 5 (.assign token target (.int token 5)) s = (.ok (.int 5), u) := rfl
  obtain ⟨s₂, slot, old, new, -, hdenotes, hwritten, hstores⟩ :=
    assignment_writes_one_slot hsetting hstate (rfl : eval {} 4 (.int token 5) s = (.ok (.int 5), s)) (refl s) hparts
      hassigned
  have hitem : Denotes {} 4 (.index token (.symbol token "ys") (.int token 2)) s slot s₂ := hdenotes
  have hvalue : Stores (.int 5) token.span (.index token (.symbol token "ys") (.int token 2)) old new (.int 5) := hstores
  refine ⟨hassigned, ?_, rfl⟩
  cases hvalue
  cases hitem with
  | item howner hindex hcast =>
    cases howner
    cases hindex
    cases hcast
    cases hwritten with
    | item ha hfilled hsize hitems hu => exact .item ha hfilled hsize hitems hu

end LevelScript
