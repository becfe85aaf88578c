/-
Lists, slots and stores: what the single steps of reading and assigning do.

Each step either fails and changes nothing, or succeeds in one way: `readItem_eq_ok`, `readMember_cases`,
`growSlot_cases`, `store_cases`. What a store replaces is told by `Replaces`.
-/
import LevelScript.Proofs.Computation

namespace LevelScript

open LevelScript.Syntax Eval

/-! ## Types of values -/

theorem Val.type_setComponent (v : Val) (place : Nat) (c : Float) : (v.setComponent place c).type = v.type := by
  unfold Val.setComponent
  split <;> rfl

theorem Val.cast_type {v w : Val} {t : Ty} {span : Option Span} (h : v.cast t span = .ok w) : w.type = t := by
  unfold Val.cast at h
  split_ifs at h with ht
  · cases h
    exact ht
  · repeat' split at h
    all_goals cases h
    all_goals rfl

/-! ## Lists -/

theorem Heap.items_insert (h : Heap) (items : Array Val) (a : Nat) :
    (h.insert items).2.items a = if a = h.cells.size then items else h.items a := by
  simp only [Heap.items, Heap.insert, Array.getElem?_push]
  split_ifs <;> rfl

@[simp] theorem Heap.size_insert (h : Heap) (items : Array Val) :
    (h.insert items).2.cells.size = h.cells.size + 1 := by
  simp [Heap.insert]

theorem Heap.items_modify (h : Heap) (a b : Nat) (change : Array Val → Array Val) :
    (h.modify a change).items b = if a = b ∧ b < h.cells.size then change (h.items b) else h.items b := by
  simp only [Heap.items, Heap.modify, Array.getElem?_modify]
  by_cases hb : b < h.cells.size
  · simp only [Array.getElem?_eq_getElem hb, hb, and_true]
    split_ifs <;> rfl
  · simp only [Array.getElem?_eq_none (Nat.le_of_not_lt hb), hb, and_false, if_false]
    split_ifs <;> rfl

@[simp] theorem Heap.size_modify (h : Heap) (a : Nat) (change : Array Val → Array Val) :
    (h.modify a change).cells.size = h.cells.size := by
  simp [Heap.modify]

theorem getElem?_grown {items : Array Val} {i : Nat} {v : Val} (place : Nat) (h : items[i]? = some v) :
    (grown place items)[i]? = some v := by
  have hlt : i < items.size := (Array.getElem?_eq_some_iff.1 h).1
  rw [grown, Array.getElem?_append_left hlt, h]

theorem lt_size_grown (place : Nat) (items : Array Val) : place < (grown place items).size := by
  rw [grown, Array.size_append, Array.size_replicate]
  omega

/-! ## Reading -/

theorem run_invalidIndex {α : Type} (m : Int) (span : Span) (s : State) :
    ∃ e, invalidIndex (α := α) m span s = (.error e, s) := by
  unfold invalidIndex
  rcases Decimal.intText? m with _ | text
  · exact ⟨_, rfl⟩
  · exact ⟨_, rfl⟩

theorem run_readItem {a : Nat} {index : Val} {m : Int} {span : Span} (h : index.cast .int span = .ok (.int m))
    (s : State) :
    readItem a index span s = match if m < 0 then none else (s.heap.items a)[m.toNat]? with
      | some v => (.ok v, s)
      | none => invalidIndex m span s := by
  rw [readItem, h, run_bind_ok (run_ofExcept _ _)]
  dsimp only
  rw [run_bind_ok (m := items a) (a := s.heap.items a) rfl]
  rcases if m < 0 then none else (s.heap.items a)[m.toNat]? with _ | v <;> rfl

/-- an item can be read exactly if the index is a number that the list has an item at -/
theorem readItem_eq_ok {a : Nat} {index v : Val} {span : Span} {s t : State} :
    readItem a index span s = (.ok v, t) ↔ ∃ m : Int, index.cast .int span = .ok (.int m) ∧ 0 ≤ m ∧
      (s.heap.items a)[m.toNat]? = some v ∧ t = s := by
  constructor
  · intro h
    rcases hc : index.cast .int span with e | w
    · rw [readItem, hc, run_bind_error (run_ofExcept _ _)] at h
      cases h
    · have hint := Val.cast_type hc
      cases w with
      | int m =>
        rw [run_readItem hc] at h
        split at h
        · rename_i w hw
          cases h
          split_ifs at hw with hneg
          exact ⟨m, rfl, Int.not_lt.1 hneg, hw, rfl⟩
        · obtain ⟨e, he⟩ := run_invalidIndex (α := Val) m span s
          rw [he] at h
          cases h
      | _ => cases hint
  · rintro ⟨m, hm, hpos, hv, rfl⟩
    rw [run_readItem hm, if_neg (Int.not_lt.2 hpos), hv]

/-- no member is a list -/
theorem readMember_cases (v : Val) (name : Token) (span : Span) (s : State) :
    (∃ e, readMember v name span s = (.error e, s)) ∨ ∃ w, w.type ≠ .list ∧ readMember v name span s = (.ok w, s) := by
  cases v with
  | list a =>
    simp only [readMember]
    split_ifs
    · exact .inr ⟨.int (s.heap.items a).size, nofun, rfl⟩
    · exact .inl ⟨_, rfl⟩
  | vec2 x y =>
    simp only [readMember]
    rcases (componentIndex? (Val.vec2 x y).type name.name).bind (Val.vec2 x y).component? with _ | c
    · exact .inl ⟨_, rfl⟩
    · exact .inr ⟨.float c, nofun, rfl⟩
  | vec3 x y z =>
    simp only [readMember]
    rcases (componentIndex? (Val.vec3 x y z).type name.name).bind (Val.vec3 x y z).component? with _ | c
    · exact .inl ⟨_, rfl⟩
    · exact .inr ⟨.float c, nofun, rfl⟩
  | _ => exact .inl ⟨_, rfl⟩

theorem readMember_type {v w : Val} {name : Token} {span : Span} {s t : State}
    (h : readMember v name span s = (.ok w, t)) : w.type ≠ .list := by
  rcases readMember_cases v name span s with ⟨e, he⟩ | ⟨w', hw', hrun⟩
  · rw [he] at h
    cases h
  · rw [hrun] at h
    cases h
    exact hw'

/-! ## Components -/

/-- only vectors have components that an assignment can change -/
theorem type_of_componentIndex {t : Ty} {member : String} {place : Nat} (h : componentIndex? t member = some place) :
    t = .vec2 ∧ place < 2 ∨ t = .vec3 ∧ place < 3 := by
  unfold componentIndex? at h
  split at h
  all_goals cases h
  all_goals simp

theorem component_of_index {v : Val} {member : String} {place : Nat} (h : componentIndex? v.type member = some place) :
    ∃ c, v.component? place = some c := by
  rcases type_of_componentIndex h with ⟨hv, hplace⟩ | ⟨hv, hplace⟩
  · cases v <;> cases hv
    interval_cases place <;> exact ⟨_, rfl⟩
  · cases v <;> cases hv
    interval_cases place <;> exact ⟨_, rfl⟩

/-- a component is read as it stands in the vector -/
theorem run_readMember {vector : Val} {name : Token} {place : Nat} {c : Float}
    (hplace : componentIndex? vector.type name.name = some place) (hc : vector.component? place = some c) (span : Span)
    (s : State) : readMember vector name span s = (.ok (.float c), s) := by
  rcases type_of_componentIndex hplace with ⟨hv, -⟩ | ⟨hv, -⟩
  · cases vector <;> cases hv
    rw [readMember, hplace, Option.bind_some, hc]
    rfl
  · cases vector <;> cases hv
    rw [readMember, hplace, Option.bind_some, hc]
    rfl

/-! ## Growing -/

/-- taking the slot of an item fails and changes nothing, or makes the list grow to hold the index -/
theorem growSlot_cases (a : Nat) (index : Val) (span : Span) (s : State) :
    (∃ e, growSlot a index span s = (.error e, s)) ∨
      ∃ m : Int, index.cast .int span = .ok (.int m) ∧ 0 ≤ m ∧ m.toNat ≤ maxListIndex ∧
        growSlot a index span s = (.ok (.item a m.toNat), { s with heap := s.heap.modify a (grown m.toNat) }) := by
  unfold growSlot
  rcases hc : index.cast .int span with e | w
  · exact .inl ⟨e, run_bind_error (run_ofExcept _ _) _⟩
  · rw [run_bind_ok (run_ofExcept _ _)]
    have hint := Val.cast_type hc
    cases w with
    | int m =>
      dsimp only
      split_ifs with hneg hlarge
      · obtain ⟨e, he⟩ := run_invalidIndex (α := Slot) m span s
        exact .inl ⟨e, he⟩
      · exact .inl ⟨_, rfl⟩
      · exact .inr ⟨m, rfl, Int.not_lt.1 hneg, Nat.not_lt.1 hlarge, rfl⟩
    | _ => cases hint

theorem growSlot_eq_ok {a : Nat} {index : Val} {span : Span} {slot : Slot} {s t : State}
    (h : growSlot a index span s = (.ok slot, t)) :
    ∃ m : Int, index.cast .int span = .ok (.int m) ∧ 0 ≤ m ∧ m.toNat ≤ maxListIndex ∧ slot = .item a m.toNat ∧
      t = { s with heap := s.heap.modify a (grown m.toNat) } := by
  rcases growSlot_cases a index span s with ⟨e, he⟩ | ⟨m, hm, hpos, hlarge, hok⟩
  · rw [he] at h
    cases h
  · rw [hok] at h
    cases h
    exact ⟨m, hm, hpos, hlarge, rfl, rfl⟩

/-! ## Stores -/

/-- a store takes the state `t` to `u` by replacing the value or the component `old`; only an item takes a value of another
type -/
inductive Replaces (slot : Slot) (t u : State) : Expr → Val → Prop where
  | component {token name : Token} {owner : Expr} {vector : Val} {place : Nat} {old new : Float} :
      slot.get t = (.ok vector, t) → componentIndex? vector.type name.name = some place →
      vector.component? place = some old → slot.set (vector.setComponent place new) t = (.ok (), u) →
      Replaces slot t u (.member token owner name) (.float old)
  | whole {target : Expr} {old new : Val} :
      (∀ token owner name, target ≠ .member token owner name) → slot.get t = (.ok old, t) →
      slot.set new t = (.ok (), u) →
      ((∀ token owner place, target ≠ .index token owner place) → new.type = old.type) → Replaces slot t u target old

theorem Replaces.exists_set {slot : Slot} {t u : State} {target : Expr} {old : Val} (h : Replaces slot t u target old) :
    ∃ new, slot.set new t = (.ok (), u) := by
  cases h with
  | component _ _ _ hset => exact ⟨_, hset⟩
  | whole _ _ hset => exact ⟨_, hset⟩

theorem run_get (slot : Slot) (t : State) : ∃ v, slot.get t = (.ok v, t) := by
  cases slot with
  | binding name => exact ⟨_, rfl⟩
  | item a place => exact ⟨_, rfl⟩

theorem run_set (slot : Slot) (v : Val) (t : State) : ∃ u, slot.set v t = (.ok (), u) := by
  cases slot with
  | binding name => exact ⟨_, rfl⟩
  | item a place => exact ⟨_, rfl⟩

/-- what is stored and given back: a store that is a single step of the state never fails -/
theorem run_stored (slot : Slot) (stored given : Val) (t : State) :
    ∃ u, slot.set stored t = (.ok (), u) ∧ (slot.set stored >>= fun _ => pure given : Eval Val) t = (.ok given, u) := by
  obtain ⟨u, hu⟩ := run_set slot stored t
  exact ⟨u, hu, run_bind_ok hu _⟩

/-- **Stores are single steps.** A store either fails and changes nothing, or replaces a value or a component. -/
theorem store_cases (target : Expr) (slot : Slot) (v : Val) (span : Span) (t : State) :
    (∃ e, store target slot v span t = (.error e, t)) ∨
      ∃ result u old, store target slot v span t = (.ok result, u) ∧ Replaces slot t u target old := by
  obtain ⟨current, hcurrent⟩ := run_get slot t
  rw [store, run_bind_ok hcurrent]
  split
  · rename_i token owner name
    rcases hc : v.cast .float span with e | w
    · exact .inl ⟨e, run_bind_error (run_ofExcept _ _) _⟩
    · rw [run_bind_ok (run_ofExcept _ _)]
      have hfloat := Val.cast_type hc
      cases w with
      | float c =>
        dsimp only
        split_ifs with hvector
        · rcases hplace : componentIndex? current.type name.name with _ | place
          · exact .inl ⟨_, rfl⟩
          · obtain ⟨old, hold⟩ := component_of_index hplace
            obtain ⟨u, hset, hrun⟩ := run_stored slot (current.setComponent place c) (.float c) t
            exact .inr ⟨_, u, .float old, hrun, .component hcurrent hplace hold hset⟩
        · exact .inl ⟨_, rfl⟩
      | _ => cases hfloat
  · obtain ⟨u, hset, hrun⟩ := run_stored slot v v t
    exact .inr ⟨_, u, current, hrun, .whole nofun hcurrent hset fun hindex => absurd rfl (hindex _ _ _)⟩
  · rename_i hmember _
    rcases hc : v.cast current.type span with e | w
    · exact .inl ⟨e, run_bind_error (run_ofExcept _ _) _⟩
    · rw [run_bind_ok (run_ofExcept _ _)]
      obtain ⟨u, hset, hrun⟩ := run_stored slot w w t
      exact .inr ⟨_, u, current, hrun, .whole hmember hcurrent hset fun _ => Val.cast_type hc⟩

theorem keeps_store {R : State → State → Prop} [IsPreorder State R] {slot : Slot}
    (hset : ∀ v, Keeps R (slot.set v)) (target : Expr) (v : Val) (span : Span) :
    Keeps R (store target slot v span) := by
  intro s
  rcases store_cases target slot v span s with ⟨e, he⟩ | ⟨result, u, old, hstore, hreplaces⟩
  · rw [he]
    exact refl s
  · rw [hstore]
    obtain ⟨new, hnew⟩ := hreplaces.exists_set
    have hkept := hset new s
    rwa [hnew] at hkept

end LevelScript
