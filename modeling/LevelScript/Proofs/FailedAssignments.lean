/-
What an assignment that fails has changed.

The list and the index of the target are evaluated, the list grows to hold the index, and only then the value is checked
against what the slot holds. Names keep their values and lists keep their items when an assignment fails
(`failed_assignment_leaves`), but one check comes late: an assignment to a member of an item may fail when the list has
grown already (`failed_assignment_grows`).
-/
import LevelScript.Proofs.AssignmentTargets

namespace LevelScript

open LevelScript.Syntax Eval

/-- the list and the index in a target can be evaluated, and evaluating them only makes lists -/
def QuietParts (setting : Setting) : Nat → Expr → State → Prop
  | depth + 1, .member _ owner _, s => QuietParts setting depth owner s
  | depth + 1, .index _ owner place, s => ∃ v t i u, eval setting depth owner s = (.ok v, t) ∧ Appends s t ∧
      eval setting depth place t = (.ok i, u) ∧ Appends t u
  | _, _, _ => True

/-- a member of an item of a list, or of a member of one, however deep -/
def Syntax.Expr.inItem : Expr → Bool
  | .member _ (.index ..) _ => true
  | .member _ owner _ => owner.inItem
  | _ => false

variable {setting : Setting} {depth : Nat} {target : Expr} {s t : State}

theorem appends_of_quietParts (hparts : QuietParts setting depth target s) :
    Appends s (locate setting depth target s).2 := by
  induction depth generalizing target with
  | zero => exact refl s
  | succ depth ih =>
    cases target with
    | member token owner name => exact ih hparts
    | index token owner place =>
      obtain ⟨v, t, i, u, hv, hst, hi, htu⟩ := hparts
      simp only [locate]
      rw [run_bind_ok hv]
      cases v with
      | list a =>
        dsimp only
        rw [run_bind_ok hi]
        exact trans_of Appends hst htu
      | _ => exact hst
    | _ => exact refl s

/-- only an item of a list, or a member in one, has its place in a list -/
theorem inItem_of_locate {a : Nat} {index : Val} {span : Span}
    (h : locate setting depth target s = (.ok (.item a index span), t)) :
    (∃ token owner place, target = .index token owner place) ∨ target.inItem = true := by
  induction depth generalizing target with
  | zero => cases h
  | succ depth ih =>
    cases target with
    | index token owner place => exact .inl ⟨token, owner, place, rfl⟩
    | member token owner name =>
      right
      rcases ih h with ⟨token, inner, place, rfl⟩ | hitem
      · rfl
      · cases owner with
        | member => exact hitem
        | _ => cases hitem
    | _ => cases h

/-- the slot of a name is taken without a change -/
theorem slot_named {token : Token} {name : String} {slot : Slot}
    (h : (Place.named token name).slot s = (.ok slot, t)) : t = s := by
  simp only [Place.slot] at h
  rw [run_bind_ok (m := lookup? name) rfl] at h
  split_ifs at h
  · cases h
    rfl
  · cases h

/-- a slot that cannot be taken changes nothing -/
theorem slot_fails {place : Place} {e : Interrupt} (h : place.slot s = (.error e, t)) : t = s := by
  cases place with
  | named token name =>
    simp only [Place.slot] at h
    rw [run_bind_ok (m := lookup? name) rfl] at h
    split_ifs at h
    · cases h
    · cases h
      rfl
  | item a index span =>
    rcases growSlot_cases a index span s with ⟨e', he⟩ | ⟨m, -, -, -, hok⟩
    · have hslot : (Place.item a index span).slot s = (.error e', s) := he
      rw [hslot] at h
      cases h
      rfl
    · have hslot : (Place.item a index span).slot s = (.ok _, _) := hok
      rw [hslot] at h
      cases h

/-- any value can be stored in an item -/
theorem store_item (token : Token) (owner place : Expr) (slot : Slot) (v : Val) (span : Span) (s : State) :
    ∃ u, store (.index token owner place) slot v span s = (.ok v, u) := by
  obtain ⟨current, hcurrent⟩ := run_get slot s
  obtain ⟨u, -, hrun⟩ := run_stored slot v v s
  exact ⟨u, (run_bind_ok hcurrent _).trans hrun⟩

theorem store_fails {slot : Slot} {v : Val} {span : Span} {e : Interrupt}
    (h : store target slot v span s = (.error e, t)) : t = s := by
  rcases store_cases target slot v span s with ⟨e', he⟩ | ⟨result, u, old, hok, -⟩
  · rw [he] at h
    cases h
    rfl
  · rw [hok] at h
    cases h

/-- **A failed assignment leaves names and items.** The value, the list and the index of an assignment can be evaluated,
and evaluating them only makes lists; then the assignment fails. Every name keeps its value in every frame. Every list is
as it was, unless the target is a member of an item: then the list of the item may have grown, with zeros, to hold the
index. -/
theorem failed_assignment_leaves {token : Token} {value : Expr} {s₁ u : State} {v : Val} {e : Interrupt}
    (hvalue : eval setting depth value s = (.ok v, s₁)) (hquiet : Appends s s₁)
    (hparts : QuietParts setting depth target s₁)
    (h : eval setting (depth + 1) (.assign token target value) s = (.error e, u)) :
    u.env = s.env ∧
      ((∀ a < s.heap.cells.size, u.heap.items a = s.heap.items a) ∨
        target.inItem = true ∧ ∃ a index span s₂, ∃ m : Int,
          locate setting depth target s₁ = (.ok (.item a index span), s₂) ∧ index.cast .int span = .ok (.int m) ∧
          0 ≤ m ∧ m.toNat ≤ maxListIndex ∧ ∀ b < s.heap.cells.size,
            u.heap.items b = if b = a then grown m.toNat (s.heap.items b) else s.heap.items b) := by
  have hassign : eval setting (depth + 1) (.assign token target value) s =
      (resolve setting depth target >>= fun slot => store target slot v value.span) s₁ := run_bind_ok hvalue _
  rw [h, resolve_eq, bind_assoc] at hassign
  have hlocated := appends_of_quietParts hparts
  rcases hplace : locate setting depth target s₁ with ⟨e' | place, s₂⟩
  · rw [run_bind_error hplace] at hassign
    cases hassign
    rw [hplace] at hlocated
    have happends : Appends s u := trans_of Appends hquiet hlocated
    exact ⟨happends.env, .inl happends.items⟩
  · rw [run_bind_ok hplace] at hassign
    rw [hplace] at hlocated
    have happends : Appends s s₂ := trans_of Appends hquiet hlocated
    rcases hslot : place.slot s₂ with ⟨e' | slot, t⟩
    · rw [run_bind_error hslot] at hassign
      cases hassign
      cases slot_fails hslot
      exact ⟨happends.env, .inl happends.items⟩
    · rw [run_bind_ok hslot] at hassign
      have hstore := hassign.symm
      cases store_fails hstore
      refine ⟨(grows_slot hslot).env.trans happends.env, ?_⟩
      cases place with
      | named token name =>
        cases slot_named hslot
        exact .inl happends.items
      | item a index span =>
        obtain ⟨m, hm, hpos, hlarge, -, rfl⟩ := growSlot_eq_ok hslot
        rcases inItem_of_locate hplace with ⟨token, owner, place, rfl⟩ | hitem
        · obtain ⟨u, hu⟩ := store_item token owner place slot v value.span _
          rw [hu] at hstore
          cases hstore
        · refine .inr ⟨hitem, a, index, span, s₂, m, rfl, hm, hpos, hlarge, fun b hb => ?_⟩
          have hsize : b < s₂.heap.cells.size := hb.trans_le happends.size
          rw [Heap.items_modify, happends.items b hb]
          by_cases hab : a = b
          · rw [if_pos ⟨hab, hsize⟩, if_pos hab.symm]
          · rw [if_neg fun h => hab h.1, if_neg (Ne.symm hab)]

/-- a list is no value for a name of type `int`; the name and the list stay as they are -/
theorem failed_assignment_leaves_cast :
    let token : Token := default
    let s : State := { env := ⟨⟨"global", [("n", .int 1), ("xs", .list 0)]⟩, []⟩, heap := ⟨#[#[.int 7]]⟩ }
    ∃ e u, eval {} 3 (.assign token (.symbol token "n") (.symbol token "xs")) s = (.error e, u) ∧ u.env = s.env ∧
      u.heap.items 0 = s.heap.items 0 := by
  intro token s
  have hvalue : eval {} 2 (.symbol token "xs") s = (.ok (.list 0), s) := by rfl
  have hparts : QuietParts {} 2 (.symbol token "n") s := trivial
  have hfailed : eval {} 3 (.assign token (.symbol token "n") (.symbol token "xs")) s =
      (.error (.at (.invalidCast .list .int) token.span), s) := by rfl
  obtain ⟨henv, hlists | ⟨hitem, -⟩⟩ := failed_assignment_leaves hvalue (refl s) hparts hfailed
  · exact ⟨_, s, hfailed, henv, hlists 0 Nat.zero_lt_one⟩
  · cases hitem

/-- **A list may have grown.** `xs[2].x = 9.0` fails, since the item at 2 is no vector; but the item is one of two zeros
that the list had no place for before. -/
theorem failed_assignment_grows :
    let token : Token := default
    let target : Expr := .member token (.index token (.symbol token "xs") (.int token 2)) { token with kind := .symbol "x" }
    let s : State := { env := ⟨⟨"global", [("xs", .list 0)]⟩, []⟩, heap := ⟨#[#[.int 7]]⟩ }
    ∃ e u, eval {} 5 (.float token 9.0) s = (.ok (.float 9.0), s) ∧ QuietParts {} 5 target s ∧
      eval {} 6 (.assign token target (.float token 9.0)) s = (.error e, u) ∧
      s.heap.items 0 = #[.int 7] ∧ u.heap.items 0 = #[.int 7, .int 0, .int 0] := by
  intro token target s
  have hparts : QuietParts {} 5 target s := ⟨.list 0, s, .int 2, s, by rfl, refl s, by rfl, refl s⟩
  have hfailed : eval {} 6 (.assign token target (.float token 9.0)) s =
      (.error (.at (.noAssignableMembers .int) token.span), { s with heap := ⟨#[#[.int 7, .int 0, .int 0]]⟩ }) := by rfl
  exact ⟨_, _, by rfl, hparts, hfailed, by rfl, by rfl⟩

end LevelScript
