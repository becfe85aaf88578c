/-
An assignment replaces what its target reads.

The state just before the store is the one in which a list that has no item at the index yet has grown.
`assignment_replaces_reading`: there, reading the target with the list and the index that the assignment has found gives
exactly the value or the component that the store replaces. Evaluating the target again gives that as well, unless the
list has grown and the target asks for the length of a list: `xs[xs.length] = v` is such an assignment. Nothing is said
about members of members.

The target is located in a closed state, one in which no name and no list refers to a list that has not been made; the
values that loads and calls assign leave such states (`assignments_start_intact`).
-/
import LevelScript.Proofs.AssignmentTargets

namespace LevelScript

open LevelScript.Syntax Eval

/-! ## Locating a target again -/

/-- a list that a target means was there at the start -/
theorem within_eval {setting : Setting} {lengths : Prop} {depth : Nat} {target : Expr} (h : target.Located lengths)
    {s t : State} (hs : s.Closed) {v : Val} (hrun : eval setting depth target s = (.ok v, t)) :
    v.Within s.heap.cells.size := by
  induction h generalizing depth v t with
  | @symbol token name =>
    cases depth with
    | zero => cases hrun
    | succ depth =>
      obtain ⟨found, u, hu, hfound⟩ := bind_eq_ok hrun
      cases hu
      rcases hlookup : s.env.lookup? name with _ | w
      · rw [hlookup] at hfound
        cases hfound
      · rw [hlookup] at hfound
        cases hfound
        exact hs.bound name v hlookup
  | member =>
    cases depth with
    | zero => cases hrun
    | succ depth =>
      obtain ⟨w, u, -, hmember⟩ := bind_eq_ok hrun
      exact Val.within_of_type (readMember_type hmember) _
  | @index token owner place ho hp ih =>
    cases depth with
    | zero => cases hrun
    | succ depth =>
      obtain ⟨w, u, hw, hitem⟩ := bind_eq_ok hrun
      have hwithin := ih hw
      cases w with
      | list a =>
        obtain ⟨i, u', hi, hread⟩ := bind_eq_ok hitem
        obtain ⟨m, -, -, hv, -⟩ := readItem_eq_ok.1 hread
        have happends : Appends s u' := by
          have howner := appends_eval setting depth ho.steady s
          have hplace := appends_eval setting depth hp u
          rw [hw] at howner
          rw [hi] at hplace
          exact trans_of Appends howner hplace
        rw [happends.items a hwithin] at hv
        exact hs.stored a v (Array.mem_of_getElem? hv)
      | _ => cases hitem

/-- a place after the lists from address `n` on have moved by `k`; the list of the place itself has not -/
def Place.moved (n k : Nat) : Place → Place
  | .named token name => .named token name
  | .item a index span => .item a (index.moved n k) span

theorem Place.Within.mono {size size' : Nat} {place : Place} (h : place.Within size) (hle : size ≤ size') :
    place.Within size' := by
  cases place with
  | named token name => trivial
  | item a index span => exact Nat.lt_of_lt_of_le h hle

/-- in a state that has all that the first one had, a target is located in the same place again -/
theorem locate_again {setting : Setting} {lengths : Prop} {depth k : Nat} {target : Expr} (h : target.Located lengths)
    {s t s' : State} (hs : s.Closed) (htrack : Tracks lengths s.heap.cells.size k s t) {place : Place}
    (hrun : locate setting depth target s = (.ok place, s')) :
    place.Within s.heap.cells.size ∧
      ∃ t', locate setting depth target t = (.ok (place.moved s.heap.cells.size k), t') := by
  induction depth generalizing target with
  | zero => cases hrun
  | succ depth ih =>
    cases h with
    | symbol =>
      cases hrun
      exact ⟨trivial, t, rfl⟩
    | member _ ho => exact ih ho hrun
    | @index token owner index ho hp =>
      obtain ⟨v, u, hv, hitem⟩ := bind_eq_ok hrun
      have hwithin := within_eval ho hs hv
      cases v with
      | list a =>
        obtain ⟨i, u', hi, hplace⟩ := bind_eq_ok hitem
        cases hplace
        obtain ⟨t₁, hv', htrack₁, -, -⟩ := eval_again setting depth ho.steady 0 s t _ _ htrack (Nat.zero_le _) hv
        obtain ⟨t₂, hi', htrack₂, -, -⟩ := eval_again setting depth hp 0 u t₁ _ _ htrack₁ (Nat.zero_le _) hi
        rw [hwithin.moved_eq] at hv'
        exact ⟨hwithin, t₂, (run_bind_ok hv' _).trans (run_bind_ok hi' _)⟩
      | _ => cases hitem

/-- what is read in a place is still read there after lists have been added -/
theorem read_again {place : Place} {s t : State} {v : Val} (hread : place.read s = (.ok v, s)) (h : Appends s t)
    (hwithin : place.Within s.heap.cells.size) (n k : Nat) : (place.moved n k).read t = (.ok v, t) := by
  cases place with
  | named token name =>
    obtain ⟨found, u, hu, hfound⟩ := bind_eq_ok hread
    cases hu
    rcases hlookup : s.env.lookup? name with _ | w
    · rw [hlookup] at hfound
      cases hfound
    · rw [hlookup] at hfound
      cases hfound
      have hlookup' : lookup? name t = (.ok (some v), t) := by
        rw [← hlookup, ← h.env]
        rfl
      exact run_bind_ok hlookup' _
  | item a index span =>
    obtain ⟨m, hm, hpos, hv, -⟩ := readItem_eq_ok.1 hread
    rw [← h.items a hwithin] at hv
    exact readItem_eq_ok.2 ⟨m, Val.cast_moved hm, hpos, hv, rfl⟩

/-! ## Reading and replacing -/

/-- what a store replaces is what reading the target gives, wherever the target is read in the same way -/
theorem Replaces.reads {slot : Slot} {t u : State} {target : Expr} {old : Val} (h : Replaces slot t u target old) :
    ∃ current, slot.get t = (.ok current, t) ∧
      ∀ place s, place.read s = (.ok current, s) → readTarget target place s = (.ok old, s) := by
  cases h with
  | component hget hplace hold hset =>
    refine ⟨_, hget, fun place s hread => ?_⟩
    rw [readTarget, run_bind_ok hread]
    exact run_readMember hplace hold _ s
  | whole hmember hget =>
    refine ⟨_, hget, fun place s hread => ?_⟩
    cases target with
    | member token owner name => exact absurd rfl (hmember _ _ _)
    | _ => exact hread

/-- a target that is located again, in a state in which the read in its place succeeds, evaluates to what it reads -/
theorem eval_located {setting : Setting} {lengths : Prop} {depth k : Nat} {target : Expr}
    (h : target.Located lengths) (hsingle : target.nested = false) {s s' t : State} (hs : s.Closed)
    (htrack : Tracks lengths s.heap.cells.size k s t) {place : Place}
    (hplace : locate setting depth target s = (.ok place, s')) {current old : Val}
    (hread : place.read t = (.ok current, t))
    (hreads : ∀ place s, place.read s = (.ok current, s) → readTarget target place s = (.ok old, s)) :
    (eval setting depth target t).1 = .ok old := by
  obtain ⟨hwithin, t', hagain⟩ := locate_again h hs htrack hplace
  have happends : Appends t t' := by
    have hlocated := appends_locate setting depth h t
    rwa [hagain] at hlocated
  have hsize : s.heap.cells.size ≤ t.heap.cells.size := htrack.size ▸ Nat.le_add_right _ _
  have hread' := read_again hread happends (hwithin.mono hsize) s.heap.cells.size k
  rw [eval_eq setting depth h hsingle, run_bind_ok hagain, hreads _ _ hread']

/-- **Assignments replace what their targets read.** An assignment that succeeds, to a target built from names, members
and indices that is no member of a member: in the state just before the store, reading the target with the list and the
index that it was located with gives exactly the value or the component that the store replaces. So does evaluating the
target there, if no list has grown or the target asks for no length. -/
theorem assignment_replaces_reading {setting : Setting} {depth : Nat} {token : Token} {target value : Expr}
    (htarget : target.Located True) (hsingle : target.nested = false) {s s₁ u : State} {v result : Val}
    (hvalue : eval setting depth value s = (.ok v, s₁)) (hclosed : s₁.Closed)
    (h : eval setting (depth + 1) (.assign token target value) s = (.ok result, u)) :
    ∃ place s₂ slot t old,
      locate setting depth target s₁ = (.ok place, s₂) ∧ resolve setting depth target s₁ = (.ok slot, t) ∧
      store target slot v value.span t = (.ok result, u) ∧ Replaces slot t u target old ∧
      readTarget target place t = (.ok old, t) ∧
      ((∀ a, (t.heap.items a).size = (s₂.heap.items a).size) ∨ target.Located False →
        (eval setting depth target t).1 = .ok old) := by
  obtain ⟨v', s₁', hv, hrest⟩ := bind_eq_ok h
  rw [hvalue] at hv
  cases hv
  obtain ⟨slot, t, hresolve, hstore⟩ := bind_eq_ok hrest
  obtain ⟨place, s₂, hplace, hslot⟩ : ∃ place s₂, locate setting depth target s₁ = (.ok place, s₂) ∧
      place.slot s₂ = (.ok slot, t) := by
    rw [resolve_eq] at hresolve
    exact bind_eq_ok hresolve
  have happends : Appends s₁ s₂ := by
    have hlocated := appends_locate setting depth htarget s₁
    rwa [hplace] at hlocated
  have hgrows : Grows s₁ t := happends.grows.trans (grows_slot hslot)
  have hwithin : place.Within s₁.heap.cells.size :=
    (locate_again htarget hclosed (hclosed.tracks (refl s₁ : Appends s₁ s₁).grows fun _ _ _ => rfl) hplace).1
  obtain ⟨current, hget, hread⟩ := slot_holds_read hslot (hwithin.mono happends.size)
  obtain ⟨old, hreplaces⟩ : ∃ old, Replaces slot t u target old := by
    rcases store_cases target slot v value.span t with ⟨e, hfailed⟩ | ⟨result', u', old, hstored, hreplaces⟩
    · rw [hfailed] at hstore
      cases hstore
    · rw [hstored] at hstore
      cases hstore
      exact ⟨old, hreplaces⟩
  obtain ⟨current', hget', hreads⟩ := hreplaces.reads
  rw [hget] at hget'
  cases hget'
  refine ⟨place, s₂, slot, t, old, hplace, hresolve, hstore, hreplaces, hreads place t hread, ?_⟩
  rintro (hsizes | hnolength)
  · have hsame (a : Nat) (ha : a < s₁.heap.cells.size) : (t.heap.items a).size = (s₁.heap.items a).size := by
      rw [hsizes a, happends.items a ha]
    exact eval_located htarget hsingle hclosed (hclosed.tracks hgrows fun _ => hsame) hplace hread hreads
  · exact eval_located hnolength hsingle hclosed (hclosed.tracks hgrows False.elim) hplace hread hreads

/-- a list grows by the assignment to its item at 2, where the target then reads the zero that the store replaces -/
theorem assignment_replaces_reading_grown :
    let token : Token := default
    let target : Expr := .index token (.symbol token "xs") (.int token 2)
    let s : State := { env := ⟨⟨"global", [("xs", .list 0)]⟩, []⟩, heap := ⟨#[#[.int 7]]⟩ }
    let t : State := { s with heap := ⟨#[#[.int 7, .int 0, .int 0]]⟩ }
    let u : State := { s with heap := ⟨#[#[.int 7, .int 0, .int 9]]⟩ }
    eval {} 5 (.assign token target (.int token 9)) s = (.ok (.int 9), u) ∧
      Replaces (.item 0 2) t u target (.int 0) ∧ (eval {} 4 target t).1 = .ok (.int 0) := by
  intro token target s t u
  have hlocated {lengths : Prop} : target.Located lengths := .index .symbol .int
  have hclosed : s.Closed := by
    refine ⟨fun name v hv => ?_, fun a v hv => ?_⟩
    · simp only [s, Env.lookup?, Frame.get?, List.findSome?_nil, Option.none_or, List.find?_cons] at hv
      split at hv <;> cases hv
      exact Nat.zero_lt_one
    · rcases a with _ | a
      · cases Array.mem_singleton.1 hv
        trivial
      · cases (Array.not_mem_empty v) hv
  have hassigned : eval {} 5 (.assign token target (.int token 9)) s = (.ok (.int 9), u) := by rfl
  obtain ⟨place, s₂, slot, t', old, hplace, hresolve, -, hreplaces, hread, heval⟩ :=
    assignment_replaces_reading hlocated rfl (by rfl) hclosed hassigned
  have hlocate : locate {} 4 target s = (.ok (.item 0 (.int 2) token.span), s) := by rfl
  have hresolved : resolve {} 4 target s = (.ok (.item 0 2), t) := by rfl
  have hzero : readTarget target (.item 0 (.int 2) token.span) t = (.ok (.int 0), t) := by rfl
  rw [hlocate] at hplace
  cases hplace
  rw [hresolved] at hresolve
  cases hresolve
  rw [hzero] at hread
  cases hread
  exact ⟨hassigned, hreplaces, heval (.inr hlocated)⟩

/-- **Where reading and writing part.** `xs[xs.length] = 9` puts an item at the end of a list, and there is none at its
new length; `v.foo.x = 9.0` changes a component of a vector that has no member `foo`. -/
theorem assignment_without_reading :
    let token : Token := default
    let named (name : String) : Token := { token with kind := .symbol name }
    let s : State := { env := ⟨⟨"global", [("xs", .list 0), ("v", .vec3 0.0 0.0 0.0)]⟩, []⟩, heap := ⟨#[#[.int 7]]⟩ }
    let append : Expr := .index token (.symbol token "xs") (.member token (.symbol token "xs") (named "length"))
    let nested : Expr := .member token (.member token (.symbol token "v") (named "foo")) (named "x")
    ((eval {} 5 (.assign token append (.int token 9)) s).1.toBool = true ∧
      (eval {} 4 append (resolve {} 4 append s).2).1.toBool = false) ∧
    (eval {} 5 (.assign token nested (.float token 9.0)) s).1.toBool = true ∧
      (eval {} 4 nested (resolve {} 4 nested s).2).1.toBool = false := by
  decide +kernel

end LevelScript
