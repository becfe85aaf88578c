/-
What a script owns.

A script records each list and each string that it makes. A state is orderly if all that is in use there is on the
record: what the frames bind, what is under return, and the items of the lists on the record. Then whatever a value
leads to is on the record, too, through lists within lists. Runs keep states orderly (`orderliness`, a judgement), and
the record keeps count: to what was there at the start, exactly the lists that have been made since are added, each
once and in the order in which they were made.

Functions of the host are discreet if they hand over no lists and no strings but those that the script owns, by what
they give back, by what they call back with and by what they store.
-/
import LevelScript.Proofs.Frames
import LevelScript.Proofs.Judgement
import LevelScript.Proofs.Routine

namespace LevelScript

open LevelScript.Syntax

/-! ## Records -/

/-- a record is at most another one if that has added to it -/
instance : Preorder Owned where
  le o o' := o.lists.toList <+: o'.lists.toList ∧ o.strings.toList <+: o'.strings.toList
  le_refl o := ⟨List.prefix_refl _, List.prefix_refl _⟩
  le_trans _ _ _ h h' := ⟨h.1.trans h'.1, h.2.trans h'.2⟩

namespace Owned

/-- a list or string is on the record; other values need no owner -/
def Admits (o : Owned) : Val → Prop
  | .list a => a ∈ o.lists
  | .string text => text ∈ o.strings
  | _ => True

variable {o o' : Owned} {v : Val}

theorem mem_of_le (h : o ≤ o') {a : Nat} (ha : a ∈ o.lists) : a ∈ o'.lists := by
  rw [← Array.mem_toList_iff] at ha ⊢
  exact h.1.subset ha

theorem Admits.mono (hv : o.Admits v) (h : o ≤ o') : o'.Admits v := by
  cases v with
  | list a => exact mem_of_le h hv
  | string text =>
    have htext : text ∈ o.strings.toList := Array.mem_toList_iff.2 hv
    exact Array.mem_toList_iff.1 (h.2.subset htext)
  | _ => trivial

theorem admits_of_plain (h : v.Plain) : o.Admits v := by
  cases v with
  | list | string => exact h.elim
  | _ => trivial

/-- a list is on the record exactly once, and a string is on the record -/
def HoldsOnce (o : Owned) : Val → Prop
  | .list a => o.lists.count a = 1
  | .string text => text ∈ o.strings
  | _ => True

/-- the lists on a record have been made, and none is there twice -/
structure Proper (o : Owned) (h : Heap) : Prop where
  nodup : o.lists.toList.Nodup
  made : ∀ a ∈ o.lists, a < h.cells.size

theorem Proper.holdsOnce {h : Heap} (ho : o.Proper h) (hv : o.Admits v) : o.HoldsOnce v := by
  cases v with
  | list a =>
    have hcount := List.count_eq_one_of_mem ho.nodup (Array.mem_toList_iff.2 hv)
    rwa [Array.count_toList] at hcount
  | string text => exact hv
  | _ => trivial

end Owned

/-! ## States -/

/-- a state that a run may come to from a start: whatever is in use there is on the record, the record has all lists that
have been made since, and the lists that are not on it are as they were -/
structure State.Orderly (start s : State) : Prop where
  env : s.env.All s.owned.Admits
  returning : ∀ v, s.returning = some v → s.owned.Admits v
  items : ∀ a ∈ s.owned.lists, ∀ v ∈ s.heap.items a, s.owned.Admits v
  size : start.heap.cells.size ≤ s.heap.cells.size
  lists : s.owned.lists.toList = start.owned.lists.toList ++
    List.range' start.heap.cells.size (s.heap.cells.size - start.heap.cells.size)
  others : ∀ a < start.heap.cells.size, a ∉ start.owned.lists → s.heap.items a = start.heap.items a

namespace State.Orderly

variable {start s : State}

theorem self {s : State} (henv : s.env.All s.owned.Admits) (hreturning : ∀ v, s.returning = some v → s.owned.Admits v)
    (hitems : ∀ a ∈ s.owned.lists, ∀ v ∈ s.heap.items a, s.owned.Admits v) : s.Orderly s :=
  ⟨henv, hreturning, hitems, le_rfl, by simp, fun _ _ _ => rfl⟩

/-- a list is on the record if it was at the start or has been made since -/
theorem mem_lists (h : start.Orderly s) (a : Nat) : a ∈ s.owned.lists ↔
    a ∈ start.owned.lists ∨ start.heap.cells.size ≤ a ∧ a < s.heap.cells.size := by
  have hsize := h.size
  rw [← Array.mem_toList_iff, h.lists, List.mem_append, Array.mem_toList_iff, List.mem_range'_1,
    Nat.add_sub_cancel' hsize]

theorem proper (h : start.Orderly s) (hstart : start.owned.Proper start.heap) : s.owned.Proper s.heap := by
  constructor
  · rw [h.lists]
    refine List.nodup_append.2 ⟨hstart.nodup, List.nodup_range', fun a ha b hb hab => ?_⟩
    have hmade := hstart.made a (Array.mem_toList_iff.1 ha)
    have hsince := (List.mem_range'_1.1 hb).1
    omega
  · intro a ha
    rcases (h.mem_lists a).1 ha with hold | ⟨-, hnew⟩
    · exact (hstart.made a hold).trans_le h.size
    · exact hnew

/-- the last error and the output do not matter -/
theorem elsewhere (h : start.Orderly s) (lastError : Option Diagnostic) (output : Array (Nat × String)) :
    start.Orderly { s with lastError, output } :=
  ⟨h.env, h.returning, h.items, h.size, h.lists, h.others⟩

end State.Orderly

/-- the host has changed no lists but those on the record, and has stored nothing there but what is on the record -/
structure Heap.Rearranged (o : Owned) (h h' : Heap) : Prop where
  size : h'.cells.size = h.cells.size
  items : ∀ a ∈ o.lists, ∀ v ∈ h'.items a, o.Admits v
  others : ∀ a ∉ o.lists, h'.items a = h.items a

/-! ## Computations -/

namespace Eval

variable {α β : Type} {start : State} {o : Owned} {P : Owned → α → Prop} {Q : Owned → β → Prop}

/-- from an orderly state with at least this record, the computation comes to an orderly state; it only adds to the
record, and its value, if it has one, fits the record there -/
def Orderly (start : State) (o : Owned) (P : Owned → α → Prop) (c : Eval α) : Prop :=
  ∀ s, start.Orderly s → o ≤ s.owned →
    start.Orderly (c s).2 ∧ s.owned ≤ (c s).2.owned ∧ ∀ a, (c s).1 = .ok a → P (c s).2.owned a

/-- where an orderly computation leads to a value -/
theorem Orderly.run {c : Eval α} {s t : State} {a : α} (h : Orderly start s.owned P c) (hs : start.Orderly s)
    (hrun : c s = (.ok a, t)) : start.Orderly t ∧ s.owned ≤ t.owned ∧ P t.owned a := by
  obtain ⟨ht, hle, hvalue⟩ := h s hs le_rfl
  rw [hrun] at ht hle hvalue
  exact ⟨ht, hle, hvalue a rfl⟩

theorem Orderly.leaves {c : Eval α} {s : State} (h : Orderly start s.owned P c) (hs : start.Orderly s) :
    start.Orderly (c s).2 ∧ s.owned ≤ (c s).2.owned := by
  obtain ⟨ht, hle, -⟩ := h s hs le_rfl
  exact ⟨ht, hle⟩

theorem orderly_pure {a : α} (h : ∀ o' ≥ o, P o' a) : Orderly start o P (pure a) := by
  refine fun s hs ho => ⟨hs, le_rfl, fun b hb => ?_⟩
  cases hb
  exact h _ ho

theorem orderly_throw (e : Interrupt) : Orderly start o P (throw e : Eval α) := fun _ hs _ => ⟨hs, le_rfl, nofun⟩

theorem Orderly.bind {c : Eval α} {f : α → Eval β} (hc : Orderly start o P c)
    (hf : ∀ o' a, o ≤ o' → P o' a → Orderly start o' Q (f a)) : Orderly start o Q (c >>= f) := by
  intro s hs ho
  obtain ⟨ht, hle, hvalue⟩ := hc s hs ho
  rcases hrun : c s with ⟨e | a, t⟩ <;> rw [hrun] at ht hle hvalue
  · rw [run_bind_error hrun]
    exact ⟨ht, hle, nofun⟩
  · rw [run_bind_ok hrun]
    obtain ⟨hu, hle', hresult⟩ := hf _ a (ho.trans hle) (hvalue a rfl) t ht le_rfl
    exact ⟨hu, hle.trans hle', hresult⟩

theorem Orderly.tryCatch {c : Eval α} {handler : Interrupt → Eval α} (hc : Orderly start o P c)
    (hh : ∀ e, Orderly start o P (handler e)) : Orderly start o P (tryCatch c handler) := by
  intro s hs ho
  obtain ⟨ht, hle, hvalue⟩ := hc s hs ho
  rcases hrun : c s with ⟨e | a, t⟩ <;> rw [hrun] at ht hle hvalue
  · rw [run_catch_error hrun]
    obtain ⟨hu, hle', hresult⟩ := hh e t ht (ho.trans hle)
    exact ⟨hu, hle.trans hle', hresult⟩
  · rw [run_catch_ok hrun]
    exact ⟨ht, hle, hvalue⟩

/-! ## Steps -/

/-- a step that leaves the frames, the value under return, the lists and the record alone -/
theorem orderly_of_same {c : Eval α} (h : ∀ s, (c s).2.env = s.env ∧ (c s).2.returning = s.returning ∧
      (c s).2.heap = s.heap ∧ (c s).2.owned = s.owned)
    (hvalue : ∀ s : State, start.Orderly s → ∀ a, (c s).1 = .ok a → P s.owned a) : Orderly start o P c := by
  intro s hs _
  obtain ⟨henv, hreturning, hheap, howned⟩ := h s
  refine ⟨⟨?_, ?_, ?_, ?_, ?_, ?_⟩, ?_, ?_⟩ <;> simp only [henv, hreturning, hheap, howned]
  · exact hs.env
  · exact hs.returning
  · exact hs.items
  · exact hs.size
  · exact hs.lists
  · exact hs.others
  · exact le_rfl
  · exact hvalue s hs

theorem orderly_lookup (name : String) :
    Orderly start o (fun o' found => ∀ v, found = some v → o'.Admits v) (lookup? name) := by
  refine orderly_of_same (fun _ => ⟨rfl, rfl, rfl, rfl⟩) fun s hs found hfound v hv => ?_
  cases hfound
  exact hs.env.lookup hv

theorem orderly_items {address : Nat} (h : o.Admits (.list address)) :
    Orderly start o (fun o' items => ∀ v ∈ items, o'.Admits v) (items address) := by
  refine fun s hs ho => ⟨hs, le_rfl, fun items hitems => ?_⟩
  cases hitems
  exact hs.items address (Owned.mem_of_le ho h)

theorem orderly_newString (text : String) : Orderly start o Owned.Admits (newString text) := by
  intro s hs _
  have hle : s.owned ≤ (newString text s).2.owned := by
    refine ⟨List.prefix_refl _, ?_⟩
    simp [newString]
  refine ⟨⟨hs.env.imp fun v hv => hv.mono hle, fun v hv => (hs.returning v hv).mono hle,
    fun a ha v hv => (hs.items a ha v hv).mono hle, hs.size, hs.lists, hs.others⟩, hle, fun v hv => ?_⟩
  cases hv
  exact Array.mem_push_self

theorem orderly_newList {values : Array Val} (h : ∀ v ∈ values, o.Admits v) :
    Orderly start o Owned.Admits (newList values) := by
  intro s hs ho
  have hle : s.owned ≤ (newList values s).2.owned := by
    refine ⟨?_, List.prefix_refl _⟩
    simp [newList]
  have hsize : (s.heap.insert values).2.cells.size = s.heap.cells.size + 1 := Heap.size_insert _ _
  have hgrown := hs.size
  refine ⟨⟨hs.env.imp fun v hv => hv.mono hle, fun v hv => (hs.returning v hv).mono hle, ?_, ?_, ?_, ?_⟩, hle, ?_⟩
  · intro a ha v hv
    change v ∈ (s.heap.insert values).2.items a at hv
    rw [Heap.items_insert] at hv
    split_ifs at hv with hnew
    · exact ((h v hv).mono ho).mono hle
    · have hold : a ∈ s.owned.lists := (Array.mem_push.1 ha).resolve_right hnew
      exact (hs.items a hold v hv).mono hle
  · exact (hgrown.trans (Nat.le_succ _)).trans_eq hsize.symm
  · have hlast : s.heap.cells.size + 1 - start.heap.cells.size = s.heap.cells.size - start.heap.cells.size + 1 := by omega
    have haddress : start.heap.cells.size + (s.heap.cells.size - start.heap.cells.size) = s.heap.cells.size := by omega
    change (s.owned.lists.push s.heap.cells.size).toList = _ ++ List.range' _ ((s.heap.insert values).2.cells.size - _)
    rw [Array.toList_push, hs.lists, hsize, hlast, List.range'_1_concat, haddress, List.append_assoc]
  · intro a ha hother
    change (s.heap.insert values).2.items a = _
    rw [Heap.items_insert, if_neg (ha.trans_le hgrown).ne]
    exact hs.others a ha hother
  · intro v hv
    cases hv
    exact Array.mem_push_self

theorem orderly_modifyList {address : Nat} {change : Array Val → Array Val} (h : o.Admits (.list address))
    (hchange : ∀ o' ≥ o, ∀ items : Array Val, (∀ v ∈ items, o'.Admits v) → ∀ v ∈ change items, o'.Admits v) :
    Orderly start o (fun _ _ => True) (modifyList address change) := by
  intro s hs ho
  have hmem : address ∈ s.owned.lists := Owned.mem_of_le ho h
  have hsize : (s.heap.modify address change).cells.size = s.heap.cells.size := Heap.size_modify _ _ _
  refine ⟨⟨hs.env, hs.returning, ?_, hs.size.trans_eq hsize.symm, ?_, ?_⟩, le_rfl, fun _ _ => trivial⟩
  · intro a ha v hv
    change v ∈ (s.heap.modify address change).items a at hv
    rw [Heap.items_modify] at hv
    split_ifs at hv
    · exact hchange _ ho _ (hs.items a ha) v hv
    · exact hs.items a ha v hv
  · change s.owned.lists.toList = _ ++ List.range' _ ((s.heap.modify address change).cells.size - _)
    rw [hsize]
    exact hs.lists
  · intro a ha hother
    change (s.heap.modify address change).items a = _
    rw [Heap.items_modify, if_neg]
    · exact hs.others a ha hother
    -- a list on the record was there at the start or has been made since
    · rintro ⟨rfl, -⟩
      rcases (hs.mem_lists address).1 hmem with hold | ⟨hnew, -⟩
      · exact hother hold
      · exact absurd ha (Nat.not_lt.2 hnew)

theorem orderly_declare {v : Val} (h : o.Admits v) (name : String) (span : Span) :
    Orderly start o (fun _ _ => True) (declare name v span) := by
  intro s hs ho
  unfold declare
  split
  · rename_i env henv
    have hall : env.All s.owned.Admits := hs.env.declare (h.mono ho) henv
    exact ⟨⟨hall, hs.returning, hs.items, hs.size, hs.lists, hs.others⟩, le_rfl, fun _ _ => trivial⟩
  · exact ⟨hs, le_rfl, fun _ _ => trivial⟩

theorem orderly_assign {v : Val} (h : o.Admits v) (name : String) :
    Orderly start o (fun _ _ => True) (assign name v) := by
  intro s hs ho
  have hall : (s.env.assign name v).All s.owned.Admits := hs.env.assign (h.mono ho) name
  exact ⟨⟨hall, hs.returning, hs.items, hs.size, hs.lists, hs.others⟩, le_rfl, fun _ _ => trivial⟩

theorem orderly_startReturn {v : Val} (h : o.Admits v) : Orderly start o (fun _ _ => True) (startReturn v) := by
  intro s hs ho
  refine ⟨⟨hs.env, fun w hw => ?_, hs.items, hs.size, hs.lists, hs.others⟩, le_rfl, fun _ _ => trivial⟩
  cases hw
  exact h.mono ho

theorem orderly_clearReturn : Orderly start o (fun _ _ => True) clearReturn :=
  fun _ hs _ => ⟨⟨hs.env, nofun, hs.items, hs.size, hs.lists, hs.others⟩, le_rfl, fun _ _ => trivial⟩

/-! ## Frames -/

theorem orderly_pushed {s : State} (hs : start.Orderly s) {g : Frame} (hg : g.All s.owned.Admits) :
    start.Orderly { s with env := s.env.push g } :=
  ⟨hs.env.push hg, hs.returning, hs.items, hs.size, hs.lists, hs.others⟩

theorem orderly_entered {s : State} (hs : start.Orderly s) {g : Frame} (hg : g.All s.owned.Admits) (dynamic : Bool) :
    start.Orderly { s with env := s.env.enter g dynamic } :=
  ⟨hs.env.enter hg dynamic, hs.returning, hs.items, hs.size, hs.lists, hs.others⟩

theorem Orderly.inFrame {body : Eval α} (h : Orderly start o P body) (name : String) :
    Orderly start o P (inFrame name body) := by
  intro s hs ho
  obtain ⟨ht, hle, hvalue⟩ := h _ (orderly_pushed hs (Frame.All.empty name)) ho
  exact ⟨⟨ht.env.pop, ht.returning, ht.items, ht.size, ht.lists, ht.others⟩, hle, hvalue⟩

theorem Orderly.inCall {body : Eval Unit} {arguments : Frame} (h : Orderly start o (fun _ _ => True) body)
    (hframe : arguments.All o.Admits) (dynamic : Bool) :
    Orderly start o Owned.Admits (inCall arguments dynamic body) := by
  intro s hs ho
  obtain ⟨ht, hle, -⟩ := h _ (orderly_entered hs (hframe.imp fun v hv => hv.mono ho) dynamic) ho
  unfold Eval.inCall
  generalize body { s with env := s.env.enter arguments dynamic } = ending at ht hle ⊢
  obtain ⟨result, t⟩ := ending
  have hle : s.owned ≤ t.owned := hle
  have hcaller : s.env.All t.owned.Admits := hs.env.imp fun v hv => hv.mono hle
  refine ⟨⟨hcaller.leave ht.env dynamic, nofun, ht.items, ht.size, ht.lists, ht.others⟩, hle, fun v hv => ?_⟩
  cases result with
  | error e => cases hv
  | ok a =>
    cases hv
    rcases hreturning : t.returning with _ | w
    · trivial
    · exact ht.returning w hreturning

end Eval

/-! ## Functions of the host -/

/-- from this state on, the routine hands over no lists and no strings but those that the script owns -/
def Routine.Discreet {m : Manners} : Routine m → State → Prop
  | .reply r, s => ∀ v, r = .value v → s.owned.Admits v
  | .fail _, _ => True
  | .look next, s => (next s).Discreet s
  | .lists heap next, s => s.heap.Rearranged s.owned heap ∧ next.Discreet { s with heap := heap }
  | .print owner text next, s => next.Discreet { s with output := s.output.push (owner, text) }
  | .call _ _ arguments next, s => (∀ v ∈ arguments, s.owned.Admits v) ∧
      ∀ result t, s.owned ≤ t.owned → (∀ v, result = .ok v → t.owned.Admits v) → (next result).Discreet t
  | .install _ name f next, s => next.Discreet (s.install name f)

/-- called with values that the script owns, the function takes the steps of a discreet routine -/
def HostFunction.Discreet (m : Manners) (f : HostFunction) : Prop :=
  ∀ arguments, ∃ r : Routine m, (∀ callBack, f callBack arguments = r.run callBack) ∧
    ∀ s : State, (∀ v ∈ arguments, s.owned.Admits v) → r.Discreet s

def Setting.Discreet (m : Manners) (setting : Setting) : Prop := ∀ number, (setting.host number).Discreet m

/-- a function that gives a value which needs no owner -/
theorem HostFunction.discreet_reply (m : Manners) {r : Reply} (h : ∀ v, r = .value v → v.Plain) :
    HostFunction.Discreet m fun _ _ => return r :=
  fun _ => ⟨.reply r, fun _ => rfl, fun _ _ v hv => Owned.admits_of_plain (h v hv)⟩

namespace Eval

variable {start : State} {m : Manners}

theorem orderly_rearranged {s : State} {heap : Heap} (hs : start.Orderly s) (h : s.heap.Rearranged s.owned heap) :
    start.Orderly { s with heap := heap } := by
  refine ⟨hs.env, hs.returning, h.items, hs.size.trans_eq h.size.symm, ?_, fun a ha hother => ?_⟩
  · change s.owned.lists.toList = _ ++ List.range' _ (heap.cells.size - _)
    rw [h.size]
    exact hs.lists
  · have hunowned : a ∉ s.owned.lists := fun hmem =>
      ((hs.mem_lists a).1 hmem).elim hother fun hnew => absurd ha (Nat.not_lt.2 hnew.1)
    exact (h.others a hunowned).trans (hs.others a ha hother)

theorem orderly_installed {s : State} (hs : start.Orderly s) (name : String) (f : Native) :
    start.Orderly (s.install name f) ∧ (s.install name f).owned = s.owned := by
  unfold State.install
  split_ifs
  · exact ⟨hs, rfl⟩
  · have hnative : s.owned.Admits (.native f) := trivial
    have hglobals : (s.env.globals.set name (.native f)).All s.owned.Admits := hs.env.globals.set hnative name
    exact ⟨⟨⟨hglobals, hs.env.locals⟩, hs.returning, hs.items, hs.size, hs.lists, hs.others⟩, rfl⟩

/-- functions that can be called by name and give what the script owns, or an error value -/
abbrev OrderlyCalls (start : State) (callBack : String → List Val → Eval Val) : Prop :=
  ∀ name o arguments, (∀ v ∈ arguments, o.Admits v) → Orderly start o Owned.Admits (callBack name arguments)

/-- an error value needs no owner -/
theorem orderlyCalls_of {callBack : String → List Val → Eval Val}
    (h : ∀ name o arguments, (∀ v ∈ arguments, o.Admits v) →
      Orderly start o (fun o' v => v.type ≠ .error → o'.Admits v) (callBack name arguments)) :
    OrderlyCalls start callBack := by
  intro name o arguments harguments s hs ho
  obtain ⟨ht, hle, hvalue⟩ := h name o arguments harguments s hs ho
  refine ⟨ht, hle, fun v hv => ?_⟩
  cases v with
  | list | string => exact hvalue _ hv nofun
  | _ => trivial

/-- a discreet routine keeps states orderly, by induction on its steps -/
theorem orderly_routine {callBack : String → List Val → Eval Val} (hcall : OrderlyCalls start callBack) (r : Routine m)
    {s : State} (hs : start.Orderly s) (h : r.Discreet s) :
    start.Orderly (r.run callBack s).2 ∧ s.owned ≤ (r.run callBack s).2.owned ∧
      ∀ reply, (r.run callBack s).1 = .ok reply → ∀ v, reply = .value v → (r.run callBack s).2.owned.Admits v := by
  induction r generalizing s with
  | reply r =>
    refine ⟨hs, le_rfl, fun reply hreply => ?_⟩
    cases hreply
    exact h
  | fail e => exact ⟨hs, le_rfl, nofun⟩
  | look next ih => exact ih s hs h
  | lists heap next ih => exact ih (orderly_rearranged hs h.1) h.2
  | print owner text next ih =>
    exact ih (hs.elsewhere _ _) h
  | call allowed name arguments next ih =>
    obtain ⟨ht, hle, hresult⟩ := hcall name s.owned arguments h.1 s hs le_rfl
    obtain ⟨hu, hle', hreply⟩ := ih _ ht (h.2 _ _ hle hresult)
    exact ⟨hu, hle.trans hle', hreply⟩
  | install allowed name f next ih =>
    obtain ⟨ht, hsame⟩ := orderly_installed hs name f
    obtain ⟨hu, hle, hreply⟩ := ih ht h
    exact ⟨hu, hsame.ge.trans hle, hreply⟩

end Eval

/-! ## Runs -/

/-- what runs in such a setting do with what the script owns, as a judgement: a value is allowed if it is on the
record -/
def orderliness {m : Manners} {setting : Setting} (hs : setting.Discreet m) (start : State) : Judgement Owned setting where
  Admits := Owned.Admits
  Holds o P c := Eval.Orderly start o P c
  mono := Owned.Admits.mono
  plain := Owned.admits_of_plain
  pure := Eval.orderly_pure
  throw := Eval.orderly_throw
  bind := Eval.Orderly.bind
  tryCatch := Eval.Orderly.tryCatch
  look _ h := fun s hs ho => h s s hs ho
  lookup := Eval.orderly_lookup
  items := Eval.orderly_items
  isReturning := Eval.orderly_of_same (fun _ => ⟨rfl, rfl, rfl, rfl⟩) fun _ _ _ _ => trivial
  declare := Eval.orderly_declare
  assign := Eval.orderly_assign
  newList := Eval.orderly_newList
  newString := Eval.orderly_newString
  modifyList := Eval.orderly_modifyList
  startReturn := Eval.orderly_startReturn
  write _ _ := Eval.orderly_of_same (fun _ => ⟨rfl, rfl, rfl, rfl⟩) fun _ _ _ _ => trivial
  clearReturn := Eval.orderly_clearReturn
  setLastError _ := Eval.orderly_of_same (fun _ => ⟨rfl, rfl, rfl, rfl⟩) fun _ _ _ _ => trivial
  inFrame := Eval.Orderly.inFrame
  inCall h hbody decl dynamic := Eval.Orderly.inCall hbody (all_argumentFrame h decl) dynamic
  host {callBack} hcall number o arguments h := by
    obtain ⟨r, hr, hdiscreet⟩ := hs number arguments
    intro s hs ho
    rw [hr]
    have hdiscreet := hdiscreet s fun v hv => (h v hv).mono ho
    obtain ⟨ht, hle, hreply⟩ := Eval.orderly_routine (Eval.orderlyCalls_of hcall) r hs hdiscreet
    exact ⟨ht, hle, fun reply hrun v hv _ => hreply reply hrun v hv⟩

section Runs

variable {m : Manners} {setting : Setting} (hs : setting.Discreet m) {start : State} {o : Owned} (depth : Nat)

include hs

theorem orderly_exec (stmt : Stmt) : Eval.Orderly start o (fun _ _ => True) (exec setting depth stmt) :=
  ((orderliness hs start).run depth).exec stmt o

theorem orderly_test (e : Expr) : Eval.Orderly start o (fun _ _ => True) (test setting depth e) :=
  ((orderliness hs start).run depth).test e o

theorem orderly_eval (e : Expr) : Eval.Orderly start o Owned.Admits (eval setting depth e) :=
  ((orderliness hs start).run depth).eval e o

theorem orderly_resolve (target : Expr) :
    Eval.Orderly start o (fun o' slot => ∀ a place, slot = .item a place → o'.Admits (.list a))
      (resolve setting depth target) :=
  ((orderliness hs start).run depth).resolve target o

theorem orderly_callFunction (decl : Function) {arguments : List Val} (dynamic : Bool)
    (h : ∀ v ∈ arguments, o.Admits v) :
    Eval.Orderly start o Owned.Admits (callFunction setting depth decl arguments dynamic) :=
  ((orderliness hs start).run depth).call decl arguments dynamic o h

theorem orderly_callByName : Eval.OrderlyCalls start (callByName setting depth) :=
  Eval.orderlyCalls_of ((orderliness hs start).run depth).callByName

omit depth in
theorem orderly_execTop (stmt : Stmt) : Eval.Orderly start o (fun _ _ => True) (execTop setting stmt) :=
  (orderliness hs start).execTop stmt o

/-- several expressions, each with a step after it that keeps what the script owns -/
theorem orderly_mapM {α : Type} {f : α → Eval Val} (hf : ∀ a o, Eval.Orderly start o Owned.Admits (f a)) (l : List α) :
    Eval.Orderly start o (fun o' vs => ∀ v ∈ vs, o'.Admits v) (l.mapM f) :=
  Judgement.mapM (J := orderliness hs start) hf l o

end Runs

end LevelScript
