/-
Lists that have been made.

A list value is an address, and the heap gives addresses out in order. A state is intact if every list that a frame, a
value under return or another list refers to has been made: then no list that is made later can be mistaken for it.
`Eval.Intact`: a computation leaves an intact state, however it ends, and its value, if it has one, refers to no other
lists. The frames of a caller come back at the end of a call, so no computation may take lists away.
-/
import LevelScript.Proofs.Frames
import LevelScript.Proofs.SteadyExpressions

namespace LevelScript

open LevelScript.Syntax

/-! ## Frames and environments -/

/-- every list that a name of the frame means is one of the first ones -/
def Frame.Within (size : Nat) (f : Frame) : Prop := ∀ name v, f.get? name = some v → v.Within size

theorem Frame.Within.mono {size size' : Nat} {f : Frame} (h : f.Within size) (hle : size ≤ size') : f.Within size' :=
  Frame.All.imp h fun _ hv => hv.mono hle

theorem within_argumentFrame {size : Nat} {arguments : List Val} (h : ∀ v ∈ arguments, v.Within size)
    (decl : Function) : (argumentFrame decl arguments).Within size :=
  all_argumentFrame h decl

structure Env.Within (size : Nat) (e : Env) : Prop where
  globals : e.globals.Within size
  locals : ∀ f ∈ e.locals, f.Within size

namespace Env.Within

variable {size : Nat} {e f : Env}

theorem all (h : e.Within size) : e.All (Val.Within size) := ⟨h.globals, h.locals⟩

theorem of_all (h : e.All (Val.Within size)) : e.Within size := ⟨h.globals, h.locals⟩

theorem mono (h : e.Within size) {size' : Nat} (hle : size ≤ size') : e.Within size' :=
  of_all (h.all.imp fun _ hv => hv.mono hle)

theorem lookup (h : e.Within size) {name : String} {v : Val} (hv : e.lookup? name = some v) : v.Within size :=
  h.all.lookup hv

theorem declare (h : e.Within size) {name : String} {v : Val} (hv : v.Within size)
    (hf : e.declare? name v = some f) : f.Within size :=
  of_all (h.all.declare hv hf)

theorem assign (h : e.Within size) {v : Val} (hv : v.Within size) (name : String) : (e.assign name v).Within size :=
  of_all (h.all.assign hv name)

theorem push (h : e.Within size) {g : Frame} (hg : g.Within size) : (e.push g).Within size :=
  of_all (h.all.push hg)

theorem pop (h : e.Within size) : e.pop.Within size := of_all h.all.pop

theorem enter (h : e.Within size) {arguments : Frame} (hg : arguments.Within size) (dynamic : Bool) :
    (e.enter arguments dynamic).Within size :=
  of_all (h.all.enter hg dynamic)

theorem leave (hcaller : e.Within size) (hcallee : f.Within size) (dynamic : Bool) :
    (Env.leave e f dynamic).Within size :=
  of_all (hcaller.all.leave hcallee.all dynamic)

end Env.Within

/-! ## States -/

theorem Heap.Intact.modify {h : Heap} (hh : h.Intact) {a : Nat} {change : Array Val → Array Val}
    (hchange : ∀ v ∈ change (h.items a), v.Within h.cells.size) : (h.modify a change).Intact := by
  intro b v hmem
  rw [Heap.size_modify]
  rw [Heap.items_modify] at hmem
  split_ifs at hmem with hb
  · obtain ⟨rfl, -⟩ := hb
    exact hchange v hmem
  · exact hh b v hmem

theorem Heap.size_empty (h : Heap) (addresses : List Nat) : (h.empty addresses).cells.size = h.cells.size := by
  induction addresses generalizing h with
  | nil => rfl
  | cons a addresses ih => exact (ih _).trans (h.size_modify a _)

theorem Heap.Intact.empty {h : Heap} (hh : h.Intact) (addresses : List Nat) : (h.empty addresses).Intact := by
  induction addresses generalizing h with
  | nil => exact hh
  | cons a addresses ih => exact ih (hh.modify (by simp))

/-- there are at least `least` lists, and every list that a frame, the value under return or a list refers to has been
made -/
structure State.Intact (least : Nat) (s : State) : Prop where
  size : least ≤ s.heap.cells.size
  env : s.env.Within s.heap.cells.size
  returning : ∀ v, s.returning = some v → v.Within s.heap.cells.size
  heap : s.heap.Intact

theorem State.Intact.closed {least : Nat} {s : State} (h : s.Intact least) : s.Closed :=
  ⟨fun _ _ hv => h.env.lookup hv, h.heap⟩

theorem State.Intact.mono {least least' : Nat} {s : State} (h : s.Intact least) (hle : least' ≤ least) :
    s.Intact least' :=
  ⟨hle.trans h.size, h.env, h.returning, h.heap⟩

theorem State.Intact.all {least : Nat} {s : State} (h : s.Intact least) : s.Intact s.heap.cells.size :=
  ⟨le_rfl, h.env, h.returning, h.heap⟩

/-! ## Computations -/

namespace Eval

variable {α β : Type} {within : Nat → α → Prop} {within' : Nat → β → Prop} {least : Nat}

/-- from an intact state with at least `least` lists, the computation comes to an intact state with no fewer lists than
before, where its value, if it has one, fits their number -/
def Intact (within : Nat → α → Prop) (least : Nat) (c : Eval α) : Prop :=
  ∀ n ≥ least, ∀ s : State, s.Intact n →
    (c s).2.Intact n ∧ ∀ a, (c s).1 = .ok a → within (c s).2.heap.cells.size a

/-- a computation whose value refers to no list -/
abbrev Safe (least : Nat) (c : Eval α) : Prop := Intact (fun _ _ => True) least c

theorem Intact.mono {c : Eval α} (h : Intact within least c) {least' : Nat} (hle : least ≤ least') :
    Intact within least' c :=
  fun n hn => h n (hle.trans hn)

theorem Intact.imp {c : Eval α} (h : Intact within least c) {within' : Nat → α → Prop}
    (himp : ∀ size a, within size a → within' size a) : Intact within' least c := by
  intro n hn s hs
  obtain ⟨ht, hvalue⟩ := h n hn s hs
  exact ⟨ht, fun a ha => himp _ _ (hvalue a ha)⟩

theorem intact_pure {a : α} (h : ∀ size ≥ least, within size a) : Intact within least (pure a) := by
  intro n hn s hs
  refine ⟨hs, fun b hb => ?_⟩
  cases hb
  exact h _ (hn.trans hs.size)

theorem intact_throw (e : Interrupt) : Intact within least (throw e : Eval α) := fun _ _ _ hs => ⟨hs, nofun⟩

theorem Intact.bind {m : Eval α} {f : α → Eval β} (hm : Intact within least m)
    (hf : ∀ size a, least ≤ size → within size a → Intact within' size (f a)) : Intact within' least (m >>= f) := by
  intro n hn s hs
  obtain ⟨ht, hvalue⟩ := hm n hn s hs
  rcases hrun : m s with ⟨e | a, t⟩ <;> rw [hrun] at ht hvalue
  · rw [run_bind_error hrun]
    exact ⟨ht, nofun⟩
  · rw [run_bind_ok hrun]
    obtain ⟨hu, hresult⟩ := hf _ a (hn.trans ht.size) (hvalue a rfl) _ le_rfl t ht.all
    exact ⟨hu.mono ht.size, hresult⟩

theorem Intact.tryCatch {m : Eval α} {handler : Interrupt → Eval α} (hm : Intact within least m)
    (hh : ∀ e, Intact within least (handler e)) : Intact within least (tryCatch m handler) := by
  intro n hn s hs
  obtain ⟨ht, hvalue⟩ := hm n hn s hs
  rcases hrun : m s with ⟨e | a, t⟩ <;> rw [hrun] at ht hvalue
  · rw [run_catch_error hrun]
    exact hh e n hn t ht
  · rw [run_catch_ok hrun]
    exact ⟨ht, hvalue⟩

/-! ## Steps -/

/-- a step that leaves the frames, the lists and the value under return alone -/
theorem intact_of_same {m : Eval α} (h : ∀ s, (m s).2.env = s.env ∧ (m s).2.returning = s.returning ∧
      (m s).2.heap = s.heap)
    (hvalue : ∀ s : State, s.Intact least → ∀ a, (m s).1 = .ok a → within s.heap.cells.size a) :
    Intact within least m := by
  intro n hn s hs
  obtain ⟨henv, hreturning, hheap⟩ := h s
  refine ⟨⟨?_, ?_, ?_, ?_⟩, ?_⟩ <;> simp only [henv, hreturning, hheap]
  · exact hs.size
  · exact hs.env
  · exact hs.returning
  · exact hs.heap
  · exact hvalue s (hs.mono hn)

theorem intact_lookup (name : String) :
    Intact (fun size found => ∀ v, found = some v → v.Within size) least (lookup? name) := by
  refine intact_of_same (fun _ => ⟨rfl, rfl, rfl⟩) fun s hs found hfound v hv => ?_
  cases hfound
  exact hs.env.lookup hv

theorem safe_get : Safe least (get : Eval State) :=
  intact_of_same (fun _ => ⟨rfl, rfl, rfl⟩) fun _ _ _ _ => trivial

theorem safe_setLastError (d : Option Diagnostic) :
    Safe least (modify fun s : State => { s with lastError := d }) :=
  intact_of_same (fun _ => ⟨rfl, rfl, rfl⟩) fun _ _ _ _ => trivial

theorem safe_isReturning : Safe least isReturning :=
  intact_of_same (fun _ => ⟨rfl, rfl, rfl⟩) fun _ _ _ _ => trivial

theorem safe_write (owner : Nat) (text : String) : Safe least (write owner text) :=
  intact_of_same (fun _ => ⟨rfl, rfl, rfl⟩) fun _ _ _ _ => trivial

theorem intact_newString (text : String) : Intact Val.Within least (newString text) := by
  refine intact_of_same (fun _ => ⟨rfl, rfl, rfl⟩) fun s _ v hv => ?_
  cases hv
  trivial

theorem intact_items (address : Nat) :
    Intact (fun size items => ∀ v ∈ items, v.Within size) least (items address) := by
  refine intact_of_same (fun _ => ⟨rfl, rfl, rfl⟩) fun s hs items hitems => ?_
  cases hitems
  exact hs.heap address

theorem intact_newList {values : Array Val} (h : ∀ v ∈ values, v.Within least) :
    Intact Val.Within least (newList values) := by
  intro n hn s hs
  have hsize : s.heap.cells.size < (s.heap.insert values).2.cells.size := by simp
  have hheap := hs.heap.insert fun v hv => (h v hv).mono (hn.trans hs.size)
  refine ⟨⟨hs.size.trans hsize.le, hs.env.mono hsize.le, fun v hv => (hs.returning v hv).mono hsize.le, hheap⟩, ?_⟩
  intro v hv
  cases hv
  exact hsize

theorem safe_modifyList {change : Array Val → Array Val}
    (h : ∀ size ≥ least, ∀ items : Array Val, (∀ v ∈ items, v.Within size) → ∀ v ∈ change items, v.Within size)
    (address : Nat) : Safe least (modifyList address change) := by
  intro n hn s hs
  have hsize : (s.heap.modify address change).cells.size = s.heap.cells.size := Heap.size_modify _ _ _
  have hheap := hs.heap.modify (h _ (hn.trans hs.size) _ (hs.heap address))
  refine ⟨⟨hs.size.trans_eq hsize.symm, ?_, ?_, hheap⟩, fun _ _ => trivial⟩
  · exact hs.env.mono hsize.ge
  · exact fun v hv => (hs.returning v hv).mono hsize.ge

theorem safe_declare {v : Val} (h : v.Within least) (name : String) (span : Span) :
    Safe least (declare name v span) := by
  intro n hn s hs
  unfold declare
  split
  · rename_i env henv
    refine ⟨⟨hs.size, ?_, hs.returning, hs.heap⟩, fun _ _ => trivial⟩
    exact hs.env.declare (h.mono (hn.trans hs.size)) henv
  · exact ⟨hs, fun _ _ => trivial⟩

theorem safe_assign {v : Val} (h : v.Within least) (name : String) : Safe least (assign name v) := by
  intro n hn s hs
  have henv := hs.env.assign (h.mono (hn.trans hs.size)) name
  exact ⟨⟨hs.size, henv, hs.returning, hs.heap⟩, fun _ _ => trivial⟩

theorem safe_startReturn {v : Val} (h : v.Within least) : Safe least (startReturn v) := by
  intro n hn s hs
  refine ⟨⟨hs.size, hs.env, fun w hw => ?_, hs.heap⟩, fun _ _ => trivial⟩
  cases hw
  exact h.mono (hn.trans hs.size)

theorem safe_clearReturn : Safe least clearReturn :=
  fun _ _ _ hs => ⟨⟨hs.size, hs.env, nofun, hs.heap⟩, fun _ _ => trivial⟩

/-! ## Frames -/

theorem Intact.inFrame {body : Eval α} (h : Intact within least body) (name : String) :
    Intact within least (inFrame name body) := by
  intro n hn s hs
  have hpushed : State.Intact n { s with env := s.env.push ⟨name, []⟩ } :=
    ⟨hs.size, hs.env.push (Frame.All.empty name), hs.returning, hs.heap⟩
  obtain ⟨ht, hvalue⟩ := h n hn _ hpushed
  exact ⟨⟨ht.size, ht.env.pop, ht.returning, ht.heap⟩, hvalue⟩

theorem Safe.inCall {body : Eval Unit} {arguments : Frame} (h : Safe least body) (hframe : arguments.Within least)
    (dynamic : Bool) : Intact Val.Within least (inCall arguments dynamic body) := by
  intro n hn s hs
  have hentered : State.Intact s.heap.cells.size { s with env := s.env.enter arguments dynamic } :=
    ⟨le_rfl, hs.env.enter (hframe.mono (hn.trans hs.size)) dynamic, hs.returning, hs.heap⟩
  obtain ⟨ht, -⟩ := h _ (hn.trans hs.size) _ hentered
  unfold Eval.inCall
  generalize body { s with env := s.env.enter arguments dynamic } = ending at ht ⊢
  obtain ⟨result, t⟩ := ending
  -- the frames of the caller are as old as the call, so their lists are still there
  refine ⟨⟨hs.size.trans ht.size, (hs.env.mono ht.size).leave ht.env dynamic, nofun, ht.heap⟩, fun v hv => ?_⟩
  cases result with
  | error e => cases hv
  | ok a =>
    cases hv
    rcases hreturning : t.returning with _ | w
    · trivial
    · exact ht.returning w hreturning

end Eval

end LevelScript
