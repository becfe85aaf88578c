/-
The states from which assignments start.

What an assignment reads and writes is known where it starts from a state in which no name and no list refers to a list
that has not been made. Every assignment that a load or a call evaluates starts from such a state
(`assignments_start_intact`): the lists on the record of the script have been made and hold nothing but what is on the
record, and the others are as the workspace had them, whose lists have been made as well (`lists_have_been_made`).
-/
import LevelScript.Proofs.ListOwners

namespace LevelScript

open LevelScript.Syntax

theorem Owned.Proper.within {o : Owned} {h : Heap} (ho : o.Proper h) {v : Val} (hv : o.Admits v) :
    v.Within h.cells.size := by
  cases v with
  | list a => exact ho.made a hv
  | _ => trivial

/-- a state that a run may come to is intact if the lists at its start are -/
theorem State.Orderly.intact {start s : State} (h : start.Orderly s) (hproper : start.owned.Proper start.heap)
    (hheap : start.heap.Intact) : s.Intact start.heap.cells.size := by
  have hmade : s.owned.Proper s.heap := h.proper hproper
  refine ⟨h.size, ?env, ?returning, ?items⟩
  case env => exact .of_all (h.env.imp fun _ hv => hmade.within hv)
  case returning => exact fun v hv => hmade.within (h.returning v hv)
  case items =>
    intro a v hv
    by_cases howned : a ∈ s.owned.lists
    · exact hmade.within (h.items a howned v hv)
    -- a list that is not on the record was there at the start, and has not been changed
    have hunowned : a ∉ start.owned.lists := fun hmem => howned ((h.mem_lists a).2 (.inl hmem))
    have hold : a < start.heap.cells.size := by
      by_contra hge
      have hbeyond : s.heap.cells.size ≤ a :=
        Nat.le_of_not_lt fun hlt => howned ((h.mem_lists a).2 (.inr ⟨Nat.le_of_not_lt hge, hlt⟩))
      simp [Heap.items, Array.getElem?_eq_none hbeyond] at hv
    rw [h.others a hold hunowned] at hv
    exact (hheap a v hv).mono h.size

/-- the run from a position evaluates assignments in intact states only, with at least `size` lists, and stores their
values in closed ones; the functions of the host store and give back no lists but those that have been made -/
structure AssignsIntact {m : Manners} (setting : Setting) (p : Position m) (size : Nat) : Prop where
  host : setting.Intact
  start : ∀ q token target value, Reaches setting p q → q.part = .expr (.assign token target value) →
    q.state.Intact size
  stores : ∀ q token target value depth v t, Reaches setting p q → q.part = .expr (.assign token target value) →
    eval setting depth value q.state = (.ok v, t) → t.Closed

/-- a run of discreet functions from intact lists assigns in intact states -/
theorem assignsIntact_of_orderly {m : Manners} {setting : Setting} (hs : setting.Discreet m) (hintact : setting.Intact)
    {start : State} (hproper : start.owned.Proper start.heap) (hheap : start.heap.Intact) {p : Position m}
    (hp : p.Orderly start) : AssignsIntact setting p start.heap.cells.size := by
  have hstate {q : Position m} (hreaches : Reaches setting p q) : q.state.Intact start.heap.cells.size :=
    (orderly_of_reaches hs hp hreaches).1.state.intact hproper hheap
  refine ⟨hintact, fun q _ _ _ hreaches _ => hstate hreaches, ?stores⟩
  case stores =>
    intro q token target value depth v t hreaches _ hrun
    have hclosed := closed_eval hintact depth value (hstate hreaches)
    rwa [hrun] at hclosed

namespace Workspace

/-- **Assignments start from intact states.** Let a host hand over no lists but those that have been made, and to each
script none but its own. Then in every load of a text, and in every call of a function, assignments are evaluated in
intact states, and their values leave closed ones. -/
theorem assignments_start_intact {m : Manners} {w : Workspace} (hmade : w.Honest) (howned : w.Discreet m) :
    (∀ path source dynamic, AssignsIntact ((w.opened path source dynamic).setting w.scripts.size)
      (w.loadPosition m path source dynamic) w.heap.cells.size) ∧
    ∀ number env declarations name arguments, (w.script number).env = some env →
      (∀ v ∈ arguments, (w.script number).owned.Admits v) →
        AssignsIntact (w.setting number) (w.callPosition m number env declarations name arguments)
          w.heap.cells.size := by
  have hw := howned.orderly
  have hintact := lists_have_been_made hmade
  refine ⟨?loads, ?calls⟩
  case loads =>
    intro path source dynamic
    have hheap : (w.loadState path source dynamic).heap = w.heap := heap_opened w path source dynamic
    have hsetting := setting_intact (natives_opened w path source dynamic ▸ hintact.natives) w.scripts.size
    rw [← hheap]
    exact assignsIntact_of_orderly (hw.discreet_opened path source dynamic) hsetting (proper_loadState _ _ _ _)
      (hheap ▸ hintact.heap) (orderly_loadPosition w path source dynamic)
  case calls =>
    intro number env declarations name arguments henv harguments
    exact assignsIntact_of_orderly (hw.discreet number) (setting_intact hintact.natives number)
      (hw.scripts number).proper hintact.heap (hw.orderly_callPosition henv declarations name harguments)

end Workspace

end LevelScript
