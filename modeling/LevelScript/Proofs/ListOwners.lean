/-
Every list of a script has one owner.

A host that hands over no lists and no strings of its own takes one step after the other: it loads, runs and unloads
scripts, installs discreet functions and changes lists of a script within what that script owns. Then each script owns
what is in use there, and no list has two owners (`Workspace.Orderly`). What a load or a call makes is on the record of
the script, until it is unloaded and all lists on its record are emptied (`Advance`). `lists_have_one_owner` puts this
together with the states in the middle of a run.
-/
import LevelScript.Proofs.DeclaredTypes
import LevelScript.Proofs.IntactRuns
import LevelScript.Proofs.ValuesInUse

namespace LevelScript

open LevelScript.Syntax

/-! ## Emptied lists -/

theorem Heap.items_empty (h : Heap) (addresses : List Nat) (a : Nat) :
    (h.empty addresses).items a = if a ∈ addresses then #[] else h.items a := by
  induction addresses generalizing h with
  | nil => simp [Heap.empty]
  | cons b addresses ih =>
    have hitems : (h.modify b fun _ => #[]).items a = if a = b then #[] else h.items a := by
      rw [Heap.items_modify]
      by_cases hab : a = b
      · subst hab
        by_cases ha : a < h.cells.size
        · simp [ha]
        · simp [ha, Heap.items]
      · simp [hab, Ne.symm hab]
    change ((h.modify b fun _ => #[]).empty addresses).items a = _
    rw [ih, hitems]
    by_cases hmem : a ∈ addresses <;> by_cases hab : a = b <;> simp [hmem, hab]

/-! ## Scripts and workspaces -/

structure Script.Orderly (heap : Heap) (s : Script) : Prop where
  env : ∀ env, s.env = some env → env.All s.owned.Admits
  returning : ∀ v, s.returning = some v → s.owned.Admits v
  items : ∀ a ∈ s.owned.lists, ∀ v ∈ heap.items a, s.owned.Admits v
  proper : s.owned.Proper heap

theorem Script.orderly_unloaded (heap : Heap) (s : Script) : s.unloaded.Orderly heap :=
  ⟨nofun, nofun, by simp [Script.unloaded], ⟨by simp [Script.unloaded], by simp [Script.unloaded]⟩⟩

namespace Workspace

/-- the functions of the host are discreet, each script owns what it has in use, and no list has two owners -/
structure Orderly (m : Manners) (w : Workspace) : Prop where
  natives : ∀ f ∈ w.natives, HostFunction.Discreet m f
  scripts : ∀ k, (w.script k).Orderly w.heap
  apart : ∀ j k, j ≠ k → ∀ a ∈ (w.script j).owned.lists, a ∉ (w.script k).owned.lists

/-- the list has been made, is empty, and no script owns it -/
structure GivenUp (w : Workspace) (a : Nat) : Prop where
  made : a < w.heap.cells.size
  items : w.heap.items a = #[]
  unowned : ∀ k, a ∉ (w.script k).owned.lists

/-- from one workspace to another, a script takes over the lists that are made, and lists change hands in no other way
than that they are given up -/
structure Advance (m : Manners) (number : Nat) (w w' : Workspace) : Prop where
  orderly : w'.Orderly m
  kept : ∀ k, ∀ a ∈ (w.script k).owned.lists, a ∈ (w'.script k).owned.lists ∨ w'.GivenUp a
  givenUp : ∀ a, w.GivenUp a → w'.GivenUp a
  made : ∀ a, w.heap.cells.size ≤ a → a < w'.heap.cells.size → a ∈ (w'.script number).owned.lists ∨ w'.GivenUp a

namespace Advance

variable {m : Manners} {number : Nat} {w w' w'' : Workspace}

/-- one step after the other; the second one may count on an orderly workspace -/
theorem trans (h : Advance m number w w') (hnext : w'.Orderly m → Advance m number w' w'') :
    Advance m number w w'' := by
  have h' := hnext h.orderly
  have hfate {k a : Nat} (ha : a ∈ (w'.script k).owned.lists ∨ w'.GivenUp a) :
      a ∈ (w''.script k).owned.lists ∨ w''.GivenUp a :=
    ha.elim (h'.kept k a) fun hgiven => .inr (h'.givenUp a hgiven)
  refine ⟨h'.orderly, fun k a ha => hfate (h.kept k a ha), fun a ha => h'.givenUp a (h.givenUp a ha), fun a hge hlt => ?_⟩
  by_cases hold : a < w'.heap.cells.size
  · exact hfate (h.made a hge hold)
  · exact h'.made a (Nat.le_of_not_lt hold) hlt

/-- a step after which no script has more in use than before, nor the host a function that is not discreet -/
theorem of_same (hw : w.Orderly m) (number : Nat) (hnatives : ∀ f ∈ w'.natives, HostFunction.Discreet m f)
    (hsize : w'.heap.cells.size = w.heap.cells.size) (howned : ∀ k, (w'.script k).owned = (w.script k).owned)
    (hscripts : ∀ k, (w'.script k).Orderly w'.heap)
    (hothers : ∀ a, (∀ k, a ∉ (w.script k).owned.lists) → w'.heap.items a = w.heap.items a) :
    Advance m number w w' := by
  refine ⟨⟨hnatives, hscripts, fun j k hjk => ?_⟩, fun k a ha => .inl ?_, fun a ha => ⟨?_, ?_, ?_⟩, fun a hge hlt => ?_⟩
  · rw [howned, howned]
    exact hw.apart j k hjk
  · rwa [howned]
  · exact hsize ▸ ha.made
  · exact (hothers a ha.unowned).trans ha.items
  · exact fun k => howned k ▸ ha.unowned k
  · exact absurd hlt (Nat.not_lt.2 (hsize ▸ hge))

/-- a step that changes nothing that scripts have in use or own -/
theorem alike (hw : w.Orderly m) (number : Nat) (hnatives : w'.natives = w.natives) (hheap : w'.heap = w.heap)
    (hscripts : ∀ k, (w'.script k).env = (w.script k).env ∧ (w'.script k).returning = (w.script k).returning ∧
      (w'.script k).owned = (w.script k).owned) : Advance m number w w' := by
  refine of_same hw number (hnatives ▸ hw.natives) (by rw [hheap]) (fun k => (hscripts k).2.2) (fun k => ?_)
    fun a _ => by rw [hheap]
  obtain ⟨henv, hreturning, howned⟩ := hscripts k
  obtain ⟨h₁, h₂, h₃, h₄⟩ := hw.scripts k
  constructor <;> simp only [henv, hreturning, howned, hheap] <;> assumption

end Advance

/-! ## Runs of a script -/

/-- one workspace comes from another by a run of a script, from a start that has what the script owns to an orderly end,
which the script is left in -/
structure Ran (number : Nat) (start t : State) (w w' : Workspace) : Prop where
  heap : start.heap = w.heap
  owned : start.owned = (w.script number).owned
  orderly : start.Orderly t
  natives : w'.natives = w.natives
  heap' : w'.heap = t.heap
  owned' : (w'.script number).owned = t.owned
  env : ∀ env, (w'.script number).env = some env → env = t.env
  returning : (w'.script number).returning = t.returning
  others : ∀ k, k ≠ number → w'.script k = w.script k

namespace Ran

variable {m : Manners} {number : Nat} {start t : State} {w w' : Workspace} (h : Ran number start t w w')

include h

theorem size : w.heap.cells.size ≤ w'.heap.cells.size := by
  rw [h.heap', ← h.heap]
  exact h.orderly.size

theorem mem_owned (a : Nat) : a ∈ (w'.script number).owned.lists ↔
    a ∈ (w.script number).owned.lists ∨ w.heap.cells.size ≤ a ∧ a < w'.heap.cells.size := by
  rw [h.owned', h.orderly.mem_lists, h.owned, h.heap, h.heap']

theorem mem_owned_of_lt {a : Nat} (ha : a < w.heap.cells.size) (hmem : a ∈ (w'.script number).owned.lists) :
    a ∈ (w.script number).owned.lists :=
  ((h.mem_owned a).1 hmem).resolve_right fun hnew => absurd ha (Nat.not_lt.2 hnew.1)

/-- a list that the script does not own stays as it is -/
theorem items_eq {a : Nat} (ha : a < w.heap.cells.size) (hunowned : a ∉ (w.script number).owned.lists) :
    w'.heap.items a = w.heap.items a := by
  rw [h.heap', ← h.heap]
  exact h.orderly.others a (h.heap ▸ ha) (h.owned ▸ hunowned)

theorem orderly_self (hproper : (w.script number).owned.Proper w.heap) : (w'.script number).Orderly w'.heap := by
  have hstart : start.owned.Proper start.heap := by rwa [h.heap, h.owned]
  refine ⟨fun env henv => ?_, fun v hv => ?_, ?_, ?_⟩ <;> rw [h.owned']
  · exact h.env env henv ▸ h.orderly.env
  · exact h.orderly.returning v (h.returning ▸ hv)
  · rw [h.heap']
    exact h.orderly.items
  · rw [h.heap']
    exact h.orderly.proper hstart

/-- the lists of another script are older than the run, so the run neither changes them nor takes them over -/
theorem foreign (hw : w.Orderly m) {k a : Nat} (hk : k ≠ number) (ha : a ∈ (w.script k).owned.lists) :
    w'.heap.items a = w.heap.items a ∧ a < w'.heap.cells.size ∧ a ∉ (w'.script number).owned.lists := by
  have hmade := (hw.scripts k).proper.made a ha
  have hapart := hw.apart k number hk a ha
  exact ⟨h.items_eq hmade hapart, hmade.trans_le h.size, fun hmem => hapart (h.mem_owned_of_lt hmade hmem)⟩

theorem orderly_of_ne (hw : w.Orderly m) {k : Nat} (hk : k ≠ number) : (w'.script k).Orderly w'.heap := by
  rw [h.others k hk]
  have hscript := hw.scripts k
  refine ⟨hscript.env, hscript.returning, fun a ha => ?_, hscript.proper.nodup, fun a ha => ?_⟩
  · rw [(h.foreign hw hk ha).1]
    exact hscript.items a ha
  · exact (h.foreign hw hk ha).2.1

theorem apart (hw : w.Orderly m) (j k : Nat) (hjk : j ≠ k) :
    ∀ a ∈ (w'.script j).owned.lists, a ∉ (w'.script k).owned.lists := by
  intro a ha hk
  by_cases hj : j = number
  · subst hj
    rw [h.others k (Ne.symm hjk)] at hk
    exact (h.foreign hw (Ne.symm hjk) hk).2.2 ha
  · rw [h.others j hj] at ha
    by_cases hk' : k = number
    · subst hk'
      exact (h.foreign hw hj ha).2.2 hk
    · rw [h.others k hk'] at hk
      exact hw.apart j k hjk a ha hk

theorem givenUp {a : Nat} (ha : w.GivenUp a) : w'.GivenUp a := by
  refine ⟨ha.made.trans_le h.size, (h.items_eq ha.made (ha.unowned number)).trans ha.items, fun k hk => ?_⟩
  by_cases hnumber : k = number
  · subst hnumber
    exact ha.unowned k (h.mem_owned_of_lt ha.made hk)
  · rw [h.others k hnumber] at hk
    exact ha.unowned k hk

/-- a run of a script takes over the lists that it makes, and leaves those of the other scripts alone -/
theorem advance (hw : w.Orderly m) : Advance m number w w' := by
  have horderly : w'.Orderly m := by
    refine ⟨h.natives ▸ hw.natives, fun k => ?_, h.apart hw⟩
    by_cases hk : k = number
    · exact hk ▸ h.orderly_self (hw.scripts number).proper
    · exact h.orderly_of_ne hw hk
  refine ⟨horderly, fun k a ha => .inl ?_, fun a => h.givenUp, fun a hge hlt => .inl ((h.mem_owned a).2 (.inr ⟨hge, hlt⟩))⟩
  by_cases hk : k = number
  · subst hk
    exact (h.mem_owned a).2 (.inl ha)
  · rwa [h.others k hk]

end Ran

/-! ## Operations of the host -/

theorem mem_owned_unload (w : Workspace) (j k a : Nat) :
    a ∈ ((w.unload k).script j).owned.lists ↔ j ≠ k ∧ a ∈ (w.script j).owned.lists := by
  by_cases hj : j = k
  · rw [hj, script_unload_self]
    simp [Script.unloaded]
  · rw [script_unload_of_ne hj]
    simp [hj]

theorem items_unload (w : Workspace) (k a : Nat) :
    (w.unload k).heap.items a = if a ∈ (w.script k).owned.lists then #[] else w.heap.items a := by
  rw [heap_unload, Heap.items_empty]
  simp only [Array.mem_toList_iff]

theorem size_heap_unload (w : Workspace) (k : Nat) : (w.unload k).heap.cells.size = w.heap.cells.size := by
  rw [heap_unload, Heap.size_empty]

section Operations

variable {m : Manners} {w : Workspace} (hw : w.Orderly m)

include hw

theorem Orderly.discreet (number : Nat) : (w.setting number).Discreet m :=
  setting_host (HostFunction.discreet_reply m nofun) hw.natives number

theorem Orderly.advance_note (number : Nat) (level : Level) (message : String) :
    Advance m number w (w.note level message) :=
  .alike hw number rfl rfl fun _ => ⟨rfl, rfl, rfl⟩

theorem Orderly.advance_modifyScript (number k : Nat) {change : Script → Script}
    (hchange : ∀ s, (change s).env = s.env ∧ (change s).returning = s.returning ∧ (change s).owned = s.owned) :
    Advance m number w (w.modifyScript k change) := by
  refine .alike hw number rfl rfl fun j => ?_
  rcases w.script_modifyScript_or k change j with hscript | hscript <;> rw [hscript]
  · exact ⟨rfl, rfl, rfl⟩
  · exact hchange _

theorem Orderly.unload (k : Nat) : (w.unload k).Orderly m := by
  refine ⟨natives_unload w k ▸ hw.natives, fun j => ?_, fun i j hij a ha hj => ?_⟩
  · by_cases hj : j = k
    · rw [hj, script_unload_self]
      exact Script.orderly_unloaded _ _
    · rw [script_unload_of_ne hj]
      have hscript := hw.scripts j
      refine ⟨hscript.env, hscript.returning, fun a ha => ?_, hscript.proper.nodup, fun a ha => ?_⟩
      · rw [items_unload, if_neg (hw.apart j k hj a ha)]
        exact hscript.items a ha
      · rw [size_heap_unload]
        exact hscript.proper.made a ha
  · rw [mem_owned_unload] at ha hj
    exact hw.apart i j hij a ha.2 hj.2

/-- an unloaded script gives up its lists, which are emptied -/
theorem Orderly.givenUp_unload {k a : Nat} (ha : a ∈ (w.script k).owned.lists) : (w.unload k).GivenUp a := by
  refine ⟨?_, by rw [items_unload, if_pos ha], fun i hi => ?_⟩
  · rw [size_heap_unload]
    exact (hw.scripts k).proper.made a ha
  · obtain ⟨hik, hi⟩ := (w.mem_owned_unload i k a).1 hi
    exact hw.apart i k hik a hi ha

theorem Orderly.advance_unload (number k : Nat) : Advance m number w (w.unload k) := by
  refine ⟨hw.unload k, fun j a ha => ?_, fun a ha => ⟨?_, ?_, fun i hi => ?_⟩, fun a hge hlt => ?_⟩
  · by_cases hj : j = k
    · exact .inr (hw.givenUp_unload (hj ▸ ha))
    · exact .inl ((w.mem_owned_unload j k a).2 ⟨hj, ha⟩)
  · rw [size_heap_unload]
    exact ha.made
  · rw [items_unload, if_neg (ha.unowned k)]
    exact ha.items
  · exact ha.unowned i ((w.mem_owned_unload i k a).1 hi).2
  · rw [size_heap_unload] at hlt
    exact absurd hlt (Nat.not_lt.2 hge)

omit hw in
theorem orderly_loadState (w : Workspace) (path source : String) (dynamic : Bool) :
    (w.loadState path source dynamic).Orderly (w.loadState path source dynamic) := by
  refine State.Orderly.self ⟨?_, nofun⟩ nofun (by simp [loadState])
  exact all_builtinFrame (fun _ h => Owned.admits_of_plain h) _

omit hw in
theorem proper_loadState (w : Workspace) (path source : String) (dynamic : Bool) :
    (w.loadState path source dynamic).owned.Proper (w.loadState path source dynamic).heap :=
  ⟨by simp [loadState], by simp [loadState]⟩

omit hw in
theorem orderly_loadPosition (w : Workspace) (path source : String) (dynamic : Bool) :
    (w.loadPosition m path source dynamic).Orderly (w.loadState path source dynamic) :=
  ⟨orderly_loadState w path source dynamic, nofun, nofun⟩

theorem Orderly.callState {number : Nat} {env : Env} (henv : (w.script number).env = some env) :
    (w.callState number env).Orderly (w.callState number env) :=
  State.Orderly.self ((hw.scripts number).env env henv) (hw.scripts number).returning (hw.scripts number).items

theorem Orderly.orderly_callPosition {number : Nat} {env : Env} (henv : (w.script number).env = some env)
    (declarations : List (String × Ty)) (name : String) {arguments : List Val}
    (harguments : ∀ v ∈ arguments, (w.script number).owned.Admits v) :
    (w.callPosition m number env declarations name arguments).Orderly (w.callState number env) :=
  ⟨hw.callState henv, harguments, nofun⟩

theorem Orderly.discreet_opened (path source : String) (dynamic : Bool) :
    ((w.opened path source dynamic).setting w.scripts.size).Discreet m :=
  setting_host (HostFunction.discreet_reply m nofun) (natives_opened w path source dynamic ▸ hw.natives) _

/-- the run of a new script leaves an orderly state -/
theorem Orderly.loading (path source : String) (dynamic : Bool) :
    (w.loadState path source dynamic).Orderly (w.loading path source dynamic).2.state := by
  have hstart := orderly_loadState w path source dynamic
  unfold Workspace.loading runSource
  rcases tokenize source (some path) with fault | tokens
  · exact ⟨⟨Frame.All.empty _, nofun⟩, nofun, hstart.items, le_rfl, hstart.lists, hstart.others⟩
  · refine kept_runTokens (P := State.Orderly _) (fun stmt s hs => ?_) _ _ hstart
    obtain ⟨ht, -⟩ := (orderly_execTop (hw.discreet_opened path source dynamic) stmt).leaves hs
    exact ht

theorem Orderly.advance_ran (path source : String) (dynamic : Bool) :
    Advance m w.scripts.size w (w.ran path source dynamic) := by
  have hself : (w.ran path source dynamic).script w.scripts.size = w.ranScript path source dynamic := by
    rw [script_ran, if_pos rfl]
  have howned : ({} : Owned) = (w.script w.scripts.size).owned := by
    rw [script_of_size_le le_rfl]
    rfl
  refine Ran.advance ⟨heap_opened w path source dynamic, howned, hw.loading path source dynamic,
    natives_ran w path source dynamic, rfl, ?_, ?_, ?_, fun k hk => ?_⟩ hw
  · rw [hself]
    rfl
  · intro env henv
    rw [hself] at henv
    exact (Option.some.inj henv).symm
  · rw [hself]
    rfl
  · rw [script_ran, if_neg hk]

/-- a load advances the new script, also if it fails -/
theorem Orderly.advance_load (path source : String) (dynamic : Bool) :
    Advance m w.scripts.size w (w.load path source dynamic).2 := by
  have hran := hw.advance_ran path source dynamic
  rw [load_eq]
  split
  · exact hran.trans fun h => (h.advance_note _ _ _).trans fun h => h.advance_unload _ _
  · refine hran.trans fun h => (h.advance_modifyScript _ _ ?_).trans fun h => h.advance_note _ _ _
    exact fun _ => ⟨rfl, rfl, rfl⟩

/-- a call that is handed no lists and no strings but those that the script owns -/
theorem Orderly.advance_call (number : Nat) (name : String) {arguments : List Val}
    (harguments : ∀ v ∈ arguments, (w.script number).owned.Admits v) :
    Advance m number w (w.call number name arguments).2 := by
  rcases w.callable_or_not number with ⟨env, hl, henv⟩ | hl
  · obtain ⟨hcalled, -⟩ := Eval.Orderly.leaves
      (orderly_callByName (hw.discreet number) w.platform.evaluation name _ arguments harguments) (hw.callState henv)
    have hself : (w.call number name arguments).2.script number =
        (w.script number).leftIn (w.called number name arguments env).2 := by
      rw [script_call_loaded hl henv, if_pos rfl]
    refine Ran.advance ⟨rfl, rfl, hcalled, natives_call w number name arguments, heap_call_loaded hl henv name arguments,
      ?_, ?_, ?_, fun k hk => ?_⟩ hw
    · rw [hself]
      rfl
    · intro env' henv'
      rw [hself] at henv'
      exact (Option.some.inj henv').symm
    · rw [hself]
      rfl
    · rw [script_call_loaded hl henv, if_neg hk]
  · obtain ⟨d, hd⟩ := call_unloaded hl name arguments
    rw [hd]
    refine (hw.advance_modifyScript _ _ ?_).trans fun h => h.advance_note _ _ _
    exact fun _ => ⟨rfl, rfl, rfl⟩

theorem Orderly.advance_generate (number : Nat) {arguments : List Generator.Argument}
    (harguments : ∀ a ∈ arguments, (w.script number).owned.Admits a.val) (function : String) :
    Advance m number w (w.generate number arguments function).2 := by
  unfold Workspace.generate
  dsimp only
  split
  · rename_i values hvalues
    refine hw.advance_call number function fun v hv => ?_
    obtain ⟨a, ha, rfl⟩ := mem_of_bind hvalues hv
    exact harguments a ha
  · refine (hw.advance_modifyScript _ _ ?_).trans fun h => .alike h _ rfl rfl fun _ => ⟨rfl, rfl, rfl⟩
    exact fun _ => ⟨rfl, rfl, rfl⟩

theorem Orderly.advance_setNative (number k : Nat) (name ownName : String) {f : HostFunction} (hf : f.Discreet m) :
    Advance m number w (w.setNative k name ownName f).2 := by
  have hheap : (w.setNative k name ownName f).2.heap = w.heap := by
    unfold Workspace.setNative
    split <;> rfl
  refine .of_same hw number ?_ (by rw [hheap]) (fun j => ?_) (fun j => ?_) fun a _ => by rw [hheap]
  · rcases natives_setNative w k name ownName f with hsame | hpush
    · exact hsame ▸ hw.natives
    · rw [hpush]
      intro g hg
      rcases Array.mem_push.1 hg with hg | rfl
      · exact hw.natives g hg
      · exact hf
  · rw [script_setNative]
    split_ifs with hj
    · rw [hj]
    · rfl
  · rw [script_setNative, hheap]
    split_ifs
    · have hscript := hw.scripts k
      refine ⟨fun env henv => ?_, hscript.returning, hscript.items, hscript.proper⟩
      obtain ⟨before, hbefore, rfl⟩ := Option.map_eq_some_iff.1 henv
      have hall := hscript.env before hbefore
      have hnative : (w.script k).owned.Admits (.native (.host w.natives.size ownName)) := trivial
      exact ⟨hall.globals.set hnative name, hall.locals⟩
    · exact hw.scripts j

/-- the host may change the lists of a script within what that script owns -/
theorem Orderly.advance_rearranged (number k : Nat) {heap : Heap} (h : w.heap.Rearranged (w.script k).owned heap) :
    Advance m number w { w with heap := heap } := by
  refine .of_same hw number hw.natives h.size (fun _ => rfl) (fun j => ?_) fun a ha => h.others a (ha k)
  have hscript := hw.scripts j
  refine ⟨hscript.env, hscript.returning, fun a ha => ?_, hscript.proper.nodup, fun a ha => ?_⟩
  · by_cases hj : j = k
    · exact hj ▸ h.items a (hj ▸ ha)
    · change ∀ v ∈ heap.items a, _
      rw [h.others a (hw.apart j k hj a ha)]
      exact hscript.items a ha
  · exact (hscript.proper.made a ha).trans_eq h.size.symm

end Operations

/-! ## Histories -/

/-- what a host does that hands over no lists and no strings but those that the script owns: it runs the script of the
given number, which is the next one for a load, or it does something else -/
inductive Deals (m : Manners) (w : Workspace) : Nat → Workspace → Prop where
  | load {path source : String} {dynamic : Bool} : Deals m w w.scripts.size (w.load path source dynamic).2
  | call {number : Nat} {name : String} {arguments : List Val} :
      (∀ v ∈ arguments, (w.script number).owned.Admits v) → Deals m w number (w.call number name arguments).2
  | generate {number : Nat} {arguments : List Generator.Argument} {function : String} :
      (∀ a ∈ arguments, (w.script number).owned.Admits a.val) →
      Deals m w number (w.generate number arguments function).2
  | unload {number k : Nat} : Deals m w number (w.unload k)
  | setNative {number k : Nat} {name ownName : String} {f : HostFunction} :
      f.Discreet m → Deals m w number (w.setNative k name ownName f).2
  | rearrange {number k : Nat} {heap : Heap} :
      w.heap.Rearranged (w.script k).owned heap → Deals m w number { w with heap := heap }
  | other {number : Nat} {w' : Workspace} :
      w'.scripts = w.scripts → w'.natives = w.natives → w'.heap = w.heap → Deals m w number w'

theorem Orderly.advance {m : Manners} {w : Workspace} (hw : w.Orderly m) {number : Nat} {w' : Workspace}
    (h : Deals m w number w') : Advance m number w w' := by
  cases h with
  | load => exact hw.advance_load _ _ _
  | call harguments => exact hw.advance_call _ _ harguments
  | generate harguments => exact hw.advance_generate _ harguments _
  | unload => exact hw.advance_unload _ _
  | setNative hf => exact hw.advance_setNative _ _ _ _ hf
  | rearrange hheap => exact hw.advance_rearranged _ _ hheap
  | other hscripts hnatives hheap =>
    refine .alike hw _ hnatives hheap fun k => ?_
    rw [script, hscripts]
    exact ⟨rfl, rfl, rfl⟩

/-- the workspaces that such a host comes to -/
inductive Discreet (m : Manners) : Workspace → Prop where
  | start {platform : Platform} : Discreet m { platform := platform }
  | step {w w' : Workspace} {number : Nat} : Discreet m w → Deals m w number w' → Discreet m w'

/-- in the history of the workspace, a run of the script has made the list -/
inductive Made (m : Manners) (number a : Nat) : Workspace → Prop where
  | made {w w' : Workspace} : Discreet m w → Deals m w number w' → w.heap.cells.size ≤ a → a < w'.heap.cells.size →
      Made m number a w'
  | later {w w' : Workspace} {k : Nat} : Made m number a w → Deals m w k w' → Made m number a w'

theorem Discreet.orderly {m : Manners} {w : Workspace} (h : w.Discreet m) : w.Orderly m := by
  induction h with
  | start =>
    have hnone (k : Nat) : ((({} : Workspace).script k).Orderly {}) := Script.orderly_unloaded {} default
    exact ⟨by simp, hnone, fun j k _ a ha => absurd ha (Array.not_mem_empty a)⟩
  | step _ hdeals ih => exact (ih.advance hdeals).orderly

/-- a list that a script has made is on its record, or it has been given up -/
theorem Made.owned_or_givenUp {m : Manners} {number a : Nat} {w : Workspace} (h : Made m number a w) :
    w.Orderly m ∧ (a ∈ (w.script number).owned.lists ∨ w.GivenUp a) := by
  induction h with
  | made hw hdeals hge hlt =>
    have hadvance := hw.orderly.advance hdeals
    exact ⟨hadvance.orderly, hadvance.made a hge hlt⟩
  | later _ hdeals ih =>
    have hadvance := ih.1.advance hdeals
    exact ⟨hadvance.orderly, ih.2.elim (hadvance.kept _ a) fun hgiven => .inr (hadvance.givenUp a hgiven)⟩

end Workspace

/-! ## New lists -/

/-- a list that the heap does not have yet -/
def Heap.Lacks (h : Heap) (v : Val) : Prop := ∃ a, v = .list a ∧ h.cells.size ≤ a

/-- a list literal makes a list that was not there when its elements had been evaluated -/
theorem eval_list_lacks {setting : Setting} {depth : Nat} {token : Token} {elements : List Expr} {s t : State} {v : Val}
    (h : eval setting (depth + 1) (.list token elements) s = (.ok v, t)) :
    ∃ values u, elements.mapM (eval setting depth) s = (.ok values, u) ∧ u.heap.Lacks v := by
  rw [eval] at h
  obtain ⟨values, u, hvalues, hnew⟩ := Eval.bind_eq_ok h
  cases hnew
  exact ⟨values, u, hvalues, _, rfl, le_rfl⟩

/-- so does a declaration of a list without an initial value -/
theorem exec_default_list_lacks {setting : Setting} {depth : Nat} {token name : Token} {s t : State}
    (h : exec setting (depth + 1) (.var token .list [name] none) s = (.ok (), t)) :
    ∃ v, t.env.current.get? name.name = some v ∧ s.heap.Lacks v := by
  rw [exec] at h
  obtain ⟨v, u, hnew, hdeclare⟩ := Eval.bind_eq_ok h
  cases hnew
  simp only [Eval.declare] at hdeclare
  split at hdeclare
  · rename_i env henv
    cases hdeclare
    exact ⟨_, Env.get?_current_declare henv, _, rfl, le_rfl⟩
  · cases hdeclare

namespace Workspace

/-- **Every list of a script has one owner.** Whatever a host does that hands over no lists and no strings but those
that the script owns, by what it passes in and by what its functions give back or store: in each state of the load of a
script, and of each call of one, every list that a value in use leads to is on the record of the script exactly once,
and every string is on the record. A list literal and a default declaration make a list that was not there before. So
what a load or a call has made stays on the record or is empty, and an unload leaves it empty. -/
theorem lists_have_one_owner {m : Manners} {w : Workspace} (h : w.Discreet m) :
    (∀ path source dynamic s v u,
      InUse ((w.opened path source dynamic).setting w.scripts.size) (w.loadPosition m path source dynamic) s v →
        s.heap.Leads v u → s.owned.HoldsOnce u) ∧
    (∀ number env declarations name arguments s v u, (w.script number).env = some env →
      (∀ v ∈ arguments, (w.script number).owned.Admits v) →
        InUse (w.setting number) (w.callPosition m number env declarations name arguments) s v →
          s.heap.Leads v u → s.owned.HoldsOnce u) ∧
    (∀ setting depth token elements s v t, eval setting (depth + 1) (.list token elements) s = (.ok v, t) →
      ∃ values u, elements.mapM (eval setting depth) s = (.ok values, u) ∧ u.heap.Lacks v) ∧
    (∀ setting depth token name s t, exec setting (depth + 1) (.var token .list [name] none) s = (.ok (), t) →
      ∃ v, t.env.current.get? name.name = some v ∧ s.heap.Lacks v) ∧
    ∀ number a, Made m number a w →
      (a ∈ (w.script number).owned.lists ∨ w.heap.items a = #[]) ∧ (w.unload number).heap.items a = #[] := by
  have hw := h.orderly
  refine ⟨fun path source dynamic s v u huse hleads => ?_, fun number env declarations name arguments s v u henv
    harguments huse hleads => ?_, fun _ _ _ _ _ _ _ => eval_list_lacks, fun _ _ _ _ _ _ => exec_default_list_lacks,
    fun number a hmade => ?_⟩
  · exact owned_of_inUse (hw.discreet_opened _ _ _) (proper_loadState _ _ _ _) (orderly_loadPosition w _ _ _) huse hleads
  · exact owned_of_inUse (hw.discreet number) (hw.scripts number).proper
      (hw.orderly_callPosition henv declarations name harguments) huse hleads
  · obtain ⟨-, hfate⟩ := hmade.owned_or_givenUp
    refine ⟨hfate.imp_right GivenUp.items, ?_⟩
    rw [items_unload]
    split_ifs with howned
    · rfl
    · exact (hfate.resolve_left howned).items

def listAddress? : Val → Option Nat
  | .list a => some a
  | _ => none

def stringText? : Val → Option String
  | .string s => some s
  | _ => none

theorem found_list {found : Option Val} {a : Nat} (h : found.bind listAddress? = some a) : found = some (.list a) := by
  obtain ⟨v, rfl, hv⟩ := Option.bind_eq_some_iff.1 h
  cases v <;> cases hv
  rfl

theorem found_string {found : Option Val} {s : String} (h : found.bind stringText? = some s) :
    found = some (.string s) := by
  obtain ⟨v, rfl, hv⟩ := Option.bind_eq_some_iff.1 h
  cases v <;> cases hv
  rfl

/-- a list holds a string and itself; a call is handed the list and makes two more, one of which holds the other -/
theorem lists_have_one_owner_cycle :
    let source := "list l = [\"s\"]; l[1] = l; list pair(list a) { list m; return [a, m]; }"
    let start : Workspace := {}
    let w := ((start.load "level" source).2.call 0 "pair" [.list 0]).2
    (.list 0 ∈ w.heap.items 0 ∧ (w.script 0).owned.HoldsOnce (.list 0) ∧ (w.script 0).owned.HoldsOnce (.string "s")) ∧
      (w.heap.items 2).size = 2 ∧ (w.unload 0).heap.items 2 = #[] := by
  intro source start w
  -- all that has to be computed at once, since each computation loads the script anew
  have hfacts : (0 ∈ ((start.load "level" source).2.script 0).owned.lists ∧
      (start.load "level" source).2.heap.cells.size ≤ 2 ∧ 2 < w.heap.cells.size ∧ (w.heap.items 2).size = 2) ∧
      ((w.script 0).env.bind (·.globals.get? "l")).bind listAddress? = some 0 ∧
      (w.heap.items 0)[1]?.bind listAddress? = some 0 ∧
      (w.heap.items 0)[0]?.bind stringText? = some "s" := by decide +kernel
  obtain ⟨⟨howned, hge, hlt, hsize⟩, hglobal, hcycle, hstring⟩ := hfacts
  have hcycle : .list 0 ∈ w.heap.items 0 := Array.mem_of_getElem? (found_list hcycle)
  have hstring : .string "s" ∈ w.heap.items 0 := Array.mem_of_getElem? (found_string hstring)
  have hdiscreet : (start.load "level" source).2.Discreet ⟨True, True⟩ := .step .start .load
  have hdeals : Deals ⟨True, True⟩ (start.load "level" source).2 0 w :=
    .call fun v hv => by rwa [List.mem_singleton.1 hv]
  obtain ⟨-, huse, -, -, hempty⟩ := lists_have_one_owner (.step hdiscreet hdeals)
  obtain ⟨env, henv, hget⟩ := Option.bind_eq_some_iff.1 (found_list hglobal)
  have hall (u : Val) (hleads : w.heap.Leads (.list 0) u) : (w.script 0).owned.HoldsOnce u :=
    huse 0 env [] "pair" [] (w.callState 0 env) (.list 0) u henv (by simp) (.atHand .refl (.inl rfl) (.globals hget)) hleads
  exact ⟨⟨hcycle, hall _ (.item (.here _) hcycle), hall _ (.item (.here _) hstring)⟩, hsize,
    (hempty 0 2 (.made hdiscreet hdeals hge hlt)).2⟩

end Workspace

end LevelScript
