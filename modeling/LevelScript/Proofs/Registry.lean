/-
The registry of loaded scripts.

Loading registers a script before it runs, so a load that fails has to undo that, and so has every unload, also one of
a script that is gone already. `registry_follows_history`: after any history of loads and unloads the registry holds
the scripts whose loads have succeeded and that have not been unloaded since, each once and in the order of their
loads. These are the scripts that are marked as loaded, and all others hold nothing and answer nothing.
-/
import LevelScript.Proofs.Hosting

namespace LevelScript

open LevelScript.Syntax

/-- nothing is left in the script of what it held while it was loaded or ran -/
structure Script.Bare (s : Script) : Prop where
  env : s.env = none
  tokens : s.tokens = []
  statements : s.statements = []
  lists : s.owned.lists = #[]
  strings : s.owned.strings = #[]
  returning : s.returning = none
  loaded : s.loaded = false

theorem Script.bare_unloaded (s : Script) : s.unloaded.Bare := ⟨rfl, rfl, rfl, rfl, rfl, rfl, rfl⟩

theorem Script.Bare.get? {s : Script} (h : s.Bare) (name : String) : s.get? name = none := by
  rw [Script.get?, h.env, Option.bind_none]

namespace Workspace

/-! ## The registry under single operations -/

@[simp] theorem registered_register (w : Workspace) (number : Nat) :
    (w.register number).registered =
      if number ∈ w.registered then w.registered else w.registered ++ [number] := by
  simp only [register, List.contains_iff_mem]
  split_ifs <;> rfl

@[simp] theorem registered_unregister (w : Workspace) (number : Nat) :
    (w.unregister number).2.registered = w.registered.erase number := by
  simp only [unregister, List.contains_iff_mem]
  split_ifs with h
  · rfl
  · exact (List.erase_of_not_mem h).symm

@[simp] theorem registered_unload (w : Workspace) (number : Nat) :
    (w.unload number).registered = w.registered.erase number := registered_unregister w number

theorem registered_ran {w : Workspace} (h : w.scripts.size ∉ w.registered) (path source : String) (dynamic : Bool) :
    (w.ran path source dynamic).registered = w.registered ++ [w.scripts.size] := by
  change (w.opened path source dynamic).registered = _
  rw [opened, registered_register, if_neg h]

/-- a load enters the new script at the end of the registry if it succeeds, and leaves the registry alone if it fails -/
theorem registered_load {w : Workspace} (h : w.scripts.size ∉ w.registered) (path source : String) (dynamic : Bool) :
    (w.load path source dynamic).2.registered = match (w.load path source dynamic).1 with
      | .ok number => w.registered ++ [number]
      | .error _ => w.registered := by
  have hran := registered_ran h path source dynamic
  rw [load_eq]
  split
  · simp only [registered_unload, note, hran, List.erase_append_right _ h, List.erase_cons_head, List.append_nil]
  · exact hran

theorem size_load (w : Workspace) (path source : String) (dynamic : Bool) :
    (w.load path source dynamic).2.scripts.size = w.scripts.size + 1 := by
  have hran : (w.ran path source dynamic).scripts.size = w.scripts.size + 1 := by
    rw [scripts_ran, Array.size_push]
  rw [load_eq]
  split <;> simp [unload, modifyScript, note, hran]

@[simp] theorem size_unload (w : Workspace) (number : Nat) : (w.unload number).scripts.size = w.scripts.size := by
  simp [unload, modifyScript]

theorem path_load (w : Workspace) (path source : String) (dynamic : Bool) :
    ((w.load path source dynamic).2.script w.scripts.size).path = path := by
  rw [script_load, if_pos rfl]
  split <;> rfl

/-- a load that fails leaves a bare script behind -/
theorem bare_of_failed_load {w : Workspace} {path source : String} {dynamic : Bool} {failure : Failure}
    (h : (w.load path source dynamic).1 = .error failure) :
    ((w.load path source dynamic).2.script w.scripts.size).Bare := by
  rw [load_eq] at h
  rw [script_load, if_pos rfl]
  split at h
  · rename_i fault hfault
    rw [hfault]
    exact Script.bare_unloaded _
  · cases h

theorem path_unload (w : Workspace) (number k : Nat) : ((w.unload number).script k).path = (w.script k).path := by
  by_cases hk : k = number
  · rw [hk, script_unload_self]
    rfl
  · rw [script_unload_of_ne hk]

/-! ## Histories -/

inductive Move where
  | load (path source : String) (dynamic : Bool)
  | unload (number : Nat)

def Move.loads : Move → Bool
  | .load .. => true
  | .unload _ => false

def moved (w : Workspace) : Move → Workspace
  | .load path source dynamic => (w.load path source dynamic).2
  | .unload number => w.unload number

/-- the workspace that a history of moves leads to from an empty one on the platform -/
def history (platform : Platform) (moves : List Move) : Workspace := moves.foldl moved { platform }

/-- the history has a load from the path that has succeeded, and none of its later moves unloads the script -/
def Standing (platform : Platform) (moves : List Move) (number : Nat) (path : String) : Prop :=
  ∃ before source dynamic since, moves = before ++ .load path source dynamic :: since ∧
    ((history platform before).load path source dynamic).1 = .ok number ∧ .unload number ∉ since

theorem history_concat (platform : Platform) (moves : List Move) (move : Move) :
    history platform (moves ++ [move]) = (history platform moves).moved move := by
  simp [history]

theorem not_standing_nil (platform : Platform) (number : Nat) (path : String) : ¬ Standing platform [] number path := by
  rintro ⟨before, source, dynamic, since, hmoves, -⟩
  simp at hmoves

theorem standing_load {platform : Platform} {moves : List Move} {path source : String} {dynamic : Bool} {number : Nat}
    {path' : String} :
    Standing platform (moves ++ [.load path source dynamic]) number path' ↔
      Standing platform moves number path' ∨
        path' = path ∧ ((history platform moves).load path source dynamic).1 = .ok number := by
  constructor
  · rintro ⟨before, source', dynamic', since, hmoves, hload, hsince⟩
    rcases List.eq_nil_or_concat since with rfl | ⟨since, last, rfl⟩
    · obtain ⟨rfl, hlast⟩ := List.append_inj' hmoves rfl
      cases hlast
      exact .inr ⟨rfl, hload⟩
    · rw [List.concat_eq_append, ← List.cons_append, ← List.append_assoc] at hmoves
      obtain ⟨rfl, -⟩ := List.append_inj' hmoves rfl
      exact .inl ⟨before, source', dynamic', since, rfl, hload, fun hmem => hsince (by simp [hmem])⟩
  · rintro (⟨before, source', dynamic', since, rfl, hload, hsince⟩ | ⟨rfl, hload⟩)
    · exact ⟨before, source', dynamic', since ++ [.load path source dynamic], by simp, hload, by simpa using hsince⟩
    · exact ⟨moves, source, dynamic, [], rfl, hload, List.not_mem_nil⟩

theorem standing_unload {platform : Platform} {moves : List Move} {k number : Nat} {path : String} :
    Standing platform (moves ++ [.unload k]) number path ↔ Standing platform moves number path ∧ number ≠ k := by
  constructor
  · rintro ⟨before, source, dynamic, since, hmoves, hload, hsince⟩
    rcases List.eq_nil_or_concat since with rfl | ⟨since, last, rfl⟩
    · cases (List.append_inj' hmoves rfl).2
    · rw [List.concat_eq_append, ← List.cons_append, ← List.append_assoc] at hmoves
      obtain ⟨rfl, hlast⟩ := List.append_inj' hmoves rfl
      cases hlast
      refine ⟨⟨before, source, dynamic, since, rfl, hload, fun hmem => hsince (by simp [hmem])⟩, ?_⟩
      rintro rfl
      exact hsince (by simp)
  · rintro ⟨⟨before, source, dynamic, since, rfl, hload, hsince⟩, hne⟩
    exact ⟨before, source, dynamic, since ++ [.unload k], by simp, hload, by simpa [hne] using hsince⟩

/-- what the registry and the scripts of a workspace have to do with the history that has led to it -/
structure Follows (platform : Platform) (moves : List Move) (w : Workspace) : Prop where
  size : w.scripts.size = moves.countP Move.loads
  sorted : w.registered.Pairwise (· < ·)
  below : ∀ number ∈ w.registered, number < w.scripts.size
  standing : ∀ number, number ∈ w.registered ↔ ∃ path, Standing platform moves number path
  path : ∀ number path, Standing platform moves number path → (w.script number).path = path
  loaded : ∀ number ∈ w.registered, (w.script number).loaded = true
  bare : ∀ number ∉ w.registered, (w.script number).Bare

namespace Follows

variable {platform : Platform} {moves : List Move} {w : Workspace}

theorem not_mem (h : Follows platform moves w) : w.scripts.size ∉ w.registered := fun hmem => (h.below _ hmem).false

section Loading

variable (h : Follows platform moves (history platform moves)) (path source : String) (dynamic : Bool)

include h

theorem count_load : ((history platform moves).load path source dynamic).2.scripts.size =
    (moves ++ [Move.load path source dynamic]).countP Move.loads := by
  rw [size_load, h.size, List.countP_append]
  rfl

theorem script_load_of_mem {k : Nat} (hk : k ∈ (history platform moves).registered) :
    ((history platform moves).load path source dynamic).2.script k = (history platform moves).script k := by
  rw [script_load, if_neg (h.below k hk).ne]

theorem path_load_of_standing {number : Nat} {path' : String}
    (hstanding : Standing platform (moves ++ [.load path source dynamic]) number path') :
    (((history platform moves).load path source dynamic).2.script number).path = path' := by
  rcases standing_load.1 hstanding with hold | ⟨rfl, hnew⟩
  · rw [h.script_load_of_mem _ _ _ ((h.standing _).2 ⟨_, hold⟩)]
    exact h.path _ _ hold
  · rw [(loaded_of_load hnew).1]
    exact path_load _ _ _ _

variable {path source dynamic}

theorem load_failed {failure : Failure} (hload : ((history platform moves).load path source dynamic).1 = .error failure) :
    Follows platform (moves ++ [.load path source dynamic]) ((history platform moves).load path source dynamic).2 := by
  have hregistered := registered_load h.not_mem path source dynamic
  rw [hload] at hregistered
  have hstanding (number : Nat) (path' : String) :
      Standing platform (moves ++ [.load path source dynamic]) number path' ↔ Standing platform moves number path' := by
    rw [standing_load, hload]
    simp
  refine ⟨h.count_load _ _ _, ?_, ?_, ?_, fun _ _ => h.path_load_of_standing _ _ _, ?_, ?_⟩ <;> rw [hregistered]
  · exact h.sorted
  · exact fun k hk => size_load _ _ _ _ ▸ Nat.lt_succ_of_lt (h.below k hk)
  · simpa only [hstanding] using h.standing
  · intro k hk
    rw [h.script_load_of_mem _ _ _ hk]
    exact h.loaded k hk
  · intro k hk
    by_cases hnew : k = (history platform moves).scripts.size
    · rw [hnew]
      exact bare_of_failed_load hload
    · rw [script_load, if_neg hnew]
      exact h.bare k hk

theorem load_succeeded {number : Nat} (hload : ((history platform moves).load path source dynamic).1 = .ok number) :
    Follows platform (moves ++ [.load path source dynamic]) ((history platform moves).load path source dynamic).2 := by
  have hregistered := registered_load h.not_mem path source dynamic
  rw [hload] at hregistered
  obtain ⟨rfl, -, hloaded⟩ := loaded_of_load hload
  have hstanding (k : Nat) (path' : String) :
      Standing platform (moves ++ [.load path source dynamic]) k path' ↔
        Standing platform moves k path' ∨ path' = path ∧ k = (history platform moves).scripts.size := by
    rw [standing_load, hload, Except.ok.injEq, eq_comm (a := k)]
  refine ⟨h.count_load _ _ _, ?_, ?_, ?_, fun _ _ => h.path_load_of_standing _ _ _, ?_, ?_⟩ <;> rw [hregistered]
  · exact List.pairwise_append.2 ⟨h.sorted, List.pairwise_singleton _ _, by simpa using h.below⟩
  · intro k hk
    rw [size_load]
    rcases List.mem_append.1 hk with hk | hk
    · exact Nat.lt_succ_of_lt (h.below k hk)
    · rw [List.mem_singleton.1 hk]
      exact Nat.lt_succ_self _
  · intro k
    rw [List.mem_append, List.mem_singleton, h.standing]
    simp only [hstanding, exists_or, exists_eq_left]
  · intro k hk
    rcases List.mem_append.1 hk with hk | hk
    · rw [h.script_load_of_mem _ _ _ hk]
      exact h.loaded k hk
    · rw [List.mem_singleton.1 hk]
      exact hloaded
  · intro k hk
    rw [List.mem_append, List.mem_singleton, not_or] at hk
    rw [script_load, if_neg hk.2]
    exact h.bare k hk.1

end Loading

theorem unload (h : Follows platform moves w) (k : Nat) : Follows platform (moves ++ [.unload k]) (w.unload k) := by
  have hmem (number : Nat) : number ∈ w.registered.erase k ↔ number ∈ w.registered ∧ number ≠ k := by
    rw [h.sorted.nodup.mem_erase_iff, and_comm]
  refine ⟨?_, ?_, ?_, ?_, ?_, ?_, ?_⟩
  · rw [size_unload, h.size, List.countP_append]
    rfl
  · rw [registered_unload]
    exact h.sorted.sublist List.erase_sublist
  · intro number hnumber
    rw [registered_unload, hmem] at hnumber
    rw [size_unload]
    exact h.below number hnumber.1
  · intro number
    rw [registered_unload, hmem, h.standing]
    simp only [standing_unload, exists_and_right]
  · intro number path hstanding
    rw [path_unload]
    exact h.path number path (standing_unload.1 hstanding).1
  · intro number hnumber
    rw [registered_unload, hmem] at hnumber
    rw [script_unload_of_ne hnumber.2]
    exact h.loaded number hnumber.1
  · intro number hnumber
    rw [registered_unload, hmem, not_and_or, not_not] at hnumber
    by_cases hk : number = k
    · rw [hk, script_unload_self]
      exact Script.bare_unloaded _
    · rw [script_unload_of_ne hk]
      exact h.bare number (hnumber.resolve_right hk)

end Follows

/-- every history is followed, by induction on its moves, the last one first -/
theorem follows_history (platform : Platform) (moves : List Move) :
    Follows platform moves (history platform moves) := by
  induction moves using List.reverseRecOn with
  | nil =>
    have hnone (number : Nat) : number ∈ (history platform []).registered ↔ ∃ path, Standing platform [] number path := by
      simp [history, not_standing_nil]
    exact ⟨rfl, .nil, nofun, hnone, fun _ _ hstanding => absurd hstanding (not_standing_nil _ _ _), nofun,
      fun _ _ => Script.bare_unloaded default⟩
  | append_singleton moves move ih =>
    rw [history_concat]
    cases move with
    | load path source dynamic =>
      rcases hload : ((history platform moves).load path source dynamic).1 with failure | number
      · exact ih.load_failed hload
      · exact ih.load_succeeded hload
    | unload number => exact ih.unload number

/-- in a sorted list, the first hit from behind is the largest -/
theorem find?_reverse_of_sorted {l : List Nat} (hl : l.Pairwise (· < ·)) {p : Nat → Bool} {a : Nat}
    (h : l.reverse.find? p = some a) : a ∈ l ∧ p a = true ∧ ∀ b ∈ l, p b = true → b ≤ a := by
  obtain ⟨ha, before, since, hsplit, hbefore⟩ := List.find?_eq_some_iff_append.1 h
  have hsorted : (before ++ a :: since).Pairwise (· > ·) := by
    rw [← hsplit, List.pairwise_reverse]
    exact hl
  have hmem (b : Nat) : b ∈ l ↔ b ∈ before ∨ b = a ∨ b ∈ since := by
    rw [← List.mem_reverse, hsplit, List.mem_append, List.mem_cons]
  refine ⟨(hmem a).2 (.inr (.inl rfl)), ha, fun b hb hpb => ?_⟩
  rcases (hmem b).1 hb with hb | rfl | hb
  · have := hbefore b hb
    simp [hpb] at this
  · exact le_rfl
  · exact ((List.pairwise_cons.1 (List.pairwise_append.1 hsorted).2.1).1 b hb).le

/-- a path finds the last script that stands under it -/
theorem Follows.find {platform : Platform} {moves : List Move} {w : Workspace} (h : Follows platform moves w)
    (path : String) :
    match w.find? path with
    | some number => Standing platform moves number path ∧ ∀ other, Standing platform moves other path → other ≤ number
    | none => ∀ number, ¬ Standing platform moves number path := by
  have hregistered {number : Nat} (hstanding : Standing platform moves number path) :
      number ∈ w.registered ∧ (w.script number).path = path :=
    ⟨(h.standing number).2 ⟨path, hstanding⟩, h.path number path hstanding⟩
  rcases hfind : w.find? path with _ | number <;> unfold find? at hfind
  · intro number hstanding
    obtain ⟨hmem, hpath⟩ := hregistered hstanding
    have := List.find?_eq_none.1 hfind number (List.mem_reverse.2 hmem)
    simp [hpath] at this
  · obtain ⟨hmem, hpath, hlast⟩ := find?_reverse_of_sorted h.sorted hfind
    refine ⟨?_, fun other hstanding => ?_⟩
    · obtain ⟨path', hstanding⟩ := (h.standing number).1 hmem
      rwa [← of_decide_eq_true hpath, h.path number path' hstanding]
    · obtain ⟨hother, hpath'⟩ := hregistered hstanding
      exact hlast other hother (decide_eq_true hpath')

/-- **The registry follows the history of loads and unloads.** It holds exactly the scripts whose load has succeeded and
that have not been unloaded since, each once, and in the order of their loads, in which scripts are numbered. These are
the scripts that are loaded; a path finds the last of those that stand under it. A load that fails leaves the registry
and every other script as they were, and of its own script nothing. A script that is not loaded has no value for any
name, and answers every call with an error value. -/
theorem registry_follows_history (platform : Platform) (moves : List Move) :
    let w := history platform moves
    (w.registered.Pairwise (· < ·) ∧ (∀ number, number ∈ w.registered ↔ ∃ path, Standing platform moves number path) ∧
      ∀ path source dynamic number, (w.load path source dynamic).1 = .ok number →
        number = moves.countP Move.loads) ∧
    (∀ number, (w.script number).loaded = true ↔ number ∈ w.registered) ∧
    (∀ number path, Standing platform moves number path → (w.script number).path = path) ∧
    (∀ path, match w.find? path with
      | some number => Standing platform moves number path ∧ ∀ other, Standing platform moves other path → other ≤ number
      | none => ∀ number, ¬ Standing platform moves number path) ∧
    (∀ path source dynamic failure, (w.load path source dynamic).1 = .error failure →
      let after := (w.load path source dynamic).2
      after.registered = w.registered ∧ (after.script w.scripts.size).Bare ∧
        ∀ k, k ≠ w.scripts.size → after.script k = w.script k) ∧
    ∀ number, (w.script number).loaded = false →
      (∀ name, (w.script number).get? name = none) ∧
        ∀ name arguments, (w.call number name arguments).1 =
          .ok (.error (Cause.notLoaded (w.script number).path).message) := by
  intro w
  have h : Follows platform moves w := follows_history platform moves
  have hloaded (number : Nat) : (w.script number).loaded = true ↔ number ∈ w.registered := by
    refine ⟨fun hl => ?_, h.loaded number⟩
    by_contra hmem
    rw [(h.bare number hmem).loaded] at hl
    cases hl
  refine ⟨⟨h.sorted, h.standing, fun path source dynamic number hload => ?numbered⟩, hloaded, h.path, h.find, ?failed,
    ?unloaded⟩
  case numbered => rw [(loaded_of_load hload).1, h.size]
  case failed =>
    intro path source dynamic failure hload after
    have hregistered := registered_load h.not_mem path source dynamic
    rw [hload] at hregistered
    refine ⟨hregistered, bare_of_failed_load hload, fun k hk => ?_⟩
    rw [script_load, if_neg hk]
  case unloaded =>
    intro number hl
    have hbare : (w.script number).Bare := by
      refine h.bare number fun hmem => ?_
      rw [h.loaded number hmem] at hl
      cases hl
    refine ⟨hbare.get?, fun name arguments => ?_⟩
    simp only [call, hl]
    rfl

/-- of two scripts of one path the later one is unloaded twice; then one prints before a token in it is refused -/
theorem registry_follows_history_repeated :
    let moves : List Move := [.load "a" "int x = 1;" false, .load "a" "int x = 2;" false, .unload 1, .unload 1]
    let w := history .standard moves
    let after := (w.load "b" "print(1); x = ;").2
    (Standing .standard moves 0 "a" ∧ (∀ other, Standing .standard moves other "a" → other ≤ 0) ∧
        (w.script 1).loaded = false) ∧
      (after.registered = [0] ∧ (after.script 2).Bare ∧ after.printed 2 = "1\n") ∧
      (w.script 1).get? "x" = none ∧ (w.call 1 "f" []).1 = .ok (.error "Script a is not loaded") := by
  intro moves w after
  obtain ⟨-, hloaded, -, hfind, hfailed, hunloaded⟩ := registry_follows_history .standard moves
  have hregistered : w.registered = [0] := by decide +kernel
  have hfirst : w.find? "a" = some 0 := by decide +kernel
  have hsecond : (w.script 1).loaded = false := by
    rw [← Bool.not_eq_true, hloaded, hregistered]
    decide
  have hsize : w.scripts.size = 2 := by decide +kernel
  have hpath : (w.script 1).path = "a" := by decide +kernel
  have hprinted : after.printed 2 = "1\n" := by decide +kernel
  have hrefused : (w.load "b" "print(1); x = ;").1.toBool = false := by decide +kernel
  have hstands := hfind "a"
  rw [hfirst] at hstands
  obtain ⟨hnone, hcall⟩ := hunloaded 1 hsecond
  have hanswer := hcall "f" []
  rw [hpath] at hanswer
  rcases hload : (w.load "b" "print(1); x = ;").1 with failure | number
  · obtain ⟨hsame, hbare, -⟩ := hfailed _ _ _ _ hload
    rw [hsize] at hbare
    exact ⟨⟨hstands.1, hstands.2, hsecond⟩, ⟨hsame.trans hregistered, hbare, hprinted⟩, hnone "x", hanswer⟩
  · rw [hload] at hrefused
    cases hrefused

end Workspace

end LevelScript
