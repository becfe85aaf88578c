/-
A context that is cleared while scopes are open.

`clear` drops the frames in use and everything owned. An open lexical call has set the frames of its caller aside, and
those are not in use: the call puts them back when it is left. An open block or dynamic call takes a frame away when it is
left, and after `clear` there is none to take.

`exits_after_clear`: of the scopes that are open, the blocks and dynamic calls above the innermost lexical call are left
with an error each, and up to there the context stays empty. Leaving that lexical call brings back the frames that would
be there without `clear`, and so does every exit after it. `Cleared` relates the context to the one that was not cleared
up to that exit, `SameFrames` from there on.
-/
import Mathlib.Tactic
import LevelScript.Environment.Scopes

namespace LevelScript

open LevelScript.Syntax

namespace Scopes

/-! ## Sequences of operations -/

inductive Operation where
  | declare (name : String) (v : Val)
  | newFrame (name : String)
  | callScope (arguments : Frame) (dynamic : Bool)
  | leave
  | allocate (v : Val)
  | signalReturn (v : Val)

/-- the context after an operation; one that is refused changes nothing -/
def perform (s : Scopes) : Operation → Scopes
  | .declare name v => (s.declare name v).toOption.getD s
  | .newFrame name => s.push ⟨name, []⟩
  | .callScope arguments dynamic => (s.call arguments dynamic).toOption.getD s
  | .leave => s.leave.2
  | .allocate v => s.own v
  | .signalReturn v => { s with returning := some v }

def performAll (s : Scopes) (operations : List Operation) : Scopes := operations.foldl perform s

/-! ## Exits -/

section Leave

variable {s : Scopes} {env frames : Env} {others : List Scope}

theorem leave_block (hentered : s.entered = .pushed :: others) (henv : s.env = some env) (h : 0 < env.locals.length) :
    s.leave = (.ok (), { s with env := some env.pop, entered := others }) := by
  rcases hlocals : env.locals with _ | ⟨f, fs⟩
  · simp [hlocals] at h
  · simp only [leave, hentered, henv, dropFrame, hlocals]

theorem leave_block_of_none (hentered : s.entered = .pushed :: others) (henv : s.env = none) :
    s.leave = (.error .nothingToLeave, { s with entered := others }) := by
  simp only [leave, hentered, henv, dropFrame]

theorem leave_call (hentered : s.entered = .aside frames true :: others) (henv : s.env = some env) :
    s.leave = (.ok (), { s with env := some { frames with globals := env.globals }, entered := others }) := by
  simp only [leave, hentered, henv]

theorem leave_severed_call (hentered : s.entered = .aside frames false :: others) :
    s.leave = (.ok (), { s with env := some frames, entered := others }) := by
  simp only [leave, hentered]
  split
  · next h => cases h
  · rfl

end Leave

theorem entered_leave (s : Scopes) : s.leave.2.entered = s.entered.tail := by
  unfold leave
  split
  · next h => rw [h]; rfl
  · next h => rw [h]; split <;> rfl
  · next h => rw [h]; rfl

/-- the context after so many exits -/
def left (s : Scopes) : Nat → Scopes
  | 0 => s
  | k + 1 => (s.left k).leave.2

theorem entered_left (s : Scopes) (k : Nat) : (s.left k).entered = s.entered.drop k := by
  induction k with
  | zero => rfl
  | succ k ih => rw [left, entered_leave, ih, List.tail_drop]

/-! ## Contexts that were never cleared -/

/-- above so many frames there are enough for the open blocks and dynamic calls, also where a lexical call goes back to the
frames of its caller, whose outermost frame it shares -/
def Standing : Nat → List Scope → Prop
  | _, [] => True
  | height, .pushed :: others => 0 < height ∧ Standing (height - 1) others
  | _, .aside frames shared :: others => shared = true ∧ Standing frames.locals.length others

/-- there are frames, enough for all exits -/
def Sound (s : Scopes) : Prop := ∃ env, s.env = some env ∧ Standing env.locals.length s.entered

theorem length_declare {e env : Env} {name : String} {v : Val} (h : e.declare? name v = some env) :
    env.locals.length = e.locals.length := by
  unfold Env.declare? at h
  split_ifs at h
  cases h
  unfold Env.modifyCurrent
  rcases e.locals with _ | ⟨f, fs⟩ <;> rfl

section Sound

variable {s : Scopes}

/-- a sound context is left without an error, and soundly -/
theorem Sound.leave (h : s.Sound) : s.leave.2.Sound ∧ (s.entered ≠ [] → s.leave.1 = .ok ()) := by
  have ⟨env, henv, hstanding⟩ := h
  rcases hentered : s.entered with _ | ⟨_ | ⟨frames, shared⟩, others⟩ <;> rw [hentered] at hstanding
  · refine ⟨?_, fun hne => absurd rfl hne⟩
    simpa only [Scopes.leave, hentered] using h
  · rw [leave_block hentered henv hstanding.1]
    refine ⟨⟨env.pop, rfl, ?_⟩, fun _ => rfl⟩
    rw [Env.pop, List.length_tail]
    exact hstanding.2
  · obtain ⟨rfl, hothers⟩ := hstanding
    rw [leave_call hentered henv]
    exact ⟨⟨_, rfl, hothers⟩, fun _ => rfl⟩

theorem Sound.left (h : s.Sound) (k : Nat) : (s.left k).Sound := by
  induction k with
  | zero => exact h
  | succ k ih => exact ih.leave.1

theorem Sound.frames_ne_nil (h : s.Sound) : s.frames ≠ [] := by
  obtain ⟨env, henv, -⟩ := h
  simp [Scopes.frames, henv, Env.frames]

/-- each operation keeps a context sound -/
theorem Sound.perform (h : s.Sound) (operation : Operation) : (s.perform operation).Sound := by
  have ⟨env, henv, hstanding⟩ := h
  cases operation with
  | declare name v =>
    simp only [Scopes.perform, Scopes.declare, henv]
    rcases hdeclare : env.declare? name v with _ | env'
    · exact h
    · exact ⟨env', rfl, length_declare hdeclare ▸ hstanding⟩
  | newFrame name => exact ⟨env.push ⟨name, []⟩, by simp [Scopes.perform, push, henv], Nat.succ_pos _, hstanding⟩
  | callScope arguments dynamic =>
    cases dynamic with
    | true =>
      exact ⟨env.push arguments, by simp [Scopes.perform, Scopes.call, push, henv, Except.toOption], Nat.succ_pos _,
        hstanding⟩
    | false =>
      refine ⟨env.enter arguments false, ?_, ?_⟩
      · simp [Scopes.perform, Scopes.call, henv, Except.toOption]
      · simpa [Scopes.perform, Scopes.call, henv, Except.toOption, Standing] using hstanding
  | leave => exact h.leave.1
  | allocate v => cases v <;> exact h
  | signalReturn v => exact h

theorem Sound.performAll (h : s.Sound) (operations : List Operation) : (s.performAll operations).Sound := by
  induction operations generalizing s with
  | nil => exact h
  | cons operation operations ih => exact ih (h.perform operation)

end Sound

theorem sound_start : Sound {} := ⟨{}, rfl, trivial⟩

/-! ## Exits after clear -/

/-- the number of blocks and dynamic calls that are open above the innermost lexical call -/
def blocks : List Scope → Nat
  | .pushed :: others => blocks others + 1
  | _ => 0

/-- a context without frames that was cleared, next to what it would be if it had not been -/
structure Cleared (t s : Scopes) : Prop where
  env : t.env = none
  entered : t.entered = severed s.env s.entered

/-- contexts with the same frames in use and the same scopes open -/
structure SameFrames (t s : Scopes) : Prop where
  env : t.env = s.env
  entered : t.entered = s.entered

/-- what a lexical call shares with its caller is the outermost frame alone -/
theorem severed_congr {e f : Env} (h : e.globals = f.globals) (scopes : List Scope) :
    severed (some e) scopes = severed (some f) scopes := by
  induction scopes with
  | nil => rfl
  | cons scope others ih =>
    cases scope with
    | pushed => simp only [severed, ih]
    | aside frames shared => cases shared <;> simp [severed, h]

section Pairs

variable {s t : Scopes}

/-- a block is left with an error, and the context stays without frames -/
theorem Cleared.leave_block (h : Cleared t s) (hs : s.Sound) (hblock : 0 < blocks s.entered) :
    Cleared t.leave.2 s.leave.2 ∧ t.leave.1 = .error .nothingToLeave := by
  obtain ⟨env, henv, hstanding⟩ := hs
  rcases hentered : s.entered with _ | ⟨_ | ⟨frames, shared⟩, others⟩ <;> rw [hentered] at hblock hstanding
  · cases hblock
  · have ht : t.entered = .pushed :: severed (some env) others := by rw [h.entered, hentered, henv, severed]
    rw [leave_block_of_none ht h.env, Scopes.leave_block hentered henv hstanding.1]
    exact ⟨⟨h.env, severed_congr (e := env) (f := env.pop) rfl others⟩, rfl⟩
  · cases hblock

/-- the innermost lexical call is left with the frames of its caller back in use -/
theorem Cleared.leave_call (h : Cleared t s) (hs : s.Sound) (hcall : blocks s.entered = 0) (hopen : s.entered ≠ []) :
    SameFrames t.leave.2 s.leave.2 ∧ t.leave.1 = .ok () := by
  obtain ⟨env, henv, hstanding⟩ := hs
  rcases hentered : s.entered with _ | ⟨_ | ⟨frames, shared⟩, others⟩ <;> rw [hentered] at hcall hopen hstanding
  · exact absurd rfl hopen
  · cases hcall
  · obtain ⟨rfl, -⟩ := hstanding
    have ht : t.entered = .aside { frames with globals := env.globals } false :: others := by
      rw [h.entered, hentered, henv, severed]
    rw [leave_severed_call ht, Scopes.leave_call hentered henv]
    exact ⟨⟨rfl, rfl⟩, rfl⟩

theorem SameFrames.leave (h : SameFrames t s) : SameFrames t.leave.2 s.leave.2 ∧ t.leave.1 = s.leave.1 := by
  have ⟨henv, hentered⟩ := h
  simp only [Scopes.leave, hentered, henv]
  split
  · exact ⟨h, rfl⟩
  · split
    · exact ⟨⟨rfl, rfl⟩, rfl⟩
    · exact ⟨⟨rfl, rfl⟩, rfl⟩
  · exact ⟨⟨rfl, rfl⟩, rfl⟩

end Pairs

theorem blocks_drop {scopes : List Scope} {k : Nat} (h : k ≤ blocks scopes) :
    blocks (scopes.drop k) = blocks scopes - k := by
  induction k generalizing scopes with
  | zero => rfl
  | succ k ih =>
    rcases scopes with _ | ⟨_ | _, others⟩
    · cases h
    · rw [List.drop_succ_cons, ih (Nat.le_of_succ_le_succ h), blocks, Nat.add_sub_add_right]
    · cases h

section Clear

variable {s : Scopes}

/-- up to the innermost lexical call nothing comes back, by induction on the exits -/
theorem cleared_left (hs : s.Sound) {k : Nat} (hk : k ≤ blocks s.entered) : Cleared (s.clear.left k) (s.left k) := by
  induction k with
  | zero => exact ⟨rfl, rfl⟩
  | succ k ih =>
    have hblock : 0 < blocks (s.left k).entered := by rw [entered_left, blocks_drop (by omega)]; omega
    exact ((ih (by omega)).leave_block (hs.left k) hblock).1

/-- from the exit of the innermost lexical call on the frames are those of the context that was not cleared -/
theorem sameFrames_left (hs : s.Sound) {k : Nat} (hk : blocks s.entered < k) (hopen : k ≤ s.entered.length) :
    SameFrames (s.clear.left k) (s.left k) := by
  induction k, hk using Nat.le_induction with
  | base =>
    have hcall : blocks (s.left (blocks s.entered)).entered = 0 := by rw [entered_left, blocks_drop le_rfl, Nat.sub_self]
    have hne : (s.left (blocks s.entered)).entered ≠ [] := by
      rw [entered_left, ne_eq, List.drop_eq_nil_iff]
      omega
    exact ((cleared_left hs le_rfl).leave_call (hs.left _) hcall hne).1
  | succ k _ ih =>
    exact (ih (by omega)).leave.1

/-- which exits fail after clear -/
theorem leave_clear_left (hs : s.Sound) {k : Nat} (hopen : k < s.entered.length) :
    (s.clear.left k).leave.1 = if k < blocks s.entered then .error .nothingToLeave else .ok () := by
  have hne : (s.left k).entered ≠ [] := by
    rw [entered_left, ne_eq, List.drop_eq_nil_iff]
    omega
  rcases Nat.lt_trichotomy k (blocks s.entered) with hblock | hcall | hback
  · rw [if_pos hblock]
    refine ((cleared_left hs hblock.le).leave_block (hs.left k) ?_).2
    rw [entered_left, blocks_drop hblock.le]
    omega
  · rw [if_neg (by omega)]
    refine ((cleared_left hs hcall.le).leave_call (hs.left k) ?_ hne).2
    rw [entered_left, blocks_drop hcall.le, hcall, Nat.sub_self]
  · rw [if_neg (by omega), (sameFrames_left hs hback hopen.le).leave.2]
    exact (hs.left k).leave.2 hne

/-- clear is final only where no scope is open -/
theorem final_iff (hs : s.Sound) :
    (∀ k ≤ s.entered.length, (s.clear.left k).frames = [] ∧
      (k < s.entered.length → (s.clear.left k).leave.1 = .ok ())) ↔ s.entered = [] := by
  constructor
  · intro hfinal
    by_contra hne
    have hopen : 0 < s.entered.length := List.length_pos_iff.2 hne
    have hfirst := (hfinal 0 hopen.le).2 hopen
    rw [leave_clear_left hs hopen] at hfirst
    split_ifs at hfirst with hblock
    -- the innermost open scope is a lexical call, which brings frames back
    have hsame := sameFrames_left hs (by omega : blocks s.entered < 1) hopen
    have hempty := (hfinal 1 hopen).1
    rw [frames, hsame.env] at hempty
    exact (hs.left 1).frames_ne_nil hempty
  · intro hnone k hk
    obtain rfl : k = 0 := by simpa [hnone] using hk
    exact ⟨rfl, fun hopen => by simp [hnone] at hopen⟩

theorem returning_left (s : Scopes) (k : Nat) : (s.left k).returning = s.returning ∧ (s.left k).owned = s.owned := by
  induction k with
  | zero => exact ⟨rfl, rfl⟩
  | succ k ih =>
    have hleave : (s.left k).leave.2.returning = (s.left k).returning ∧ (s.left k).leave.2.owned = (s.left k).owned := by
      unfold leave
      split
      · exact ⟨rfl, rfl⟩
      · split <;> exact ⟨rfl, rfl⟩
      · exact ⟨rfl, rfl⟩
    exact ⟨hleave.1.trans ih.1, hleave.2.trans ih.2⟩

end Clear

/-- **What exits do to a cleared context.** After any operations on a new context and a `clear`, the scopes still open are
left one by one, innermost first. Up to the innermost lexical call there are no frames, no name has a value, and each exit
is an error; the exit of that call and those after it are none. From then on the frames and the values of names are
those that the exits would have left without the `clear`. So the context stays empty and all exits go well only if no
scope was open. Nothing is owned and no return is under way at any point. -/
theorem exits_after_clear (operations : List Operation) :
    let s := performAll {} operations
    (∀ k ≤ s.entered.length,
      (s.clear.left k).frames = (if k ≤ blocks s.entered then [] else (s.left k).frames) ∧
      (∀ name, (s.clear.left k).lookup? name = if k ≤ blocks s.entered then none else (s.left k).lookup? name) ∧
      (k < s.entered.length →
        (s.clear.left k).leave.1 = if k < blocks s.entered then .error .nothingToLeave else .ok ()) ∧
      (s.clear.left k).owned = {} ∧ (s.clear.left k).returning = none) ∧
    ((∀ k ≤ s.entered.length, (s.clear.left k).frames = [] ∧
      (k < s.entered.length → (s.clear.left k).leave.1 = .ok ())) ↔ s.entered = []) := by
  intro s
  have hs : s.Sound := sound_start.performAll operations
  refine ⟨fun k hk => ?_, final_iff hs⟩
  obtain ⟨hreturning, howned⟩ := s.clear.returning_left k
  have henv : (s.clear.left k).env = if k ≤ blocks s.entered then none else (s.left k).env := by
    split_ifs with hblock
    · exact (cleared_left hs hblock).env
    · exact (sameFrames_left hs (by omega) hk).env
  refine ⟨?_, fun name => ?_, leave_clear_left hs, howned, hreturning⟩
  · rw [frames, henv]
    split_ifs <;> rfl
  · rw [lookup?, henv]
    split_ifs <;> rfl

/-- a lexical call that is open brings the globals back, and a block that is open fails to be left -/
theorem clear_is_undone :
    let called := performAll {} [.declare "x" (.int 1), .callScope ⟨"f", []⟩ false]
    let entered := performAll {} [.newFrame "block"]
    called.clear.lookup? "x" = none ∧ called.clear.leave.2.lookup? "x" = some (.int 1) ∧
      entered.clear.leave.1 = .error .nothingToLeave :=
  ⟨rfl, rfl, rfl⟩

end Scopes

end LevelScript
