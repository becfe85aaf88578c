/-
Lexical calls do not see or touch the locals of their caller.

A lexical call starts from the globals and its arguments alone. `lexical_calls_isolated`: from two states that differ
in nothing but the frames above the globals it comes to the same end, and these frames are afterwards what they were.
The caller may also stand at different depths: with functions of the host that do not call back, two calls that do not
end at the limit come to the same end with different budgets.
-/
import LevelScript.Proofs.Budget

namespace LevelScript

open LevelScript.Syntax Eval

/-- states that differ in nothing but the frames above the globals -/
structure State.SameOutside (s t : State) : Prop where
  globals : s.env.globals = t.env.globals
  owned : s.owned = t.owned
  returning : s.returning = t.returning
  lastError : s.lastError = t.lastError
  heap : s.heap = t.heap
  output : s.output = t.output

theorem State.SameOutside.enter {s t : State} (h : s.SameOutside t) (arguments : Frame) :
    { s with env := s.env.enter arguments false } = { t with env := t.env.enter arguments false } := by
  obtain ⟨hglobals, howned, hreturning, hlast, hheap, houtput⟩ := h
  simp only [Env.enter, Bool.false_eq_true, if_false, hglobals, howned, hreturning, hlast, hheap, houtput]

/-- two calls come to the same end, and each leaves the frames of its caller as they were -/
structure EndAlike (s t : State) (first second : Except Interrupt Val × State) : Prop where
  result : first.1 = second.1
  state : first.2.SameOutside second.2
  locals : first.2.env.locals = s.env.locals
  locals' : second.2.env.locals = t.env.locals

theorem inCall_alike {s t : State} (h : s.SameOutside t) (arguments : Frame) (body : Eval Unit) :
    EndAlike s t (inCall arguments false body s) (inCall arguments false body t) := by
  unfold inCall
  rw [h.enter]
  exact ⟨rfl, ⟨rfl, rfl, rfl, rfl, rfl, rfl⟩, rfl, rfl⟩

/-- a handler that leaves the state alone keeps two calls alike -/
theorem EndAlike.tryCatch {s t : State} {c : Eval Val} (h : EndAlike s t (c s) (c t)) {f : Interrupt → Eval Val}
    (hf : ∀ e, ∃ e', f e = throw e') : EndAlike s t (tryCatch c f s) (tryCatch c f t) := by
  have hresult := h.result
  rcases hs : c s with ⟨e | v, s'⟩ <;> rcases ht : c t with ⟨e' | v', t'⟩ <;> rw [hs, ht] at hresult h
  · cases hresult
    obtain ⟨e'', he⟩ := hf e
    rw [run_catch_error hs, run_catch_error ht, he]
    exact ⟨rfl, h.state, h.locals, h.locals'⟩
  · cases hresult
  · cases hresult
  · rw [run_catch_ok hs, run_catch_ok ht]
    exact h

theorem callFunction_alike (setting : Setting) (depth : Nat) (decl : Function) (arguments : List Val) {s t : State}
    (h : s.SameOutside t) :
    EndAlike s t (callFunction setting depth decl arguments false s)
      (callFunction setting depth decl arguments false t) := by
  cases depth with
  | zero => exact ⟨rfl, h, rfl, rfl⟩
  | succ depth =>
    simp only [callFunction]
    refine (inCall_alike h _ _).tryCatch fun e => ?_
    split
    · exact ⟨_, rfl⟩
    · exact ⟨_, rfl⟩

/-- two budgets that are both enough do the same -/
theorem callFunction_budgets {m : Manners} (hm : ¬ m.calls) {setting : Setting} (hs : setting.Obeys m)
    {depth depth' : Nat} {decl : Function} {arguments : List Val} {dynamic : Bool} {s : State}
    (h : ¬ EndsAtLimit (callFunction setting depth decl arguments dynamic s).1)
    (h' : ¬ EndsAtLimit (callFunction setting depth' decl arguments dynamic s).1) :
    callFunction setting depth decl arguments dynamic s = callFunction setting depth' decl arguments dynamic s := by
  rcases Nat.le_total depth depth' with hle | hle
  · exact ((deeper hm hs hle).call decl arguments dynamic s).resolve_right h
  · exact (((deeper hm hs hle).call decl arguments dynamic s).resolve_right h').symm

/-- **Lexical calls do not see or touch the locals of their caller.** From two states that differ in nothing but the
frames above the globals, a lexical call has the same result or the same error and leaves the same globals, lists and
output, and each caller finds its frames as they were. With functions of the host that do not call back this holds even
if the two callers have different depths left, unless one of them runs out of it. -/
theorem lexical_calls_isolated (setting : Setting) (decl : Function) (arguments : List Val) {s t : State}
    (h : s.SameOutside t) :
    (∀ depth, EndAlike s t (callFunction setting depth decl arguments false s)
      (callFunction setting depth decl arguments false t)) ∧
    ∀ m : Manners, ¬ m.calls → setting.Obeys m → ∀ depth depth',
      ¬ EndsAtLimit (callFunction setting depth decl arguments false s).1 →
      ¬ EndsAtLimit (callFunction setting depth' decl arguments false t).1 →
      EndAlike s t (callFunction setting depth decl arguments false s)
        (callFunction setting depth' decl arguments false t) := by
  refine ⟨fun depth => callFunction_alike setting depth decl arguments h, ?_⟩
  intro m hm hs depth depth' hlimit hlimit'
  have halike := callFunction_alike setting depth decl arguments h
  rw [halike.result] at hlimit
  rwa [callFunction_budgets hm hs hlimit hlimit'] at halike

/-- a function that adds to the global `x` is called where a local `x` hides it, and with less depth where none does -/
theorem lexical_calls_isolated_hidden :
    let x := { (default : Token) with kind := .symbol "x" }
    let n := { (default : Token) with kind := .symbol "n" }
    let sum := Expr.binary x (.symbol x "x") .add (.symbol n "n")
    let add := Function.mk x .int x [⟨.int, n⟩] x [.ret x (.assign x (.symbol x "x") sum)]
    let globals : Frame := ⟨"global", [("x", .int 1)]⟩
    let shadowed : State := { env := ⟨globals, [⟨"block", [("x", .int 100)]⟩]⟩ }
    let plain : State := { env := ⟨globals, []⟩ }
    EndAlike shadowed plain (callFunction {} 9 add [.int 2] false shadowed)
      (callFunction {} 5 add [.int 2] false plain) := by
  intro x n sum add globals shadowed plain
  have hsame : shadowed.SameOutside plain := ⟨rfl, rfl, rfl, rfl, rfl, rfl⟩
  have hfirst : (callFunction {} 9 add [.int 2] false shadowed).1 = .ok (.int 3) := by rfl
  have hsecond : (callFunction {} 5 add [.int 2] false plain).1 = .ok (.int 3) := by rfl
  refine (lexical_calls_isolated {} add [.int 2] hsame).2 ⟨False, True⟩ not_false (Setting.obeys_default _) 9 5 ?_ ?_
  · rw [hfirst]
    exact fun ⟨_, h, _⟩ => nomatch h
  · rw [hsecond]
    exact fun ⟨_, h, _⟩ => nomatch h

end LevelScript
