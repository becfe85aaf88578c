/-
Lexical and dynamic calls agree when nothing is captured.

The two ways of calling keep the frames differently. A dynamic run has the frames of its suspended callers below those
of the activation, a lexical one has set them aside. `Watch.Covers`: a watched run that comes to an end ends like the
lexical run and like the dynamic one, which goes on above the frames of the callers and leaves them as they are. The
names that it looks up are found in the frames of the activation, where both look first, or in the globals.
-/
import LevelScript.Proofs.Frames
import LevelScript.Proofs.Hosting
import LevelScript.Proofs.Slots
import LevelScript.Proofs.Watched

namespace LevelScript

open LevelScript.Syntax

/-! ## Frames below an activation -/

/-- the environment above the frames of suspended callers -/
def Env.above (e : Env) (callers : List Frame) : Env := { e with locals := e.locals ++ callers }

def State.above (s : State) (callers : List Frame) : State := { s with env := s.env.above callers }

@[simp] theorem State.above_nil (s : State) : s.above [] = s := by
  simp [State.above, Env.above]

/-- an activation that has callers has a frame for its arguments -/
def State.Rooted (s : State) (callers : List Frame) : Prop := s.env.locals = [] → callers = []

theorem State.Rooted.of_length {s t : State} {callers : List Frame} (h : s.Rooted callers)
    (hlength : t.env.locals.length = s.env.locals.length) : t.Rooted callers :=
  fun ht => h (List.eq_nil_of_length_eq_zero (by rw [← hlength, ht, List.length_nil]))

namespace Env

theorem findSome?_eq_none_of_free {name : String} {fs : List Frame} (h : ∀ f ∈ fs, f.binds name = false) :
    fs.findSome? (·.get? name) = none := by
  have hfind := findSome?_of_free h []
  rwa [List.append_nil] at hfind

theorem assignIn?_append (name : String) (v : Val) (fs gs : List Frame) :
    assignIn? name v (fs ++ gs) =
      ((assignIn? name v fs).map (· ++ gs)).or ((assignIn? name v gs).map (fs ++ ·)) := by
  induction fs with
  | nil => simp [assignIn?]
  | cons f fs ih =>
    simp only [List.cons_append, assignIn?]
    split_ifs
    · rfl
    · rw [ih]
      rcases assignIn? name v fs with _ | fs' <;> rcases assignIn? name v gs with _ | gs' <;> rfl

theorem assignIn?_of_free {name : String} {fs : List Frame} (h : ∀ f ∈ fs, f.binds name = false) (v : Val) :
    assignIn? name v fs = none := by
  rcases assignIn?_cases name v fs with ⟨-, hnone⟩ | ⟨inner, f, outer, rfl, -, hf, -⟩
  · exact hnone
  · rw [h f (by simp)] at hf
    cases hf

end Env

section Captured

variable {s : State} {callers : List Frame} {name : String}

/-- a name that is not captured is bound by the activation itself, or by no caller either -/
theorem State.own_or_free (h : ¬ s.Captures callers name) :
    (∃ f ∈ s.env.locals, f.binds name = true) ∨ ∀ f ∈ callers, f.binds name = false := by
  by_cases hown : ∃ f ∈ s.env.locals, f.binds name = true
  · exact .inl hown
  · right
    intro f hf
    by_contra hbound
    refine h ⟨fun g hg => ?_, f, hf, by simpa using hbound⟩
    by_contra hg'
    exact hown ⟨g, hg, by simpa using hg'⟩

theorem Env.lookup_above (h : ¬ s.Captures callers name) : (s.env.above callers).lookup? name = s.env.lookup? name := by
  simp only [Env.lookup?, Env.above, List.findSome?_append]
  rcases State.own_or_free h with ⟨f, hf, hbound⟩ | hfree
  · rw [Frame.binds_eq_isSome] at hbound
    have hsome : (s.env.locals.findSome? (·.get? name)).isSome := List.findSome?_isSome_iff.2 ⟨f, hf, hbound⟩
    obtain ⟨v, hv⟩ := Option.isSome_iff_exists.1 hsome
    rw [hv]
    rfl
  · rw [findSome?_eq_none_of_free hfree, Option.or_none]

theorem Env.assign_above (h : ¬ s.Captures callers name) (v : Val) :
    (s.env.above callers).assign name v = (s.env.assign name v).above callers := by
  simp only [Env.assign, Env.above, assignIn?_append]
  rcases State.own_or_free h with ⟨f, hf, hbound⟩ | hfree
  · rcases assignIn?_cases name v s.env.locals with ⟨hfree, -⟩ | ⟨inner, g, outer, -, -, -, hsome⟩
    · rw [hfree f hf] at hbound
      cases hbound
    · simp [hsome]
  · rw [assignIn?_of_free hfree]
    rcases assignIn? name v s.env.locals with _ | locals <;> rfl

end Captured

theorem Env.declare_above {s : State} {callers : List Frame} (h : s.Rooted callers) (name : String) (v : Val) :
    (s.env.above callers).declare? name v = (s.env.declare? name v).map (·.above callers) := by
  unfold Env.declare? Env.current Env.above Env.modifyCurrent
  rcases hlocals : s.env.locals with _ | ⟨f, fs⟩
  · rw [h hlocals]
    simp
  · by_cases hbound : f.binds name = true <;> simp [hbound]

/-! ## Meeting ends -/

/-- a lexical run and a dynamic one above the frames of callers come to the same end, which is the given one; there are
as many frames as before -/
structure Meet {α : Type} (l d : Eval α) (callers : List Frame) (s : State) (ending : Except Interrupt α × State) :
    Prop where
  lexical : l s = ending
  dynamic : d (s.above callers) = (ending.1, ending.2.above callers)
  height : ending.2.env.locals.length = s.env.locals.length

namespace Eval

variable {α β : Type}

/-- from this state, the step does the same above the frames of the callers -/
abbrev BlindAt (c : Eval α) (callers : List Frame) (s : State) : Prop := Meet c c callers s (c s)

/-- the step does not look at the frames below the activation -/
def Blind (c : Eval α) : Prop := ∀ callers s, s.Rooted callers → BlindAt c callers s

theorem BlindAt.bind {c : Eval α} {f : α → Eval β} {callers : List Frame} {s : State} (hc : BlindAt c callers s)
    (hf : ∀ a t, c s = (.ok a, t) → BlindAt (f a) callers t) : BlindAt (c >>= f) callers s := by
  obtain ⟨-, hdynamic, hheight⟩ := hc
  rcases hrun : c s with ⟨e | a, t⟩ <;> rw [hrun] at hdynamic hheight
  · refine ⟨rfl, ?_, ?_⟩ <;> rw [run_bind_error hrun]
    · rw [run_bind_error hdynamic]
    · exact hheight
  · obtain ⟨-, hdynamic', hheight'⟩ := hf a t hrun
    refine ⟨rfl, ?_, ?_⟩ <;> rw [run_bind_ok hrun]
    · rw [run_bind_ok hdynamic, hdynamic']
    · exact hheight'.trans hheight

/-- a step that has a result without a look at the state -/
theorem blindAt_of_same {c : Eval α} (r : Except Interrupt α) (h : ∀ s, c s = (r, s)) (callers : List Frame)
    (s : State) : BlindAt c callers s := by
  refine ⟨rfl, ?_, ?_⟩ <;> simp only [h]

theorem blind_of_same {c : Eval α} (r : Except Interrupt α) (h : ∀ s, c s = (r, s)) : Blind c :=
  fun callers s _ => blindAt_of_same r h callers s

theorem Blind.bind {c : Eval α} {f : α → Eval β} (hc : Blind c) (hf : ∀ a, Blind (f a)) : Blind (c >>= f) := by
  intro callers s hs
  refine (hc callers s hs).bind fun a t hrun => hf a callers t (hs.of_length ?_)
  have hheight := (hc callers s hs).height
  rwa [hrun] at hheight

theorem Blind.tryCatch {c : Eval α} {f : Interrupt → Eval α} (hc : Blind c) (hf : ∀ e, Blind (f e)) :
    Blind (tryCatch c f) := by
  intro callers s hs
  obtain ⟨-, hdynamic, hheight⟩ := hc callers s hs
  rcases hrun : c s with ⟨e | a, t⟩ <;> rw [hrun] at hdynamic hheight
  · obtain ⟨-, hdynamic', hheight'⟩ := hf e callers t (hs.of_length hheight)
    refine ⟨rfl, ?_, ?_⟩ <;> rw [run_catch_error hrun]
    · rw [run_catch_error hdynamic, hdynamic']
    · exact hheight'.trans hheight
  · refine ⟨rfl, ?_, ?_⟩ <;> rw [run_catch_ok hrun]
    · rw [run_catch_ok hdynamic]
    · exact hheight

theorem blind_pure (a : α) : Blind (pure a) := blind_of_same (.ok a) fun _ => rfl

theorem blind_throw (e : Interrupt) : Blind (throw e : Eval α) := blind_of_same (.error e) fun _ => rfl

theorem blind_fail (cause : Cause) (span : Span) : Blind (fail cause span : Eval α) := blind_throw _

theorem blind_ofExcept (r : Except Interrupt α) : Blind (Eval.ofExcept r) := blind_of_same r fun _ => rfl

/-- the rest of a step may depend on what it looks at, unless that is the environment -/
theorem blind_get {f : State → Eval α} (hsame : ∀ s env, f { s with env := env } = f s) (h : ∀ s, Blind (f s)) :
    Blind (get >>= f) := by
  intro callers s hs
  obtain ⟨-, hdynamic, hheight⟩ := h s callers s hs
  exact ⟨rfl, (congrFun (hsame s _) _).trans hdynamic, hheight⟩

/-- a step that has nothing to do with the environment -/
theorem blind_of_elsewhere {c : Eval α} (h : ∀ s env, c { s with env := env } = ((c s).1, { (c s).2 with env := env }))
    (henv : ∀ s, (c s).2.env = s.env) : Blind c := by
  intro callers s _
  refine ⟨rfl, ?_, by rw [henv]⟩
  rw [State.above, h, State.above, henv]

theorem blind_isReturning : Blind isReturning := blind_of_elsewhere (fun _ _ => rfl) fun _ => rfl

theorem blind_startReturn (v : Val) : Blind (startReturn v) := blind_of_elsewhere (fun _ _ => rfl) fun _ => rfl

theorem blind_clearReturn : Blind clearReturn := blind_of_elsewhere (fun _ _ => rfl) fun _ => rfl

theorem blind_setLastError (d : Option Diagnostic) : Blind (modify fun s : State => { s with lastError := d }) :=
  blind_of_elsewhere (fun _ _ => rfl) fun _ => rfl

theorem blind_write (owner : Nat) (text : String) : Blind (write owner text) :=
  blind_of_elsewhere (fun _ _ => rfl) fun _ => rfl

theorem blind_newString (text : String) : Blind (newString text) := blind_of_elsewhere (fun _ _ => rfl) fun _ => rfl

theorem blind_newList (items : Array Val) : Blind (newList items) := blind_of_elsewhere (fun _ _ => rfl) fun _ => rfl

theorem blind_items (address : Nat) : Blind (items address) := blind_of_elsewhere (fun _ _ => rfl) fun _ => rfl

theorem blind_modifyList (address : Nat) (change : Array Val → Array Val) : Blind (modifyList address change) :=
  blind_of_elsewhere (fun _ _ => rfl) fun _ => rfl

theorem blind_newDefault (t : Ty) : Blind (newDefault t) := by
  cases t with
  | list => exact blind_newList #[]
  | string => exact blind_newString ""
  | fn | nativeFn | error => exact blind_throw _
  | _ => exact blind_pure _

theorem blind_declare (name : String) (v : Val) (span : Span) : Blind (declare name v span) := by
  intro callers s hs
  have habove := Env.declare_above hs name v
  have henv : (s.above callers).env = s.env.above callers := rfl
  refine ⟨rfl, ?_, ?_⟩
  · rcases hd : s.env.declare? name v with _ | env <;> rw [hd] at habove <;> simp only [declare, henv, hd, habove] <;> rfl
  · rcases hd : s.env.declare? name v with _ | env <;> simp only [declare, hd]
    exact Env.length_declare hd

theorem blind_invalidIndex (index : Int) (span : Span) : Blind (invalidIndex (α := α) index span) := by
  unfold invalidIndex
  split
  · exact blind_fail _ _
  · exact blind_throw _

theorem blind_readMember (v : Val) (name : Token) (span : Span) : Blind (readMember v name span) := by
  unfold readMember
  split
  · split_ifs
    · exact (blind_items _).bind fun _ => blind_pure _
    · exact blind_fail _ _
  · split
    · exact blind_pure _
    · exact blind_fail _ _
  · split
    · exact blind_pure _
    · exact blind_fail _ _
  · exact blind_fail _ _

theorem blind_readItem (address : Nat) (index : Val) (span : Span) : Blind (readItem address index span) := by
  refine (blind_ofExcept _).bind fun place => ?_
  split
  · refine (blind_items _).bind fun items => ?_
    split
    · exact blind_pure _
    · exact blind_invalidIndex _ _
  · exact blind_pure _

theorem blind_growSlot (address : Nat) (index : Val) (span : Span) : Blind (growSlot address index span) := by
  refine (blind_ofExcept _).bind fun place => ?_
  split
  · split_ifs
    · exact blind_invalidIndex _ _
    · exact blind_fail _ _
    · exact (blind_modifyList _ _).bind fun _ => blind_pure _
  · exact blind_fail _ _

theorem blind_acceptReply (name : String) (span : Span) (r : Reply) : Blind (acceptReply name span r) := by
  unfold acceptReply
  split
  · exact blind_fail _ _
  · exact blind_pure _
  · exact blind_fail _ _

/-- a built-in function looks at lists only -/
theorem blind_builtin (setting : Setting) (depth : Nat) (callBack : String → List Val → Eval Val) (owner : Nat)
    (b : Builtin) (arguments : List Val) (span : Span) :
    Blind (callNative setting depth callBack (.builtin owner b) arguments span) := by
  refine (Blind.tryCatch ?_ fun e => blind_throw _).bind fun reply => blind_acceptReply _ _ reply
  refine blind_get (fun _ _ => rfl) fun s => (blind_ofExcept _).bind fun (v, text) => ?_
  dsimp only
  split_ifs
  · exact (blind_pure ()).bind fun _ => blind_pure _
  · exact (blind_write owner text).bind fun _ => blind_pure _

theorem blindAt_stored {slot : Slot} {callers : List Frame} {s : State} (hset : ∀ v, BlindAt (slot.set v) callers s)
    (stored given : Val) : BlindAt (do slot.set stored; return given) callers s :=
  (hset stored).bind fun _ t _ => blindAt_of_same (.ok given) (fun _ => rfl) callers t

/-- a store does the same if reading and writing its slot do -/
theorem blindAt_store {slot : Slot} {callers : List Frame} {s : State} (hget : BlindAt slot.get callers s)
    (hset : ∀ v, BlindAt (slot.set v) callers s) (target : Expr) (v : Val) (span : Span) :
    BlindAt (store target slot v span) callers s := by
  have hfail {cause span} : BlindAt (fail cause span : Eval Val) callers s :=
    blindAt_of_same (.error (.at cause span)) (fun _ => rfl) callers s
  -- nothing before the step that writes the slot changes the state
  have hcast (t : Ty) {f : Val → Eval Val} (hf : ∀ w, BlindAt (f w) callers s) :
      BlindAt (Eval.ofExcept (v.cast t span) >>= f) callers s := by
    refine (blindAt_of_same (v.cast t span) (fun _ => rfl) callers s).bind fun w u hw => ?_
    cases congrArg Prod.snd hw
    exact hf w
  refine hget.bind fun current t ht => ?_
  obtain ⟨w, hw⟩ := run_get slot s
  cases congrArg Prod.snd (hw.symm.trans ht)
  split
  · refine hcast .float fun c => ?_
    split
    · split_ifs
      · split
        · exact blindAt_stored hset _ _
        · exact hfail
      · exact hfail
    · exact blindAt_of_same (.ok _) (fun _ => rfl) callers s
  · exact blindAt_stored hset _ _
  · exact hcast _ fun w => blindAt_stored hset _ _

theorem blindAt_lookup {callers : List Frame} {s : State} {name : String} (h : ¬ s.Captures callers name) :
    BlindAt (lookup? name) callers s :=
  ⟨rfl, congrArg (fun found => (Except.ok found, s.above callers)) (Env.lookup_above h), rfl⟩

theorem blindAt_assign {callers : List Frame} {s : State} {name : String} (h : ¬ s.Captures callers name) (v : Val) :
    BlindAt (assign name v) callers s :=
  have hdynamic : assign name v (s.above callers) = (.ok (), State.above { s with env := s.env.assign name v } callers) :=
    congrArg (fun env => ((.ok (), { s with env := env }) : Except Interrupt Unit × State)) (Env.assign_above h v)
  ⟨rfl, hdynamic, Env.length_assign _ _ _⟩

end Eval

/-! ## Watched runs -/

namespace Watch

open Eval

variable {α β : Type}

theorem run_bind (c : Watch α) (f : α → Watch β) (callers : List Frame) (s : State) :
    (c >>= f) callers s = (c callers s).bind fun
      | (.ok a, t) => f a callers t
      | (.error e, t) => some (.error e, t) := by
  simp only [bind, ReaderT.bind, ExceptT.bind, ExceptT.mk, StateT.bind]
  rcases c callers s with _ | ⟨e | a, t⟩ <;> rfl

theorem run_tryCatch (c : Watch α) (f : Interrupt → Watch α) (callers : List Frame) (s : State) :
    (tryCatch c f) callers s = (c callers s).bind fun
      | (.ok a, t) => some (.ok a, t)
      | (.error e, t) => f e callers t := by
  simp only [tryCatch, tryCatchThe, MonadExceptOf.tryCatch, ExceptT.tryCatch, ExceptT.mk, bind, StateT.bind]
  rcases c callers s with _ | ⟨e | a, t⟩ <;> rfl

/-- where the watched run comes to an end, the lexical run and the dynamic one come to the same -/
def Covers (c : Watch α) (l d : Eval α) : Prop :=
  ∀ callers s, s.Rooted callers → ∀ ending, c callers s = some ending → Meet l d callers s ending

theorem covers_lift {c : Eval α} (h : Blind c) : Covers (lift c) c c := by
  intro callers s hs ending hend
  cases hend
  exact h callers s hs

theorem covers_pure (a : α) : Covers (pure a) (pure a) (pure a) := covers_lift (blind_pure a)

theorem covers_throw (e : Interrupt) : Covers (throw e : Watch α) (throw e) (throw e) := covers_lift (blind_throw e)

theorem Covers.bind {c : Watch α} {l d : Eval α} {f : α → Watch β} {fl fd : α → Eval β} (hc : Covers c l d)
    (hf : ∀ a, Covers (f a) (fl a) (fd a)) : Covers (c >>= f) (l >>= fl) (d >>= fd) := by
  intro callers s hs ending hend
  rw [run_bind] at hend
  rcases hrun : c callers s with _ | ⟨e | a, t⟩ <;> rw [hrun] at hend
  · cases hend
  · cases hend
    obtain ⟨hl, hd, hheight⟩ := hc callers s hs _ hrun
    exact ⟨run_bind_error hl _, run_bind_error hd _, hheight⟩
  · obtain ⟨hl, hd, hheight⟩ := hc callers s hs _ hrun
    obtain ⟨hl', hd', hheight'⟩ := hf a callers t (hs.of_length hheight) ending hend
    exact ⟨(run_bind_ok hl _).trans hl', (run_bind_ok hd _).trans hd', hheight'.trans hheight⟩

theorem Covers.tryCatch {c : Watch α} {l d : Eval α} {f : Interrupt → Watch α} {fl fd : Interrupt → Eval α}
    (hc : Covers c l d) (hf : ∀ e, Covers (f e) (fl e) (fd e)) :
    Covers (tryCatch c f) (tryCatch l fl) (tryCatch d fd) := by
  intro callers s hs ending hend
  rw [run_tryCatch] at hend
  rcases hrun : c callers s with _ | ⟨e | a, t⟩ <;> rw [hrun] at hend
  · cases hend
  · obtain ⟨hl, hd, hheight⟩ := hc callers s hs _ hrun
    obtain ⟨hl', hd', hheight'⟩ := hf e callers t (hs.of_length hheight) ending hend
    exact ⟨(run_catch_error hl _).trans hl', (run_catch_error hd _).trans hd', hheight'.trans hheight⟩
  · cases hend
    obtain ⟨hl, hd, hheight⟩ := hc callers s hs _ hrun
    exact ⟨run_catch_ok hl _, run_catch_ok hd _, hheight⟩

theorem Covers.discard {c : Watch α} {l d : Eval α} (h : Covers c l d) :
    Covers (discard c) (discard l) (discard d) := by
  change Covers ((fun _ => ()) <$> c) ((fun _ => ()) <$> l) ((fun _ => ()) <$> d)
  rw [map_eq_pure_bind, map_eq_pure_bind, map_eq_pure_bind]
  exact h.bind fun _ => covers_pure ()

theorem covers_mapM {f : α → Watch β} {fl fd : α → Eval β} (h : ∀ a, Covers (f a) (fl a) (fd a)) (l : List α) :
    Covers (l.mapM f) (l.mapM fl) (l.mapM fd) := by
  induction l with
  | nil => exact covers_pure []
  | cons a l ih =>
    rw [List.mapM_cons, List.mapM_cons, List.mapM_cons]
    exact (h a).bind fun b => ih.bind fun bs => covers_pure (b :: bs)

/-- a handler that gives a lack of depth a place -/
theorem covers_placed (cause : Cause) (span : Span) (e : Interrupt) :
    Covers (match e with
        | .host .tooDeep => throw (.at cause span)
        | e => throw e : Watch α)
      (match e with
        | .host .tooDeep => fail cause span
        | e => throw e)
      (match e with
        | .host .tooDeep => fail cause span
        | e => throw e) := by
  rcases e with f | e
  · exact covers_throw _
  · cases e <;> exact covers_throw _

/-- the rest of a run may depend on all of the state but the frames above the globals -/
theorem covers_look {f : State → Watch α} {fl fd : State → Eval α} (hd : ∀ s callers, fd (s.above callers) = fd s)
    (h : ∀ s, Covers (f s) (fl s) (fd s)) : Covers (lift get >>= f) (get >>= fl) (get >>= fd) := by
  intro callers s hs ending hend
  obtain ⟨hl, hd', hheight⟩ := h s callers s hs ending hend
  exact ⟨hl, (congrFun (hd s callers) _).trans hd', hheight⟩

/-! ## Names -/

/-- behind a guard, a name is not captured -/
theorem not_captures_of_guard {callers : List Frame} {s : State} {name : String} {f : Unit → Watch α}
    {ending : Except Interrupt α × State} (h : (guard name >>= f) callers s = some ending) :
    ¬ s.Captures callers name ∧ f () callers s = some ending := by
  rw [run_bind, guard] at h
  split_ifs at h with hcaptures
  · exact absurd h (by simp)
  · exact ⟨hcaptures, h⟩

theorem covers_lookup (name : String) : Covers (lookup? name) (Eval.lookup? name) (Eval.lookup? name) := by
  intro callers s _ ending hend
  obtain ⟨hfree, hend⟩ := not_captures_of_guard hend
  cases hend
  exact blindAt_lookup hfree

theorem covers_store (target : Expr) (slot : Slot) (v : Val) (span : Span) :
    Covers (store target slot v span) (LevelScript.store target slot v span) (LevelScript.store target slot v span) := by
  cases slot with
  | binding name =>
    intro callers s _ ending hend
    obtain ⟨hfree, hend⟩ := not_captures_of_guard hend
    cases hend
    have hget : BlindAt (Slot.get (.binding name)) callers s :=
      (blindAt_lookup hfree).bind fun found t _ => blindAt_of_same (.ok _) (fun _ => rfl) callers t
    exact blindAt_store hget (fun w => blindAt_assign hfree w) target v span
  | item address place =>
    refine covers_lift fun callers s hs => blindAt_store ?_ (fun w => ?_) target v span
    · exact ((blind_items address).bind fun _ => blind_pure _) callers s hs
    · exact blind_modifyList address _ callers s hs

/-! ## Frames, sequences and loops -/

theorem run_inFrame {body : Eval α} {name : String} {s t : State} {result : Except Interrupt α}
    (h : body { s with env := s.env.push ⟨name, []⟩ } = (result, t)) :
    Eval.inFrame name body s = (result, { t with env := t.env.pop }) := by
  simp only [Eval.inFrame, h]

theorem run_inCall {body : Eval Unit} {arguments : Frame} {dynamic : Bool} {s t : State} {result : Except Interrupt Unit}
    (h : body { s with env := s.env.enter arguments dynamic } = (result, t)) :
    Eval.inCall arguments dynamic body s = (result.map fun _ => t.returning.getD .void,
      { t with returning := none, env := .leave s.env t.env dynamic }) := by
  simp only [Eval.inCall, h]

theorem Covers.inFrame {c : Watch α} {l d : Eval α} (h : Covers c l d) (name : String) :
    Covers (inFrame name c) (Eval.inFrame name l) (Eval.inFrame name d) := by
  intro callers s _ ending hend
  obtain ⟨⟨result, t⟩, hrun, rfl⟩ := Option.map_eq_some_iff.1 hend
  obtain ⟨hl, hd, hheight⟩ := h callers { s with env := s.env.push ⟨name, []⟩ } (fun hnil => nomatch hnil) _ hrun
  change t.env.locals.length = s.env.locals.length + 1 at hheight
  obtain ⟨frame, frames, hframes⟩ := List.exists_cons_of_length_eq_add_one hheight
  have hpop : (t.env.above callers).pop = t.env.pop.above callers := by simp [Env.pop, Env.above, hframes]
  refine ⟨run_inFrame hl, (run_inFrame (s := s.above callers) hd).trans ?_, ?_⟩
  · simp only [State.above, hpop]
  · simp [Env.pop, hheight]

/-- a call suspends its caller, whose frames come back at its end; the host starts without callers in both modes -/
theorem Covers.inCall {c : Watch Unit} {l d : Eval Unit} (h : Covers c l d) (arguments : Frame) (byHost : Bool) :
    Covers (inCall arguments byHost c) (Eval.inCall arguments false l) (Eval.inCall arguments (!byHost) d) := by
  intro callers s _ ending hend
  obtain ⟨⟨result, t⟩, hrun, rfl⟩ := Option.map_eq_some_iff.1 hend
  have hrooted (callers : List Frame) : State.Rooted { s with env := s.env.enter arguments false } callers :=
    fun hnil => nomatch hnil
  obtain ⟨hl, hd, hheight⟩ := h _ _ (hrooted _) _ hrun
  obtain ⟨frame, hframe⟩ : ∃ frame, t.env.locals = [frame] := List.length_eq_one_iff.1 hheight
  refine ⟨run_inCall hl, ?_, rfl⟩
  cases byHost with
  | true =>
    rw [if_pos rfl, State.above_nil, State.above_nil] at hd
    exact run_inCall (s := s.above callers) hd
  | false =>
    have hleave : Env.leave (s.env.above callers) (t.env.above (s.env.locals ++ callers)) true =
        (Env.leave s.env t.env false).above callers := by
      simp [Env.leave, Env.above, Env.pop, hframe]
    refine (run_inCall (s := s.above callers) hd).trans ?_
    simp only [State.above, Bool.not_false]
    exact congrArg (fun env => (result.map fun _ => t.returning.getD .void, { t with returning := none, env := env })) hleave

theorem covers_untilReturn {run : Stmt → Watch Unit} {l d : Stmt → Eval Unit}
    (h : ∀ stmt, Covers (run stmt) (l stmt) (d stmt)) (body : List Stmt) :
    Covers (untilReturn run body) (Eval.untilReturn l body) (Eval.untilReturn d body) := by
  induction body with
  | nil => exact covers_pure ()
  | cons stmt rest ih =>
    refine (h stmt).bind fun _ => (covers_lift blind_isReturning).bind fun returning => ?_
    cases returning with
    | true => exact covers_pure ()
    | false => exact ih

theorem covers_firstArm {test : Expr → Watch Bool} {tl td : Expr → Eval Bool} {run : Stmt → Watch Unit}
    {l d : Stmt → Eval Unit} (ht : ∀ e, Covers (test e) (tl e) (td e)) (hr : ∀ stmt, Covers (run stmt) (l stmt) (d stmt))
    (arms : List (Expr × Stmt)) :
    Covers (firstArm test run arms) (Eval.firstArm tl l arms) (Eval.firstArm td d arms) := by
  induction arms with
  | nil => exact covers_pure false
  | cons arm rest ih =>
    refine (ht arm.1).bind fun holds => ?_
    cases holds with
    | true => exact (hr arm.2).bind fun _ => covers_pure true
    | false => exact ih

theorem covers_repeatWhile {test : Watch Bool} {tl td : Eval Bool} {body increment : Watch Unit} {bl bd il id : Eval Unit}
    (ht : Covers test tl td) (hb : Covers body bl bd) (hi : Covers increment il id) (steps : Nat) :
    Covers (repeatWhile test body increment steps) (Eval.repeatWhile tl bl il steps)
      (Eval.repeatWhile td bd id steps) := by
  induction steps with
  | zero => exact covers_throw _
  | succ steps ih =>
    refine ht.bind fun holds => ?_
    cases holds with
    | false => exact covers_pure ()
    | true =>
      refine hb.bind fun _ => (covers_lift blind_isReturning).bind fun returning => ?_
      cases returning with
      | true => exact covers_pure ()
      | false => exact hi.bind fun _ => ih

end Watch

/-! ## Functions of the host -/

/-- the setting with the way in which functions are called -/
def Setting.calling (setting : Setting) (dynamic : Bool) : Setting := { setting with dynamic }

@[simp] theorem Setting.depths_calling (setting : Setting) (dynamic : Bool) :
    (setting.calling dynamic).depths = setting.depths := rfl

/-- the functions of the host are the given guests -/
def Setting.Hosts (setting : Setting) (guests : Guests) : Prop :=
  ∀ number arguments callBack, setting.host number callBack arguments = (guests number arguments).routine.run callBack

namespace Watch

open Eval

theorem install_above (s : State) (name : String) (f : Native) (callers : List Frame) :
    (s.above callers).install name f = (s.install name f).above callers := by
  by_cases hbound : s.env.globals.binds name = true <;> simp [State.install, State.above, Env.above, hbound]

theorem height_install (s : State) (name : String) (f : Native) :
    (s.install name f).env.locals.length = s.env.locals.length := by
  unfold State.install
  split_ifs <;> rfl

theorem covers_welcome {callBack : String → List Val → Watch Val} {l d : String → List Val → Eval Val}
    (hcall : ∀ name arguments, Covers (callBack name arguments) (l name arguments) (d name arguments)) (g : Guest) :
    Covers (welcome callBack g) (g.routine.run l) (g.routine.run d) := by
  induction g with
  | reply r => exact covers_pure r
  | fail e => exact covers_throw e
  | look next ih => exact fun callers s hs ending hend =>
      let ⟨hl, hd, hheight⟩ := ih s.atGlobals callers s hs ending hend
      ⟨hl, hd, hheight⟩
  | find name next ih =>
    intro callers s hs ending hend
    obtain ⟨hfree, hend⟩ := not_captures_of_guard hend
    obtain ⟨hl, hd, hheight⟩ := ih _ callers s hs ending hend
    have hsame : (next ((s.above callers).env.lookup? name)).routine = (next (s.env.lookup? name)).routine :=
      congrArg (fun found => (next found).routine) (Env.lookup_above hfree)
    exact ⟨hl, (congrArg (fun r => r.run d (s.above callers)) hsame).trans hd, hheight⟩
  | lists heap next ih => exact fun callers s hs ending hend =>
      let ⟨hl, hd, hheight⟩ := ih callers { s with heap := heap } hs ending hend
      ⟨hl, hd, hheight⟩
  | print owner text next ih => exact (covers_lift (blind_write owner text)).bind fun _ => ih
  | call name arguments next ih =>
    intro callers s hs ending hend
    obtain ⟨⟨result, t⟩, hrun, hend⟩ := Option.bind_eq_some_iff.1 hend
    obtain ⟨hl, hd, hheight⟩ := hcall name arguments callers s hs _ hrun
    obtain ⟨hl', hd', hheight'⟩ := ih result callers t (hs.of_length hheight) ending hend
    refine ⟨?_, ?_, hheight'.trans hheight⟩
    · simp only [Guest.routine, Routine.run, hl, hl']
    · simp only [Guest.routine, Routine.run, hd, hd']
  | install name f next ih =>
    intro callers s hs ending hend
    obtain ⟨hl, hd, hheight⟩ := ih callers (s.install name f) (hs.of_length (height_install s name f)) ending hend
    refine ⟨hl, ?_, hheight.trans (height_install s name f)⟩
    rw [← hd, ← install_above]
    rfl

section Runs

variable {setting : Setting} {guests : Guests} {depth : Nat}

theorem covers_callNative (hs : setting.Hosts guests) {callBack : String → List Val → Watch Val}
    {l d : String → List Val → Eval Val}
    (hcall : ∀ name arguments, Covers (callBack name arguments) (l name arguments) (d name arguments)) (f : Native)
    (arguments : List Val) (span : Span) :
    Covers (callNative setting guests depth callBack f arguments span)
      (LevelScript.callNative (setting.calling false) depth l f arguments span)
      (LevelScript.callNative (setting.calling true) depth d f arguments span) := by
  cases f with
  | builtin owner b => exact covers_lift (blind_builtin setting depth _ owner b arguments span)
  | host number name =>
    have hwelcome := covers_welcome hcall (guests number arguments)
    rw [← hs, ← hs] at hwelcome
    exact (hwelcome.tryCatch fun e => covers_throw _).bind fun reply => covers_lift (blind_acceptReply _ _ reply)

/-- the watched runs of a depth cover those of the evaluator -/
structure CoversRuns (setting : Setting) (guests : Guests) (depth : Nat) : Prop where
  exec : ∀ stmt, Covers (exec setting guests depth stmt) (LevelScript.exec (setting.calling false) depth stmt)
    (LevelScript.exec (setting.calling true) depth stmt)
  test : ∀ e, Covers (test setting guests depth e) (LevelScript.test (setting.calling false) depth e)
    (LevelScript.test (setting.calling true) depth e)
  eval : ∀ e, Covers (eval setting guests depth e) (LevelScript.eval (setting.calling false) depth e)
    (LevelScript.eval (setting.calling true) depth e)
  resolve : ∀ target, Covers (resolve setting guests depth target)
    (LevelScript.resolve (setting.calling false) depth target) (LevelScript.resolve (setting.calling true) depth target)
  call : ∀ decl arguments byHost, Covers (callFunction setting guests depth decl arguments byHost)
    (LevelScript.callFunction (setting.calling false) depth decl arguments false)
    (LevelScript.callFunction (setting.calling true) depth decl arguments (!byHost))
  callByName : ∀ name arguments, Covers (callByName setting guests depth name arguments)
    (LevelScript.callByName (setting.calling false) depth name arguments)
    (LevelScript.callByName (setting.calling true) depth name arguments)

variable (ih : CoversRuns setting guests depth)

include ih

theorem covers_test (e : Expr) : Covers (test setting guests (depth + 1) e)
    (LevelScript.test (setting.calling false) (depth + 1) e) (LevelScript.test (setting.calling true) (depth + 1) e) := by
  simp only [test, LevelScript.test]
  refine (ih.eval e).bind fun v => (covers_lift (blind_ofExcept _)).bind fun b => ?_
  cases b <;> exact covers_pure _

theorem covers_resolve (target : Expr) : Covers (resolve setting guests (depth + 1) target)
    (LevelScript.resolve (setting.calling false) (depth + 1) target)
    (LevelScript.resolve (setting.calling true) (depth + 1) target) := by
  cases target with
  | symbol token name =>
    simp only [resolve, LevelScript.resolve]
    refine (covers_lookup name).bind fun found => ?_
    split_ifs
    · exact covers_pure _
    · exact covers_throw _
  | member token owner name =>
    simp only [resolve, LevelScript.resolve]
    exact ih.resolve owner
  | index token owner place =>
    simp only [resolve, LevelScript.resolve]
    refine (ih.eval owner).bind fun v => ?_
    cases v with
    | list a => exact (ih.eval place).bind fun i => covers_lift (blind_growSlot a i _)
    | _ => exact covers_throw _
  | _ =>
    simp only [resolve, LevelScript.resolve]
    exact covers_throw _

theorem covers_call (decl : Function) (arguments : List Val) (byHost : Bool) :
    Covers (callFunction setting guests (depth + 1) decl arguments byHost)
      (LevelScript.callFunction (setting.calling false) (depth + 1) decl arguments false)
      (LevelScript.callFunction (setting.calling true) (depth + 1) decl arguments (!byHost)) := by
  simp only [callFunction, LevelScript.callFunction]
  exact (((covers_untilReturn ih.exec decl.body).inFrame "block").inCall _ byHost).tryCatch fun e =>
    covers_placed _ _ e

theorem covers_callByName (name : String) (arguments : List Val) :
    Covers (callByName setting guests (depth + 1) name arguments)
      (LevelScript.callByName (setting.calling false) (depth + 1) name arguments)
      (LevelScript.callByName (setting.calling true) (depth + 1) name arguments) := by
  simp only [callByName, LevelScript.callByName]
  refine (covers_lift (blind_setLastError none)).bind fun _ => Covers.tryCatch ?_ fun e => ?_
  · refine covers_look (fun _ _ => rfl) fun s => ?_
    rcases s.env.globals.get? name with _ | v
    · exact covers_throw _
    · cases v with
      | fn owner decl =>
        dsimp only
        rcases hostCallCause? name decl.params arguments with _ | cause
        · exact (ih.call decl arguments true).tryCatch fun e => covers_placed _ _ e
        · exact covers_throw _
      | _ => exact covers_throw _
  · cases e with
    | fault f => exact (covers_lift (blind_setLastError _)).bind fun _ => covers_pure _
    | host e => exact covers_throw _

theorem covers_exec (stmt : Stmt) : Covers (exec setting guests (depth + 1) stmt)
    (LevelScript.exec (setting.calling false) (depth + 1) stmt)
    (LevelScript.exec (setting.calling true) (depth + 1) stmt) := by
  cases stmt with
  | expr token e =>
    simp only [exec, LevelScript.exec]
    exact (ih.eval e).discard
  | var token ty names start =>
    match names with
    | [name] =>
      cases start with
      | none =>
        simp only [exec, LevelScript.exec]
        exact (covers_lift (blind_newDefault ty)).bind fun v => covers_lift (blind_declare _ v _)
      | some e =>
        simp only [exec, LevelScript.exec]
        exact (ih.eval e).bind fun v => (covers_lift (blind_ofExcept _)).bind fun w =>
          covers_lift (blind_declare _ w _)
    | [] | _ :: _ :: _ =>
      simp only [exec, LevelScript.exec]
      exact covers_throw _
  | fn decl =>
    simp only [exec, LevelScript.exec]
    exact covers_lift (blind_declare _ _ _)
  | branch token arms otherwise =>
    simp only [exec, LevelScript.exec]
    refine (covers_firstArm ih.test ih.exec arms).bind fun ran => ?_
    cases ran with
    | true => exact covers_pure ()
    | false =>
      cases otherwise with
      | none => exact covers_pure ()
      | some body => exact ih.exec body
  | loop token counter start condition increment body =>
    simp only [exec, LevelScript.exec]
    have hrounds := covers_repeatWhile (ih.test condition) (ih.exec body) (ih.eval increment).discard
      setting.repetitions
    refine Covers.inFrame ((ih.eval start).bind fun v => ?_) "for-loop"
    cases counter with
    | some p =>
      exact (covers_lift (blind_ofExcept _)).bind fun w => (covers_lift (blind_declare _ w _)).bind fun _ => hrounds
    | none => exact hrounds
  | ret token e =>
    simp only [exec, LevelScript.exec]
    exact (ih.eval e).bind fun v => covers_lift (blind_startReturn v)
  | block token body =>
    simp only [exec, LevelScript.exec]
    exact (covers_untilReturn ih.exec body).inFrame "block"

theorem covers_eval (hs : setting.Hosts guests) (e : Expr) : Covers (eval setting guests (depth + 1) e)
    (LevelScript.eval (setting.calling false) (depth + 1) e)
    (LevelScript.eval (setting.calling true) (depth + 1) e) := by
  cases e with
  | int token n | float token x =>
    simp only [eval, LevelScript.eval]
    exact covers_pure _
  | string token text =>
    simp only [eval, LevelScript.eval]
    exact covers_lift (blind_newString text)
  | symbol token name =>
    simp only [eval, LevelScript.eval]
    refine (covers_lookup name).bind fun found => ?_
    cases found with
    | none => exact covers_throw _
    | some v => exact covers_pure v
  | binary token left op right =>
    simp only [eval, LevelScript.eval]
    exact (ih.eval left).bind fun a => (ih.eval right).bind fun b => covers_lift (blind_ofExcept _)
  | assign token target value =>
    simp only [eval, LevelScript.eval]
    exact (ih.eval value).bind fun v => (ih.resolve target).bind fun slot => covers_store target slot v _
  | call token callee arguments =>
    simp only [eval, LevelScript.eval]
    refine (ih.eval callee).bind fun v => ?_
    cases v with
    | fn owner decl =>
      dsimp only
      split_ifs
      · exact covers_throw _
      · refine (covers_mapM (fun p => ?_) _).bind fun values => ih.call decl values false
        exact (ih.eval p.1).bind fun w => covers_lift (blind_ofExcept _)
    | native f =>
      exact (covers_mapM ih.eval arguments).bind fun values => covers_callNative hs ih.callByName f values _
    | _ => exact covers_throw _
  | member token target name =>
    simp only [eval, LevelScript.eval]
    exact (ih.eval target).bind fun v => covers_lift (blind_readMember v name _)
  | index token target place =>
    simp only [eval, LevelScript.eval]
    refine (ih.eval target).bind fun v => ?_
    cases v with
    | list a => exact (ih.eval place).bind fun i => covers_lift (blind_readItem a i _)
    | _ => exact covers_throw _
  | list token elements =>
    simp only [eval, LevelScript.eval]
    exact (covers_mapM ih.eval elements).bind fun values => covers_lift (blind_newList _)
  | cast token ty operand =>
    simp only [eval, LevelScript.eval]
    exact (ih.eval operand).bind fun v => covers_lift (blind_ofExcept _)

end Runs

/-- a watched run covers the lexical and the dynamic one, by induction on the depth -/
theorem coversRuns {setting : Setting} {guests : Guests} (hs : setting.Hosts guests) (depth : Nat) :
    CoversRuns setting guests depth := by
  induction depth with
  | zero =>
    exact ⟨fun _ => covers_throw _, fun _ => covers_throw _, fun _ => covers_throw _, fun _ => covers_throw _,
      fun _ _ _ => covers_throw _, fun _ _ => covers_throw _⟩
  | succ depth ih =>
    exact ⟨covers_exec ih, covers_test ih, covers_eval ih hs, covers_resolve ih, covers_call ih, covers_callByName ih⟩

theorem covers_execTop {setting : Setting} {guests : Guests} (hs : setting.Hosts guests) (stmt : Stmt) :
    Covers (execTop setting guests stmt) (LevelScript.execTop (setting.calling false) stmt)
      (LevelScript.execTop (setting.calling true) stmt) :=
  (((coversRuns hs setting.evaluation).exec stmt).tryCatch fun e => covers_placed _ _ e).bind fun _ =>
    covers_lift blind_clearReturn

/-- a run that no caller waits for does the same in both modes -/
theorem Covers.modes {α : Type} {c : Watch α} {l d : Eval α} (h : Covers c l d) {s : State}
    {ending : Except Interrupt α × State} (hend : c [] s = some ending) : l s = ending ∧ d s = ending := by
  obtain ⟨hl, hd, -⟩ := h [] s (fun _ => rfl) ending hend
  rw [State.above_nil, State.above_nil] at hd
  exact ⟨hl, hd⟩

theorem runTokens_modes {setting : Setting} {guests : Guests} (hs : setting.Hosts guests) (bound : Nat)
    (tokens : List Token) {s : State} {loading : Loading}
    (h : runTokens setting guests bound tokens s = some loading) :
    LevelScript.runTokens (setting.calling false) bound tokens s = loading ∧
      LevelScript.runTokens (setting.calling true) bound tokens s = loading := by
  induction bound generalizing tokens s loading with
  | zero =>
    cases h
    exact ⟨rfl, rfl⟩
  | succ bound ih =>
    unfold runTokens at h
    unfold LevelScript.runTokens
    simp only [Setting.depths_calling]
    split_ifs at h ⊢
    · cases h
      exact ⟨rfl, rfl⟩
    · rcases hstmt : parseStatement setting.depths tokens with refusal | ⟨stmt, rest⟩ <;> rw [hstmt] at h
      · cases h
        exact ⟨rfl, rfl⟩
      · obtain ⟨ending, hrun, h⟩ := Option.bind_eq_some_iff.1 h
        obtain ⟨hl, hd⟩ := (covers_execTop hs stmt).modes hrun
        simp only [hl, hd]
        rcases ending with ⟨e | _, t⟩
        · cases h
          exact ⟨rfl, rfl⟩
        · obtain ⟨others, hothers, rfl⟩ := Option.map_eq_some_iff.1 h
          obtain ⟨hl', hd'⟩ := ih rest hothers
          simp only [hl', hd', and_self]

end Watch

end LevelScript
