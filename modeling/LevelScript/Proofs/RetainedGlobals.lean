/-
What can change the value of a global.

Declarations and functions of the host bind free names only, and frames that come and go leave the globals alone. So it
takes an assignment: one whose target is a name, or a member of a name, that no frame above the globals binds. It
overwrites the global (`Position.Overwrites`). A run spares the globals, up to a relation between old and new values, if
every assignment that it comes to overwrites by related values only.

`retains_after`: then the globals are retained at the end of the run up to that relation, by induction on the depth that
the run may spend, and so they are in every state that it comes to (`retains_sees`).
-/
import LevelScript.Proofs.DeclaredTypes
import LevelScript.Proofs.FaultPlaces

namespace LevelScript

open LevelScript.Syntax Eval

/-! ## Globals that are retained -/

/-- every name of the first frame is bound in the second one, to a value that is related to its value in the first -/
def Frame.Retains (R : String → Val → Val → Prop) (f g : Frame) : Prop :=
  ∀ name old, f.get? name = some old → ∃ new, g.get? name = some new ∧ R name old new

section Retains

variable {R : String → Val → Val → Prop} [∀ name, IsPreorder Val (R name)] {f g k : Frame}

theorem Frame.Retains.refl (f : Frame) : f.Retains R f := fun name v hv => ⟨v, hv, refl_of (R name) v⟩

theorem Frame.Retains.trans (hfg : f.Retains R g) (hgk : g.Retains R k) : f.Retains R k := by
  intro name old hold
  obtain ⟨mid, hmid, hstart⟩ := hfg name old hold
  obtain ⟨new, hnew, hend⟩ := hgk name mid hmid
  exact ⟨new, hnew, trans_of (R name) hstart hend⟩

/-- binding a free name changes no value -/
theorem Frame.retains_set_free {name : String} (h : f.binds name = false) (v : Val) : f.Retains R (f.set name v) := by
  intro x old hold
  refine ⟨old, ?_, refl_of (R x) old⟩
  rw [Frame.get?_set, if_neg, hold]
  rintro rfl
  rw [Frame.binds_of_get? hold] at h
  cases h

end Retains

/-- the computation, run from the state, retains the globals -/
def Eval.RetainsAt {α : Type} (R : String → Val → Val → Prop) (c : Eval α) (s : State) : Prop :=
  s.env.globals.Retains R (c s).2.env.globals

namespace Eval

section Steps

variable {α β : Type} {R : String → Val → Val → Prop} {c : Eval α} {s : State}

/-- handlers of failures leave the environment as it is -/
theorem RetainsAt.tryCatch {f : Interrupt → Eval α} (hc : RetainsAt R c s) (hf : ∀ e, Keeps SameEnv (f e)) :
    RetainsAt R (tryCatch c f) s := by
  unfold RetainsAt at hc ⊢
  rwa [env_tryCatch c hf]

theorem RetainsAt.inFrame {name : String} (hc : RetainsAt R c (s.pushed name)) : RetainsAt R (Eval.inFrame name c) s := hc

theorem RetainsAt.inCall {arguments : Frame} {dynamic : Bool} {body : Eval Unit}
    (hbody : RetainsAt R body { s with env := s.env.enter arguments dynamic }) :
    RetainsAt R (Eval.inCall arguments dynamic body) s := by
  cases dynamic <;> exact hbody

variable [∀ name, IsPreorder Val (R name)]

theorem retainsAt_of_sameEnv (h : (c s).2.env = s.env) : RetainsAt R c s := by
  rw [RetainsAt, h]
  exact Frame.Retains.refl _

theorem retainsAt_pure (a : α) (s : State) : RetainsAt R (pure a : Eval α) s := retainsAt_of_sameEnv rfl

theorem retainsAt_ofExcept (result : Except Interrupt α) (s : State) : RetainsAt R (Eval.ofExcept result) s :=
  retainsAt_of_sameEnv rfl

theorem retainsAt_of_inert (h : Keeps Inert c) (s : State) : RetainsAt R c s := retainsAt_of_sameEnv (h s).1

theorem RetainsAt.bind {f : α → Eval β} (hc : RetainsAt R c s) (hf : ∀ a t, c s = (.ok a, t) → RetainsAt R (f a) t) :
    RetainsAt R (c >>= f) s := by
  unfold RetainsAt at hc ⊢
  rcases hrun : c s with ⟨e | a, t⟩ <;> rw [hrun] at hc
  · rwa [run_bind_error hrun]
  · rw [run_bind_ok hrun]
    exact hc.trans (hf a t hrun)

theorem RetainsAt.map (hc : RetainsAt R c s) (f : α → β) : RetainsAt R (f <$> c) s := by
  rw [← bind_pure_comp]
  exact hc.bind fun _ _ _ => retainsAt_of_sameEnv rfl

theorem RetainsAt.discard (hc : RetainsAt R c s) : RetainsAt R (discard c) s := hc.map _

theorem retainsAt_declare (name : String) (v : Val) (span : Span) (s : State) :
    RetainsAt R (Eval.declare name v span) s := by
  unfold RetainsAt Eval.declare
  rcases hdeclare : s.env.declare? name v with _ | e
  · exact Frame.Retains.refl _
  · obtain ⟨hfree, rfl⟩ := Env.declare_eq_some hdeclare
    unfold Env.modifyCurrent
    unfold Env.current at hfree
    rcases hlocals : s.env.locals with _ | ⟨f, fs⟩
    · rw [hlocals] at hfree
      exact Frame.retains_set_free hfree v
    · exact Frame.Retains.refl _

theorem retains_install (s : State) (name : String) (f : Native) :
    s.env.globals.Retains R (s.install name f).env.globals := by
  unfold State.install
  split_ifs with hbound
  · exact Frame.Retains.refl _
  · exact Frame.retains_set_free (by simpa using hbound) _

end Steps

end Eval

/-! ## Assignments that overwrite globals -/

section Overwrites

variable {m : Manners} (setting : Setting)

/-- an assignment is about to run that will replace the value of a global; no frame above the globals binds its name -/
inductive Position.Overwrites : Position m → String → Val → Val → Prop where
  | assign {types depth token target value s v t name u old given w new} :
      eval setting depth value s = (.ok v, t) → resolve setting depth target t = (.ok (.binding name), u) →
      (∀ f ∈ u.env.locals, f.binds name = false) → u.env.globals.get? name = some old →
      store target (.binding name) v value.span u = (.ok given, w) → w.env.globals.get? name = some new →
      Position.Overwrites ⟨types, depth + 1, .expr (.assign token target value), s⟩ name old new

/-- the assignments that the run from the position comes to overwrite globals by related values only -/
def Position.Spares (R : String → Val → Val → Prop) (p : Position m) : Prop :=
  ∀ q name old new, Relation.ReflTransGen (Starts setting) p q → q.Overwrites setting name old new → R name old new

end Overwrites

section Spares

variable {m : Manners} {setting : Setting} {R : String → Val → Val → Prop} {p q : Position m}

theorem Position.Spares.starts (hp : p.Spares setting R) (h : Starts setting p q) : q.Spares setting R :=
  fun r name old new hr => hp r name old new (.head h hr)

/-- a run that comes to no assignment spares everything: its parts have a property that no assignment has, and whatever
such parts start has it, too -/
theorem Position.spares_of_closed {I : Part m → Prop} (hclosed : ∀ q r, I q.part → Starts setting q r → I r.part)
    (hno : ∀ token target value, ¬ I (.expr (.assign token target value))) (hp : I p.part) : p.Spares setting R := by
  intro q name old new hreach
  have hq : I q.part := by
    induction hreach with
    | refl => exact hp
    | tail _ hstep ih => exact hclosed _ _ ih hstep
  rintro ⟨⟩
  exact absurd hq (hno _ _ _)

theorem Position.Spares.reaches (hp : p.Spares setting R) (h : Relation.ReflTransGen (Starts setting) p q) :
    q.Spares setting R :=
  fun r name old new hr => hp r name old new (h.trans hr)

end Spares

/-- the statements that are read from the front of a text, at most as many as the bound, declare functions -/
def declaresFunctions (depths : Depths) : Nat → List Token → Bool
  | 0, _ => true
  | bound + 1, tokens => match parseStatement depths tokens with
    | .error _ => true
    | .ok (.fn _, rest) => declaresFunctions depths bound rest
    | .ok _ => false

/-- a text that only declares functions spares everything -/
theorem spares_functions {m : Manners} {setting : Setting} {R : String → Val → Val → Prop} {bound : Nat}
    {tokens : List Token} (h : declaresFunctions setting.depths bound tokens = true) {types : Types} {depth : Nat}
    {s : State} :
    Position.Spares (m := m) setting R ⟨types, depth, .script bound tokens, s⟩ := by
  let declaring : Part m → Prop := fun part => match part with
    | .script bound text => declaresFunctions setting.depths bound text = true
    | .stmt stmt => ∃ decl, stmt = .fn decl
    | .exprs es => es = []
    | _ => False
  have hread {bound : Nat} {text rest : List Token} {stmt : Stmt}
      (hq : declaresFunctions setting.depths (bound + 1) text = true)
      (hparse : parseStatement setting.depths text = .ok (stmt, rest)) :
      (∃ decl, stmt = .fn decl) ∧ declaresFunctions setting.depths bound rest = true := by
    unfold declaresFunctions at hq
    rw [hparse] at hq
    cases stmt with
    | fn decl => exact ⟨⟨decl, rfl⟩, hq⟩
    | _ => cases hq
  refine Position.spares_of_closed (I := declaring) (fun q r hq hstarts => ?_) (fun _ _ _ hq => hq.elim) h
  cases hstarts with
  | top hparse => exact (hread hq hparse).1
  | later hparse => exact (hread hq hparse).2
  | operand =>
    obtain ⟨decl, rfl⟩ := hq
    rfl
  | branch | loopStart | loop | block => obtain ⟨decl, hdecl⟩ := hq; cases hdecl
  | firstOperand | nextOperand => cases hq
  | _ => exact hq.elim

/-- a store retains what the assignment at hand spares -/
theorem retainsAt_store {R : String → Val → Val → Prop} [∀ name, IsPreorder Val (R name)] {target : Expr} {slot : Slot}
    {v : Val} {span : Span} {u : State} (hfits : slot.Fits target u.env)
    (h : ∀ name old given w new, slot = .binding name → (∀ f ∈ u.env.locals, f.binds name = false) →
      u.env.globals.get? name = some old → store target slot v span u = (.ok given, w) →
      w.env.globals.get? name = some new → R name old new) :
    RetainsAt R (store target slot v span) u := by
  rcases store_cases target slot v span u with ⟨e, he⟩ | ⟨given, w, replaced, hstore, hreplaces⟩
  · rw [RetainsAt, he]
    exact Frame.Retains.refl _
  · obtain ⟨stored, hset⟩ := hreplaces.exists_set
    rw [RetainsAt, hstore]
    cases slot with
    | item address place =>
      cases hset
      exact Frame.Retains.refl _
    | binding name =>
      obtain ⟨⟨current, hcurrent⟩, -⟩ := hfits
      have hw : w.env = u.env.assign name stored := by cases hset; rfl
      rcases Env.assignIn?_cases name stored u.env.locals with ⟨hfree, hnone⟩ | ⟨inner, f, outer, -, -, -, hsome⟩
      · have hglobals : w.env.globals = u.env.globals.set name stored := by rw [hw, Env.assign, hnone]
        intro x old hold
        by_cases hx : x = name
        · subst hx
          have hnew : w.env.globals.get? x = some stored := by rw [hglobals, Frame.get?_set_self]
          exact ⟨stored, hnew, h x old given w stored rfl hfree hold hstore hnew⟩
        · exact ⟨old, by rw [hglobals, Frame.get?_set, if_neg hx, hold], refl_of (R x) old⟩
      · rw [hw, Env.assign, hsome]
        exact Frame.Retains.refl _

/-! ## Runs -/

section Runs

variable {m : Manners} {setting : Setting} {R : String → Val → Val → Prop} {depth : Nat}

/-- what runs with a depth to spend and spares the globals retains them -/
def RetainsWithin (m : Manners) (setting : Setting) (R : String → Val → Val → Prop) (depth : Nat) : Prop :=
  ∀ p : Position m, p.depth = depth → p.Spares setting R →
    p.state.env.globals.Retains R (p.after setting).2.env.globals

section Within

variable {types : Types} {s : State} (ih : RetainsWithin m setting R depth)

include ih

theorem RetainsWithin.exec {stmt : Stmt} (h : Position.Spares (m := m) setting R ⟨types, depth, .stmt stmt, s⟩) :
    RetainsAt R (exec setting depth stmt) s := ih _ rfl h

theorem RetainsWithin.test {e : Expr} (h : Position.Spares (m := m) setting R ⟨types, depth, .test e, s⟩) :
    RetainsAt R (test setting depth e) s := ih _ rfl h

theorem RetainsWithin.eval {e : Expr} (h : Position.Spares (m := m) setting R ⟨types, depth, .expr e, s⟩) :
    RetainsAt R (eval setting depth e) s := ih _ rfl h

theorem RetainsWithin.resolve {target : Expr}
    (h : Position.Spares (m := m) setting R ⟨types, depth, .target target, s⟩) :
    RetainsAt R (resolve setting depth target) s := ih _ rfl h

theorem RetainsWithin.call {decl : Function} {arguments : List Val} {dynamic : Bool}
    (h : Position.Spares (m := m) setting R ⟨types, depth, .call decl arguments dynamic, s⟩) :
    RetainsAt R (callFunction setting depth decl arguments dynamic) s := ih _ rfl h

theorem RetainsWithin.callByName {name : String} {arguments : List Val}
    (h : Position.Spares (m := m) setting R ⟨types, depth, .named name arguments, s⟩) :
    RetainsAt R (callByName setting depth name arguments) s := ih _ rfl h

variable [∀ name, IsPreorder Val (R name)]

/-- expressions are evaluated in order, each followed by a step with its value -/
theorem retainsAt_exprs {ι α : Type} (expr : ι → Expr) (g : ι → Val → Except Interrupt α) (l : List ι)
    (h : Position.Spares (m := m) setting R ⟨types, depth, .exprs (l.map expr), s⟩) :
    RetainsAt R (l.mapM fun i => LevelScript.eval setting depth (expr i) >>= fun v => Eval.ofExcept (g i v)) s := by
  induction l generalizing s with
  | nil => exact retainsAt_of_sameEnv rfl
  | cons i l ihl =>
    rw [List.mapM_cons]
    have hfirst := (ih.eval (h.starts .firstOperand)).bind fun v t _ => retainsAt_ofExcept (g i v) t
    refine hfirst.bind fun a t ha => ?_
    obtain ⟨v, u, hv, hu⟩ := bind_eq_ok ha
    obtain rfl : u = t := congrArg Prod.snd hu
    exact (ihl (h.starts (.nextOperand hv))).bind fun rest t _ => retainsAt_pure _ t

theorem retainsAt_values (es : List Expr)
    (h : Position.Spares (m := m) setting R ⟨types, depth, .exprs es, s⟩) :
    RetainsAt R (es.mapM (LevelScript.eval setting depth)) s := by
  have hmap := retainsAt_exprs ih id (fun _ v => .ok v) es (by rwa [List.map_id])
  have hpure (e : Expr) : (LevelScript.eval setting depth e >>= fun v => Eval.ofExcept (.ok v)) =
      LevelScript.eval setting depth e := bind_pure _
  simpa only [id_eq, hpure] using hmap

theorem retainsAt_castAll {arguments : List Expr} {params : List Param} (hlength : arguments.length = params.length)
    (h : Position.Spares (m := m) setting R ⟨types, depth, .exprs arguments, s⟩) :
    RetainsAt R (castAll (LevelScript.eval setting depth) arguments params) s := by
  have hcasts := retainsAt_exprs ih Prod.fst (fun p v => v.cast p.2.type (some p.1.span))
    (arguments.zip params) (by rwa [List.map_fst_zip hlength.le])
  exact hcasts

theorem retainsAt_sequence (body : List Stmt)
    (h : Position.Spares (m := m) setting R ⟨types, depth, .sequence body, s⟩) :
    RetainsAt R (untilReturn (LevelScript.exec setting depth) body) s := by
  induction body generalizing types s with
  | nil => exact retainsAt_of_sameEnv rfl
  | cons stmt rest ihr =>
    refine (ih.exec (h.starts .first)).bind fun _ t hrun => ?_
    refine RetainsAt.bind (retainsAt_of_sameEnv rfl) fun returning u hreturning => ?_
    cases hreturning
    cases hnone : t.returning with
    | some v => exact retainsAt_of_sameEnv rfl
    | none => exact ihr (h.starts (.next hrun hnone))

theorem retainsAt_arms (otherwise : Option Stmt) (arms : List (Expr × Stmt))
    (h : Position.Spares (m := m) setting R ⟨types, depth, .arms arms otherwise, s⟩) :
    RetainsAt R (do
      match ← chosenArm (LevelScript.test setting depth) otherwise arms with
      | some body => LevelScript.exec setting depth body
      | none => pure ()) s := by
  induction arms generalizing s with
  | nil =>
    refine RetainsAt.bind (retainsAt_of_sameEnv rfl) fun chosen t hchosen => ?_
    cases hchosen
    cases otherwise with
    | none => exact retainsAt_of_sameEnv rfl
    | some body => exact ih.exec (h.starts .otherwise)
  | cons arm rest ihr =>
    simp only [chosenArm, bind_assoc]
    refine (ih.test (h.starts .condition)).bind fun holds t hrun => ?_
    cases holds with
    | true => exact ih.exec (h.starts (.chosen hrun))
    | false => exact ihr (h.starts (.skipped hrun))

theorem retainsAt_rounds (condition increment : Expr) (body : Stmt) (steps : Nat)
    (h : Position.Spares (m := m) setting R ⟨types, depth, .rounds condition increment body steps, s⟩) :
    RetainsAt R (repeatWhile (LevelScript.test setting depth condition) (LevelScript.exec setting depth body)
      (discard (LevelScript.eval setting depth increment)) steps) s := by
  induction steps generalizing types s with
  | zero => exact retainsAt_of_sameEnv rfl
  | succ steps ihr =>
    refine (ih.test (h.starts .roundTest)).bind fun holds t htest => ?_
    cases holds with
    | false => exact retainsAt_of_sameEnv rfl
    | true =>
      refine (ih.exec (h.starts (.roundBody htest))).bind fun _ u hbody => ?_
      refine RetainsAt.bind (retainsAt_of_sameEnv rfl) fun returning u' hreturning => ?_
      cases hreturning
      cases hnone : u.returning with
      | some v => exact retainsAt_of_sameEnv rfl
      | none =>
        refine (ih.eval (h.starts (.increment htest hbody hnone))).discard.bind fun _ w hincremented => ?_
        obtain ⟨v, hv⟩ := run_of_discard hincremented
        exact ihr (h.starts (.again htest hbody hnone hv))

theorem retainsAt_loopStart (counter : Option Param) {start : Expr}
    (h : Position.Spares (m := m) setting R ⟨types, depth, .expr start, s⟩) :
    RetainsAt R (loopStart setting depth counter start) s := by
  refine (ih.eval h).bind fun v t _ => ?_
  cases counter with
  | none => exact retainsAt_of_sameEnv rfl
  | some p => exact RetainsAt.bind (retainsAt_of_sameEnv rfl) fun w u _ => retainsAt_declare _ w _ u

/-- a function of the host retains what the functions that it calls retain -/
theorem retainsAt_routine (r : Routine m) (h : Position.Spares setting R ⟨types, depth, .host r, s⟩) :
    RetainsAt R (r.run (LevelScript.callByName setting depth)) s := by
  induction r generalizing s with
  | reply r => exact retainsAt_of_sameEnv rfl
  | fail e => exact retainsAt_of_sameEnv rfl
  | look next ihr => exact ihr s (h.starts .look)
  | lists heap next ihr => exact ihr (h.starts .lists)
  | print owner text next ihr =>
    exact RetainsAt.bind (c := write owner text) (retainsAt_of_sameEnv rfl) fun _ t ht => by
      cases ht
      exact ihr (h.starts .print)
  | call allowed name arguments next ihr =>
    have hcall := ih.callByName (h.starts (.callBack))
    rcases hrun : LevelScript.callByName setting depth name arguments s with ⟨result, t⟩
    have hnext := ihr result (h.starts (.calledBack hrun))
    unfold RetainsAt at hcall hnext ⊢
    rw [hrun] at hcall
    simp only [Routine.run, hrun]
    exact hcall.trans hnext
  | install allowed name f next ihr =>
    exact (retains_install s name f).trans (ihr (h.starts (.install)))

theorem retainsAt_callNative (hs : setting.Obeys m) (types : Types) {f : Native} {arguments : List Val} (span : Span)
    (h : ∀ number own (r : Routine m), f = .host number own →
      (∀ callBack, setting.host number callBack arguments = r.run callBack) →
      Position.Spares setting R ⟨types, depth, .host r, s⟩) :
    RetainsAt R (callNative setting depth (LevelScript.callByName setting depth) f arguments span) s := by
  have hreply (reply : Reply) : Keeps SameEnv (acceptReply f.name span reply) := keeps_acceptReply _ _ reply
  refine RetainsAt.bind (RetainsAt.tryCatch ?_ fun e => keeps_throw _) fun reply t _ => retainsAt_of_sameEnv (hreply _ t)
  cases f with
  | builtin owner b =>
    refine RetainsAt.bind (c := get) (retainsAt_of_sameEnv rfl) fun current t _ => ?_
    refine RetainsAt.bind (retainsAt_of_sameEnv rfl) fun (v, text) u _ => ?_
    dsimp only
    split_ifs
    · exact retainsAt_of_sameEnv rfl
    · exact retainsAt_of_sameEnv rfl
  | host number own =>
    obtain ⟨r, hr⟩ := hs number arguments
    dsimp only
    rw [hr]
    exact retainsAt_routine ih r (h number own r rfl hr)

theorem retainsAt_test {e : Expr} (h : Position.Spares (m := m) setting R ⟨types, depth + 1, .test e, s⟩) :
    RetainsAt R (LevelScript.test setting (depth + 1) e) s := by
  simp only [LevelScript.test]
  refine (ih.eval (h.starts .tested)).bind fun v t _ => ?_
  refine RetainsAt.bind (retainsAt_of_sameEnv rfl) fun b u _ => ?_
  split <;> exact retainsAt_of_sameEnv rfl

theorem retainsAt_resolve {target : Expr}
    (h : Position.Spares (m := m) setting R ⟨types, depth + 1, .target target, s⟩) :
    RetainsAt R (LevelScript.resolve setting (depth + 1) target) s := by
  cases target with
  | symbol token name =>
    simp only [LevelScript.resolve]
    refine RetainsAt.bind (retainsAt_of_sameEnv rfl) fun v t _ => ?_
    split_ifs <;> exact retainsAt_of_sameEnv rfl
  | member token owner name =>
    simp only [LevelScript.resolve]
    exact ih.resolve (h.starts .owner)
  | index token owner place =>
    have hparts := h.starts .item
    simp only [LevelScript.resolve]
    refine (ih.eval (hparts.starts .firstOperand)).bind fun v t hv => ?_
    split
    · refine (ih.eval ((hparts.starts (.nextOperand hv)).starts .firstOperand)).bind fun i u _ => ?_
      exact retainsAt_of_inert (inert_growSlot _ i _) u
    · exact retainsAt_of_sameEnv rfl
  | _ =>
    simp only [LevelScript.resolve]
    exact retainsAt_of_sameEnv rfl

theorem retainsAt_call {decl : Function} {arguments : List Val} {dynamic : Bool}
    (h : Position.Spares (m := m) setting R ⟨types, depth + 1, .call decl arguments dynamic, s⟩) :
    RetainsAt R (callFunction setting (depth + 1) decl arguments dynamic) s := by
  simp only [callFunction]
  refine RetainsAt.tryCatch ?_ fun e => ?_
  · exact RetainsAt.inCall (RetainsAt.inFrame (retainsAt_sequence ih decl.body (h.starts .body)))
  · split
    · exact keeps_fail _ _
    · exact keeps_throw _

theorem retainsAt_callByName {name : String} {arguments : List Val}
    (h : Position.Spares (m := m) setting R ⟨types, depth + 1, .named name arguments, s⟩) :
    RetainsAt R (LevelScript.callByName setting (depth + 1) name arguments) s := by
  have hsettle (change : State → State) (hchange : ∀ s, (change s).env = s.env) :
      Keeps SameEnv (modify change : Eval Unit) := keeps_modify fun s => hchange s
  simp only [LevelScript.callByName]
  have hreset : RetainsAt R (modify fun s => { s with lastError := none } : Eval Unit) s := retainsAt_of_sameEnv rfl
  refine hreset.bind fun _ t ht => ?_
  cases ht
  refine RetainsAt.tryCatch ?_ fun e => ?_
  · refine RetainsAt.bind (c := get) (retainsAt_of_sameEnv rfl) fun current u hu => ?_
    cases hu
    split
    · rename_i owner decl hfound
      split
      · exact retainsAt_of_sameEnv rfl
      · rename_i hcause
        refine RetainsAt.tryCatch (ih.call (h.starts (.named hfound hcause))) fun e => ?_
        split
        · exact keeps_fail _ _
        · exact keeps_throw _
    · exact retainsAt_of_sameEnv rfl
  · split
    · exact Keeps.bind (hsettle _ fun _ => rfl) fun _ => keeps_pure _
    · exact keeps_throw _

theorem retainsAt_eval (hs : setting.Obeys m) {e : Expr}
    (h : Position.Spares (m := m) setting R ⟨types, depth + 1, .expr e, s⟩) :
    RetainsAt R (LevelScript.eval setting (depth + 1) e) s := by
  have hoperands := h.starts .operands
  cases e with
  | int token n | float token x =>
    simp only [LevelScript.eval]
    exact retainsAt_of_sameEnv rfl
  | string token text =>
    simp only [LevelScript.eval]
    exact retainsAt_of_sameEnv rfl
  | symbol token name =>
    simp only [LevelScript.eval]
    refine RetainsAt.bind (retainsAt_of_sameEnv rfl) fun v t _ => ?_
    split <;> exact retainsAt_of_sameEnv rfl
  | binary token left op right =>
    simp only [LevelScript.eval]
    refine (ih.eval (hoperands.starts .firstOperand)).bind fun a t ha => ?_
    refine (ih.eval ((hoperands.starts (.nextOperand ha)).starts .firstOperand)).bind fun b u _ => ?_
    exact retainsAt_of_sameEnv rfl
  | assign token target value =>
    simp only [LevelScript.eval]
    refine (ih.eval (h.starts .value)).bind fun v t hv => ?_
    refine (ih.resolve (h.starts (.target hv))).bind fun slot u hslot => ?_
    refine retainsAt_store (R := R) (resolve_fits hslot) fun name old given w new hbinding hfree hold hstore hnew => ?_
    subst hbinding
    exact h _ name old new .refl (.assign hv hslot hfree hold hstore hnew)
  | call token callee arguments =>
    simp only [LevelScript.eval]
    refine (ih.eval (hoperands.starts .firstOperand)).bind fun v t hv => ?_
    have harguments := hoperands.starts (.nextOperand hv)
    split
    · split_ifs with hlength
      · exact retainsAt_of_sameEnv rfl
      · rw [not_not] at hlength
        refine (retainsAt_castAll ih hlength harguments).bind fun values u hvalues => ?_
        exact ih.call (h.starts (.function hv hlength hvalues))
    · refine (retainsAt_values ih arguments harguments).bind fun values u hvalues => ?_
      refine retainsAt_callNative ih hs types _ fun number own r hf hr => ?_
      subst hf
      exact h.starts (.native hv hvalues hr)
    · exact retainsAt_of_sameEnv rfl
  | member token target name =>
    simp only [LevelScript.eval]
    refine (ih.eval (hoperands.starts .firstOperand)).bind fun v t _ => ?_
    exact retainsAt_of_inert (keeps_readMember v name _) t
  | index token target place =>
    simp only [LevelScript.eval]
    refine (ih.eval (hoperands.starts .firstOperand)).bind fun v t hv => ?_
    split
    · refine (ih.eval ((hoperands.starts (.nextOperand hv)).starts .firstOperand)).bind fun i u _ => ?_
      exact retainsAt_of_inert (keeps_readItem _ i _) u
    · exact retainsAt_of_sameEnv rfl
  | list token elements =>
    simp only [LevelScript.eval]
    exact (retainsAt_values ih elements hoperands).bind fun vs t _ => retainsAt_of_inert (inert_newList _) t
  | cast token ty operand =>
    simp only [LevelScript.eval]
    exact (ih.eval (hoperands.starts .firstOperand)).bind fun v t _ => retainsAt_of_sameEnv rfl

theorem retainsAt_exec {stmt : Stmt} (h : Position.Spares (m := m) setting R ⟨types, depth + 1, .stmt stmt, s⟩) :
    RetainsAt R (LevelScript.exec setting (depth + 1) stmt) s := by
  have hoperands := h.starts .operand
  cases stmt with
  | expr token e =>
    simp only [LevelScript.exec]
    exact (ih.eval (hoperands.starts .firstOperand)).discard
  | var token ty names start =>
    rcases names with _ | ⟨name, _ | ⟨next, others⟩⟩
    case cons.nil =>
      simp only [LevelScript.exec]
      cases start with
      | none =>
        exact RetainsAt.bind (retainsAt_of_inert (inert_newDefault ty) s) fun v t _ => retainsAt_declare _ v _ t
      | some e =>
        refine (ih.eval (hoperands.starts .firstOperand)).bind fun v t _ => ?_
        exact (retainsAt_ofExcept _ t).bind fun w u _ => retainsAt_declare _ w _ u
    -- no name or several of them fail
    all_goals
      simp only [LevelScript.exec]
      exact retainsAt_of_sameEnv rfl
  | fn decl =>
    simp only [LevelScript.exec]
    exact retainsAt_declare _ _ _ s
  | branch token arms otherwise =>
    rw [exec_branch]
    exact retainsAt_arms ih otherwise arms (h.starts .branch)
  | loop token counter start condition increment body =>
    rw [exec_loop]
    refine RetainsAt.inFrame ((retainsAt_loopStart ih counter (h.starts .loopStart)).bind fun _ t hrun => ?_)
    exact retainsAt_rounds ih condition increment body setting.repetitions (h.starts (.loop hrun))
  | ret token e =>
    simp only [LevelScript.exec]
    exact (ih.eval (hoperands.starts .firstOperand)).bind fun v t _ => retainsAt_of_sameEnv rfl
  | block token body =>
    simp only [LevelScript.exec]
    exact RetainsAt.inFrame (retainsAt_sequence ih body (h.starts .block))

end Within

variable [∀ name, IsPreorder Val (R name)]

/-- whatever runs and spares the globals retains them, by induction on the depth -/
theorem retainsWithin (hs : setting.Obeys m) (depth : Nat) : RetainsWithin m setting R depth := by
  induction depth with
  | zero =>
    rintro ⟨types, depth, part, s⟩ rfl -
    cases part <;> exact Frame.Retains.refl _
  | succ depth ih =>
    rintro ⟨types, depth', part, s⟩ rfl h
    cases part with
    | stmt stmt => exact retainsAt_exec ih h
    | test e => exact retainsAt_test ih h
    | expr e => exact retainsAt_eval ih hs h
    | target e => exact retainsAt_resolve ih h
    | call decl arguments dynamic => exact retainsAt_call ih h
    | named name arguments => exact retainsAt_callByName ih h
    | _ => exact Frame.Retains.refl _

/-- where a position that spares the globals has ended, they are retained -/
theorem retains_after (hs : setting.Obeys m) {p : Position m} (h : p.Spares setting R) :
    p.state.env.globals.Retains R (p.after setting).2.env.globals := retainsWithin hs p.depth p rfl h

/-! ## States on the way -/

omit [∀ name, IsPreorder Val (R name)] in
theorem Eval.RetainsAt.run {α : Type} {c : Eval α} {s t : State} {result : Except Interrupt α} (h : RetainsAt R c s)
    (hrun : c s = (result, t)) : s.env.globals.Retains R t.env.globals := by
  rwa [RetainsAt, hrun] at h

/-- every position starts others from states with the globals retained -/
theorem retains_of_starts (hs : setting.Obeys m) {p q : Position m} (hp : p.Spares setting R)
    (h : Starts setting p q) : p.state.env.globals.Retains R q.state.env.globals := by
  have within (depth : Nat) := retainsWithin (R := R) hs depth
  cases h with
  -- where nothing has run yet, the globals are those of the starting position
  | top | operand | branch | condition | otherwise | roundTest | first | tested | operands | firstOperand | value
  | owner | item | look | lists | print | callBack | named | loopStart | block => exact Frame.Retains.refl _
  | later hparse hrun =>
    have hend := (within _).exec (hp.starts (.top hparse))
    rw [RetainsAt, ← env_execTop, hrun] at hend
    exact hend
  | chosen hrun | skipped hrun => exact ((within _).test (hp.starts .condition)).run hrun
  | roundBody hrun => exact ((within _).test (hp.starts .roundTest)).run hrun
  | @loop _ _ _ counter _ _ _ _ _ _ hrun =>
    exact (retainsAt_loopStart (within _) counter (hp.starts .loopStart)).run hrun
  | increment htest hbody hnone =>
    have hcondition := ((within _).test (hp.starts .roundTest)).run htest
    exact hcondition.trans (((within _).exec (hp.starts (.roundBody htest))).run hbody)
  | again htest hbody hnone hincrement =>
    have hcondition := ((within _).test (hp.starts .roundTest)).run htest
    have hround := hcondition.trans (((within _).exec (hp.starts (.roundBody htest))).run hbody)
    exact hround.trans (((within _).eval (hp.starts (.increment htest hbody hnone))).run hincrement)
  | next hrun => exact ((within _).exec (hp.starts .first)).run hrun
  | nextOperand hrun => exact ((within _).eval (hp.starts .firstOperand)).run hrun
  | target hrun => exact ((within _).eval (hp.starts .value)).run hrun
  | function hcallee hlength hrun =>
    have hoperands := hp.starts .operands
    have hcalled := ((within _).eval (hoperands.starts .firstOperand)).run hcallee
    exact hcalled.trans ((retainsAt_castAll (within _) hlength (hoperands.starts (.nextOperand hcallee))).run hrun)
  | @body _ _ _ _ dynamic => cases dynamic <;> exact Frame.Retains.refl _
  | native hcallee hrun =>
    have hoperands := hp.starts .operands
    have hcalled := ((within _).eval (hoperands.starts .firstOperand)).run hcallee
    exact hcalled.trans ((retainsAt_values (within _) _ (hoperands.starts (.nextOperand hcallee))).run hrun)
  | @calledBack _ _ allowed _ _ _ _ _ _ hrun =>
    exact ((within _).callByName (hp.starts (.callBack))).run hrun
  | install => exact retains_install _ _ _

theorem retains_of_reaches (hs : setting.Obeys m) {p q : Position m} (hp : p.Spares setting R)
    (h : Relation.ReflTransGen (Starts setting) p q) : p.state.env.globals.Retains R q.state.env.globals := by
  induction h with
  | refl => exact Frame.Retains.refl _
  | tail hreach hstep ih => exact ih.trans (retains_of_starts hs (hp.reaches hreach) hstep)

/-- in every state of a run that spares the globals they are retained -/
theorem retains_sees (hs : setting.Obeys m) {p : Position m} (hp : p.Spares setting R) {types : Types} {s : State}
    (h : p.Sees setting types s) : p.state.env.globals.Retains R s.env.globals := by
  obtain ⟨q, hreach, hq⟩ := h
  have hstart := retains_of_reaches hs hp hreach
  rcases hq with hq | hq
  · cases hq
    exact hstart
  · have hafter := hstart.trans (retains_after hs (hp.reaches hreach))
    rwa [← hq] at hafter

theorem retains_runTokens (hs : setting.Obeys m) (bound : Nat) {tokens : List Token} {types : Types} {depth : Nat}
    {s : State} (h : Position.Spares (m := m) setting R ⟨types, depth, .script bound tokens, s⟩) :
    s.env.globals.Retains R (runTokens setting bound tokens s).state.env.globals := by
  induction bound generalizing tokens types s with
  | zero => exact Frame.Retains.refl _
  | succ bound ih =>
    unfold runTokens
    split_ifs
    · exact Frame.Retains.refl _
    · rcases hparse : parseStatement setting.depths tokens with refusal | ⟨stmt, rest⟩
      · exact Frame.Retains.refl _
      · have hstmt := (retainsWithin hs setting.evaluation).exec (h.starts (.top hparse))
        rw [RetainsAt, ← env_execTop] at hstmt
        dsimp only
        rcases hrun : execTop setting stmt s with ⟨e | _, t⟩ <;> rw [hrun] at hstmt
        · exact hstmt
        · exact hstmt.trans (ih (h.starts (.later hparse hrun)))

end Runs

/-! ## Scripts of a host -/

namespace Workspace

/-- a script has been loaded and its functions have been called since, each time from a position with the property; what
else the host has done leaves its environment alone -/
inductive History (m : Manners) (clean : Setting → Position m → Prop) (number : Nat) : Workspace → Prop where
  | loaded {w : Workspace} {path source dynamic} : w.Obeys m → (w.load path source dynamic).1 = .ok number →
      clean ((w.opened path source dynamic).setting w.scripts.size) (w.loadPosition m path source dynamic) →
      History m clean number (w.load path source dynamic).2
  | call {w : Workspace} {name arguments} : History m clean number w →
      (∀ env, (w.script number).env = some env →
        clean (w.setting number) (w.callPosition m number env [] name arguments)) →
      History m clean number (w.call number name arguments).2
  | other {w w' : Workspace} : History m clean number w → w'.Obeys m → (w'.script number).env = (w.script number).env →
      (w'.script number).loaded = (w.script number).loaded → History m clean number w'

/-- the script is in the state, as its statements run, between calls, or during a call -/
inductive Visits (m : Manners) (clean : Setting → Position m → Prop) (number : Nat) : State → Prop where
  | loading {w : Workspace} {path source dynamic types s} : w.Obeys m → w.scripts.size = number →
      clean ((w.opened path source dynamic).setting w.scripts.size) (w.loadPosition m path source dynamic) →
      (w.loadPosition m path source dynamic).Sees ((w.opened path source dynamic).setting w.scripts.size) types s →
      Visits m clean number s
  | between {w : Workspace} {env} : History m clean number w → (w.script number).env = some env →
      Visits m clean number (w.callState number env)
  | calling {w : Workspace} {env name arguments types s} : History m clean number w → (w.script number).env = some env →
      clean (w.setting number) (w.callPosition m number env [] name arguments) →
      (w.callPosition m number env [] name arguments).Sees (w.setting number) types s → Visits m clean number s

section Histories

variable {m : Manners} {clean : Setting → Position m → Prop} {number : Nat} {w : Workspace}

theorem History.mono {clean' : Setting → Position m → Prop}
    (h : w.History m clean number) (hclean : ∀ setting p, clean setting p → clean' setting p) :
    w.History m clean' number := by
  induction h with
  | loaded hw hload hstart => exact .loaded hw hload (hclean _ _ hstart)
  | call _ hstart ih => exact .call ih fun env henv => hclean _ _ (hstart env henv)
  | other _ hw henv hloaded ih => exact .other ih hw henv hloaded

theorem Visits.mono {clean' : Setting → Position m → Prop} {s : State}
    (h : Visits m clean number s) (hclean : ∀ setting p, clean setting p → clean' setting p) :
    Visits m clean' number s := by
  cases h with
  | loading hw hnumber hstart hsees => exact .loading hw hnumber (hclean _ _ hstart) hsees
  | between h henv => exact .between (h.mono hclean) henv
  | calling h henv hstart hsees => exact .calling (h.mono hclean) henv (hclean _ _ hstart) hsees

theorem History.obeys (h : History m clean number w) : w.Obeys m := by
  induction h with
  | loaded hw => exact hw.load _ _ _
  | call _ _ ih => exact ih.call _ _ _
  | other _ hw => exact hw

theorem History.loads (h : History m clean number w) : (w.script number).loaded = true := by
  induction h with
  | loaded _ hload =>
    obtain ⟨hnumber, hfault, -⟩ := loaded_of_load hload
    rw [script_load, if_pos hnumber, hfault]
  | call _ _ ih => rwa [loaded_call]
  | other _ _ _ hloaded ih => rwa [hloaded]

variable {R : String → Val → Val → Prop} [∀ name, IsPreorder Val (R name)]

theorem retains_loading (hw : w.Obeys m) {path source : String} {dynamic : Bool}
    (hclean : (w.loadPosition m path source dynamic).Spares ((w.opened path source dynamic).setting w.scripts.size) R)
    (hok : (w.loading path source dynamic).2.fault = none) :
    (builtinFrame w.scripts.size).Retains R (w.loading path source dynamic).2.state.env.globals := by
  simp only [loadPosition, loading, runSource] at hclean hok ⊢
  rcases htokens : tokenize source (some path) with fault | tokens <;> simp only [htokens] at hclean hok ⊢
  · cases hok
  · exact retains_runTokens (hw.opened path source dynamic) tokens.length hclean

/-- the globals that a loaded script starts with are retained -/
theorem History.retains (h : History m (fun setting p => p.Spares setting R) number w) :
    ∃ env, (w.script number).env = some env ∧ (builtinFrame number).Retains R env.globals := by
  induction h with
  | loaded hw hload hclean =>
    obtain ⟨hnumber, hfault, -⟩ := loaded_of_load hload
    rw [script_load, if_pos hnumber, hfault, hnumber]
    exact ⟨_, rfl, retains_loading hw hclean hfault⟩
  | @call w name arguments h hclean ih =>
    obtain ⟨env, henv, hretains⟩ := ih
    rw [script_call_loaded h.loads henv, if_pos rfl]
    refine ⟨_, rfl, hretains.trans ?_⟩
    exact retains_after (h.obeys.setting number) (hclean env henv)
  | other _ _ henv _ ih => rwa [henv]

theorem Visits.retains {s : State} (h : Visits m (fun setting p => p.Spares setting R) number s) :
    (builtinFrame number).Retains R s.env.globals := by
  cases h with
  | @loading w path source dynamic types s hw hnumber hclean hsees =>
    have hstart : (builtinFrame number) = (w.loadState path source dynamic).env.globals := by
      rw [← hnumber]
      rfl
    rw [hstart]
    exact retains_sees (hw.opened path source dynamic) hclean hsees
  | between h henv =>
    obtain ⟨env, henv', hretains⟩ := h.retains
    rw [henv'] at henv
    cases henv
    exact hretains
  | calling h henv hclean hsees =>
    obtain ⟨env, henv', hretains⟩ := h.retains
    rw [henv'] at henv
    cases henv
    exact hretains.trans (retains_sees (h.obeys.setting number) hclean hsees)

end Histories

end Workspace

end LevelScript
