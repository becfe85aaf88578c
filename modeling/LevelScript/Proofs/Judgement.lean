/-
Judgements on runs.

A judgement says that a computation is as it should be, and which values it may come to. What is allowed of a value may
depend on a stage that the run has reached; stages only go up, and a value stays allowed. A judgement has to be closed
under sequences, handlers, frames and calls, and it has to hold of the single steps. Then it holds of every statement,
every expression and every call: `Judgement.run`.
-/
import LevelScript.Proofs.PlainValues
import LevelScript.Proofs.Slots

namespace LevelScript

open LevelScript.Syntax

/-! ## Judgements -/

/-- the state with another last error and another record of what the script owns -/
def State.recording (s : State) (lastError : Option Diagnostic) (owned : Owned) : State :=
  { s with lastError, owned }

/-- a judgement on the computations of a setting: `Admits w v` allows the value `v` at the stage `w`, and `Holds w P c`
approves of the computation `c` from the stage `w` on, whose values have the property `P` at the stage where it ends -/
structure Judgement (W : Type) [Preorder W] (setting : Setting) where
  Admits : W → Val → Prop
  Holds : {α : Type} → W → (W → α → Prop) → Eval α → Prop
  mono : ∀ {w w' : W} {v : Val}, Admits w v → w ≤ w' → Admits w' v
  plain : ∀ {w : W} {v : Val}, v.Plain → Admits w v
  pure : ∀ {α : Type} {w : W} {P : W → α → Prop} {a : α}, (∀ w' ≥ w, P w' a) → Holds w P (Pure.pure a)
  throw : ∀ {α : Type} {w : W} {P : W → α → Prop} (e : Interrupt), Holds w P (MonadExcept.throw e)
  bind : ∀ {α β : Type} {w : W} {P : W → α → Prop} {Q : W → β → Prop} {c : Eval α} {f : α → Eval β},
    Holds w P c → (∀ w' a, w ≤ w' → P w' a → Holds w' Q (f a)) → Holds w Q (c >>= f)
  tryCatch : ∀ {α : Type} {w : W} {P : W → α → Prop} {c : Eval α} {f : Interrupt → Eval α},
    Holds w P c → (∀ e, Holds w P (f e)) → Holds w P (MonadExcept.tryCatch c f)
  /-- what a run looks at is all of the state but the last error and the record of what the script owns -/
  look : ∀ {α : Type} {w : W} {P : W → α → Prop} {f : State → Eval α},
    (∀ s d o, f (s.recording d o) = f s) → (∀ s, Holds w P (f s)) → Holds w P (get >>= f)
  lookup : ∀ {w : W} (name : String), Holds w (fun w' found => ∀ v, found = some v → Admits w' v) (Eval.lookup? name)
  items : ∀ {w : W} {address : Nat}, Admits w (.list address) →
    Holds w (fun w' items => ∀ v ∈ items, Admits w' v) (Eval.items address)
  isReturning : ∀ {w : W}, Holds w (fun _ _ => True) Eval.isReturning
  declare : ∀ {w : W} {v : Val}, Admits w v → ∀ name span, Holds w (fun _ _ => True) (Eval.declare name v span)
  assign : ∀ {w : W} {v : Val}, Admits w v → ∀ name, Holds w (fun _ _ => True) (Eval.assign name v)
  newList : ∀ {w : W} {items : Array Val}, (∀ v ∈ items, Admits w v) → Holds w Admits (Eval.newList items)
  newString : ∀ {w : W} (text : String), Holds w Admits (Eval.newString text)
  modifyList : ∀ {w : W} {address : Nat} {change : Array Val → Array Val}, Admits w (.list address) →
    (∀ w' ≥ w, ∀ items : Array Val, (∀ v ∈ items, Admits w' v) → ∀ v ∈ change items, Admits w' v) →
      Holds w (fun _ _ => True) (Eval.modifyList address change)
  startReturn : ∀ {w : W} {v : Val}, Admits w v → Holds w (fun _ _ => True) (Eval.startReturn v)
  write : ∀ {w : W} (owner : Nat) (text : String), Holds w (fun _ _ => True) (Eval.write owner text)
  clearReturn : ∀ {w : W}, Holds w (fun _ _ => True) Eval.clearReturn
  setLastError : ∀ {w : W} (d : Option Diagnostic),
    Holds w (fun _ _ => True) (modify fun s : State => { s with lastError := d })
  inFrame : ∀ {α : Type} {w : W} {P : W → α → Prop} {c : Eval α}, Holds w P c → ∀ name, Holds w P (Eval.inFrame name c)
  inCall : ∀ {w : W} {arguments : List Val} {body : Eval Unit}, (∀ v ∈ arguments, Admits w v) →
    Holds w (fun _ _ => True) body → ∀ decl dynamic,
      Holds w Admits (Eval.inCall (argumentFrame decl arguments) dynamic body)
  /-- what the host calls or gives back may also be an error value -/
  host : ∀ {callBack : String → List Val → Eval Val},
    (∀ name w arguments, (∀ v ∈ arguments, Admits w v) →
      Holds w (fun w' v => v.type ≠ .error → Admits w' v) (callBack name arguments)) →
    ∀ number w arguments, (∀ v ∈ arguments, Admits w v) →
      Holds w (fun w' r => ∀ v, r = Reply.value v → v.type ≠ .error → Admits w' v)
        (setting.host number callBack arguments)

namespace Judgement

variable {W : Type} [Preorder W] {setting : Setting} (J : Judgement W setting)
variable {α β : Type} {w : W} {P : W → α → Prop}

/-- a computation that is approved of, whatever value it comes to -/
abbrev Approves (w : W) (c : Eval α) : Prop := J.Holds w (fun _ _ => True) c

variable {J}

theorem fail (cause : Cause) (span : Span) : J.Holds w P (Eval.fail cause span) := J.throw _

theorem ofExcept {r : Except Interrupt α} (h : ∀ a, r = .ok a → ∀ w' ≥ w, P w' a) : J.Holds w P (Eval.ofExcept r) := by
  cases r with
  | error e => exact J.throw e
  | ok a => exact J.pure (h a rfl)

theorem approves_pure (a : α) : J.Approves w (Pure.pure a) := J.pure fun _ _ => trivial

theorem plain_pure {v : Val} (h : v.Plain) : J.Holds w J.Admits (Pure.pure v) := J.pure fun _ _ => J.plain h

theorem admitted {v : Val} (h : J.Admits w v) : J.Holds w J.Admits (Pure.pure v) := J.pure fun _ => J.mono h

theorem weaken {c : Eval α} {Q : W → α → Prop} (h : J.Holds w P c) (hPQ : ∀ w' a, P w' a → ∀ w'' ≥ w', Q w'' a) :
    J.Holds w Q c := by
  rw [← bind_pure c]
  exact J.bind h fun w' a _ ha => J.pure (hPQ w' a ha)

theorem discard {c : Eval α} (h : J.Holds w P c) : J.Approves w (Functor.discard c) := by
  change J.Approves w ((fun _ => ()) <$> c)
  rw [map_eq_pure_bind]
  exact J.bind h fun _ _ _ _ => approves_pure ()

theorem cast {v : Val} (h : J.Admits w v) (ty : Ty) (span : Option Span) :
    J.Holds w J.Admits (Eval.ofExcept (v.cast ty span)) := by
  refine ofExcept fun u hu w' hw => ?_
  rcases Val.cast_cases hu with rfl | ⟨-, hplain⟩
  · exact J.mono h hw
  · exact J.plain hplain

/-! ## Lists of computations -/

theorem mapM {f : α → Eval Val} (hf : ∀ a w, J.Holds w J.Admits (f a)) (l : List α) (w : W) :
    J.Holds w (fun w' vs => ∀ v ∈ vs, J.Admits w' v) (l.mapM f) := by
  induction l generalizing w with
  | nil => exact J.pure (by simp)
  | cons a l ih =>
    rw [List.mapM_cons]
    refine J.bind (hf a w) fun w₁ v _ hv => J.bind (ih w₁) fun w₂ vs hw₂ hvs => J.pure fun w₃ hw₃ u hu => ?_
    rcases List.mem_cons.1 hu with rfl | hu
    · exact J.mono hv (hw₂.trans hw₃)
    · exact J.mono (hvs u hu) hw₃

theorem untilReturn {run : Stmt → Eval Unit} (h : ∀ stmt w, J.Approves w (run stmt)) (body : List Stmt) (w : W) :
    J.Approves w (Eval.untilReturn run body) := by
  induction body generalizing w with
  | nil => exact approves_pure ()
  | cons stmt rest ih =>
    refine J.bind (h stmt w) fun w₁ _ _ _ => J.bind J.isReturning fun w₂ returning _ _ => ?_
    cases returning with
    | true => exact approves_pure ()
    | false => exact ih w₂

theorem firstArm {test : Expr → Eval Bool} {run : Stmt → Eval Unit} (ht : ∀ e w, J.Approves w (test e))
    (hr : ∀ stmt w, J.Approves w (run stmt)) (arms : List (Expr × Stmt)) (w : W) :
    J.Approves w (Eval.firstArm test run arms) := by
  induction arms generalizing w with
  | nil => exact approves_pure false
  | cons arm rest ih =>
    refine J.bind (ht arm.1 w) fun w₁ holds _ _ => ?_
    cases holds with
    | true => exact J.bind (hr arm.2 w₁) fun _ _ _ _ => approves_pure true
    | false => exact ih w₁

theorem repeatWhile {test : Eval Bool} {body increment : Eval Unit} (ht : ∀ w, J.Approves w test)
    (hb : ∀ w, J.Approves w body) (hi : ∀ w, J.Approves w increment) (steps : Nat) (w : W) :
    J.Approves w (Eval.repeatWhile test body increment steps) := by
  induction steps generalizing w with
  | zero => exact J.throw _
  | succ steps ih =>
    refine J.bind (ht w) fun w₁ holds _ _ => ?_
    cases holds with
    | false => exact approves_pure ()
    | true =>
      refine J.bind (hb w₁) fun w₂ _ _ _ => J.bind J.isReturning fun w₃ returning _ _ => ?_
      cases returning with
      | true => exact approves_pure ()
      | false => exact J.bind (hi w₃) fun w₄ _ _ _ => ih w₄

/-! ## Reading and storing -/

theorem newDefault (t : Ty) : J.Holds w J.Admits (Eval.newDefault t) := by
  cases t with
  | list => exact J.newList (by simp)
  | string => exact J.newString ""
  | fn | nativeFn | error => exact J.throw _
  | _ => exact J.plain_pure trivial

theorem invalidIndex (index : Int) (span : Span) : J.Holds w P (LevelScript.invalidIndex index span) := by
  unfold LevelScript.invalidIndex
  split
  · exact fail _ _
  · exact J.throw _

theorem readMember {v : Val} (h : J.Admits w v) (name : Token) (span : Span) :
    J.Holds w J.Admits (LevelScript.readMember v name span) := by
  unfold LevelScript.readMember
  split
  · split_ifs
    · exact J.bind (J.items h) fun _ _ _ _ => J.plain_pure trivial
    · exact fail _ _
  · split
    · exact J.plain_pure trivial
    · exact fail _ _
  · split
    · exact J.plain_pure trivial
    · exact fail _ _
  · exact fail _ _

theorem readItem {address : Nat} (h : J.Admits w (.list address)) {index : Val} (hindex : J.Admits w index)
    (span : Span) : J.Holds w J.Admits (LevelScript.readItem address index span) := by
  refine J.bind (cast hindex _ _) fun w₁ place hw₁ _ => ?_
  split
  · refine J.bind (J.items (J.mono h hw₁)) fun w₂ items _ hitems => ?_
    split
    · rename_i v hv
      split_ifs at hv
      exact admitted (hitems v (Array.mem_of_getElem? hv))
    · exact invalidIndex _ _
  · exact J.plain_pure trivial

/-- a slot of a list that is allowed -/
def Reaches (J : Judgement W setting) (w : W) (slot : Slot) : Prop :=
  ∀ address place, slot = .item address place → J.Admits w (.list address)

theorem Reaches.mono {slot : Slot} (h : J.Reaches w slot) {w' : W} (hw : w ≤ w') : J.Reaches w' slot :=
  fun address place hslot => J.mono (h address place hslot) hw

theorem growSlot {address : Nat} (h : J.Admits w (.list address)) {index : Val} (hindex : J.Admits w index)
    (span : Span) : J.Holds w J.Reaches (LevelScript.growSlot address index span) := by
  refine J.bind (cast hindex _ _) fun w₁ place hw₁ _ => ?_
  split
  · split_ifs
    · exact invalidIndex _ _
    · exact fail _ _
    · refine J.bind (J.modifyList (J.mono h hw₁) fun w' _ items hitems v hv => ?_) fun w₂ _ hw₂ _ =>
        J.pure fun w₃ hw₃ address' place' hslot => ?_
      · rcases Array.mem_append.1 hv with hv | hv
        · exact hitems v hv
        · rw [Array.eq_of_mem_replicate hv]
          exact J.plain trivial
      · cases hslot
        exact J.mono h (hw₁.trans (hw₂.trans hw₃))
  · exact fail _ _

theorem getSlot {slot : Slot} (h : J.Reaches w slot) : J.Approves w slot.get := by
  cases slot with
  | binding name => exact J.bind (J.lookup name) fun _ _ _ _ => approves_pure _
  | item address place => exact J.bind (J.items (h address place rfl)) fun _ _ _ _ => approves_pure _

theorem setSlot {slot : Slot} (h : J.Reaches w slot) {v : Val} (hv : J.Admits w v) : J.Approves w (slot.set v) := by
  cases slot with
  | binding name => exact J.assign hv name
  | item address place =>
    refine J.modifyList (h address place rfl) fun w' hw items hitems u hu => ?_
    rcases Array.mem_or_eq_of_mem_setIfInBounds hu with hu | rfl
    · exact hitems u hu
    · exact J.mono hv hw

theorem stored {slot : Slot} (h : J.Reaches w slot) {stored given : Val} (hstored : J.Admits w stored)
    (hgiven : J.Admits w given) : J.Holds w J.Admits (do slot.set stored; return given) :=
  J.bind (setSlot h hstored) fun _ _ hw _ => admitted (J.mono hgiven hw)

theorem store {slot : Slot} (h : J.Reaches w slot) {v : Val} (hv : J.Admits w v) (target : Expr) (span : Span) :
    J.Holds w J.Admits (LevelScript.store target slot v span) := by
  refine J.bind (getSlot h) fun w₁ current hw₁ _ => ?_
  have h := h.mono hw₁
  have hv := J.mono hv hw₁
  split
  · refine J.bind (cast hv _ _) fun w₂ c hw₂ hc => ?_
    split
    · split_ifs with hvector
      · split
        · refine stored (h.mono hw₂) (J.plain (Val.plain_of_isVector ?_)) (J.plain trivial)
          rwa [Val.type_setComponent]
        · exact fail _ _
      · exact fail _ _
    · exact admitted hc
  · exact stored h hv hv
  · exact J.bind (cast hv _ _) fun w₂ u hw₂ hu => stored (h.mono hw₂) hu hu

/-! ## Native functions -/

theorem acceptReply {reply : Reply} (h : ∀ v, reply = .value v → v.type ≠ .error → J.Admits w v) (name : String)
    (span : Span) : J.Holds w J.Admits (LevelScript.acceptReply name span reply) := by
  cases reply with
  | noValue kind => exact fail _ _
  | value v =>
    unfold LevelScript.acceptReply
    split
    · exact fail _ _
    · rename_i herror hvalue
      cases hvalue
      refine admitted (h v rfl fun htype => ?_)
      cases v <;> cases htype
      exact herror _ rfl
    · exact fail _ _

/-- functions that can be called by name -/
abbrev Answers (J : Judgement W setting) (callBack : String → List Val → Eval Val) : Prop :=
  ∀ name w arguments, (∀ v ∈ arguments, J.Admits w v) →
    J.Holds w (fun w' v => v.type ≠ .error → J.Admits w' v) (callBack name arguments)

theorem callNative {callBack : String → List Val → Eval Val} (hcall : J.Answers callBack) {arguments : List Val}
    (h : ∀ v ∈ arguments, J.Admits w v) (depth : Nat) (f : Native) (span : Span) :
    J.Holds w J.Admits (LevelScript.callNative setting depth callBack f arguments span) := by
  refine J.bind (J.tryCatch (P := fun w' r => ∀ v, r = Reply.value v → v.type ≠ .error → J.Admits w' v) ?_
    fun e => J.throw _) fun w₁ reply _ hreply => acceptReply hreply _ _
  cases f with
  | builtin owner b =>
    refine J.look (fun _ _ _ => rfl) fun s => ?_
    have hresult : J.Holds w (fun _ r => r.1.Plain) (Eval.ofExcept (b.call s.heap depth arguments setting.norm)) :=
      ofExcept fun r hr _ _ => Builtin.plain_call hr
    refine J.bind hresult fun w₁ r _ hr => ?_
    have hvalue (w : W) : J.Holds w (fun w' r => ∀ v, r = Reply.value v → v.type ≠ .error → J.Admits w' v)
        (Pure.pure (.value r.1)) := by
      refine J.pure fun w' _ v hv _ => ?_
      cases hv
      exact J.plain hr
    dsimp only
    split_ifs
    · exact hvalue _
    · exact J.bind (J.write owner r.2) fun w₂ _ _ _ => hvalue w₂
  | host number own => exact J.host hcall number w arguments h

/-! ## Runs -/

/-- the judgement holds of whatever the evaluator does with a depth to spend -/
structure Runs (J : Judgement W setting) (depth : Nat) : Prop where
  exec : ∀ stmt w, J.Approves w (exec setting depth stmt)
  test : ∀ e w, J.Approves w (test setting depth e)
  eval : ∀ e w, J.Holds w J.Admits (eval setting depth e)
  resolve : ∀ target w, J.Holds w J.Reaches (resolve setting depth target)
  call : ∀ decl arguments dynamic w, (∀ v ∈ arguments, J.Admits w v) →
    J.Holds w J.Admits (callFunction setting depth decl arguments dynamic)
  callByName : J.Answers (callByName setting depth)

section Steps

variable {depth : Nat} (ih : J.Runs depth)

include ih

theorem test_step (e : Expr) (w : W) : J.Approves w (test setting (depth + 1) e) := by
  simp only [LevelScript.test]
  refine J.bind (ih.eval e w) fun w₁ v _ hv => J.bind (cast hv _ _) fun w₂ b _ _ => ?_
  split <;> exact approves_pure _

theorem resolve_step (target : Expr) (w : W) : J.Holds w J.Reaches (resolve setting (depth + 1) target) := by
  cases target with
  | symbol token name =>
    simp only [LevelScript.resolve]
    refine J.bind (J.lookup name) fun w₁ found _ _ => ?_
    split_ifs
    · exact J.pure fun _ _ => nofun
    · exact fail _ _
  | member token owner name =>
    simp only [LevelScript.resolve]
    exact ih.resolve owner w
  | index token owner place =>
    simp only [LevelScript.resolve]
    refine J.bind (ih.eval owner w) fun w₁ v _ hv => ?_
    split
    · exact J.bind (ih.eval place w₁) fun w₂ i hw₂ hi => growSlot (J.mono hv hw₂) hi _
    · exact fail _ _
  | _ =>
    simp only [LevelScript.resolve]
    exact fail _ _

theorem call_step (decl : Function) {arguments : List Val} (dynamic : Bool) {w : W}
    (h : ∀ v ∈ arguments, J.Admits w v) :
    J.Holds w J.Admits (callFunction setting (depth + 1) decl arguments dynamic) := by
  simp only [callFunction]
  refine J.tryCatch (J.inCall h (J.inFrame (untilReturn ih.exec decl.body w) "block") decl dynamic) fun e => ?_
  split
  · exact fail _ _
  · exact J.throw _

theorem callByName_step : J.Answers (LevelScript.callByName setting (depth + 1)) := by
  intro name w arguments h
  simp only [LevelScript.callByName]
  refine J.bind (J.setLastError none) fun w₁ _ hw₁ _ => J.tryCatch ?_ fun e => ?_
  · refine J.look (fun _ _ _ => rfl) fun s => ?_
    split
    · split
      · exact J.throw _
      · have hcall (decl : Function) := ih.call decl arguments false w₁ fun v hv => J.mono (h v hv) hw₁
        refine weaken (J.tryCatch (hcall _) fun e => ?_) fun w₂ v hv w₃ hw₃ _ => J.mono hv hw₃
        split
        · exact fail _ _
        · exact J.throw _
    · exact J.throw _
  · split
    · refine J.bind (J.setLastError _) fun w₂ _ _ _ => J.pure fun _ _ htype => absurd rfl htype
    · exact J.throw _

theorem exec_step (stmt : Stmt) (w : W) : J.Approves w (exec setting (depth + 1) stmt) := by
  cases stmt with
  | expr token e =>
    simp only [LevelScript.exec]
    exact discard (ih.eval e w)
  | var token ty names start =>
    match names with
    | [name] =>
      simp only [LevelScript.exec]
      cases start with
      | none => exact J.bind (newDefault ty) fun w₁ v _ hv => J.declare hv _ _
      | some e =>
        exact J.bind (ih.eval e w) fun w₁ v _ hv => J.bind (cast hv _ _) fun w₂ u _ hu => J.declare hu _ _
    | [] | _ :: _ :: _ =>
      simp only [LevelScript.exec]
      exact fail _ _
  | fn decl =>
    simp only [LevelScript.exec]
    exact J.declare (J.plain (v := .fn setting.script decl) trivial) _ _
  | branch token arms otherwise =>
    simp only [LevelScript.exec]
    refine J.bind (firstArm ih.test ih.exec arms w) fun w₁ ran _ _ => ?_
    cases ran with
    | true => exact approves_pure ()
    | false =>
      cases otherwise with
      | none => exact approves_pure ()
      | some body => exact ih.exec body w₁
  | loop token counter start condition increment body =>
    simp only [LevelScript.exec]
    have hrounds := repeatWhile (ih.test condition) (ih.exec body) (fun w => discard (ih.eval increment w))
      setting.repetitions
    refine J.inFrame (J.bind (ih.eval start w) fun w₁ v _ hv => ?_) _
    split
    · exact J.bind (cast hv _ _) fun w₂ u _ hu => J.bind (J.declare hu _ _) fun w₃ _ _ _ => hrounds w₃
    · exact hrounds w₁
  | ret token e =>
    simp only [LevelScript.exec]
    exact J.bind (ih.eval e w) fun w₁ v _ hv => J.startReturn hv
  | block token body =>
    simp only [LevelScript.exec]
    exact J.inFrame (untilReturn ih.exec body w) _

theorem eval_step (e : Expr) (w : W) : J.Holds w J.Admits (eval setting (depth + 1) e) := by
  cases e with
  | int token n | float token x =>
    simp only [LevelScript.eval]
    exact plain_pure trivial
  | string token text =>
    simp only [LevelScript.eval]
    exact J.newString text
  | symbol token name =>
    simp only [LevelScript.eval]
    refine J.bind (J.lookup name) fun w₁ found _ hfound => ?_
    cases found with
    | none => exact fail _ _
    | some v => exact admitted (hfound v rfl)
  | binary token left op right =>
    simp only [LevelScript.eval]
    refine J.bind (ih.eval left w) fun w₁ a _ _ => J.bind (ih.eval right w₁) fun w₂ b _ _ => ?_
    exact ofExcept fun v hv _ _ => J.plain (plain_apply hv)
  | assign token target value =>
    simp only [LevelScript.eval]
    refine J.bind (ih.eval value w) fun w₁ v _ hv => J.bind (ih.resolve target w₁) fun w₂ slot hw₂ hslot => ?_
    exact store hslot (J.mono hv hw₂) target _
  | call token callee arguments =>
    simp only [LevelScript.eval]
    refine J.bind (ih.eval callee w) fun w₁ v _ _ => ?_
    split
    · split_ifs
      · exact fail _ _
      · refine J.bind (mapM (fun p w => ?_) _ w₁) fun w₂ values _ hvalues => ih.call _ values _ w₂ hvalues
        exact J.bind (ih.eval p.1 w) fun w' u _ hu => cast hu _ _
    · refine J.bind (mapM ih.eval arguments w₁) fun w₂ values _ hvalues => ?_
      exact callNative ih.callByName hvalues _ _ _
    · exact fail _ _
  | member token target name =>
    simp only [LevelScript.eval]
    exact J.bind (ih.eval target w) fun w₁ v _ hv => readMember hv name _
  | index token target place =>
    simp only [LevelScript.eval]
    refine J.bind (ih.eval target w) fun w₁ v _ hv => ?_
    split
    · exact J.bind (ih.eval place w₁) fun w₂ i hw₂ hi => readItem (J.mono hv hw₂) hi _
    · exact fail _ _
  | list token elements =>
    simp only [LevelScript.eval]
    refine J.bind (mapM ih.eval elements w) fun w₁ values _ hvalues => ?_
    exact J.newList fun v hv => hvalues v (by simpa using hv)
  | cast token ty operand =>
    simp only [LevelScript.eval]
    exact J.bind (ih.eval operand w) fun w₁ v _ hv => cast hv _ _

end Steps

/-- **A judgement on the single steps is one on all runs.** It holds of every statement, condition, expression, target
and call, whatever the depth to spend. The induction is on the depth. -/
theorem run (J : Judgement W setting) (depth : Nat) : J.Runs depth := by
  induction depth with
  | zero =>
    have hdeep {α : Type} {w : W} {P : W → α → Prop} : J.Holds w P (MonadExcept.throw (.host .tooDeep) : Eval α) :=
      J.throw _
    exact ⟨fun _ _ => hdeep, fun _ _ => hdeep, fun _ _ => hdeep, fun _ _ => hdeep, fun _ _ _ _ _ => hdeep,
      fun _ _ _ _ => hdeep⟩
  | succ depth ih =>
    exact ⟨exec_step ih, test_step ih, eval_step ih, resolve_step ih, fun decl _ dynamic _ h => call_step ih decl dynamic h,
      callByName_step ih⟩

/-- the top level changes how a statement ends, and forgets what it returns -/
theorem execTop (J : Judgement W setting) (stmt : Stmt) (w : W) : J.Approves w (execTop setting stmt) := by
  refine J.bind (P := fun _ _ => True) (J.tryCatch ((J.run _).exec stmt w) fun e => ?_) fun _ _ _ _ => J.clearReturn
  split
  · exact fail _ _
  · exact J.throw _

end Judgement

end LevelScript
