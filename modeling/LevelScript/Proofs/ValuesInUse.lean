/-
Values in use during a run.

The frames and the value under return do not tell all: while an expression is evaluated, the values of its operands wait
for the last one, an assigned value waits for its place, a called function runs while the frames of its caller are set
aside, and whoever calls keeps the arguments. `InUse` are all values that are in use in a state of a run, and `Heap.Leads`
goes on from there, through lists within lists. `owned_of_inUse`: in a run with discreet functions of the host, each
list that a value in use leads to is on the record of the script exactly once, and each string is on the record.
-/
import LevelScript.Proofs.Estates
import LevelScript.Proofs.Positions

namespace LevelScript

open LevelScript.Syntax Eval

/-! ## Values in use -/

/-- from a value through the items of lists to another one -/
inductive Heap.Leads (h : Heap) : Val → Val → Prop where
  | here (v : Val) : Leads h v v
  | item {v w : Val} {a : Nat} : Leads h v (.list a) → w ∈ h.items a → Leads h v w

/-- a frame in use binds the value, or it is under return -/
inductive State.AtHand (s : State) (v : Val) : Prop where
  | globals {name : String} : s.env.globals.get? name = some v → AtHand s v
  | locals {f : Frame} {name : String} : f ∈ s.env.locals → f.get? name = some v → AtHand s v
  | returning : s.returning = some v → AtHand s v

/-- the arguments with which something is about to run -/
def Part.values {m : Manners} : Part m → List Val
  | .call _ arguments _ | .named _ arguments => arguments
  | _ => []

section Use

variable {m : Manners} (setting : Setting)

/-- the run goes on from one position to another; functions of the host are discreet -/
def Goes (p q : Position m) : Prop :=
  Starts setting p q ∧ ∀ rest, q.part = .host rest → rest.Discreet q.state

/-- a value that one position keeps while the other one, which it has started, runs -/
inductive Retains : Position m → Position m → Val → Prop where
  | operand {types depth e es s v t} : eval setting depth e s = (.ok v, t) →
      Retains ⟨types, depth, .exprs (e :: es), s⟩ ⟨types, depth, .exprs es, t⟩ v
  | assigned {types depth token target value s v t} : eval setting depth value s = (.ok v, t) →
      Retains ⟨types, depth + 1, .expr (.assign token target value), s⟩ ⟨types, depth, .target target, t⟩ v
  | argument {p q v} : v ∈ p.part.values → Retains p q v
  | native {types depth token callee arguments s number ownName t values u rest v} :
      eval setting depth callee s = (.ok (.native (.host number ownName)), t) →
      arguments.mapM (eval setting depth) t = (.ok values, u) → v ∈ values →
      Retains ⟨types, depth + 1, .expr (.call token callee arguments), s⟩ ⟨types, depth, .host rest, u⟩ v
  | caller {types depth decl arguments dynamic s f name v q} : f ∈ s.env.locals → f.get? name = some v →
      Retains ⟨types, depth, .call decl arguments dynamic, s⟩ q v

/-- the value with which a position ends; a target ends with a slot, which may be one of a list -/
inductive Gives : Position m → Val → Prop where
  | expr {types depth e s v t} : eval setting depth e s = (.ok v, t) → Gives ⟨types, depth, .expr e, s⟩ v
  | target {types depth e s a place t} : resolve setting depth e s = (.ok (.item a place), t) →
      Gives ⟨types, depth, .target e, s⟩ (.list a)
  | call {types depth decl arguments dynamic s v t} :
      callFunction setting depth decl arguments dynamic s = (.ok v, t) →
      Gives ⟨types, depth, .call decl arguments dynamic, s⟩ v
  | named {types depth name arguments s v t} : callByName setting depth name arguments s = (.ok v, t) →
      Gives ⟨types, depth, .named name arguments, s⟩ v

/-- the positions that a run goes through -/
abbrev Reaches (p q : Position m) : Prop := Relation.ReflTransGen (Goes setting) p q

/-- the state in which a position starts or ends -/
def Position.Shows (p : Position m) (s : State) : Prop := s = p.state ∨ s = (p.after setting).2

/-- the values in use in the states of a run that starts from the position -/
inductive InUse (p : Position m) : State → Val → Prop where
  | atHand {q s v} : Reaches setting p q → q.Shows setting s → s.AtHand v → InUse p s v
  | carried {q v} : Reaches setting p q → v ∈ q.part.values → InUse p q.state v
  | given {q v} : Reaches setting p q → Gives setting q v → InUse p (q.after setting).2 v
  | retained {q r u s v} : Reaches setting p q → Goes setting q r → Retains setting q r v → Reaches setting r u →
      u.Shows setting s → InUse p s v

end Use

/-! ## Runs of positions -/

/-- the position starts from an orderly state, with arguments that are on the record, and a function of the host that
runs there is discreet -/
structure Position.Orderly {m : Manners} (start : State) (p : Position m) : Prop where
  state : start.Orderly p.state
  values : ∀ v ∈ p.part.values, p.state.owned.Admits v
  discreet : ∀ rest, p.part = .host rest → rest.Discreet p.state

section Runs

variable {m : Manners} {setting : Setting} (hs : setting.Discreet m) {start : State}

include hs

theorem orderly_loopStart (depth : Nat) (counter : Option Param) (e : Expr) (o : Owned) :
    Eval.Orderly start o (fun _ _ => True) (loopStart setting depth counter e) := by
  refine (orderly_eval hs depth e).bind fun o' v _ hv => ?_
  cases counter with
  | none => exact Eval.orderly_pure fun _ _ => trivial
  | some p =>
    refine Eval.Orderly.bind (Judgement.cast (J := orderliness hs start) hv _ _) fun o'' w _ hw => ?_
    exact Eval.orderly_declare hw _ _

theorem orderly_castAll (depth : Nat) (arguments : List Expr) (params : List Param) (o : Owned) :
    Eval.Orderly start o (fun o' vs => ∀ v ∈ vs, o'.Admits v) (castAll (eval setting depth) arguments params) :=
  orderly_mapM hs (fun p _ => (orderly_eval hs depth p.1).bind fun _ _ _ hv =>
    Judgement.cast (J := orderliness hs start) hv _ _) _

/-- where a position goes on, the state is orderly, and the record has lost nothing -/
theorem orderly_of_goes {p q : Position m} (hp : p.Orderly start) (h : Goes setting p q) :
    q.Orderly start ∧ p.state.owned ≤ q.state.owned := by
  obtain ⟨hstarts, hdiscreet⟩ := h
  suffices hq : start.Orderly q.state ∧ (∀ v ∈ q.part.values, q.state.owned.Admits v) ∧ p.state.owned ≤ q.state.owned from
    ⟨⟨hq.1, hq.2.1, hdiscreet⟩, hq.2.2⟩
  obtain ⟨hstate, hvalues, hpolite⟩ := hp
  cases hstarts with
  -- where nothing has run yet, the state is that of the starting position
  | top | operand | branch | condition | otherwise | roundTest | first | tested | operands | firstOperand | value
  | owner | item | look => exact ⟨hstate, nofun, le_rfl⟩
  | later _ hrun =>
    obtain ⟨ht, hle, -⟩ := (orderly_execTop hs _).run hstate hrun
    exact ⟨ht, nofun, hle⟩
  | chosen hrun | skipped hrun | roundBody hrun =>
    obtain ⟨ht, hle, -⟩ := (orderly_test hs _ _).run hstate hrun
    exact ⟨ht, nofun, hle⟩
  | loopStart | block => exact ⟨orderly_pushed hstate (Frame.All.empty _), nofun, le_rfl⟩
  | loop hrun =>
    have hpushed := orderly_pushed hstate (Frame.All.empty "for-loop")
    obtain ⟨ht, hle, -⟩ := (orderly_loopStart hs _ _ _ _).run hpushed hrun
    exact ⟨ht, nofun, hle⟩
  | increment htest hrun =>
    obtain ⟨ht, hle, -⟩ := (orderly_test hs _ _).run hstate htest
    obtain ⟨hu, hle', -⟩ := (orderly_exec hs _ _).run ht hrun
    exact ⟨hu, nofun, hle.trans hle'⟩
  | again htest hrun _ heval =>
    obtain ⟨ht, hle, -⟩ := (orderly_test hs _ _).run hstate htest
    obtain ⟨hu, hle', -⟩ := (orderly_exec hs _ _).run ht hrun
    obtain ⟨hw, hle'', -⟩ := (orderly_eval hs _ _).run hu heval
    exact ⟨hw, nofun, hle.trans (hle'.trans hle'')⟩
  | next hrun =>
    obtain ⟨ht, hle, -⟩ := (orderly_exec hs _ _).run hstate hrun
    exact ⟨ht, nofun, hle⟩
  | nextOperand hrun | target hrun =>
    obtain ⟨ht, hle, -⟩ := (orderly_eval hs _ _).run hstate hrun
    exact ⟨ht, nofun, hle⟩
  | function hcallee _ hrun =>
    obtain ⟨ht, hle, -⟩ := (orderly_eval hs _ _).run hstate hcallee
    obtain ⟨hu, hle', harguments⟩ := (orderly_castAll hs _ _ _ _).run ht hrun
    exact ⟨hu, harguments, hle.trans hle'⟩
  | @body _ _ decl _ dynamic =>
    have hentered := orderly_entered hstate (all_argumentFrame hvalues decl) dynamic
    exact ⟨orderly_pushed hentered (Frame.All.empty _), nofun, le_rfl⟩
  | named => exact ⟨hstate.elsewhere _ _, hvalues, le_rfl⟩
  | native hcallee hrun =>
    obtain ⟨ht, hle, -⟩ := (orderly_eval hs _ _).run hstate hcallee
    obtain ⟨hu, hle', -⟩ := (orderly_mapM hs (fun e _ => orderly_eval hs _ e) _).run ht hrun
    exact ⟨hu, nofun, hle.trans hle'⟩
  | lists => exact ⟨orderly_rearranged hstate (hpolite _ rfl).1, nofun, le_rfl⟩
  | print => exact ⟨hstate.elsewhere _ _, nofun, le_rfl⟩
  | callBack => exact ⟨hstate, (hpolite _ rfl).1, le_rfl⟩
  | calledBack hrun =>
    obtain ⟨ht, hle, -⟩ := orderly_callByName hs _ _ _ _ (hpolite _ rfl).1 _ hstate le_rfl
    rw [hrun] at ht hle
    exact ⟨ht, nofun, hle⟩
  | install =>
    obtain ⟨ht, hsame⟩ := orderly_installed hstate _ _
    exact ⟨ht, nofun, hsame.ge⟩

/-- by induction on the steps of the run -/
theorem orderly_of_reaches {p q : Position m} (hp : p.Orderly start) (h : Reaches setting p q) :
    q.Orderly start ∧ p.state.owned ≤ q.state.owned := by
  induction h with
  | refl => exact ⟨hp, le_rfl⟩
  | tail _ hgoes ih =>
    obtain ⟨hq, hle⟩ := orderly_of_goes hs ih.1 hgoes
    exact ⟨hq, ih.2.trans hle⟩

/-- where an orderly position starts or ends, the state is orderly, and the record has lost nothing -/
theorem orderly_of_shows {p : Position m} (hp : p.Orderly start) {s : State} (h : p.Shows setting s) :
    start.Orderly s ∧ p.state.owned ≤ s.owned := by
  obtain ⟨hstate, hvalues, -⟩ := hp
  rcases h with rfl | rfl
  · exact ⟨hstate, le_rfl⟩
  · obtain ⟨types, depth, part, s⟩ := p
    cases part with
    | stmt stmt => exact (orderly_exec hs depth stmt).leaves hstate
    | test e => exact (orderly_test hs depth e).leaves hstate
    | expr e => exact (orderly_eval hs depth e).leaves hstate
    | target e => exact (orderly_resolve hs depth e).leaves hstate
    | call decl arguments dynamic => exact (orderly_callFunction hs depth decl dynamic hvalues).leaves hstate
    | named name arguments => exact Eval.Orderly.leaves (orderly_callByName hs depth name _ arguments hvalues) hstate
    | _ => exact ⟨hstate, le_rfl⟩

theorem admits_of_gives {p : Position m} (hp : p.Orderly start) {v : Val} (h : Gives setting p v) :
    (p.after setting).2.owned.Admits v := by
  have hend {α : Type} {P : Owned → α → Prop} {c : Eval α} {s t : State} {a : α} (hc : Eval.Orderly start s.owned P c)
      (hs : start.Orderly s) (hrun : c s = (.ok a, t)) : P (c s).2.owned a := by
    rw [hrun]
    exact (hc.run hs hrun).2.2
  obtain ⟨hstate, hvalues, -⟩ := hp
  cases h with
  | expr hrun => exact hend (orderly_eval hs _ _) hstate hrun
  | target hrun => exact hend (orderly_resolve hs _ _) hstate hrun _ _ rfl
  | call hrun => exact hend (orderly_callFunction hs _ _ _ hvalues) hstate hrun
  | named hrun => exact hend (orderly_callByName hs _ _ _ _ hvalues) hstate hrun

theorem admits_of_retains {p q : Position m} (hp : p.Orderly start) (hgoes : Goes setting p q) {v : Val}
    (h : Retains setting p q v) : q.state.owned.Admits v := by
  obtain ⟨-, hle⟩ := orderly_of_goes hs hp hgoes
  obtain ⟨hstate, hvalues, -⟩ := hp
  cases h with
  | operand hrun | assigned hrun => exact ((orderly_eval hs _ _).run hstate hrun).2.2
  | argument hv => exact (hvalues v hv).mono hle
  | native hcallee hrun hv =>
    obtain ⟨ht, -, -⟩ := (orderly_eval hs _ _).run hstate hcallee
    exact ((orderly_mapM hs (fun e _ => orderly_eval hs _ e) _).run ht hrun).2.2 v hv
  | caller hf hv => exact (hstate.env.locals _ hf _ _ hv).mono hle

omit hs in
theorem admits_of_atHand {s : State} (hs : start.Orderly s) {v : Val} (h : s.AtHand v) : s.owned.Admits v := by
  cases h with
  | globals hv => exact hs.env.globals _ v hv
  | locals hf hv => exact hs.env.locals _ hf _ v hv
  | returning hv => exact hs.returning v hv

/-- a value in use is on the record -/
theorem admits_of_inUse {p : Position m} (hp : p.Orderly start) {s : State} {v : Val} (h : InUse setting p s v) :
    start.Orderly s ∧ s.owned.Admits v := by
  cases h with
  | atHand hreaches hshows hv =>
    obtain ⟨hq, -⟩ := orderly_of_reaches hs hp hreaches
    obtain ⟨hstate, -⟩ := orderly_of_shows hs hq hshows
    exact ⟨hstate, admits_of_atHand hstate hv⟩
  | carried hreaches hv =>
    obtain ⟨hq, -⟩ := orderly_of_reaches hs hp hreaches
    exact ⟨hq.state, hq.values v hv⟩
  | given hreaches hv =>
    obtain ⟨hq, -⟩ := orderly_of_reaches hs hp hreaches
    exact ⟨(orderly_of_shows hs hq (.inr rfl)).1, admits_of_gives hs hq hv⟩
  | retained hreaches hgoes hv hreaches' hshows =>
    obtain ⟨hq, -⟩ := orderly_of_reaches hs hp hreaches
    obtain ⟨hr, -⟩ := orderly_of_goes hs hq hgoes
    obtain ⟨hu, hle⟩ := orderly_of_reaches hs hr hreaches'
    obtain ⟨hstate, hle'⟩ := orderly_of_shows hs hu hshows
    exact ⟨hstate, (admits_of_retains hs hq hgoes hv).mono (hle.trans hle')⟩

omit hs in
/-- from what is on the record, the items of lists lead to nothing else -/
theorem admits_of_leads {s : State} (h : start.Orderly s) {v w : Val} (hv : s.owned.Admits v) (hw : s.heap.Leads v w) :
    s.owned.Admits w := by
  induction hw with
  | here => exact hv
  | item _ hw ih => exact h.items _ ih _ hw

/-- **What is in use is owned once.** In a run with discreet functions of the host, each list that a value in use leads
to is on the record of the script exactly once, and each string is on the record. -/
theorem owned_of_inUse (hstart : start.owned.Proper start.heap) {p : Position m} (hp : p.Orderly start) {s : State}
    {v w : Val} (h : InUse setting p s v) (hw : s.heap.Leads v w) : s.owned.HoldsOnce w := by
  obtain ⟨hstate, hv⟩ := admits_of_inUse hs hp h
  exact (hstate.proper hstart).holdsOnce (admits_of_leads hstate hv hw)

end Runs

end LevelScript
