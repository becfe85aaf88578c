/-
Error values do not circulate in a script.

A value is harmless if it leads to no error value, through lists within lists. In the course of a run a list may become
an item of another one, and functions of the host may hand over more lists, so a run is followed by the set of lists that
it may have come across: no list of the set holds an error value, or a list outside of the set (`State.Clean`). The set
only grows, and whatever is clean is harmless. Runs keep states clean (`cleanness`, a judgement) if the functions of the
host are considerate: they may give back error values, but they put none into a list, and they call nothing of the
script. So no error value is in use at any time of a run: `harmless_of_circulates`.
-/
import Mathlib
import LevelScript.Proofs.ValuesInUse

namespace LevelScript

open LevelScript.Syntax

/-! ## Harmless values -/

namespace Heap

/-- the value leads to no error value -/
def Harmless (h : Heap) (v : Val) : Prop := ∀ u, h.Leads v u → u.type ≠ .error

/-- from one heap to another, no values have been put into lists but harmless ones -/
def Fills (h h' : Heap) : Prop := ∀ a, ∀ v ∈ h'.items a, v ∈ h.items a ∨ h'.Harmless v

variable {h h' : Heap} {v u w : Val}

theorem fills_refl (h : Heap) : h.Fills h := fun _ _ => .inl

theorem Leads.trans (hvu : h.Leads v u) (huw : h.Leads u w) : h.Leads v w := by
  induction huw with
  | here => exact hvu
  | item _ hw ih => exact ih.item hw

theorem Harmless.type_ne (hv : h.Harmless v) : v.type ≠ .error := hv v (.here v)

theorem Harmless.leads (hv : h.Harmless v) (hvu : h.Leads v u) : h.Harmless u := fun w huw => hv w (hvu.trans huw)

/-- what is no list leads to nothing but itself -/
theorem Leads.eq_of_type (hv : v.type ≠ .list) (hvu : h.Leads v u) : u = v := by
  induction hvu with
  | here => rfl
  | item _ _ ih => exact absurd (congrArg Val.type ih).symm hv

theorem harmless_of_type (hlist : v.type ≠ .list) (herror : v.type ≠ .error) : h.Harmless v := by
  intro u hu
  rwa [hu.eq_of_type hlist]

theorem harmless_of_plain (hv : v.Plain) : h.Harmless v := by
  refine harmless_of_type hv.type_ne_list fun herror => ?_
  cases v with
  | error => exact hv
  | _ => cases herror

/-- a value stays harmless if the lists that it leads to have got no items but harmless ones; by induction on the way,
which is an old one as long as it has met no new item -/
theorem Harmless.of_filled (hv : h.Harmless v)
    (hfill : ∀ a, h'.Leads v (.list a) → ∀ u ∈ h'.items a, u ∈ h.items a ∨ h'.Harmless u) : h'.Harmless v := by
  have hway (u : Val) (hu : h'.Leads v u) : h.Leads v u ∨ h'.Harmless u := by
    induction hu with
    | here => exact .inl (.here v)
    | @item w a ha hw ih =>
      rcases ih with hold | hnew
      · exact (hfill a ha w hw).imp_left hold.item
      · exact .inr (hnew.leads (.item (.here _) hw))
  intro u hu
  rcases hway u hu with hold | hnew
  · exact hv u hold
  · exact hnew.type_ne

theorem Harmless.fills (hv : h.Harmless v) (hfill : h.Fills h') : h'.Harmless v :=
  hv.of_filled fun a _ => hfill a

end Heap

/-! ## Clean states -/

/-- not an error value, and a list only if it is one of these -/
def Val.Clean (lists : Set Nat) : Val → Prop
  | .error _ => False
  | .list a => a ∈ lists
  | _ => True

/-- no list of these holds an error value or a list that is none of these -/
def Heap.Clean (lists : Set Nat) (h : Heap) : Prop := ∀ a ∈ lists, ∀ v ∈ h.items a, v.Clean lists

def Heap.harmlessLists (h : Heap) : Set Nat := {a | h.Harmless (.list a)}

section Clean

variable {lists lists' : Set Nat} {h : Heap} {v : Val}

theorem Val.Clean.mono (hv : v.Clean lists) (hle : lists ≤ lists') : v.Clean lists' := by
  cases v with
  | error => exact hv
  | list a => exact hle hv
  | _ => trivial

theorem Val.Clean.type_ne (hv : v.Clean lists) : v.type ≠ .error := by
  cases v with
  | error => exact hv.elim
  | _ =>
    intro h
    cases h

theorem Val.clean_of_plain (hv : v.Plain) : v.Clean lists := by
  cases v with
  | error | list => exact hv.elim
  | _ => trivial

theorem Heap.Clean.leads (hh : h.Clean lists) (hv : v.Clean lists) {u : Val} (hu : h.Leads v u) : u.Clean lists := by
  induction hu with
  | here => exact hv
  | item _ hw ih => exact hh _ ih _ hw

/-- what is clean is harmless -/
theorem Heap.Clean.harmless (hh : h.Clean lists) (hv : v.Clean lists) : h.Harmless v :=
  fun _ hu => (hh.leads hv hu).type_ne

/-- what is harmless is clean with respect to the harmless lists -/
theorem Heap.Harmless.clean (hv : h.Harmless v) : v.Clean h.harmlessLists := by
  cases v with
  | error => exact hv.type_ne rfl
  | list a => exact hv
  | _ => trivial

theorem Heap.clean_harmlessLists (h : Heap) : h.Clean h.harmlessLists :=
  fun _ ha _ hv => (ha.leads (.item (.here _) hv)).clean

/-- new items that are harmless leave the lists clean, if the harmless ones are added to them -/
theorem Heap.Clean.filled {h' : Heap} (hh : h.Clean lists) (hfill : h.Fills h') :
    h'.Clean (lists ∪ h'.harmlessLists) := by
  have hleft : lists ≤ lists ∪ h'.harmlessLists := Set.subset_union_left
  have hright : h'.harmlessLists ≤ lists ∪ h'.harmlessLists := Set.subset_union_right
  intro a ha v hv
  rcases ha with ha | ha
  · rcases hfill a v hv with hold | hnew
    · exact (hh a ha v hold).mono hleft
    · exact hnew.clean.mono hright
  · exact (h'.clean_harmlessLists a ha v hv).mono hright

end Clean

/-- a state of a run that has come across no lists but these: what the frames bind, what is under return and the lists on
the record of the script lead neither to an error value nor out of these lists -/
structure State.Clean (lists : Set Nat) (s : State) : Prop where
  env : s.env.All (Val.Clean lists)
  returning : ∀ v, s.returning = some v → v.Clean lists
  owned : ∀ a ∈ s.owned.lists, a ∈ lists
  heap : s.heap.Clean lists

/-- the value is at hand, or it is a list on the record of the script -/
inductive State.Holds (s : State) : Val → Prop where
  | atHand {v : Val} : s.AtHand v → Holds s v
  | owned {a : Nat} : a ∈ s.owned.lists → Holds s (.list a)

def State.Harmless (s : State) : Prop := ∀ v, s.Holds v → s.heap.Harmless v

namespace State.Clean

variable {lists : Set Nat} {s : State}

theorem holds (hs : s.Clean lists) {v : Val} (hv : s.Holds v) : v.Clean lists := by
  cases hv with
  | atHand hv =>
    cases hv with
    | globals hv => exact hs.env.globals _ v hv
    | locals hf hv => exact hs.env.locals _ hf _ v hv
    | returning hv => exact hs.returning v hv
  | owned ha => exact hs.owned _ ha

theorem harmless (hs : s.Clean lists) : s.Harmless := fun _ hv => hs.heap.harmless (hs.holds hv)

/-- the last error and the output do not matter -/
theorem elsewhere (hs : s.Clean lists) (lastError : Option Diagnostic) (output : Array (Nat × String)) :
    State.Clean lists { s with lastError, output } :=
  ⟨hs.env, hs.returning, hs.owned, hs.heap⟩

theorem pushed (hs : s.Clean lists) {f : Frame} (hf : f.All (Val.Clean lists)) :
    State.Clean lists { s with env := s.env.push f } :=
  ⟨hs.env.push hf, hs.returning, hs.owned, hs.heap⟩

theorem entered (hs : s.Clean lists) {f : Frame} (hf : f.All (Val.Clean lists)) (dynamic : Bool) :
    State.Clean lists { s with env := s.env.enter f dynamic } :=
  ⟨hs.env.enter hf dynamic, hs.returning, hs.owned, hs.heap⟩

theorem filled (hs : s.Clean lists) {heap : Heap} (hfill : s.heap.Fills heap) :
    State.Clean (lists ∪ heap.harmlessLists) { s with heap := heap } :=
  have hleft : lists ≤ lists ∪ heap.harmlessLists := Set.subset_union_left
  ⟨hs.env.imp fun _ hv => hv.mono hleft, fun v hv => (hs.returning v hv).mono hleft, fun a ha => hleft (hs.owned a ha),
    hs.heap.filled hfill⟩

theorem install (hs : s.Clean lists) (name : String) (f : Native) : State.Clean lists (s.install name f) := by
  unfold State.install
  split_ifs
  · exact hs
  · have hnative : (Val.native f).Clean lists := trivial
    exact ⟨⟨hs.env.globals.set hnative name, hs.env.locals⟩, hs.returning, hs.owned, hs.heap⟩

end State.Clean

/-- where only harmless values are held, the state is clean with respect to the harmless lists -/
theorem State.Harmless.clean {s : State} (hs : s.Harmless) : s.Clean s.heap.harmlessLists where
  env := ⟨fun _ v hv => (hs v (.atHand (.globals hv))).clean, fun _ hf _ v hv => (hs v (.atHand (.locals hf hv))).clean⟩
  returning v hv := (hs v (.atHand (.returning hv))).clean
  owned _ ha := hs _ (.owned ha)
  heap := s.heap.clean_harmlessLists

/-! ## Computations -/

namespace Eval

variable {α β : Type} {lists : Set Nat} {P : Set Nat → α → Prop} {Q : Set Nat → β → Prop}

/-- from a clean state, the computation comes to a clean state, with more lists perhaps; its value, if it has one, fits
the lists there -/
def Clean (lists : Set Nat) (P : Set Nat → α → Prop) (c : Eval α) : Prop :=
  ∀ s, ∀ before ≥ lists, s.Clean before →
    ∃ after ≥ before, (c s).2.Clean after ∧ ∀ a, (c s).1 = .ok a → P after a

/-- where a clean computation leads to a value -/
theorem Clean.run {c : Eval α} {s t : State} {a : α} (h : Clean lists P c) (hs : s.Clean lists) (hrun : c s = (.ok a, t)) :
    ∃ after ≥ lists, t.Clean after ∧ P after a := by
  obtain ⟨after, hle, ht, hvalue⟩ := h s lists le_rfl hs
  rw [hrun] at ht hvalue
  exact ⟨after, hle, ht, hvalue a rfl⟩

theorem Clean.leaves {c : Eval α} {s : State} (h : Clean lists P c) (hs : s.Clean lists) :
    ∃ after ≥ lists, (c s).2.Clean after := by
  obtain ⟨after, hle, ht, -⟩ := h s lists le_rfl hs
  exact ⟨after, hle, ht⟩

theorem clean_pure {a : α} (h : ∀ after ≥ lists, P after a) : Clean lists P (pure a) := by
  refine fun s before hle hs => ⟨before, le_rfl, hs, fun b hb => ?_⟩
  cases hb
  exact h before hle

theorem clean_throw (e : Interrupt) : Clean lists P (throw e : Eval α) := fun _ before _ hs => ⟨before, le_rfl, hs, nofun⟩

theorem Clean.bind {c : Eval α} {f : α → Eval β} (hc : Clean lists P c)
    (hf : ∀ after a, lists ≤ after → P after a → Clean after Q (f a)) : Clean lists Q (c >>= f) := by
  intro s before hle hs
  obtain ⟨between, hle', ht, hvalue⟩ := hc s before hle hs
  rcases hrun : c s with ⟨e | a, t⟩ <;> rw [hrun] at ht hvalue
  · rw [run_bind_error hrun]
    exact ⟨between, hle', ht, nofun⟩
  · rw [run_bind_ok hrun]
    obtain ⟨after, hle'', hu, hresult⟩ := hf between a (hle.trans hle') (hvalue a rfl) t between le_rfl ht
    exact ⟨after, hle'.trans hle'', hu, hresult⟩

theorem Clean.tryCatch {c : Eval α} {handler : Interrupt → Eval α} (hc : Clean lists P c)
    (hh : ∀ e, Clean lists P (handler e)) : Clean lists P (tryCatch c handler) := by
  intro s before hle hs
  obtain ⟨between, hle', ht, hvalue⟩ := hc s before hle hs
  rcases hrun : c s with ⟨e | a, t⟩ <;> rw [hrun] at ht hvalue
  · rw [run_catch_error hrun]
    obtain ⟨after, hle'', hu, hresult⟩ := hh e t between (hle.trans hle') ht
    exact ⟨after, hle'.trans hle'', hu, hresult⟩
  · rw [run_catch_ok hrun]
    exact ⟨between, hle', ht, hvalue⟩

/-! ## Steps -/

/-- a step that comes across no new list -/
theorem clean_of_stays {c : Eval α} (h : ∀ s, ∀ before ≥ lists, s.Clean before →
    (c s).2.Clean before ∧ ∀ a, (c s).1 = .ok a → P before a) : Clean lists P c :=
  fun s before hle hs => ⟨before, le_rfl, h s before hle hs⟩

/-- a step that leaves the frames, the value under return, the lists and their record alone -/
theorem clean_of_same {c : Eval α} (h : ∀ s, (c s).2.env = s.env ∧ (c s).2.returning = s.returning ∧
      (c s).2.owned.lists = s.owned.lists ∧ (c s).2.heap = s.heap)
    (hvalue : ∀ s : State, ∀ before ≥ lists, s.Clean before → ∀ a, (c s).1 = .ok a → P before a) : Clean lists P c := by
  refine clean_of_stays fun s before hle hs => ⟨?_, hvalue s before hle hs⟩
  obtain ⟨henv, hreturning, howned, hheap⟩ := h s
  refine ⟨?_, ?_, ?_, ?_⟩ <;> simp only [henv, hreturning, howned, hheap]
  · exact hs.env
  · exact hs.returning
  · exact hs.owned
  · exact hs.heap

theorem clean_lookup (name : String) :
    Clean lists (fun after found => ∀ v, found = some v → v.Clean after) (lookup? name) := by
  refine clean_of_same (fun _ => ⟨rfl, rfl, rfl, rfl⟩) fun s before _ hs found hfound v hv => ?_
  cases hfound
  exact hs.env.lookup hv

theorem clean_items {address : Nat} (h : address ∈ lists) :
    Clean lists (fun after items => ∀ v ∈ items, v.Clean after) (items address) := by
  refine clean_of_same (fun _ => ⟨rfl, rfl, rfl, rfl⟩) fun s before hle hs items hitems => ?_
  cases hitems
  exact hs.heap address (hle h)

/-- a new list is one more that the run has come across -/
theorem clean_newList {values : Array Val} (h : ∀ v ∈ values, v.Clean lists) :
    Clean lists (fun after v => v.Clean after) (newList values) := by
  intro s before hle hs
  have hmore : before ≤ insert s.heap.cells.size before := Set.subset_insert _ _
  refine ⟨insert s.heap.cells.size before, hmore, ⟨?_, ?_, ?_, ?_⟩, fun v hv => ?_⟩
  · exact hs.env.imp fun v hv => hv.mono hmore
  · exact fun v hv => (hs.returning v hv).mono hmore
  · intro a ha
    rcases Array.mem_push.1 ha with hold | rfl
    · exact hmore (hs.owned a hold)
    · exact Set.mem_insert _ _
  · intro a ha v hv
    change v ∈ (s.heap.insert values).2.items a at hv
    rw [Heap.items_insert] at hv
    split_ifs at hv with hnew
    · exact ((h v hv).mono hle).mono hmore
    · exact (hs.heap a (Set.mem_of_mem_insert_of_ne ha hnew) v hv).mono hmore
  · cases hv
    exact Set.mem_insert _ _

theorem clean_modifyList {address : Nat} {change : Array Val → Array Val}
    (hchange : ∀ after ≥ lists, ∀ items : Array Val, (∀ v ∈ items, v.Clean after) →
      ∀ v ∈ change items, v.Clean after) :
    Clean lists (fun _ _ => True) (modifyList address change) := by
  refine clean_of_stays fun s before hle hs => ⟨⟨hs.env, hs.returning, hs.owned, fun a ha v hv => ?_⟩, fun _ _ => trivial⟩
  change v ∈ (s.heap.modify address change).items a at hv
  rw [Heap.items_modify] at hv
  split_ifs at hv
  · exact hchange before hle _ (hs.heap a ha) v hv
  · exact hs.heap a ha v hv

theorem clean_declare {v : Val} (h : v.Clean lists) (name : String) (span : Span) :
    Clean lists (fun _ _ => True) (declare name v span) := by
  refine clean_of_stays fun s before hle hs => ⟨?_, fun _ _ => trivial⟩
  unfold declare
  split
  · rename_i env henv
    exact ⟨hs.env.declare (h.mono hle) henv, hs.returning, hs.owned, hs.heap⟩
  · exact hs

theorem clean_assign {v : Val} (h : v.Clean lists) (name : String) : Clean lists (fun _ _ => True) (assign name v) :=
  clean_of_stays fun _ _ hle hs => ⟨⟨hs.env.assign (h.mono hle) name, hs.returning, hs.owned, hs.heap⟩, fun _ _ => trivial⟩

theorem clean_startReturn {v : Val} (h : v.Clean lists) : Clean lists (fun _ _ => True) (startReturn v) := by
  refine clean_of_stays fun s before hle hs => ⟨⟨hs.env, fun w hw => ?_, hs.owned, hs.heap⟩, fun _ _ => trivial⟩
  cases hw
  exact h.mono hle

theorem clean_clearReturn : Clean lists (fun _ _ => True) clearReturn :=
  clean_of_stays fun _ _ _ hs => ⟨⟨hs.env, nofun, hs.owned, hs.heap⟩, fun _ _ => trivial⟩

/-! ## Frames -/

theorem Clean.inFrame {body : Eval α} (h : Clean lists P body) (name : String) : Clean lists P (inFrame name body) := by
  intro s before hle hs
  obtain ⟨after, hle', ht, hvalue⟩ := h _ before hle (hs.pushed (Frame.All.empty name))
  exact ⟨after, hle', ⟨ht.env.pop, ht.returning, ht.owned, ht.heap⟩, hvalue⟩

/-- the caller is set aside, and what its frames bind stays clean until they are back -/
theorem Clean.inCall {body : Eval Unit} {arguments : Frame} (h : Clean lists (fun _ _ => True) body)
    (hframe : arguments.All (Val.Clean lists)) (dynamic : Bool) :
    Clean lists (fun after v => v.Clean after) (inCall arguments dynamic body) := by
  intro s before hle hs
  obtain ⟨after, hle', ht, -⟩ := h _ before hle (hs.entered (hframe.imp fun v hv => hv.mono hle) dynamic)
  have hcaller : s.env.All (Val.Clean after) := hs.env.imp fun v hv => hv.mono hle'
  unfold Eval.inCall
  generalize body { s with env := s.env.enter arguments dynamic } = ending at ht ⊢
  obtain ⟨result, t⟩ := ending
  refine ⟨after, hle', ⟨hcaller.leave ht.env dynamic, nofun, ht.owned, ht.heap⟩, fun v hv => ?_⟩
  cases result with
  | error e => cases hv
  | ok a =>
    cases hv
    rcases hreturning : t.returning with _ | w
    · trivial
    · exact ht.returning w hreturning

end Eval

/-! ## Functions of the host -/

/-- functions of the host that call nothing of the script -/
def Manners.silent : Manners := { calls := False, installs := True }

/-- from this state on, the routine puts no error values into lists, nor lists that lead to one, and it gives back none of
these; an error value itself it may give back -/
def Routine.Considerate : Routine .silent → State → Prop
  | .reply r, s => ∀ v, r = .value v → v.type ≠ .error → s.heap.Harmless v
  | .fail _, _ => True
  | .look next, s => (next s).Considerate s
  | .lists heap next, s => s.heap.Fills heap ∧ next.Considerate { s with heap := heap }
  | .print owner text next, s => next.Considerate { s with output := s.output.push (owner, text) }
  | .call allowed .., _ => False.elim allowed
  | .install _ name f next, s => next.Considerate (s.install name f)

/-- called where no error values are in use, the function takes the steps of a considerate routine -/
def HostFunction.Considerate (f : HostFunction) : Prop :=
  ∀ arguments, ∃ r : Routine .silent, (∀ callBack, f callBack arguments = r.run callBack) ∧
    ∀ s : State, s.Harmless → (∀ v ∈ arguments, s.heap.Harmless v) → r.Considerate s

def Setting.Considerate (setting : Setting) : Prop := ∀ number, (setting.host number).Considerate

/-- a function that gives back no lists, and does nothing else -/
theorem HostFunction.considerate_of_answer {answer : List Val → Reply}
    (h : ∀ arguments v, answer arguments = .value v → v.type ≠ .list) :
    HostFunction.Considerate fun _ arguments => return answer arguments :=
  fun arguments => ⟨.reply (answer arguments), fun _ => rfl, fun _ _ _ v hv herror =>
    Heap.harmless_of_type (h arguments v hv) herror⟩

/-- a considerate routine keeps states clean, by induction on its steps -/
theorem Eval.clean_routine {callBack : String → List Val → Eval Val} {lists : Set Nat} (r : Routine .silent) {s : State}
    (hs : s.Clean lists) (h : r.Considerate s) :
    ∃ after ≥ lists, (r.run callBack s).2.Clean after ∧
      ∀ reply, (r.run callBack s).1 = .ok reply → ∀ v, reply = .value v → v.type ≠ .error → v.Clean after := by
  induction r generalizing s lists with
  | reply r =>
    refine ⟨lists ∪ s.heap.harmlessLists, Set.subset_union_left, hs.filled (Heap.fills_refl _),
      fun reply hreply v hv herror => ?_⟩
    cases hreply
    exact (h v hv herror).clean.mono Set.subset_union_right
  | fail e => exact ⟨lists, le_rfl, hs, nofun⟩
  | look next ih => exact ih s hs h
  | lists heap next ih =>
    obtain ⟨after, hle, ht, hreply⟩ := ih (hs.filled h.1) h.2
    exact ⟨after, Set.subset_union_left.trans hle, ht, hreply⟩
  | print owner text next ih => exact ih (hs.elsewhere _ _) h
  | call allowed => exact False.elim allowed
  | install allowed name f next ih => exact ih (hs.install name f) h

/-! ## Runs -/

/-- what runs in such a setting do with error values, as a judgement: a value is allowed if it is clean -/
def cleanness {setting : Setting} (hs : setting.Considerate) : Judgement (Set Nat) setting where
  Admits lists v := v.Clean lists
  Holds lists P c := Eval.Clean lists P c
  mono := Val.Clean.mono
  plain := Val.clean_of_plain
  pure := Eval.clean_pure
  throw := Eval.clean_throw
  bind := Eval.Clean.bind
  tryCatch := Eval.Clean.tryCatch
  look _ h := fun s => h s s
  lookup := Eval.clean_lookup
  items := Eval.clean_items
  isReturning := Eval.clean_of_same (fun _ => ⟨rfl, rfl, rfl, rfl⟩) fun _ _ _ _ _ _ => trivial
  declare := Eval.clean_declare
  assign := Eval.clean_assign
  newList := Eval.clean_newList
  newString _ := Eval.clean_of_same (fun _ => ⟨rfl, rfl, rfl, rfl⟩) fun _ _ _ _ v hv => by
    cases hv
    trivial
  modifyList _ hchange := Eval.clean_modifyList hchange
  startReturn := Eval.clean_startReturn
  write _ _ := Eval.clean_of_same (fun _ => ⟨rfl, rfl, rfl, rfl⟩) fun _ _ _ _ _ _ => trivial
  clearReturn := Eval.clean_clearReturn
  setLastError _ := Eval.clean_of_same (fun _ => ⟨rfl, rfl, rfl, rfl⟩) fun _ _ _ _ _ _ => trivial
  inFrame := Eval.Clean.inFrame
  inCall h hbody decl dynamic := Eval.Clean.inCall hbody (all_argumentFrame h decl) dynamic
  host {callBack} _ number lists arguments h := by
    obtain ⟨r, hr, hconsiderate⟩ := hs number arguments
    intro s before hle hstate
    have harguments (v : Val) (hv : v ∈ arguments) : s.heap.Harmless v :=
      hstate.heap.harmless ((h v hv).mono hle)
    rw [hr]
    exact Eval.clean_routine r hstate (hconsiderate s hstate.harmless harguments)

section Runs

variable {setting : Setting} (hs : setting.Considerate) {lists : Set Nat} (depth : Nat)

include hs

theorem clean_exec (stmt : Stmt) : Eval.Clean lists (fun _ _ => True) (exec setting depth stmt) :=
  ((cleanness hs).run depth).exec stmt lists

theorem clean_test (e : Expr) : Eval.Clean lists (fun _ _ => True) (test setting depth e) :=
  ((cleanness hs).run depth).test e lists

theorem clean_eval (e : Expr) : Eval.Clean lists (fun after v => v.Clean after) (eval setting depth e) :=
  ((cleanness hs).run depth).eval e lists

theorem clean_resolve (target : Expr) :
    Eval.Clean lists (fun after slot => ∀ a place, slot = .item a place → (Val.list a).Clean after)
      (resolve setting depth target) :=
  ((cleanness hs).run depth).resolve target lists

theorem clean_callFunction (decl : Function) {arguments : List Val} (dynamic : Bool)
    (h : ∀ v ∈ arguments, v.Clean lists) :
    Eval.Clean lists (fun after v => v.Clean after) (callFunction setting depth decl arguments dynamic) :=
  ((cleanness hs).run depth).call decl arguments dynamic lists h

theorem clean_callByName (name : String) {arguments : List Val} (h : ∀ v ∈ arguments, v.Clean lists) :
    Eval.Clean lists (fun after v => v.type ≠ .error → v.Clean after) (callByName setting depth name arguments) :=
  ((cleanness hs).run depth).callByName name lists arguments h

omit depth in
theorem clean_execTop (stmt : Stmt) : Eval.Clean lists (fun _ _ => True) (execTop setting stmt) :=
  (cleanness hs).execTop stmt lists

omit depth in
/-- several expressions, each with a step after it that keeps values clean -/
theorem clean_mapM {α : Type} {f : α → Eval Val}
    (hf : ∀ a lists, Eval.Clean lists (fun after v => v.Clean after) (f a)) (l : List α) :
    Eval.Clean lists (fun after vs => ∀ v ∈ vs, v.Clean after) (l.mapM f) :=
  Judgement.mapM (J := cleanness hs) hf l lists

theorem clean_castAll (arguments : List Expr) (params : List Param) :
    Eval.Clean lists (fun after vs => ∀ v ∈ vs, v.Clean after) (Eval.castAll (eval setting depth) arguments params) :=
  clean_mapM hs (fun p _ => (clean_eval hs depth p.1).bind fun _ _ _ hv =>
    Judgement.cast (J := cleanness hs) hv _ _) _

theorem clean_loopStart (counter : Option Param) (e : Expr) :
    Eval.Clean lists (fun _ _ => True) (loopStart setting depth counter e) := by
  refine (clean_eval hs depth e).bind fun after v _ hv => ?_
  cases counter with
  | none => exact Eval.clean_pure fun _ _ => trivial
  | some p =>
    refine Eval.Clean.bind (Judgement.cast (J := cleanness hs) hv _ _) fun after' w _ hw => ?_
    exact Eval.clean_declare hw _ _

end Runs

/-! ## Values in circulation -/

section Circulation

variable (setting : Setting)

/-- the run goes on from one position to another; functions of the host are considerate -/
def Proceeds (p q : Position .silent) : Prop :=
  Starts setting p q ∧ ∀ rest, q.part = .host rest → rest.Considerate q.state

/-- the positions that a run goes through -/
abbrev ComesTo (p q : Position .silent) : Prop := Relation.ReflTransGen (Proceeds setting) p q

/-- the values that circulate in the states of a run that starts from the position: what frames bind, what is under
return and the lists on the record, what something runs with, the results of expressions, targets and calls, and what
waits in the meantime. What a call by its name gives goes to the host, which is told of a failure by an error value. -/
inductive Circulates (p : Position .silent) : State → Val → Prop where
  | held {q s v} : ComesTo setting p q → q.Shows setting s → s.Holds v → Circulates p s v
  | carried {q v} : ComesTo setting p q → v ∈ q.part.values → Circulates p q.state v
  | given {q v} : ComesTo setting p q → Gives setting q v → (∀ name arguments, q.part ≠ .named name arguments) →
      Circulates p (q.after setting).2 v
  | retained {q r u s v} : ComesTo setting p q → Proceeds setting q r → Retains setting q r v → ComesTo setting r u →
      u.Shows setting s → Circulates p s v

end Circulation

/-- the position starts from a clean state, with clean arguments, and a function of the host that runs there is
considerate -/
structure Position.Clean (lists : Set Nat) (p : Position .silent) : Prop where
  state : p.state.Clean lists
  values : ∀ v ∈ p.part.values, v.Clean lists
  considerate : ∀ rest, p.part = .host rest → rest.Considerate p.state

/-- the lists of a harmless value may be added to those that a run has come across -/
theorem Position.Clean.recall {lists : Set Nat} {p : Position .silent} (hp : p.Clean lists) {v : Val}
    (hv : p.state.heap.Harmless v) : ∃ after ≥ lists, p.Clean after ∧ v.Clean after := by
  have hmore : lists ≤ lists ∪ p.state.heap.harmlessLists := Set.subset_union_left
  have hstate := hp.state.filled (Heap.fills_refl p.state.heap)
  exact ⟨_, hmore, ⟨hstate, fun u hu => (hp.values u hu).mono hmore, hp.considerate⟩,
    hv.clean.mono Set.subset_union_right⟩

section Positions

variable {setting : Setting} (hs : setting.Considerate) {lists : Set Nat} {p q : Position .silent}

include hs

/-- where a position goes on, the state is clean, with more lists perhaps -/
theorem clean_of_proceeds (hp : p.Clean lists) (h : Proceeds setting p q) : ∃ after ≥ lists, q.Clean after := by
  obtain ⟨hstarts, hhost⟩ := h
  suffices hq : ∃ after ≥ lists, q.state.Clean after ∧ ∀ v ∈ q.part.values, v.Clean after by
    obtain ⟨after, hle, hstate, hvalues⟩ := hq
    exact ⟨after, hle, hstate, hvalues, hhost⟩
  obtain ⟨hstate, hvalues, hpolite⟩ := hp
  cases hstarts with
  -- where nothing has run yet, the state is that of the starting position
  | top | operand | branch | condition | otherwise | roundTest | first | tested | operands | firstOperand | value
  | owner | item | look => exact ⟨lists, le_rfl, hstate, nofun⟩
  | later _ hrun =>
    obtain ⟨after, hle, ht, -⟩ := (clean_execTop hs _).run hstate hrun
    exact ⟨after, hle, ht, nofun⟩
  | chosen hrun | skipped hrun | roundBody hrun =>
    obtain ⟨after, hle, ht, -⟩ := (clean_test hs _ _).run hstate hrun
    exact ⟨after, hle, ht, nofun⟩
  | loopStart | block => exact ⟨lists, le_rfl, hstate.pushed (Frame.All.empty _), nofun⟩
  | loop hrun =>
    have hpushed := hstate.pushed (Frame.All.empty "for-loop")
    obtain ⟨after, hle, ht, -⟩ := (clean_loopStart hs _ _ _).run hpushed hrun
    exact ⟨after, hle, ht, nofun⟩
  | increment htest hrun =>
    obtain ⟨between, hle, ht, -⟩ := (clean_test hs _ _).run hstate htest
    obtain ⟨after, hle', hu, -⟩ := (clean_exec hs _ _).run ht hrun
    exact ⟨after, hle.trans hle', hu, nofun⟩
  | again htest hrun _ heval =>
    obtain ⟨tested, hle, ht, -⟩ := (clean_test hs _ _).run hstate htest
    obtain ⟨between, hle', hu, -⟩ := (clean_exec hs _ _).run ht hrun
    obtain ⟨after, hle'', hw, -⟩ := (clean_eval hs _ _).run hu heval
    exact ⟨after, hle.trans (hle'.trans hle''), hw, nofun⟩
  | next hrun =>
    obtain ⟨after, hle, ht, -⟩ := (clean_exec hs _ _).run hstate hrun
    exact ⟨after, hle, ht, nofun⟩
  | nextOperand hrun | target hrun =>
    obtain ⟨after, hle, ht, -⟩ := (clean_eval hs _ _).run hstate hrun
    exact ⟨after, hle, ht, nofun⟩
  | function hcallee _ hrun =>
    obtain ⟨between, hle, ht, -⟩ := (clean_eval hs _ _).run hstate hcallee
    obtain ⟨after, hle', hu, harguments⟩ := (clean_castAll hs _ _ _).run ht hrun
    exact ⟨after, hle.trans hle', hu, harguments⟩
  | @body _ _ decl _ dynamic =>
    have hentered := hstate.entered (all_argumentFrame hvalues decl) dynamic
    exact ⟨lists, le_rfl, hentered.pushed (Frame.All.empty _), nofun⟩
  | named => exact ⟨lists, le_rfl, hstate.elsewhere _ _, hvalues⟩
  | native hcallee hrun =>
    obtain ⟨between, hle, ht, -⟩ := (clean_eval hs _ _).run hstate hcallee
    obtain ⟨after, hle', hu, -⟩ := (clean_mapM hs (fun e _ => clean_eval hs _ e) _).run ht hrun
    exact ⟨after, hle.trans hle', hu, nofun⟩
  | lists => exact ⟨_, Set.subset_union_left, hstate.filled (hpolite _ rfl).1, nofun⟩
  | print => exact ⟨lists, le_rfl, hstate.elsewhere _ _, nofun⟩
  | @callBack _ _ allowed => exact False.elim allowed
  | @calledBack _ _ allowed => exact False.elim allowed
  | install => exact ⟨lists, le_rfl, hstate.install _ _, nofun⟩

/-- by induction on the steps of the run -/
theorem clean_of_comesTo (hp : p.Clean lists) (h : ComesTo setting p q) : ∃ after ≥ lists, q.Clean after := by
  induction h with
  | refl => exact ⟨lists, le_rfl, hp⟩
  | tail _ hproceeds ih =>
    obtain ⟨between, hle, hbetween⟩ := ih
    obtain ⟨after, hle', hq⟩ := clean_of_proceeds hs hbetween hproceeds
    exact ⟨after, hle.trans hle', hq⟩

/-- where a clean position starts or ends, the state is clean -/
theorem clean_of_shows (hp : p.Clean lists) {s : State} (h : p.Shows setting s) : ∃ after ≥ lists, s.Clean after := by
  obtain ⟨hstate, hvalues, -⟩ := hp
  rcases h with rfl | rfl
  · exact ⟨lists, le_rfl, hstate⟩
  · obtain ⟨types, depth, part, s⟩ := p
    cases part with
    | stmt stmt => exact (clean_exec hs depth stmt).leaves hstate
    | test e => exact (clean_test hs depth e).leaves hstate
    | expr e => exact (clean_eval hs depth e).leaves hstate
    | target e => exact (clean_resolve hs depth e).leaves hstate
    | call decl arguments dynamic => exact (clean_callFunction hs depth decl dynamic hvalues).leaves hstate
    | named name arguments => exact (clean_callByName hs depth name hvalues).leaves hstate
    | _ => exact ⟨lists, le_rfl, hstate⟩

theorem clean_of_gives (hp : p.Clean lists) {v : Val} (h : Gives setting p v)
    (hnamed : ∀ name arguments, p.part ≠ .named name arguments) :
    ∃ after ≥ lists, (p.after setting).2.Clean after ∧ v.Clean after := by
  have hend {α : Type} {P : Set Nat → α → Prop} {c : Eval α} {s t : State} {a : α} (hc : Eval.Clean lists P c)
      (hs : s.Clean lists) (hrun : c s = (.ok a, t)) : ∃ after ≥ lists, (c s).2.Clean after ∧ P after a := by
    rw [hrun]
    exact hc.run hs hrun
  obtain ⟨hstate, hvalues, -⟩ := hp
  cases h with
  | expr hrun => exact hend (clean_eval hs _ _) hstate hrun
  | target hrun =>
    obtain ⟨after, hle, ht, hslot⟩ := hend (clean_resolve hs _ _) hstate hrun
    exact ⟨after, hle, ht, hslot _ _ rfl⟩
  | call hrun => exact hend (clean_callFunction hs _ _ _ hvalues) hstate hrun
  | named => exact absurd rfl (hnamed _ _)

/-- what a position retains is harmless where the other one starts -/
theorem harmless_of_retains (hp : p.Clean lists) (hproceeds : Proceeds setting p q) {v : Val}
    (h : Retains setting p q v) : q.state.heap.Harmless v := by
  obtain ⟨after, hle, hq⟩ := clean_of_proceeds hs hp hproceeds
  obtain ⟨hstate, hvalues, -⟩ := hp
  cases h with
  | operand hrun | assigned hrun =>
    obtain ⟨between, -, ht, hv⟩ := (clean_eval hs _ _).run hstate hrun
    exact ht.heap.harmless hv
  | argument hv => exact hq.state.heap.harmless ((hvalues v hv).mono hle)
  | native hcallee hrun hv =>
    obtain ⟨between, -, ht, -⟩ := (clean_eval hs _ _).run hstate hcallee
    obtain ⟨between', -, hu, hall⟩ := (clean_mapM hs (fun e _ => clean_eval hs _ e) _).run ht hrun
    exact hu.heap.harmless (hall v hv)
  | caller hf hv => exact hq.state.heap.harmless ((hstate.env.locals _ hf _ v hv).mono hle)

/-- **What circulates is harmless.** In a run with considerate functions of the host, no value in use leads to an error
value. -/
theorem harmless_of_circulates (hp : p.Clean lists) {s : State} {v : Val} (h : Circulates setting p s v) :
    s.heap.Harmless v := by
  cases h with
  | held hcomes hshows hv =>
    obtain ⟨between, -, hq⟩ := clean_of_comesTo hs hp hcomes
    obtain ⟨after, -, hstate⟩ := clean_of_shows hs hq hshows
    exact hstate.harmless v hv
  | carried hcomes hv =>
    obtain ⟨after, -, hq⟩ := clean_of_comesTo hs hp hcomes
    exact hq.state.heap.harmless (hq.values v hv)
  | given hcomes hgives hnamed =>
    obtain ⟨between, -, hq⟩ := clean_of_comesTo hs hp hcomes
    obtain ⟨after, -, hstate, hv⟩ := clean_of_gives hs hq hgives hnamed
    exact hstate.heap.harmless hv
  | retained hcomes hproceeds hretains hcomes' hshows =>
    obtain ⟨first, -, hq⟩ := clean_of_comesTo hs hp hcomes
    obtain ⟨second, -, hr⟩ := clean_of_proceeds hs hq hproceeds
    -- while the value waits, its lists are among those that the run has come across
    obtain ⟨third, -, hr, hv⟩ := hr.recall (harmless_of_retains hs hq hproceeds hretains)
    obtain ⟨fourth, hle, hu⟩ := clean_of_comesTo hs hr hcomes'
    obtain ⟨after, hle', hstate⟩ := clean_of_shows hs hu hshows
    exact hstate.heap.harmless (hv.mono (hle.trans hle'))

end Positions

end LevelScript
