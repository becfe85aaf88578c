/-
Error values tell the host of failures.

A careful host hands over no values that lead to an error value, and its functions are considerate. Then no script ever
has an error value in use, neither at rest nor while it is loaded or called: `Workspace.Careful.harmless` follows the
operations of the host one by one. So when a call comes back with an error value, a fault has made it, and its message
is that of the last error: `error_values_never_circulate`.
-/
import LevelScript.Proofs.ErrorValues
import LevelScript.Proofs.IntactRuns
import LevelScript.Proofs.LastErrors
import LevelScript.Proofs.ListOwners

namespace LevelScript

open LevelScript.Syntax

/-! ## Scripts and workspaces -/

/-- a frame of the script binds the value, it is under return, or it is a list on the record of the script -/
inductive Script.Holds (s : Script) : Val → Prop where
  | globals {env : Env} {name : String} {v : Val} : s.env = some env → env.globals.get? name = some v → Holds s v
  | locals {env : Env} {f : Frame} {name : String} {v : Val} :
      s.env = some env → f ∈ env.locals → f.get? name = some v → Holds s v
  | returning {v : Val} : s.returning = some v → Holds s v
  | owned {a : Nat} : a ∈ s.owned.lists → Holds s (.list a)

namespace Script.Holds

variable {s s' : Script} {v : Val}

/-- the rest of a script does not matter -/
theorem congr (henv : s'.env = s.env) (hreturning : s'.returning = s.returning) (howned : s'.owned = s.owned)
    (hv : s'.Holds v) : s.Holds v := by
  cases hv with
  | globals h hv => exact .globals (henv ▸ h) hv
  | locals h hf hv => exact .locals (henv ▸ h) hf hv
  | returning hv => exact .returning (hreturning ▸ hv)
  | owned ha => exact .owned (howned ▸ ha)

/-- what a script holds that a run has left is held where the run has ended -/
theorem ofState {t : State} (henv : ∀ env, s.env = some env → env = t.env) (hreturning : s.returning = t.returning)
    (howned : s.owned = t.owned) (hv : s.Holds v) : t.Holds v := by
  cases hv with
  | globals h hv =>
    cases henv _ h
    exact .atHand (.globals hv)
  | locals h hf hv =>
    cases henv _ h
    exact .atHand (.locals hf hv)
  | returning hv => exact .atHand (.returning (hreturning ▸ hv))
  | owned ha => exact .owned (howned ▸ ha)

theorem not_unloaded : ¬ s.unloaded.Holds v := by
  intro hv
  cases hv with
  | globals h | locals h | returning h => cases h
  | owned ha => exact Array.not_mem_empty _ ha

end Script.Holds

theorem HostFunction.Considerate.obeys {f : HostFunction} (hf : f.Considerate) : f.Obeys .silent :=
  fun arguments => let ⟨r, hr, _⟩ := hf arguments; ⟨r, hr⟩

theorem HostFunction.considerate_noValue (kind : String) :
    HostFunction.Considerate fun _ _ => return .noValue kind :=
  considerate_of_answer fun _ _ => nofun

/-- functions of the host that are considerate call nothing, and so leave the last error alone -/
theorem Setting.Considerate.lasting {setting : Setting} (hs : setting.Considerate) : setting.Lasting :=
  Setting.Obeys.lasting not_false fun number => (hs number).obeys

namespace Workspace

/-- the functions of the host are considerate, and what a script holds leads to no error value -/
structure Harmless (w : Workspace) : Prop where
  natives : ∀ f ∈ w.natives, HostFunction.Considerate f
  scripts : ∀ k v, (w.script k).Holds v → w.heap.Harmless v

/-- one workspace comes from another by a run of a script, which is left in the state where the run has ended -/
structure LeftIn (number : Nat) (t : State) (w w' : Workspace) : Prop where
  natives : w'.natives = w.natives
  heap : w'.heap = t.heap
  env : ∀ env, (w'.script number).env = some env → env = t.env
  returning : (w'.script number).returning = t.returning
  owned : (w'.script number).owned = t.owned
  others : ∀ k, k ≠ number → w'.script k = w.script k

section Operations

variable {w w' : Workspace} (hw : w.Harmless)

include hw

/-- a step after which no script holds more than before, but harmless values -/
theorem Harmless.step (hnatives : ∀ f ∈ w'.natives, HostFunction.Considerate f)
    (hheap : ∀ v, w.heap.Harmless v → w'.heap.Harmless v)
    (hscripts : ∀ k v, (w'.script k).Holds v → (w.script k).Holds v ∨ w'.heap.Harmless v) : w'.Harmless := by
  refine ⟨hnatives, fun k v hv => ?_⟩
  rcases hscripts k v hv with hold | hnew
  · exact hheap v (hw.scripts k v hold)
  · exact hnew

/-- a step that changes nothing that scripts hold -/
theorem Harmless.alike (hnatives : w'.natives = w.natives) (hheap : w'.heap = w.heap)
    (hscripts : ∀ k, (w'.script k).env = (w.script k).env ∧ (w'.script k).returning = (w.script k).returning ∧
      (w'.script k).owned = (w.script k).owned) : w'.Harmless := by
  refine hw.step (hnatives ▸ hw.natives) (fun v hv => hheap ▸ hv) fun k v hv => .inl ?_
  obtain ⟨henv, hreturning, howned⟩ := hscripts k
  exact hv.congr henv hreturning howned

/-- what the other scripts hold stays harmless in a run, since their lists count as those that the run may have
come across -/
theorem Harmless.leftIn {number : Nat} {t : State} (h : LeftIn number t w w') {after : Set Nat}
    (hle : w.heap.harmlessLists ≤ after) (ht : t.Clean after) : w'.Harmless := by
  refine hw.step (h.natives ▸ hw.natives) (fun v hv => ?_) fun k v hv => ?_
  · rw [h.heap]
    exact ht.heap.harmless (hv.clean.mono hle)
  · by_cases hk : k = number
    · subst hk
      rw [h.heap]
      exact .inr (ht.harmless v (hv.ofState h.env h.returning h.owned))
    · rw [h.others k hk] at hv
      exact .inl hv

theorem Harmless.setting (number : Nat) : (w.setting number).Considerate :=
  setting_host (HostFunction.considerate_noValue "NoneType") hw.natives number

theorem Harmless.setting_opened (path source : String) (dynamic : Bool) :
    ((w.opened path source dynamic).setting w.scripts.size).Considerate :=
  setting_host (HostFunction.considerate_noValue "NoneType") (natives_opened w path source dynamic ▸ hw.natives) _

theorem Harmless.note (level : Level) (message : String) : (w.note level message).Harmless :=
  hw.alike rfl rfl fun _ => ⟨rfl, rfl, rfl⟩

theorem Harmless.modifyScript (number : Nat) (change : Script → Script)
    (hchange : ∀ s, (change s).env = s.env ∧ (change s).returning = s.returning ∧ (change s).owned = s.owned) :
    (w.modifyScript number change).Harmless := by
  refine hw.alike rfl rfl fun k => ?_
  rcases w.script_modifyScript_or number change k with hscript | hscript <;> rw [hscript]
  · exact ⟨rfl, rfl, rfl⟩
  · exact hchange _

theorem Harmless.unload (number : Nat) : (w.unload number).Harmless := by
  refine hw.step (natives_unload w number ▸ hw.natives) (fun v hv => hv.fills fun a u hu => .inl ?_) fun k v hv => ?_
  · rw [items_unload] at hu
    split_ifs at hu
    · exact absurd hu (Array.not_mem_empty u)
    · exact hu
  · by_cases hk : k = number
    · rw [hk, script_unload_self] at hv
      exact absurd hv Script.Holds.not_unloaded
    · rw [script_unload_of_ne hk] at hv
      exact .inl hv

omit hw in
theorem clean_loadState (w : Workspace) (path source : String) (dynamic : Bool) :
    (w.loadState path source dynamic).Clean w.heap.harmlessLists := by
  refine ⟨⟨all_builtinFrame (fun _ => Val.clean_of_plain) _, nofun⟩, nofun, by simp [loadState], ?_⟩
  rw [loadState, heap_opened]
  exact w.heap.clean_harmlessLists

/-- the run of a new script leaves a clean state -/
theorem Harmless.loading (path source : String) (dynamic : Bool) :
    ∃ after ≥ w.heap.harmlessLists, (w.loading path source dynamic).2.state.Clean after := by
  have hstart := clean_loadState w path source dynamic
  unfold Workspace.loading runSource
  rcases tokenize source (some path) with fault | tokens
  · exact ⟨_, le_rfl, ⟨Frame.All.empty _, nofun⟩, nofun, hstart.owned, hstart.heap⟩
  · refine kept_runTokens (P := fun t => ∃ after ≥ w.heap.harmlessLists, t.Clean after) (fun stmt s hs => ?_) _ _
      ⟨_, le_rfl, hstart⟩
    obtain ⟨between, hle, hclean⟩ := hs
    obtain ⟨after, hle', ht⟩ := (clean_execTop (hw.setting_opened path source dynamic) stmt).leaves hclean
    exact ⟨after, hle.trans hle', ht⟩

omit hw in
theorem leftIn_ran (w : Workspace) (path source : String) (dynamic : Bool) :
    LeftIn w.scripts.size (w.loading path source dynamic).2.state w (w.ran path source dynamic) := by
  have hself : (w.ran path source dynamic).script w.scripts.size = w.ranScript path source dynamic := by
    rw [script_ran, if_pos rfl]
  refine ⟨natives_ran w path source dynamic, rfl, fun env henv => ?_, ?_, ?_, fun k hk => ?_⟩
  · rw [hself] at henv
    exact (Option.some.inj henv).symm
  · rw [hself]
    rfl
  · rw [hself]
    rfl
  · rw [script_ran, if_neg hk]

theorem Harmless.load (path source : String) (dynamic : Bool) : (w.load path source dynamic).2.Harmless := by
  obtain ⟨after, hle, ht⟩ := hw.loading path source dynamic
  have hran := hw.leftIn (leftIn_ran w path source dynamic) hle ht
  rw [load_eq]
  split
  · exact (hran.note _ _).unload _
  · exact (hran.modifyScript w.scripts.size (fun s => { s with loaded := true }) fun _ => ⟨rfl, rfl, rfl⟩).note _ _

/-- the state that a call of a function starts from -/
theorem Harmless.callState {number : Nat} {env : Env} (henv : (w.script number).env = some env) :
    (w.callState number env).Clean w.heap.harmlessLists := by
  refine State.Harmless.clean (s := w.callState number env) fun v hv => hw.scripts number v ?_
  cases hv with
  | atHand hv =>
    cases hv with
    | globals hv => exact .globals henv hv
    | locals hf hv => exact .locals henv hf hv
    | returning hv => exact .returning hv
  | owned ha => exact .owned ha

omit hw in
theorem leftIn_call {number : Nat} {env : Env} (hl : (w.script number).loaded = true)
    (henv : (w.script number).env = some env) (name : String) (arguments : List Val) :
    LeftIn number (w.called number name arguments env).2 w (w.call number name arguments).2 := by
  have hself : (w.call number name arguments).2.script number =
      (w.script number).leftIn (w.called number name arguments env).2 := by
    rw [script_call_loaded hl henv, if_pos rfl]
  refine ⟨natives_call w number name arguments, heap_call_loaded hl henv name arguments, fun env' henv' => ?_, ?_, ?_,
    fun k hk => ?_⟩
  · rw [hself] at henv'
    exact (Option.some.inj henv').symm
  · rw [hself]
    rfl
  · rw [hself]
    rfl
  · rw [script_call_loaded hl henv, if_neg hk]

/-- a call that is handed harmless values -/
theorem Harmless.call (number : Nat) (name : String) {arguments : List Val}
    (harguments : ∀ v ∈ arguments, w.heap.Harmless v) : (w.call number name arguments).2.Harmless := by
  rcases w.callable_or_not number with ⟨env, hl, henv⟩ | hl
  · obtain ⟨after, hle, ht⟩ := (clean_callByName (hw.setting number) w.platform.evaluation name
      fun v hv => (harguments v hv).clean).leaves (hw.callState henv)
    exact hw.leftIn (leftIn_call hl henv name arguments) hle ht
  · obtain ⟨d, hd⟩ := call_unloaded hl name arguments
    rw [hd]
    exact (hw.modifyScript number (fun s => { s with lastError := some d }) fun _ => ⟨rfl, rfl, rfl⟩).note _ _

theorem Harmless.generate (number : Nat) {arguments : List Generator.Argument}
    (harguments : ∀ a ∈ arguments, w.heap.Harmless a.val) (function : String) :
    (w.generate number arguments function).2.Harmless := by
  unfold Workspace.generate
  dsimp only
  split
  · rename_i values hvalues
    refine hw.call number function fun v hv => ?_
    obtain ⟨a, ha, rfl⟩ := mem_of_bind hvalues hv
    exact harguments a ha
  · exact (hw.modifyScript number (fun s => { s with lastError := some _ }) fun _ => ⟨rfl, rfl, rfl⟩).alike rfl rfl
      fun _ => ⟨rfl, rfl, rfl⟩

theorem Harmless.setNative {f : HostFunction} (hf : f.Considerate) (number : Nat) (name ownName : String) :
    (w.setNative number name ownName f).2.Harmless := by
  have hheap : (w.setNative number name ownName f).2.heap = w.heap := by
    unfold Workspace.setNative
    split <;> rfl
  refine hw.step ?_ (fun v hv => hheap ▸ hv) fun k v hv => ?_
  · rcases natives_setNative w number name ownName f with hsame | hpush
    · exact hsame ▸ hw.natives
    · rw [hpush]
      intro g hg
      rcases Array.mem_push.1 hg with hg | rfl
      · exact hw.natives g hg
      · exact hf
  · rw [script_setNative] at hv
    split_ifs at hv with hk
    · subst hk
      cases hv with
      | globals henv hv =>
        obtain ⟨before, hbefore, rfl⟩ := Option.map_eq_some_iff.1 henv
        rw [Frame.get?_set] at hv
        split_ifs at hv
        · cases hv
          exact .inr (Heap.harmless_of_plain trivial)
        · exact .inl (.globals hbefore hv)
      | locals henv hmem hv =>
        obtain ⟨before, hbefore, rfl⟩ := Option.map_eq_some_iff.1 henv
        exact .inl (.locals hbefore hmem hv)
      | returning hv => exact .inl (.returning hv)
      | owned ha => exact .inl (.owned ha)
    · exact .inl hv

/-- the host may change lists, as long as those that the scripts lead to get no items but harmless ones -/
theorem Harmless.changed (hscripts : w'.scripts = w.scripts) (hnatives : w'.natives = w.natives)
    (hlists : ∀ k v a, (w.script k).Holds v → w'.heap.Leads v (.list a) →
      ∀ u ∈ w'.heap.items a, u ∈ w.heap.items a ∨ w'.heap.Harmless u) : w'.Harmless := by
  refine ⟨hnatives ▸ hw.natives, fun k v hv => ?_⟩
  have hv : (w.script k).Holds v := by rwa [script, hscripts] at hv
  exact (hw.scripts k v hv).of_filled fun a => hlists k v a hv

end Operations

/-! ## Histories -/

/-- the workspaces that a host comes to that hands over no values that lead to an error value, and whose functions are
considerate; it may also put harmless values into lists, do what it likes with lists that no script leads to, and change
the registry, the output and the log -/
inductive Careful : Workspace → Prop where
  | start {platform : Platform} : Careful { platform := platform }
  | load {w : Workspace} {path source : String} {dynamic : Bool} : Careful w → Careful (w.load path source dynamic).2
  | unload {w : Workspace} {number : Nat} : Careful w → Careful (w.unload number)
  | call {w : Workspace} {number : Nat} {name : String} {arguments : List Val} :
      Careful w → (∀ v ∈ arguments, w.heap.Harmless v) → Careful (w.call number name arguments).2
  | generate {w : Workspace} {number : Nat} {arguments : List Generator.Argument} {function : String} :
      Careful w → (∀ a ∈ arguments, w.heap.Harmless a.val) → Careful (w.generate number arguments function).2
  | setNative {w : Workspace} {number : Nat} {name ownName : String} {f : HostFunction} :
      Careful w → f.Considerate → Careful (w.setNative number name ownName f).2
  | other {w w' : Workspace} : Careful w → w'.scripts = w.scripts → w'.natives = w.natives →
      (∀ k v a, (w.script k).Holds v → w'.heap.Leads v (.list a) →
        ∀ u ∈ w'.heap.items a, u ∈ w.heap.items a ∨ w'.heap.Harmless u) → Careful w'

theorem Careful.harmless {w : Workspace} (h : w.Careful) : w.Harmless := by
  induction h with
  | start => exact ⟨by simp, fun k v (hv : (default : Script).unloaded.Holds v) => (Script.Holds.not_unloaded hv).elim⟩
  | load _ ih => exact ih.load _ _ _
  | unload _ ih => exact ih.unload _
  | call _ harguments ih => exact ih.call _ _ harguments
  | generate _ harguments ih => exact ih.generate _ harguments _
  | setNative _ hf ih => exact ih.setNative hf _ _ _
  | other _ hscripts hnatives hlists ih => exact ih.changed hscripts hnatives hlists

/-! ## Results of calls -/

/-- the value is an error value if and only if there is a last error, whose message it has then -/
structure Telling (v : Val) (lastError : Option Diagnostic) : Prop where
  failed : v.type = .error ↔ lastError.isSome = true
  message : ∀ d, lastError = some d → v = .error d.message

theorem telling_error (d : Diagnostic) : Telling (.error d.message) (some d) :=
  ⟨⟨fun _ => rfl, fun _ => rfl⟩, fun d' hd => by cases hd; rfl⟩

theorem telling_value {v : Val} (hv : v.type ≠ .error) : Telling v none :=
  ⟨⟨fun herror => absurd herror hv, nofun⟩, nofun⟩

/-- a script that is not loaded refuses a call -/
theorem call_refused {w : Workspace} {number : Nat}
    (h : (w.script number).loaded = false ∨ (w.script number).env = none) (name : String) (arguments : List Val) :
    ∃ d, w.call number name arguments = (.ok (.error d.message),
      (w.modifyScript number fun s => { s with lastError := some d }).callFailed number name d) := by
  refine ⟨(Fault.mk (.notLoaded (w.script number).path) none).diagnostic, ?_⟩
  unfold call
  dsimp only
  split
  · simp_all
  · rfl

/-- a call that comes back with an error value has left a last error, which the value quotes, and no other call has -/
theorem Harmless.telling {w : Workspace} (hw : w.Harmless) {number : Nat} (hnumber : number < w.scripts.size)
    {name : String} {arguments : List Val} (harguments : ∀ v ∈ arguments, w.heap.Harmless v) {v : Val}
    (h : (w.call number name arguments).1 = .ok v) :
    Telling v ((w.call number name arguments).2.script number).lastError := by
  rcases w.callable_or_not number with ⟨env, hl, henv⟩ | hl
  · have hscript := script_call_loaded hl henv name arguments number
    rw [if_pos rfl] at hscript
    rw [hscript]
    rw [call_result hl henv] at h
    obtain ⟨below, hbelow⟩ := Nat.exists_eq_add_of_le' w.platform.enters
    have houtcome := callByName_outcome (hw.setting number).lasting (below + 1) name arguments (w.callState number env)
    rw [← hbelow] at houtcome
    change CallOutcome _ _ _ _ (w.called number name arguments env) at houtcome
    generalize w.called number name arguments env = ending at h houtcome
    cases houtcome with
    | value hcall hlast =>
      cases h
      have hstart := (hw.callState henv).elsewhere none w.output
      obtain ⟨after, -, -, hv⟩ := (clean_callFunction (hw.setting number) (below + 1) _ false
        fun v hv => (harguments v hv).clean).run hstart hcall
      rw [Script.leftIn, hlast]
      exact telling_value hv.type_ne
    | fault hlast =>
      cases h
      rw [Script.leftIn, hlast]
      exact telling_error _
    | failure => cases h
  · obtain ⟨d, hd⟩ := call_refused hl name arguments
    rw [hd] at h ⊢
    cases h
    rw [script_callFailed, script_modifyScript_self hnumber]
    exact telling_error d

/-- **Error values never circulate in a script, so they tell the host of failures.** Let the host hand over no values that
lead to an error value, and let its functions, which may give back error values, put none into a list and call nothing of
the script. Then no value that a script holds leads to an error value, nor does any that circulates while a script is
loaded or called. So whenever a call gives a value, this is an error value if and only if the call has left a last
error, and then it has the message of that. -/
theorem error_values_never_circulate {w : Workspace} (h : w.Careful) :
    (∀ number v u, (w.script number).Holds v → w.heap.Leads v u → u.type ≠ .error) ∧
    (∀ path source dynamic s v u,
      Circulates ((w.opened path source dynamic).setting w.scripts.size) (w.loadPosition .silent path source dynamic) s v →
        s.heap.Leads v u → u.type ≠ .error) ∧
    ∀ number name arguments, (∀ v ∈ arguments, w.heap.Harmless v) →
      (∀ env declarations s v u, (w.script number).env = some env →
        Circulates (w.setting number) (w.callPosition .silent number env declarations name arguments) s v →
          s.heap.Leads v u → u.type ≠ .error) ∧
      (number < w.scripts.size → ∀ v, (w.call number name arguments).1 = .ok v →
        Telling v ((w.call number name arguments).2.script number).lastError) := by
  have hw := h.harmless
  refine ⟨fun number v u hv => hw.scripts number v hv u, fun path source dynamic s v u hcirculates => ?_,
    fun number name arguments harguments => ⟨fun env declarations s v u henv hcirculates => ?_,
      fun hnumber v => hw.telling hnumber harguments⟩⟩
  · have hp : (w.loadPosition .silent path source dynamic).Clean w.heap.harmlessLists :=
      ⟨clean_loadState w path source dynamic, nofun, nofun⟩
    exact harmless_of_circulates (hw.setting_opened _ _ _) hp hcirculates u
  · have hp : (w.callPosition .silent number env declarations name arguments).Clean w.heap.harmlessLists :=
      ⟨hw.callState henv, fun v hv => (harguments v hv).clean, nofun⟩
    exact harmless_of_circulates (hw.setting number) hp hcirculates u

/-- a function of the host that accepts numbers from 0 on and gives an error value for the others, called through a
script that keeps what it accepts in a list -/
theorem error_values_never_circulate_checked :
    let check : List Val → Reply
      | [.int n] => .value (if n < 0 then .error "negative" else .int n)
      | _ => .noValue "NoneType"
    let source := "list seen; int twice(int n) { seen[seen.length] = check(n); return 2 * n; }"
    let start : Workspace := {}
    let w := ((start.load "level" source).2.setNative 0 "check" "check" fun _ arguments => return check arguments).2
    let accepted := w.call 0 "twice" [.int 3]
    let refused := accepted.2.call 0 "twice" [.int (-3)]
    (∃ v, accepted.1 = .ok v ∧ v.type = .int ∧ (accepted.2.script 0).lastError = none) ∧
      ∃ d, (refused.2.script 0).lastError = some d ∧ refused.1 = .ok (.error d.message) := by
  intro check source start w accepted refused
  have hcheck (arguments : List Val) (v : Val) (hv : check arguments = .value v) : v.type ≠ .list := by
    unfold check at hv
    split at hv
    · cases hv
      split_ifs <;> exact nofun
    · cases hv
  have hint (n : Int) (heap : Heap) : ∀ v ∈ [Val.int n], heap.Harmless v :=
    List.forall_mem_singleton.2 (Heap.harmless_of_plain trivial)
  have hw : w.Careful := .setNative (.load .start) (HostFunction.considerate_of_answer hcheck)
  have haccepted : accepted.2.Careful := .call hw (hint 3 _)
  -- all that has to be computed, at once
  obtain ⟨hsize, hsize', htype, htype'⟩ : 0 < w.scripts.size ∧ 0 < accepted.2.scripts.size ∧
      accepted.1.map Val.type = .ok .int ∧ refused.1.map Val.type = .ok .error := by decide +kernel
  obtain ⟨-, -, hcall⟩ := error_values_never_circulate hw
  obtain ⟨-, -, hcall'⟩ := error_values_never_circulate haccepted
  constructor
  · rcases hresult : accepted.1 with e | v
    · rw [hresult] at htype
      cases htype
    · rw [hresult] at htype
      have hv : v.type = .int := Except.ok.inj htype
      have htelling := (hcall 0 "twice" [.int 3] (hint 3 _)).2 hsize v hresult
      refine ⟨v, rfl, hv, ?_⟩
      rcases hlast : (accepted.2.script 0).lastError with _ | d
      · rfl
      · exact absurd (htelling.failed.2 (hlast ▸ rfl)) (by simp [hv])
  · rcases hresult : refused.1 with e | v
    · rw [hresult] at htype'
      cases htype'
    · rw [hresult] at htype'
      have htelling := (hcall' 0 "twice" [.int (-3)] (hint (-3) _)).2 hsize' v hresult
      obtain ⟨d, hd⟩ := Option.isSome_iff_exists.1 (htelling.failed.1 (Except.ok.inj htype'))
      exact ⟨d, hd, by rw [htelling.message d hd]⟩

end Workspace

end LevelScript
