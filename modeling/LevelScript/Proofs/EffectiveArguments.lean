/-
The arguments that a run of a function comes to.

Three sources give the parameters values: settings of the command line, records of a file, and the types of the
parameters themselves. `Effective` gives which of them counts, without reading or merging anything: the last setting of
the name, else the last record that describes an argument of the name, else the initial value. `effective_arguments`:
a run gets these values, and calls the function with them exactly if they have the types of the parameters.

Both lists, settings and records, are lists of items that may each give an argument (`Heard`), and what is found under a
name comes from the last item that gives an argument of this name.
-/
import LevelScript.Proofs.CommandSteps
import LevelScript.Proofs.DefaultArguments
import LevelScript.Proofs.RecordRoundTrip

namespace LevelScript.Command

open LevelScript.Syntax
open LevelScript.Generator hiding bind

/-! ## Last words -/

section Items

variable {ι : Type} {gives : ι → Argument → Prop}

/-- of the items, the last one that gives an argument of the name gives this one -/
def LastOf (gives : ι → Argument → Prop) (items : List ι) (name : String) (a : Argument) : Prop :=
  ∃ before item after, items = before ++ item :: after ∧ gives item a ∧ a.name = name ∧
    ∀ later ∈ after, ∀ b, gives later b → b.name ≠ name

/-- no item gives an argument of the name -/
def Silent (gives : ι → Argument → Prop) (items : List ι) (name : String) : Prop :=
  ∀ item ∈ items, ∀ b, gives item b → b.name ≠ name

/-- the arguments that items say, in order -/
inductive Heard (gives : ι → Argument → Prop) : List ι → List Argument → Prop
  | done : Heard gives [] []
  | given {item : ι} {a : Argument} {items : List ι} {arguments : List Argument} :
      gives item a → Heard gives items arguments → Heard gives (item :: items) (a :: arguments)
  | mute {item : ι} {items : List ι} {arguments : List Argument} :
      (∀ a, ¬gives item a) → Heard gives items arguments → Heard gives (item :: items) arguments

variable {items : List ι} {arguments : List Argument}

theorem LastOf.cons {name : String} {a : Argument} (h : LastOf gives items name a) (item : ι) :
    LastOf gives (item :: items) name a := by
  obtain ⟨before, last, after, rfl, hrest⟩ := h
  exact ⟨item :: before, last, after, rfl, hrest⟩

/-- what is found under a name is the last word about it, and nothing is found only where none is given -/
theorem Heard.find? (hone : ∀ item a b, gives item a → gives item b → a = b) (h : Heard gives items arguments)
    (name : String) :
    (∃ a, Generator.find? arguments name = some a ∧ LastOf gives items name a) ∨
      Generator.find? arguments name = none ∧ Silent gives items name := by
  induction h with
  | done => exact .inr ⟨rfl, by simp [Silent]⟩
  | @given item a items arguments hgives _ ih =>
    rw [find?_cons]
    rcases ih with ⟨b, hb, hlast⟩ | ⟨hnone, hsilent⟩
    · exact .inl ⟨b, by rw [hb, Option.some_or], hlast.cons item⟩
    · rw [hnone, Option.none_or]
      by_cases hname : a.name = name
      · exact .inl ⟨a, if_pos hname, [], item, items, rfl, hgives, hname, hsilent⟩
      · refine .inr ⟨if_neg hname, List.forall_mem_cons.2 ⟨fun b hb => ?_, hsilent⟩⟩
        rwa [hone item b a hb hgives]
  | @mute item items arguments hmute _ ih =>
    rcases ih with ⟨b, hb, hlast⟩ | ⟨hnone, hsilent⟩
    · exact .inl ⟨b, hb, hlast.cons item⟩
    · exact .inr ⟨hnone, List.forall_mem_cons.2 ⟨fun b hb => absurd hb (hmute b), hsilent⟩⟩

theorem Heard.unique (hone : ∀ item a b, gives item a → gives item b → a = b) {others : List Argument}
    (h : Heard gives items arguments) (h' : Heard gives items others) : arguments = others := by
  induction h generalizing others with
  | done =>
    cases h'
    rfl
  | given hgives _ ih =>
    cases h' with
    | given hgives' hrest' => rw [hone _ _ _ hgives hgives', ih hrest']
    | mute hmute => exact absurd hgives (hmute _)
  | mute hmute _ ih =>
    cases h' with
    | given hgives => exact absurd hgives (hmute _)
    | mute _ hrest' => exact ih hrest'

/-- the items that are about a name say the arguments of this name -/
theorem Heard.filter {about : ι → Bool} {name : String} (habout : ∀ item a, gives item a → (about item ↔ a.name = name))
    (h : Heard gives items arguments) : Heard gives (items.filter about) (arguments.filter (·.name = name)) := by
  induction h with
  | done => exact .done
  | @given item a items arguments hgives _ ih =>
    by_cases hname : a.name = name
    · have hitem : about item = true := (habout item a hgives).2 hname
      rw [List.filter_cons_of_pos hitem, List.filter_cons_of_pos (by simpa using hname)]
      exact .given hgives ih
    · have hitem : ¬about item = true := fun hitem => hname ((habout item a hgives).1 hitem)
      rw [List.filter_cons_of_neg hitem, List.filter_cons_of_neg (by simpa using hname)]
      exact ih
  | @mute item items arguments hmute _ ih =>
    rw [List.filter_cons]
    split_ifs
    · exact .mute hmute ih
    · exact ih

/-- items about other names, and where they stand among those about a name, make no difference to what is found -/
theorem Heard.find?_congr (hone : ∀ item a b, gives item a → gives item b → a = b) {about : ι → Bool} {name : String}
    (habout : ∀ item a, gives item a → (about item ↔ a.name = name)) {items' : List ι} {others : List Argument}
    (h : Heard gives items arguments) (h' : Heard gives items' others) (hsame : items'.filter about = items.filter about) :
    Generator.find? others name = Generator.find? arguments name := by
  have hothers : Heard gives (items.filter about) (others.filter (·.name = name)) := hsame ▸ h'.filter habout
  rw [← find?_filter others, hothers.unique hone (h.filter habout), find?_filter]

end Items

/-! ## Records and settings -/

theorem describes_unique (d : Data) (a b : Argument) (ha : Describes d a) (hb : Describes d b) : a = b := by
  have hread : argumentOf d = .ok (.inl a) := argumentOf_eq_argument.2 ha
  rw [argumentOf_eq_argument.2 hb] at hread
  cases hread
  rfl

theorem Heard.ofReading {records : List Data} {arguments : List Argument} {warnings : List Record}
    (h : Reading records arguments warnings) : Heard Describes records arguments := by
  induction h with
  | done => exact .done
  | kept hdescribes _ ih => exact .given hdescribes ih
  | skipped hnot _ _ _ ih => exact .mute hnot ih

def namedBy (name : String) (d : Data) : Bool :=
  match d.get? "name" with
  | some (.text heading) => heading = name
  | _ => false

theorem namedBy_iff {name : String} (d : Data) (a : Argument) (h : Describes d a) : namedBy name d ↔ a.name = name := by
  simp [namedBy, h.headed.name]

/-- the setting `name=value` names a parameter, and its text spells a value for the type of the parameter -/
def Sets (params : List Parameter) (setting : String) (a : Argument) : Prop :=
  ∃ text, ∃ p ∈ params, splitSetting setting = .ok (a.name, text) ∧ p.name = a.name ∧
    ofSpelling text p.type = .ok a.val

variable {params : List Parameter}

/-- where the parameters have different names, a setting is accepted exactly if it sets one of them -/
theorem settingOf_eq_ok (hdistinct : (params.map (·.name)).Nodup) {setting : String} {a : Argument} :
    settingOf params setting = .ok a ↔ Sets params setting a := by
  unfold settingOf Sets
  rcases hsplit : splitSetting setting with e | ⟨name, text⟩
  · constructor
    · nofun
    · rintro ⟨text, p, -, hpair, -⟩
      cases hpair
  constructor
  · intro h
    rcases hfound : params.reverse.find? (·.name = name) with _ | p
    · simp [hfound, bind, Except.bind] at h
    · obtain ⟨hp, hname⟩ := (reverse_find?_eq_some hdistinct).1 hfound
      rcases hv : ofSpelling text p.type with e | v
      · simp [hfound, hv, bind, Except.bind] at h
      · simp only [hfound, hv, bind, Except.bind] at h
        cases h
        exact ⟨text, p, hp, rfl, hname, hv⟩
  · rintro ⟨text', p, hp, hpair, hname, hv⟩
    cases hpair
    have hfound : params.reverse.find? (·.name = a.name) = some p := (reverse_find?_eq_some hdistinct).2 ⟨hp, hname⟩
    simp only [hfound, hv, bind, Except.bind]
    rfl

theorem sets_unique (hdistinct : (params.map (·.name)).Nodup) (setting : String) (a b : Argument)
    (ha : Sets params setting a) (hb : Sets params setting b) : a = b :=
  Except.ok.inj (((settingOf_eq_ok hdistinct).2 ha).symm.trans ((settingOf_eq_ok hdistinct).2 hb))

theorem Heard.ofSettings (hdistinct : (params.map (·.name)).Nodup) {settings : List String} {arguments : List Argument}
    (h : settings.mapM (settingOf params) = .ok arguments) : Heard (Sets params) settings arguments := by
  have hall := mapM_eq_ok.1 h
  induction hall with
  | nil => exact .done
  | cons hfirst hrest ih => exact .given ((settingOf_eq_ok hdistinct).1 hfirst) (ih (mapM_eq_ok.2 hrest))

/-! ## Precedence -/

/-- the value that counts for a parameter: that of the last setting of its name, else that of the last record that
describes an argument of its name, else the initial value of its type -/
inductive Effective (params : List Parameter) (settings : List String) (records : List Data) (before after : Heap)
    (p : Parameter) : Val → Prop
  | set {a : Argument} : LastOf (Sets params) settings p.name a → Effective params settings records before after p a.val
  | stored {a : Argument} : Silent (Sets params) settings p.name → LastOf Describes records p.name a →
      Effective params settings records before after p a.val
  | initial {v : Val} : Silent (Sets params) settings p.name → Silent Describes records p.name →
      Initial before after p.type v → Effective params settings records before after p v

/-- merging puts the settings before the stored arguments, and these before the defaults -/
theorem effective_of_merge (hdistinct : (params.map (·.name)).Nodup) {settings : List String} {set : List Argument}
    (hset : Heard (Sets params) settings set) {records : List Data} {stored : List Argument}
    (hstored : Heard Describes records stored) {before after : Heap} {defaults : List Argument}
    (hdefaults : Defaults before after params defaults) {p : Parameter} (hp : p ∈ params) :
    ∃ a, Generator.find? (merge (merge defaults stored) set) p.name = some a ∧
      Effective params settings records before after p a.val := by
  rw [find?_merge, find?_merge]
  rcases hset.find? (sets_unique hdistinct) p.name with ⟨a, ha, hlast⟩ | ⟨hnone, hsilent⟩
  · exact ⟨a, by rw [ha, Option.some_or], .set hlast⟩
  rw [hnone, Option.none_or]
  rcases hstored.find? describes_unique p.name with ⟨a, ha, hlast⟩ | ⟨hunstored, hundescribed⟩
  · exact ⟨a, by rw [ha, Option.some_or], .stored hsilent hlast⟩
  rw [hunstored, Option.none_or]
  obtain ⟨q, hq, a, hname, ha, hinitial⟩ := hdefaults.find? hp
  obtain rfl : q = p := List.inj_on_of_nodup_map hdistinct hq hp hname
  exact ⟨a, ha, .initial hsilent hundescribed hinitial⟩

/-- where there is an argument for every parameter, only its value can be bound, and only if it has the right type -/
theorem gives_found {params : List Parameter} {arguments found : List Argument}
    (h : List.Forall₂ (fun p a => Generator.find? arguments (Parameter.name p) = some a) params found) {values : List Val} :
    List.Forall₂ (Gives arguments) params values ↔
      values = found.map (·.val) ∧ List.Forall₂ (fun p a => Argument.type a = Parameter.type p) params found := by
  induction h generalizing values with
  | nil =>
    constructor
    · intro hgives
      cases hgives
      exact ⟨rfl, .nil⟩
    · rintro ⟨rfl, -⟩
      exact .nil
  | @cons p a params found hfound _ ih =>
    constructor
    · intro hgives
      obtain _ | ⟨⟨b, hb, htype, rfl⟩, hrest⟩ := hgives
      cases hfound.symm.trans hb
      obtain ⟨rfl, htypes⟩ := ih.1 hrest
      exact ⟨rfl, .cons htype htypes⟩
    · rintro ⟨rfl, htypes⟩
      obtain _ | ⟨htype, htypes⟩ := htypes
      exact .cons ⟨a, hfound, htype, rfl⟩ (ih.2 ⟨rfl, htypes⟩)

theorem suits_found {params : List Param} {found : List Argument} :
    Suits (found.map (·.val)) params ↔
      List.Forall₂ (fun p a => Argument.type a = Parameter.type p) (parametersOf params) found := by
  rw [Suits, parametersOf, List.forall₂_map_left_iff, List.forall₂_map_left_iff]
  exact ⟨fun h => h.flip, fun h => h.flip⟩

/-! ## Runs -/

/-- the script of a run can be loaded on the platform, as the script of this number in the workspace `w`, and has the
function under its name, with parameters of different names; the arguments are not to be saved -/
structure Prepared (run : Run) (disk : Disk) (platform : Platform) (number : Nat) (w : Workspace) (decl : Function) :
    Prop where
  loads : ∃ text, disk.read run.file = .ok text ∧
    ({ platform } : Workspace).load run.file (String.ofList (Text.unixBreaks text.toList)) run.dynamic = (.ok number, w)
  named : ∃ owner, (w.script number).get? run.function = some (.fn owner decl)
  declared : (w.script number).Declares decl
  distinct : (decl.params.map (·.name.name)).Nodup
  unsaved : run.saveFile = none

/-- the console when the script has been loaded and its arguments have been read; `heap` has the default values -/
def ready (disk : Disk) (threshold : Nat) (w : Workspace) (heap : Heap) (warnings : List Record) : Console :=
  { ({ disk, threshold } : Console).follow w with space := { w with heap := heap } }.log warnings

/-- what is left of a run when its arguments have been read -/
def remaining (run : Run) (number : Nat) (params : List Parameter) (defaults stored : List Argument) : Step Nat :=
  match run.settings.mapM (settingOf params) with
  | .error e => do
    complain ("Error: " ++ e.message)
    return 1
  | .ok settings => callAndReport number run.function (merge (merge defaults stored) settings)

section Runs

variable {run : Run} {threshold number : Nat} {disk : Disk} {platform : Platform} {w : Workspace} {decl : Function}
  {records : List Data} {stored defaults : List Argument} {warnings : List Record} {heap : Heap}

theorem Prepared.distinct_params (h : Prepared run disk platform number w decl) :
    ((parametersOf decl.params).map (·.name)).Nodup := by
  have hnames : (parametersOf decl.params).map (·.name) = decl.params.map (·.name.name) := by simp [parametersOf]
  rw [hnames]
  exact h.distinct

/-- whatever the heap is, the parameters of the function are those of its declaration -/
theorem Prepared.generatorParams (h : Prepared run disk platform number w decl) (heap : Heap) :
    (({ w with heap := heap } : Workspace).script number).generatorParams run.function = parametersOf decl.params := by
  obtain ⟨owner, hname⟩ := h.named
  exact Script.generatorParams_of_get? hname

theorem Prepared.reachable (h : Prepared run disk platform number w decl) (m : Manners) : w.Reachable m := by
  obtain ⟨text, -, hload⟩ := h.loads
  have hspace := congrArg Prod.snd hload
  subst hspace
  exact .load .start

theorem Prepared.loaded (h : Prepared run disk platform number w decl) : (w.script number).loaded = true := by
  obtain ⟨text, -, hload⟩ := h.loads
  have hspace := congrArg Prod.snd hload
  subst hspace
  exact (Workspace.loaded_of_load (congrArg Prod.fst hload)).2.2

theorem Prepared.atRest (h : Prepared run disk platform number w decl) : (w.script number).AtRest :=
  (Workspace.rests .callers).reachable (h.reachable _) number

/-- a text that declares one function is enough for a run of it -/
theorem prepared_of_soleFunction (run : Run) {text : String} (hread : disk.read run.file = .ok text)
    (hdecl : soleFunction? platform.depths run.file (String.ofList (Text.unixBreaks text.toList)) = some decl)
    (hname : decl.name = run.function) (hfree : (builtinFrame 0).binds decl.name = false)
    (hdistinct : (decl.params.map (·.name.name)).Nodup) (hsave : run.saveFile = none) :
    Prepared run disk platform 0
      (({ platform } : Workspace).load run.file (String.ofList (Text.unixBreaks text.toList)) run.dynamic).2 decl := by
  obtain ⟨hload, -, -, hstatements, hget⟩ := Workspace.load_soleFunction { platform } hdecl hfree run.dynamic
  rw [hname] at hget
  exact { loads := ⟨text, hread, Prod.ext hload rfl⟩
          named := ⟨0, hget⟩
          declared := ⟨_, hstatements ▸ List.mem_singleton_self _, .here decl⟩
          distinct := hdistinct
          unsaved := hsave }

/-- a run is what is left of it when its arguments have been read, and the unloading -/
theorem outcome_eq_remaining (threshold : Nat) (hrun : Prepared run disk platform number w decl)
    (hrecords : Supplies disk run.argsFile records) (hstored : argumentsOf records = (.ok stored, warnings))
    (hdefaults : defaultArguments w.heap (parametersOf decl.params) = .ok (defaults, heap)) :
    Request.outcome ⟨.run run, threshold⟩ disk platform = unloading number
      (remaining run number (parametersOf decl.params) defaults stored (ready disk threshold w heap warnings)) := by
  obtain ⟨text, hread, hload⟩ := hrun.loads
  obtain ⟨owner, hname⟩ := hrun.named
  let c : Console := ({ disk, threshold } : Console).follow w
  have hparams : (c.space.script number).generatorParams run.function = parametersOf decl.params :=
    Script.generatorParams_of_get? hname
  have hdefaults' : defaultArguments c.space.heap ((c.space.script number).generatorParams run.function) =
      .ok (defaults, heap) := by
    rw [hparams]
    exact hdefaults
  have hrecords' : Supplies ({ c with space := { c.space with heap := heap } } : Console).disk run.argsFile records :=
    hrecords
  rw [outcome_of_run hread hload]
  unfold remaining
  rcases hsettings : run.settings.mapM (settingOf (parametersOf decl.params)) with e | settings
  · have hgather := gather_refused defaults hrecords' hstored hsettings
    rw [← hparams] at hgather
    rw [runFunction_gathers hname hdefaults' hrun.unsaved hgather]
    rfl
  · have hgather := gather_ok defaults hrecords' hstored hsettings
    rw [← hparams] at hgather
    rw [runFunction_gathers hname hdefaults' hrun.unsaved hgather]
    rfl

/-- two results agree but for the files, and for what had been complained of on the consoles before; what is complained of
behind that is the same -/
def SameEnd (c c' : Console) (result result' : Except HostError Nat × Console) : Prop :=
  ∃ r, ∃ d : Console, ∃ more,
    result = (r, d.over c.disk (c.err ++ more)) ∧ result' = (r, d.over c'.disk (c'.err ++ more))

theorem Heedless.sameEnd {step : Step Nat} (h : Heedless step) (number : Nat) (disk' : Disk) (warnings' : List Record) :
    SameEnd (ready disk threshold w heap warnings) (ready disk' threshold w heap warnings')
      (Command.unloading number (step (ready disk threshold w heap warnings)))
      (Command.unloading number (step (ready disk' threshold w heap warnings'))) := by
  obtain ⟨r, d, more, hstep⟩ := h.unloading number
    { ({ disk, threshold } : Console).follow w with space := { w with heap := heap } }
  exact ⟨r, d, more, hstep disk _, hstep disk' _⟩

/-- settings that all set parameters leave the call with the merged arguments -/
theorem remaining_of_set {set : List Argument} (hset : run.settings.mapM (settingOf params) = .ok set) :
    remaining run number params defaults stored =
      reported number (·.generate number (merge (merge defaults stored) set) run.function) := by
  rw [remaining, hset]
  exact callAndReport_eq number run.function _

theorem heedless_remaining (run : Run) (number : Nat) (params : List Parameter) (defaults stored : List Argument) :
    Heedless (remaining run number params defaults stored) := by
  unfold remaining
  split
  · exact (heedless_complain _).bind fun _ => heedless_pure 1
  · exact heedless_reported _ _

/-- a setting that sets no parameter ends the run with a complaint -/
theorem idle_of_unset (hdistinct : (params.map (·.name)).Nodup)
    (h : ∃ setting ∈ run.settings, ∀ a, ¬Sets params setting a) (c : Console) :
    Idle c number (remaining run number params defaults stored c) := by
  unfold remaining
  rcases hset : run.settings.mapM (settingOf params) with e | set
  · exact idle_of_complaint c number _
  · obtain ⟨setting, hmem, hnone⟩ := h
    obtain ⟨a, -, ha⟩ := counterpart (mapM_eq_ok.1 hset) hmem
    exact absurd ((settingOf_eq_ok hdistinct).1 ha) (hnone a)

theorem settings_of_set (hdistinct : (params.map (·.name)).Nodup) {settings : List String}
    (h : ∀ setting ∈ settings, ∃ a, Sets params setting a) : ∃ set, settings.mapM (settingOf params) = .ok set := by
  obtain ⟨set, hall⟩ := exists_forall₂ h
  exact ⟨set, mapM_eq_ok.2 (hall.imp fun _ _ hset => (settingOf_eq_ok hdistinct).2 hset)⟩

/-- the parameters have effective values; these are what the merged arguments are bound to, if they have the right types,
and otherwise binding fails -/
theorem effective_values (hrun : Prepared run disk platform number w decl)
    (hstored : argumentsOf records = (.ok stored, warnings))
    (hdefaults : Defaults w.heap heap (parametersOf decl.params) defaults) {set : List Argument}
    (hset : run.settings.mapM (settingOf (parametersOf decl.params)) = .ok set) :
    ∃ values,
      List.Forall₂ (Effective (parametersOf decl.params) run.settings records w.heap heap) (parametersOf decl.params) values ∧
      (Suits values decl.params →
        Generator.bind (parametersOf decl.params) (merge (merge defaults stored) set) = .ok values) ∧
      (¬Suits values decl.params →
        ∃ cause, Generator.bind (parametersOf decl.params) (merge (merge defaults stored) set) = .error cause) := by
  have hheard := Heard.ofSettings hrun.distinct_params hset
  have hdescribed := Heard.ofReading (reading_of_argumentsOf hstored)
  obtain ⟨found, hfound⟩ := exists_forall₂ fun p hp =>
    effective_of_merge hrun.distinct_params hheard hdescribed hdefaults (p := p) hp
  have hgives (values : List Val) :
      List.Forall₂ (Gives (merge (merge defaults stored) set)) (parametersOf decl.params) values ↔ _ :=
    gives_found (hfound.imp fun _ _ h => h.1)
  refine ⟨found.map (·.val), List.forall₂_map_right_iff.2 (hfound.imp fun _ _ h => h.2), fun hsuits => ?_,
    fun hsuits => ?_⟩
  · exact bind_eq_ok.2 ((hgives _).2 ⟨rfl, suits_found.1 hsuits⟩)
  · rcases hbound : Generator.bind (parametersOf decl.params) (merge (merge defaults stored) set) with cause | values
    · exact ⟨cause, rfl⟩
    · exact absurd (suits_found.2 ((hgives values).1 (bind_eq_ok.1 hbound)).2) hsuits

/-- other files of arguments make no difference to what is left of a run if the records of each parameter's name are the
same in them -/
theorem remaining_congr (hrun : Prepared run disk platform number w decl)
    (hstored : argumentsOf records = (.ok stored, warnings))
    {records' : List Data} {stored' : List Argument} {warnings' : List Record}
    (hstored' : argumentsOf records' = (.ok stored', warnings'))
    (hsame : ∀ p ∈ parametersOf decl.params, records'.filter (namedBy p.name) = records.filter (namedBy p.name))
    {c : Console} (hc : c.space = { w with heap := heap }) :
    remaining run number (parametersOf decl.params) defaults stored' c =
      remaining run number (parametersOf decl.params) defaults stored c := by
  have hfinds (set : List Argument) (p : Parameter) (hp : p ∈ parametersOf decl.params) :
      Generator.find? (merge (merge defaults stored') set) p.name =
        Generator.find? (merge (merge defaults stored) set) p.name := by
    have hheard := Heard.ofReading (reading_of_argumentsOf hstored)
    have hheard' := Heard.ofReading (reading_of_argumentsOf hstored')
    simp only [find?_merge, hheard.find?_congr describes_unique namedBy_iff hheard' (hsame p hp)]
  unfold remaining
  rcases run.settings.mapM (settingOf (parametersOf decl.params)) with e | set
  · rfl
  · refine reported_congr ?_
    rw [hc]
    refine Workspace.generate_congr fun p hp => hfinds set p ?_
    rwa [hrun.generatorParams heap] at hp

end Runs

/-- **The effective arguments of a run.** Take a run whose script loads, of a function that the script declares and whose
parameters have different names, any settings, and any way in which documents are read; let the data of the file of
arguments be a list of records, in which no number ends the reading of the arguments. If some setting does not set a
parameter, the run ends with the code 1 and does not touch the script. Otherwise every parameter has an effective value.
If the values have the types of the parameters, the function is called with them in order, which runs its body, and the
result is reported; if not, the run ends with the code 1 and does not touch the script. Records of other names, and the
order of records of different names, make no difference but for the warnings about them. -/
theorem effective_arguments (threshold : Nat) {run : Run} {number : Nat} {disk : Disk} {platform : Platform}
    {w : Workspace} {decl : Function} {records : List Data} {stored : List Argument} {warnings : List Record}
    (hrun : Prepared run disk platform number w decl) (hrecords : Supplies disk run.argsFile records)
    (hstored : argumentsOf records = (.ok stored, warnings)) :
    let params := parametersOf decl.params
    let outcome (files : Disk) := Request.outcome ⟨.run run, threshold⟩ files platform
    ∃ heap env, w.heap.Extends heap ∧ (w.script number).env = some env ∧
      let start := ready disk threshold w heap warnings
      let Idles := ∃ result, outcome disk = unloading number result ∧ Idle start number result
      ((∃ setting ∈ run.settings, ∀ a, ¬Sets params setting a) → Idles) ∧
      ((∀ setting ∈ run.settings, ∃ a, Sets params setting a) →
        ∃ values, List.Forall₂ (Effective params run.settings records w.heap heap) params values ∧
          (Suits values decl.params →
            outcome disk = unloading number (reported number (·.call number run.function values) start) ∧
            Workspace.Tells (start.space.call number run.function values) number
              (start.space.bodyRun number env decl values)) ∧
          (¬Suits values decl.params → Idles)) ∧
      ∀ disk' records' stored' warnings', disk'.read run.file = disk.read run.file →
        Supplies disk' run.argsFile records' → argumentsOf records' = (.ok stored', warnings') →
        (∀ p ∈ params, records'.filter (namedBy p.name) = records.filter (namedBy p.name)) →
        SameEnd start (ready disk' threshold w heap warnings') (outcome disk) (outcome disk') := by
  intro params outcome
  obtain ⟨owner, hname⟩ := hrun.named
  have htypes : ∀ p ∈ params, p.type ∈ Ty.declarable := by
    have hall := hrun.declared.declarable ((Workspace.reads .callers).reachable (hrun.reachable _) number)
    simpa [params, parametersOf] using hall
  obtain ⟨defaults, heap, hdefaults, hinitial, hextends⟩ := defaultArguments_defaults w.heap htypes
  obtain ⟨env, henv⟩ := hrun.atRest.loaded hrun.loaded
  have houtcome := outcome_eq_remaining threshold hrun hrecords hstored hdefaults
  refine ⟨heap, env, hextends, henv, ?unset, ?set, ?others⟩
  case unset => exact fun hunset => ⟨_, houtcome, idle_of_unset hrun.distinct_params hunset _⟩
  case set =>
    intro hsettings
    obtain ⟨set, hset⟩ := settings_of_set hrun.distinct_params hsettings
    obtain ⟨values, hvalues, hbinds, hfails⟩ := effective_values hrun hstored hinitial hset
    refine ⟨values, hvalues, fun hsuits => ⟨?_, ?_⟩, fun hsuits => ?_⟩
    · have hbound := hbinds hsuits
      rw [← hrun.generatorParams heap] at hbound
      have hreported : remaining run number params defaults stored (ready disk threshold w heap warnings) =
          reported number (·.call number run.function values) (ready disk threshold w heap warnings) :=
        (congrFun (remaining_of_set hset) _).trans (reported_congr (Workspace.generate_bound hbound))
      exact houtcome.trans (congrArg (unloading number) hreported)
    · exact Workspace.call_tells_bodyRun (w := { w with heap := heap }) hrun.loaded henv (hrun.atRest.locals env henv)
        hname hsuits
    · obtain ⟨cause, hbound⟩ := hfails hsuits
      rw [← hrun.generatorParams heap] at hbound
      refine ⟨_, houtcome, ?_⟩
      rw [remaining_of_set hset]
      exact idle_of_refused (Workspace.generate_refuses hbound)
  case others =>
    intro disk' records' stored' warnings' hread hrecords' hstored' hsame
    have hrun' : Prepared run disk' platform number w decl := by
      obtain ⟨text, htext, hload⟩ := hrun.loads
      exact { hrun with loads := ⟨text, hread.trans htext, hload⟩ }
    have houtcome' := outcome_eq_remaining threshold hrun' hrecords' hstored' hdefaults
    have hothers : remaining run number params defaults stored' (ready disk' threshold w heap warnings') =
        remaining run number params defaults stored (ready disk' threshold w heap warnings') :=
      remaining_congr hrun hstored hstored' hsame (show (ready disk' threshold w heap warnings').space = _ from rfl)
    change SameEnd _ _ (Request.outcome _ disk platform) (Request.outcome _ disk' platform)
    rw [houtcome, houtcome', hothers]
    exact (heedless_remaining run number params defaults stored).sameEnd number disk' warnings'

/-- a setting, the later of two records of one name, and an initial value; the reader of documents gives the records that
the file of arguments lists. With a setting whose text does not fit its parameter the same run does not call the
function. -/
theorem effective_arguments_sources :
    let script := "int f(int a, bool b, vec2 c) { return a; }"
    let file := "- \x7bname: c, type: vec2, val: ['0', '1']\x7d\n- \x7bname: z, type: vec2, val: ['2', '3']\x7d\n" ++
      "- \x7bname: c, type: vec2, val: ['4', '5']\x7d\n"
    let vector (name x y : String) : Data :=
      .record [("name", .text name), ("type", .text "vec2"), ("val", .list [.text x, .text y])]
    let records := [vector "c" "0" "1", vector "z" "2" "3", vector "c" "4" "5"]
    let disk : Disk := (Directory.ofFiles [("a.gs", script), ("args.yaml", file)]).disk
      ⟨fun _ => .ok (.list records), Document.write⟩
    let run : Run := { file := "a.gs", function := "f", settings := ["a=7"], argsFile := some "args.yaml" }
    let mistaken : Run := { run with settings := ["a=7", "b=maybe"] }
    let params : List Parameter := [⟨"a", .int⟩, ⟨"b", .bool⟩, ⟨"c", .vec2⟩]
    (∃ before after values, Supplies disk run.argsFile records ∧
        List.Forall₂ (Effective params run.settings records before after) params values) ∧
      (Request.outcome ⟨.run run, 30⟩ disk).1 = .ok 0 ∧ (Request.outcome ⟨.run run, 30⟩ disk).2.out = "Result: 7\n" ∧
      (Request.outcome ⟨.run mistaken, 30⟩ disk).1 = .ok 1 := by
  intro script file vector records disk run mistaken params
  have hsole : (soleFunction? Platform.standard.depths "a.gs" (String.ofList (Text.unixBreaks script.toList))).map
      (fun decl => (decl.name, parametersOf decl.params)) = some ("f", params) := by decide +kernel
  obtain ⟨decl, hdecl, hboth⟩ := Option.map_eq_some_iff.1 hsole
  obtain ⟨hname, hparams⟩ := Prod.mk.inj hboth
  have hread : disk.read "a.gs" = .ok script := by decide +kernel
  have hfree : (builtinFrame 0).binds decl.name = false := by
    rw [hname]
    decide +kernel
  have hdistinct : (decl.params.map (·.name.name)).Nodup := by
    have hnames : decl.params.map (·.name.name) = params.map (·.name) := by
      rw [← hparams]
      simp [parametersOf]
    rw [hnames]
    decide
  have hrun := prepared_of_soleFunction run hread hdecl hname hfree hdistinct rfl
  have hmistaken := prepared_of_soleFunction mistaken hread hdecl hname hfree hdistinct rfl
  have hrecords : Supplies disk run.argsFile records := by
    have hfile : disk.read "args.yaml" = .ok file := by decide +kernel
    change readRecords disk "args.yaml" = .ok records
    rw [readRecords, hfile]
    rfl
  obtain ⟨stored, warnings, hstored⟩ : ∃ stored warnings, argumentsOf records = (.ok stored, warnings) := by
    have haccepted : (argumentsOf records).1.toBool = true := by decide +kernel
    rcases hstored : argumentsOf records with ⟨_ | stored, warnings⟩
    · rw [hstored] at haccepted
      cases haccepted
    · exact ⟨stored, warnings, rfl⟩
  have hdistinct' : (params.map (·.name)).Nodup := by decide
  have hends : (Request.outcome ⟨.run run, 30⟩ disk).1 = .ok 0 ∧
      (Request.outcome ⟨.run run, 30⟩ disk).2.out = "Result: 7\n" := by decide +kernel
  refine ⟨?_, hends.1, hends.2, ?_⟩
  · obtain ⟨heap, env, -, -, -, hset, -⟩ := effective_arguments 30 hrun hrecords hstored
    have hsettings : ∀ setting ∈ run.settings, ∃ a, Sets (parametersOf decl.params) setting a := by
      rw [hparams]
      intro setting hmem
      obtain rfl : setting = "a=7" := List.mem_singleton.1 hmem
      have haccepted : (settingOf params "a=7").toBool = true := by decide +kernel
      rcases ha : settingOf params "a=7" with e | a
      · rw [ha] at haccepted
        cases haccepted
      · exact ⟨a, (settingOf_eq_ok hdistinct').1 ha⟩
    obtain ⟨values, hvalues, -⟩ := hset hsettings
    rw [hparams] at hvalues
    exact ⟨_, heap, values, hrecords, hvalues⟩
  · obtain ⟨heap, env, -, -, hunset, -, -⟩ := effective_arguments 30 hmistaken hrecords hstored
    obtain ⟨result, hresult, hidle⟩ := hunset ⟨"b=maybe", by simp [mistaken], fun a ha => by
      rw [hparams] at ha
      have hrefused : (settingOf params "b=maybe").toBool = false := by decide +kernel
      rw [(settingOf_eq_ok hdistinct').2 ha] at hrefused
      cases hrefused⟩
    exact (congrArg Prod.fst hresult).trans hidle.code

end LevelScript.Command
