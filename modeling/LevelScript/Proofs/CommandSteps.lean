/-
Steps of commands, and how a run goes from one to the next.

A step turns a console into another one and may end in a failure of the machinery; an attempt may be refused with a
message besides. Each step has an equation for what it comes to, so that a run can be followed from the request to the
call (`outcome_of_run`). What is still to be done once the arguments are there neither looks at the files nor at what has
been complained of, and only adds complaints: `Heedless` is closed under sequences.
-/
import LevelScript.Command.Perform
import LevelScript.Proofs.GeneratorCalls

namespace LevelScript.Command

open LevelScript.Generator hiding bind

variable {α β : Type} {c d : Console}

/-! ## Sequences -/

theorem run_bind_ok {m : Step α} {a : α} (h : m c = (.ok a, d)) (f : α → Step β) : (m >>= f) c = f a d := by
  simp only [bind, ExceptT.bind, ExceptT.mk, StateT.bind, h, ExceptT.bindCont]

theorem run_bind_error {m : Step α} {e : HostError} (h : m c = (.error e, d)) (f : α → Step β) :
    (m >>= f) c = (.error e, d) := by
  simp only [bind, ExceptT.bind, ExceptT.mk, StateT.bind, h, ExceptT.bindCont]
  rfl

theorem attempt_bind_ok {m : Attempt α} {a : α} (h : m c = (.ok (.ok a), d)) (f : α → Attempt β) :
    (m >>= f) c = f a d := by
  simp only [bind, ExceptT.bind, ExceptT.mk, StateT.bind, h, ExceptT.bindCont]

theorem attempt_bind_refused {m : Attempt α} {message : String} (h : m c = (.ok (.error message), d))
    (f : α → Attempt β) : (m >>= f) c = (.ok (.error message), d) := by
  simp only [bind, ExceptT.bind, ExceptT.mk, StateT.bind, h, ExceptT.bindCont]
  rfl

/-! ## Single steps -/

theorem run_say (line : String) (c : Console) : say line c = (.ok (), { c with out := c.out ++ line ++ "\n" }) := rfl

theorem run_complain (line : String) (c : Console) :
    complain line c = (.ok (), { c with err := c.err ++ line ++ "\n" }) := rfl

theorem run_onSpace (change : Workspace → α × Workspace) (c : Console) :
    onSpace change c = (.ok (change c.space).1, c.follow (change c.space).2) := rfl

theorem run_ofOutcome (r : Except HostError α) (c : Console) : ofOutcome r c = (r, c) := by
  cases r <;> rfl

/-- what a console shows of log records -/
def Console.shown (c : Console) (records : List Record) : String :=
  String.join ((records.filter fun r => c.threshold ≤ weightOf r.level).map fun r => r.text ++ "\n")

@[simp] theorem Console.log_nil (c : Console) : c.log [] = c := by
  simp [Console.log]

/-- a workspace in which nothing has been printed since shows no results -/
theorem Console.out_follow_same {space : Workspace} (h : space.output = c.space.output) :
    (c.follow space).out = c.out := by
  have hnone : space.output.toList.drop c.space.output.size = [] := List.drop_eq_nil_of_le (by simp [h])
  simp [Console.follow, Console.log, hnone]

/-! ## A call and its report -/

/-- change the workspace for a value, and report it -/
def reported (number : Nat) (change : Workspace → Except HostError Val × Workspace) : Step Nat := do
  match ← ofOutcome (← onSpace change) with
  | .error message =>
    match ((← get).space.script number).lastError with
    | some d => complain d.text
    | none => complain ("Error: " ++ message)
    return 1
  | v =>
    say ("Result: " ++ (← displayed v))
    return 0

theorem callAndReport_eq (number : Nat) (function : String) (arguments : List Argument) :
    callAndReport number function arguments = reported number (·.generate number arguments function) := rfl

theorem reported_congr {number : Nat} {change other : Workspace → Except HostError Val × Workspace}
    (h : change c.space = other c.space) : reported number change c = reported number other c := by
  have hsame : onSpace change c = onSpace other c := by rw [run_onSpace, run_onSpace, h]
  rw [reported, run_bind_ok (run_onSpace change c), reported, run_bind_ok (run_onSpace other c), h]

/-- a run that ends with the code 1 and has not touched the script: it prints no results and saves nothing, and at most
the last error of the script and the log are new -/
structure Idle (ready : Console) (number : Nat) (result : Except HostError Nat × Console) : Prop where
  code : result.1 = .ok 1
  out : result.2.out = ready.out
  saved : result.2.saved = ready.saved
  space : result.2.space = ready.space ∨ ∃ d log, result.2.space =
    { ready.space.modifyScript number fun s => { s with lastError := some d } with log := log }

/-- a run that ends with a complaint -/
theorem idle_of_complaint (c : Console) (number : Nat) (line : String) :
    Idle c number ((do complain line; return 1 : Step Nat) c) := ⟨rfl, rfl, rfl, .inl rfl⟩

/-- a call that is refused leaves the script alone -/
theorem idle_of_refused {number : Nat} {cause : Cause} {change : Workspace → Except HostError Val × Workspace}
    (h : Workspace.Refuses c.space number cause (change c.space)) : Idle c number (reported number change c) := by
  obtain ⟨hvalue, log, hspace⟩ := h
  have hcall : onSpace change c = (.ok (.ok (.error cause.message)), c.follow (change c.space).2) := by
    rw [run_onSpace, hvalue]
  have hend (line : String) : Idle c number ((do complain line; return 1 : Step Nat) (c.follow (change c.space).2)) := by
    refine ⟨rfl, Console.out_follow_same ?_, rfl, .inr ⟨_, log, hspace⟩⟩
    rw [hspace]
    rfl
  rw [reported, run_bind_ok hcall, run_bind_ok (run_ofOutcome _ _)]
  dsimp only
  rw [run_bind_ok (m := get) (a := c.follow (change c.space).2) rfl]
  rcases ((c.follow (change c.space).2).space.script number).lastError with _ | d
  · exact hend _
  · exact hend _

/-! ## What is not looked at -/

/-- the console with other files and other complaints so far -/
def Console.over (c : Console) (disk : Disk) (err : String) : Console := { c with disk := disk, err := err }

/-- the step does the same whatever the files hold and whatever has been complained of; it adds to the complaints -/
def Heedless (step : Step α) : Prop :=
  ∀ c : Console, ∃ r, ∃ d : Console, ∃ more, ∀ disk err, step (c.over disk err) = (r, d.over disk (err ++ more))

theorem heedless_ofOutcome (r : Except HostError α) : Heedless (ofOutcome r) := fun c =>
  ⟨r, c, "", fun disk err => by rw [run_ofOutcome, String.append_empty]⟩

theorem heedless_pure (a : α) : Heedless (pure a : Step α) := heedless_ofOutcome (.ok a)

theorem Heedless.bind {step : Step α} {next : α → Step β} (h : Heedless step) (hnext : ∀ a, Heedless (next a)) :
    Heedless (step >>= next) := by
  intro c
  obtain ⟨r, d, more, hstep⟩ := h c
  cases r with
  | error e => exact ⟨.error e, d, more, fun disk err => run_bind_error (hstep disk err) _⟩
  | ok a =>
    obtain ⟨r, last, more', hlast⟩ := hnext a d
    refine ⟨r, last, more ++ more', fun disk err => ?_⟩
    rw [run_bind_ok (hstep disk err), hlast, String.append_assoc]

theorem heedless_say (line : String) : Heedless (say line) := fun c =>
  ⟨.ok (), { c with out := c.out ++ line ++ "\n" }, "", fun disk err => by
    rw [run_say, String.append_empty]
    rfl⟩

theorem heedless_complain (line : String) : Heedless (complain line) := fun c =>
  ⟨.ok (), c, line ++ "\n", fun disk err => by
    rw [run_complain, ← String.append_assoc]
    rfl⟩

/-- the console after a change of the workspace has the complaints from before, and those that the change adds -/
theorem Console.over_follow (c : Console) (space : Workspace) (disk : Disk) (err : String) :
    (c.over disk err).follow space =
      (c.follow space).over disk (err ++ c.shown (space.log.toList.drop c.space.log.size)) := rfl

theorem heedless_onSpace (change : Workspace → α × Workspace) : Heedless (onSpace change) := fun c =>
  ⟨.ok (change c.space).1, c.follow (change c.space).2, _, fun disk err => by
    rw [run_onSpace, ← Console.over_follow]
    rfl⟩

/-- a step may look at the workspace -/
theorem heedless_space (next : Workspace → Step α) (h : ∀ space, Heedless (next space)) :
    Heedless (do next (← get).space) := fun c => h c.space c

theorem heedless_displayed (v : Val) : Heedless (displayed v) :=
  heedless_space (fun space => ofOutcome (space.heap.display maxListDepth v)) fun _ => heedless_ofOutcome _

theorem heedless_reported (number : Nat) (change : Workspace → Except HostError Val × Workspace) :
    Heedless (reported number change) := by
  have hcomplaint (line : String) : Heedless (do complain line; return 1 : Step Nat) :=
    (heedless_complain line).bind fun _ => heedless_pure 1
  refine (heedless_onSpace change).bind fun answer => (heedless_ofOutcome answer).bind fun v => ?_
  split
  · refine heedless_space (fun space => match (space.script number).lastError with
      | some d => do complain d.text; return 1
      | none => do complain ("Error: " ++ _); return 1) fun space => ?_
    split
    · exact hcomplaint _
    · exact hcomplaint _
  · exact (heedless_displayed v).bind fun text => (heedless_say _).bind fun _ => heedless_pure 0

/-! ## A run from its request on -/

/-- the end of a run: the script is unloaded, whatever the work has come to -/
def unloading (number : Nat) (result : Except HostError Nat × Console) : Except HostError Nat × Console :=
  (result.1, result.2.follow (result.2.space.unload number))

theorem Heedless.unloading {step : Step Nat} (h : Heedless step) (number : Nat) (c : Console) :
    ∃ r, ∃ d : Console, ∃ more, ∀ disk err,
      Command.unloading number (step (c.over disk err)) = (r, d.over disk (err ++ more)) := by
  obtain ⟨r, d, more, hstep⟩ := h c
  let after := d.space.unload number
  refine ⟨r, d.follow after, more ++ d.shown (after.log.toList.drop d.space.log.size), fun disk err => ?_⟩
  have hspace : (d.over disk (err ++ more)).space = d.space := rfl
  rw [hstep, Command.unloading, hspace, Console.over_follow, String.append_assoc]

/-- a run whose script loads does its work on the script and unloads it -/
theorem outcome_of_run {run : Run} {threshold : Nat} {disk : Disk} {platform : Platform} {text : String} {number : Nat}
    {w : Workspace} (hread : disk.read run.file = .ok text)
    (hload : ({ platform } : Workspace).load run.file (String.ofList (Text.unixBreaks text.toList)) run.dynamic =
      (.ok number, w)) :
    Request.outcome ⟨.run run, threshold⟩ disk platform =
      unloading number (runFunction run number (({ disk, threshold } : Console).follow w)) := by
  let start : Console := { disk, threshold, space := { platform } }
  let source := String.ofList (Text.unixBreaks text.toList)
  have hsource : readSource run.file start = (.ok (some source), start) := by
    rw [readSource, run_bind_ok (m := get) (a := start) (d := start) rfl, show start.disk.read run.file = .ok text from hread]
    rfl
  have hloaded : onSpace (·.load run.file source run.dynamic) start = (.ok (.ok number), start.follow w) := by
    rw [run_onSpace, show start.space.load run.file source run.dynamic = (.ok number, w) from hload]
  change withScript run.file run.dynamic (runFunction run) start =
    unloading number (runFunction run number (start.follow w))
  rw [withScript, run_bind_ok hsource]
  dsimp only
  rw [run_bind_ok hloaded]
  dsimp only
  rcases hwork : runFunction run number (start.follow w) with ⟨r, d⟩
  have hlifted : (ExceptT.lift (runFunction run number).run : Step _) (start.follow w) = (.ok r, d) := by
    simp only [ExceptT.lift, ExceptT.mk, ExceptT.run, Functor.map, StateT.map, hwork]
    rfl
  rw [run_bind_ok hlifted, run_bind_ok (run_onSpace _ _), run_ofOutcome]
  rfl

/-- the arguments in a file, if there is one -/
def storedIn (argsFile : Option String) : Attempt (List Argument) :=
  match argsFile with
  | some path => storedArguments path
  | none => pure []

/-- the data of the file of arguments, as the reader of documents gives it, are the records; without such a file there
are none -/
def Supplies (disk : Disk) (argsFile : Option String) (records : List Data) : Prop :=
  match argsFile with
  | none => records = []
  | some path => readRecords disk path = .ok records

theorem run_storedIn {argsFile : Option String} {records : List Data} {stored : List Argument} {warnings : List Record}
    (hrecords : Supplies c.disk argsFile records) (hstored : argumentsOf records = (.ok stored, warnings)) :
    storedIn argsFile c = (.ok (.ok stored), c.log warnings) := by
  cases argsFile with
  | none =>
    cases hrecords
    cases hstored
    rw [Console.log_nil]
    rfl
  | some path =>
    have hread : readRecords c.disk path = .ok records := hrecords
    rw [storedIn, storedArguments, attempt_bind_ok (m := get) (a := c) (d := c) rfl, hread]
    simp only [hstored]
    rfl

theorem gather_eq (run : Run) (params : List Parameter) (defaults : List Argument) :
    gather run params defaults = do
      let stored ← storedIn run.argsFile
      match run.settings.mapM (settingOf params) with
      | .error e => throw e.message
      | .ok settings => return merge (merge defaults stored) settings := by
  unfold gather storedIn
  cases run.argsFile <;> rfl

section Gathering

variable {run : Run} {number : Nat} {params : List Parameter} {stored : List Argument} {records : List Data}
  {warnings : List Record} (defaults : List Argument)

theorem gather_ok (hrecords : Supplies c.disk run.argsFile records) (hstored : argumentsOf records = (.ok stored, warnings))
    {settings : List Argument} (hsettings : run.settings.mapM (settingOf params) = .ok settings) :
    gather run params defaults c = (.ok (.ok (merge (merge defaults stored) settings)), c.log warnings) := by
  rw [gather_eq, attempt_bind_ok (run_storedIn hrecords hstored), hsettings]
  rfl

theorem gather_refused (hrecords : Supplies c.disk run.argsFile records)
    (hstored : argumentsOf records = (.ok stored, warnings)) {e : HostError}
    (hsettings : run.settings.mapM (settingOf params) = .error e) :
    gather run params defaults c = (.ok (.error e.message), c.log warnings) := by
  rw [gather_eq, attempt_bind_ok (run_storedIn hrecords hstored), hsettings]
  rfl

variable {defaults} {owner : Nat} {decl : Syntax.Function} {heap : Heap}

/-- the part of a run behind the default arguments -/
theorem runFunction_gathers (hname : (c.space.script number).get? run.function = some (.fn owner decl))
    (hdefaults : defaultArguments c.space.heap ((c.space.script number).generatorParams run.function) =
      .ok (defaults, heap))
    (hsave : run.saveFile = none) {result : Except String (List Argument)}
    (hgather : gather run ((c.space.script number).generatorParams run.function) defaults
      { c with space := { c.space with heap := heap } } = (.ok result, d)) :
    runFunction run number c = (match result with
      | .ok arguments => callAndReport number run.function arguments
      | .error message => do
        complain ("Error: " ++ message)
        return 1 : Step Nat) d := by
  have hdefaultsOf : defaultsOf ((c.space.script number).generatorParams run.function) c =
      (.ok defaults, { c with space := { c.space with heap := heap } }) := by
    rw [defaultsOf, run_bind_ok (m := get) (a := c) (d := c) rfl, hdefaults]
    rfl
  rw [runFunction, run_bind_ok (m := get) (a := c) (d := c) rfl]
  simp only [hname, hsave]
  rw [run_bind_ok hdefaultsOf]
  refine (run_bind_ok (a := result) (d := d) ?_ _).trans ?_
  · cases result with
    | ok arguments => exact attempt_bind_ok hgather _
    | error message => exact attempt_bind_refused hgather _
  · cases result <;> rfl

end Gathering

end LevelScript.Command
