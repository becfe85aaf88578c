/-
Errors quote the line that they are about.

A diagnostic shows its place in a text if the line that it quotes holds, at the column of its span, what the span covers
up to its first line feed, and the carets stand under that part (`Diagnostic.ShowsIn`). Quoting goes wrong only where
lines are counted in two ways, so legible spans are asked for. Every error of reading a text, of loading a script and of
a call from the host shows its place (`errors_show_places`), if the functions that are called on the way have been read
from the text, and if the functions of the host raise no faults with places of their own.

The spans come from the tokens of the text, which stand in it: a refusal keeps the tokens from the refused one on, and a
fault points at an anchor of what has been read.
-/
import LevelScript.Proofs.Alphabet
import LevelScript.Proofs.FaultPlaces
import LevelScript.Proofs.LoadingOrder
import LevelScript.Proofs.ParsedAnchors
import LevelScript.Proofs.SourceLines

namespace LevelScript

open LevelScript.Syntax Eval

/-! ## Diagnostics -/

/-- the quoted line shows what the span covers at its column, and the carets stand under it -/
def Diagnostic.ShowsIn (text : String) (d : Diagnostic) : Prop :=
  ∀ span line, d.span = some span → d.sourceLine = some line → span.Legible text.toList →
    span.shown text.toList <+: line.toList.drop (span.start.column - 1) ∧
      underline span line = String.ofList (List.replicate (span.start.column - 1) ' ' ++
        List.replicate (max 1 (span.shown text.toList).length) '^')

theorem Diagnostic.showsIn_of_line {text : String} {d : Diagnostic} {span : Span} (hspan : d.span = some span)
    (hline : d.sourceLine = Text.line? text span.start.line) (h : span.TrueIn text.toList) : d.ShowsIn text := by
  intro span' line hspan' hline' hlegible
  obtain rfl : span = span' := Option.some.inj (hspan.symm.trans hspan')
  exact span.shown_quoted h hlegible (hline.symm.trans hline')

theorem Diagnostic.showsIn_of_no_span {text : String} {d : Diagnostic} (h : d.span = none) : d.ShowsIn text := by
  intro span line hspan
  rw [h] at hspan
  cases hspan

/-- the fault has no place, or one in the text -/
def Fault.PlacedIn (text : List Char) (f : Fault) : Prop := ∀ span ∈ f.span, span.TrueIn text

theorem Fault.PlacedIn.shows {text : String} {f : Fault} (h : f.PlacedIn text.toList) :
    (f.diagnostic.quoting (Text.line? text)).ShowsIn text := by
  rcases hspan : f.span with _ | span
  · refine Diagnostic.showsIn_of_no_span ?_
    simp [Diagnostic.quoting, Fault.diagnostic, hspan]
  · have htrue : span.TrueIn text.toList := h span hspan
    have hpoints : (f.diagnostic.quoting (Text.line? text)).span = some span := by
      simp [Diagnostic.quoting, Fault.diagnostic, hspan]
    refine Diagnostic.showsIn_of_line hpoints ?_ htrue
    simp [Diagnostic.quoting, Fault.diagnostic, hspan]

def LoadFault.PlacedIn (text : List Char) : LoadFault → Prop
  | .scan (.unknownCharacter _ span) => span.TrueIn text
  | .scan .numberTooLarge => True
  | .refusal r => ∀ t ∈ r.rest, t.StandsIn text
  | .interrupt (.fault f) => f.PlacedIn text
  | .interrupt (.host _) => True

theorem LoadFault.PlacedIn.shows {source : String} {fault : LoadFault} (h : fault.PlacedIn source.toList)
    {e : ScriptError} (he : fault.failure source = .script e) : e.diagnostic.ShowsIn source := by
  match fault with
  | .scan (.unknownCharacter c span) =>
    cases he
    exact Diagnostic.showsIn_of_line rfl rfl h
  | .scan .numberTooLarge => cases he
  | .refusal ⟨cause, []⟩ =>
    cases he
    exact Diagnostic.showsIn_of_no_span rfl
  | .refusal ⟨cause, t :: rest⟩ =>
    cases he
    exact Diagnostic.showsIn_of_line rfl rfl (h t List.mem_cons_self).trueIn
  | .interrupt (.fault f) =>
    cases he
    exact Fault.PlacedIn.shows h
  | .interrupt (.host _) => cases he

/-! ## Scanning and parsing -/

/-- the tokens of a text stand in it, and they end -/
theorem standsIn_of_tokenize {source : String} {file : Option String} {tokens : List Token}
    (h : tokenize source file = .ok tokens) : (∀ t ∈ tokens, t.StandsIn source.toList) ∧ Ends tokens := by
  have horigin : (⟨{}, {}, file⟩ : Span).stop = .endOf [] := rfl
  obtain ⟨hstands, -, hends, -⟩ := scanFrom_tiles file source.toList horigin
  rcases tokenize_cases source file with ⟨fault, -, herror⟩ | ⟨hnone, hok⟩
  · rw [herror] at h
    cases h
  · rw [hok] at h
    cases h
    obtain ⟨before, last, htokens, hlast, -⟩ := hends hnone
    refine ⟨hstands, last, ?_, hlast⟩
    rw [scan]
    exact htokens ▸ List.mem_append_right _ (List.mem_singleton_self last)

theorem placed_of_scan {source : String} {file : Option String} {fault : ScanFault}
    (h : tokenize source file = .error fault) : (LoadFault.scan fault).PlacedIn source.toList := by
  rw [tokenize_eq_error] at h
  match fault with
  | .numberTooLarge => trivial
  | .unknownCharacter c span =>
    obtain ⟨p, -, -, -, rfl⟩ := h
    have hfront (k : Nat) : (Position.endOf (source.toList.take k)).TrueIn source.toList := by
      have htrue := Position.endOf_trueIn (source.toList.take k) (source.toList.drop k)
      rwa [List.take_append_drop] at htrue
    refine ⟨hfront p, hfront (p + 1), ?_⟩
    simp only [Position.endOf, List.length_take]
    omega

/-- a refusal keeps tokens of its list -/
theorem parseStatement_refused {depths : Depths} {ts : List Token} {r : Refusal} (hends : Ends ts)
    (h : parseStatement depths ts = .error r) : r.rest ⊆ ts := by
  obtain ⟨cause, rest⟩ := r
  by_cases hcause : cause = .tooDeep
  · subst hcause
    rw [parseStatement] at h
    split at h
    · cases h
      exact List.Subset.refl ts
    · rename_i hother
      exact absurd h (hother _)
  · obtain ⟨used, rfl, -⟩ :=
      (contract_fullStatement ts.length).refuses le_rfl hends ((parseStatement_eq_error hcause).1 h) hcause
    exact List.subset_append_right used rest

theorem parseUpTo_refused {depths : Depths} (bound : Nat) {ts : List Token} {r : Refusal} (hends : Ends ts)
    (h : (parseUpTo depths bound ts).refusal = some r) : r.rest ⊆ ts := by
  induction bound generalizing ts with
  | zero => cases h
  | succ bound ih =>
    rw [parseUpTo] at h
    split_ifs at h
    rcases hs : parseStatement depths ts with refusal | ⟨stmt, rest⟩
    · rw [hs] at h
      cases h
      exact parseStatement_refused hends hs
    · rw [hs] at h
      obtain ⟨hrest, hrestEnds, -⟩ := parseStatement_draws hends hs
      exact List.Subset.trans (ih hrestEnds h) hrest

/-- what reading a text fails with has its place in the text -/
theorem statementsOf_placed {source : String} {file : Option String} {depths : Depths} {failure : Failure}
    (h : statementsOf source file depths = .error failure) :
    ∃ fault : LoadFault, fault.PlacedIn source.toList ∧ failure = fault.failure source := by
  rcases htokens : tokenize source file with fault | tokens
  · rw [statementsOf, htokens] at h
    cases h
    exact ⟨.scan fault, placed_of_scan htokens, rfl⟩
  · obtain ⟨hstands, hends⟩ := standsIn_of_tokenize htokens
    rcases hparse : parse tokens depths with refusal | stmts
    · have hread : statementsOf source file depths = .error ((LoadFault.refusal refusal).failure source) := by
        rw [statementsOf, htokens]
        simp [Except.mapError, bind, Except.bind, hparse]
      rw [h] at hread
      refine ⟨.refusal refusal, fun t ht => hstands t ?_, Except.error.inj hread⟩
      exact parseUpTo_refused tokens.length hends (refusal_of_parse hparse) ht
    · rw [statementsOf, htokens] at h
      simp [Except.mapError, bind, Except.bind, hparse] at h

/-! ## Loading -/

/-- the tokens that the function keeps stand in the text -/
def Syntax.Function.StandsIn (text : List Char) (decl : Function) : Prop := ∀ t ∈ decl.anchors, t.StandsIn text

/-- what a job may blame is in the text if the job and the functions that it comes to call have been read from it -/
theorem Blames.trueIn {setting : Setting} {text : List Char} {j : Job} {span : Span} (h : Blames setting j span)
    (hown : ∀ t ∈ j.task.anchors, t.StandsIn text) (hcalls : ∀ decl, Calls setting j decl → decl.StandsIn text) :
    span.TrueIn text := by
  rcases h with ⟨t, ht, rfl⟩ | ⟨decl, hdecl, t, ht, rfl⟩
  · exact (hown t ht).trueIn
  · exact (hcalls decl hdecl t ht).trueIn

theorem Placed.placedIn {α : Type} {B : Span → Prop} {text : List Char} {f : Fault}
    (h : Placed B (.error (.fault f) : Except Interrupt α)) (hB : ∀ span, B span → span.TrueIn text) :
    f.PlacedIn text := by
  obtain ⟨span, hspan, hb⟩ := h.span_of_fault
  intro other hother
  rw [hspan, Option.mem_some] at hother
  exact hother ▸ hB span hb

/-- running the statements at the front of the tokens, at most as many as the bound, comes to call the function -/
inductive StatementsCall (setting : Setting) (decl : Function) : Nat → List Token → State → Prop where
  | here {bound tokens stmt rest s} : Parser.ended tokens = false →
      parseStatement setting.depths tokens = .ok (stmt, rest) → Calls setting ⟨setting.evaluation, .stmt stmt, s⟩ decl →
      StatementsCall setting decl (bound + 1) tokens s
  | later {bound tokens stmt rest s t} : Parser.ended tokens = false →
      parseStatement setting.depths tokens = .ok (stmt, rest) → execTop setting stmt s = (.ok (), t) →
      StatementsCall setting decl bound rest t → StatementsCall setting decl (bound + 1) tokens s

/-- running statements fails at places of the text, by induction on the bound: a statement that has been read keeps
tokens of the text -/
theorem runTokens_placed {setting : Setting} (hs : setting.RaisesUnplaced) {text : List Char} (bound : Nat)
    {tokens : List Token} (hends : Ends tokens) (hstands : ∀ t ∈ tokens, t.StandsIn text) {s : State}
    (hcalls : ∀ decl, StatementsCall setting decl bound tokens s → decl.StandsIn text) {fault : LoadFault}
    (h : (runTokens setting bound tokens s).fault = some fault) : fault.PlacedIn text := by
  induction bound generalizing tokens s with
  | zero => cases h
  | succ bound ih =>
    rw [runTokens] at h
    split_ifs at h with hended
    rw [Bool.not_eq_true] at hended
    rcases hparse : parseStatement setting.depths tokens with refusal | ⟨stmt, rest⟩
    · rw [hparse] at h
      cases h
      exact fun t ht => hstands t (parseStatement_refused hends hparse ht)
    obtain ⟨hrest, hrestEnds, hanchors⟩ := parseStatement_draws hends hparse
    have hblamed := places_execTop hs stmt s
    rcases hrun : execTop setting stmt s with ⟨(f | e) | _, t⟩
    · rw [hparse] at h
      dsimp only at h
      rw [hrun] at h
      cases h
      rw [PlacesAt, hrun] at hblamed
      refine hblamed.placedIn fun span hblames => ?_
      exact hblames.trueIn (fun t ht => hstands t (hanchors ht)) fun decl hdecl => hcalls decl (.here hended hparse hdecl)
    · rw [hparse] at h
      dsimp only at h
      rw [hrun] at h
      cases h
      trivial
    · rw [hparse] at h
      dsimp only at h
      rw [hrun] at h
      exact ih hrestEnds (fun t ht => hstands t (hrest ht))
        (fun decl hdecl => hcalls decl (.later hended hparse hrun hdecl)) h

/-- loading the text comes to call the function -/
def Workspace.LoadCalls (w : Workspace) (path source : String) (dynamic : Bool) (decl : Function) : Prop :=
  ∃ tokens, tokenize source (some path) = .ok tokens ∧
    StatementsCall ((w.opened path source dynamic).setting w.scripts.size) decl tokens.length tokens
      (w.loadState path source dynamic)

theorem Workspace.loading_placed {w : Workspace} {path source : String} {dynamic : Bool}
    (hs : ((w.opened path source dynamic).setting w.scripts.size).RaisesUnplaced)
    (hcalls : ∀ decl, w.LoadCalls path source dynamic decl → decl.StandsIn source.toList) {fault : LoadFault}
    (h : (w.loading path source dynamic).2.fault = some fault) : fault.PlacedIn source.toList := by
  rcases htokens : tokenize source (some path) with unread | tokens
  · rw [loading_scan w dynamic htokens] at h
    cases h
    exact placed_of_scan htokens
  · obtain ⟨hstands, hends⟩ := standsIn_of_tokenize htokens
    rw [loading_tokens w dynamic htokens] at h
    exact runTokens_placed hs tokens.length hends hstands (fun decl hdecl => hcalls decl ⟨tokens, htokens, hdecl⟩) h

/-! ## Calls from the host -/

/-- calling a global function by its name comes to call the function -/
def CallsByName (setting : Setting) (depth : Nat) (name : String) (arguments : List Val) (s : State) (decl : Function) :
    Prop :=
  ∃ owner first, s.env.globals.get? name = some (.fn owner first) ∧
    (decl = first ∨ Calls setting ⟨depth, .call first arguments false, s⟩ decl)

theorem calling_placed {setting : Setting} (hs : setting.RaisesUnplaced) {text : List Char} {depth : Nat} {name : String}
    {arguments : List Val} {s t : State} {f : Fault}
    (hcalls : ∀ decl, CallsByName setting depth name arguments s decl → decl.StandsIn text)
    (h : calling setting depth name arguments s = (.error (.fault f), t)) : f.PlacedIn text := by
  have hunplaced {cause : Cause} (h : (throw (.unplaced cause) : Eval Val) s = (.error (.fault f), t)) :
      f.PlacedIn text := by
    cases h
    intro span hspan
    cases hspan
  rw [calling, run_bind_ok (m := get) (a := s) (t := s) rfl] at h
  rcases hname : s.env.globals.get? name with _ | v
  · rw [hname] at h
    exact hunplaced h
  rw [hname] at h
  cases v with
  | fn owner decl =>
    dsimp only at h
    rcases hcause : hostCallCause? name decl.params arguments with _ | cause
    · rw [hcause] at h
      dsimp only at h
      have hresult := congrArg Prod.fst h
      dsimp only at hresult
      have hplaced : Placed (Blames setting ⟨depth, .call decl arguments false, s⟩)
          (.error (.fault f) : Except Interrupt Val) := by
        rw [← hresult]
        exact placesAt_blamed ((placesWithin hs depth).call decl arguments false s) (blames_own decl.token_mem_anchors)
      refine hplaced.placedIn fun span hblames => ?_
      exact hblames.trueIn (hcalls decl ⟨owner, decl, hname, .inl rfl⟩) fun other hother =>
        hcalls other ⟨owner, decl, hname, .inr hother⟩
    · rw [hcause] at h
      exact hunplaced h
  | _ => exact hunplaced h

/-- a call by name that fails keeps a diagnostic that shows its place, wherever the call comes from -/
theorem callByName_shows {source : String} {setting : Setting} (hline : setting.line? = Text.line? source)
    (hs : setting.RaisesUnplaced) {depth : Nat} {name : String} {arguments : List Val} {s t : State} {f : Fault}
    (hcalls : ∀ decl, CallsByName setting depth name arguments { s with lastError := none } decl →
      decl.StandsIn source.toList)
    (h : calling setting depth name arguments { s with lastError := none } = (.error (.fault f), t)) :
    ∃ d, callByName setting (depth + 1) name arguments s =
      (.ok (.error f.cause.message), { t with lastError := some d }) ∧ d.ShowsIn source := by
  refine ⟨f.diagnostic.quoting setting.line?, ?_, ?_⟩
  · rw [callByName_settles, h]
    rfl
  · rw [hline]
    exact (calling_placed hs hcalls h).shows

/-- **Errors show what they are about.** Whatever is wrong with a text, the diagnostic of the first error that reading
it, loading it as a script or calling a function of it meets quotes a line that shows the place of the error, as far as
the place is legible. The functions that are called have to stand in the text themselves, and the functions of the host
must not raise faults with places of their own; a call from the host may come from one of these in turn. -/
theorem errors_show_places (source : String) :
    (∀ file depths e, statementsOf source file depths = .error (.script e) → e.diagnostic.ShowsIn source) ∧
    (∀ (w : Workspace) path dynamic e, (w.load path source dynamic).1 = .error (.script e) →
      ((w.opened path source dynamic).setting w.scripts.size).RaisesUnplaced →
      (∀ decl, w.LoadCalls path source dynamic decl → decl.StandsIn source.toList) → e.diagnostic.ShowsIn source) ∧
    (∀ setting depth name arguments s f t, setting.line? = Text.line? source → setting.RaisesUnplaced →
      (∀ decl, CallsByName setting depth name arguments { s with lastError := none } decl →
        decl.StandsIn source.toList) →
      calling setting depth name arguments { s with lastError := none } = (.error (.fault f), t) →
      ∃ d, callByName setting (depth + 1) name arguments s =
        (.ok (.error f.cause.message), { t with lastError := some d }) ∧ d.ShowsIn source) ∧
    ∀ (w : Workspace) number env name arguments f t, (w.script number).source = source →
      (w.script number).loaded = true → (w.script number).env = some env → (w.setting number).RaisesUnplaced →
      let start := { w.callState number env with lastError := none }
      (∀ decl, CallsByName (w.setting number) (w.platform.evaluation - 1) name arguments start decl →
        decl.StandsIn source.toList) →
      calling (w.setting number) (w.platform.evaluation - 1) name arguments start = (.error (.fault f), t) →
      (w.call number name arguments).1 = .ok (.error f.cause.message) ∧
        ∃ d, ((w.call number name arguments).2.script number).lastError = some d ∧ d.ShowsIn source := by
  refine ⟨?_, ?_, ?_, ?_⟩
  · intro file depths e h
    obtain ⟨fault, hplaced, hfailure⟩ := statementsOf_placed h
    exact hplaced.shows hfailure.symm
  · intro w path dynamic e h hs hcalls
    rw [Workspace.load_eq] at h
    rcases hfault : (w.loading path source dynamic).2.fault with _ | fault
    · rw [hfault] at h
      cases h
    · rw [hfault] at h
      exact (Workspace.loading_placed hs hcalls hfault).shows (Except.error.inj h)
  · intro setting depth name arguments s f t hline hs hcalls h
    exact callByName_shows hline hs hcalls h
  · intro w number env name arguments f t hsource hloaded henv hs start hcalls h
    have hline : (w.setting number).line? = Text.line? source := congrArg Text.line? hsource
    obtain ⟨d, hcall, hshows⟩ := callByName_shows hline hs hcalls h
    have hcalled : w.called number name arguments env =
        (.ok (.error f.cause.message), { t with lastError := some d }) := by
      rw [← hcall, Nat.sub_add_cancel w.platform.evaluation_pos]
      rfl
    refine ⟨?_, d, ?_, hshows⟩
    · rw [Workspace.call_result hloaded henv, hcalled]
    · rw [Workspace.script_call_loaded hloaded henv, if_pos rfl, hcalled]
      rfl

/-- whether the tokens are the statement that is a name on its own, with nothing behind it -/
def readsName (depths : Depths) (tokens : List Token) : Bool :=
  match parseStatement depths tokens with
  | .ok (.expr _ (.symbol _ _), rest) => Parser.ended rest
  | _ => false

/-- a name on its own, with nothing behind it, calls nothing -/
theorem not_statementsCall_of_name {setting : Setting} {decl : Function} {bound : Nat} {tokens : List Token} {s : State}
    (hname : readsName setting.depths tokens = true) : ¬ StatementsCall setting decl bound tokens s := by
  unfold readsName at hname
  split at hname
  case h_2 => cases hname
  rename_i rest hparse
  intro h
  cases h with
  | here _ hread hcalls =>
    rw [hparse] at hread
    cases hread
    obtain ⟨depth, arguments, dynamic, t, hpath⟩ := hcalls
    generalize setting.evaluation = full at hpath
    obtain ⟨mid, hfirst, hmore⟩ := Relation.TransGen.head'_iff.1 hpath
    cases hfirst with
    | operand he =>
      obtain rfl := List.mem_singleton.1 he
      obtain hnext | ⟨_, hnext, -⟩ := hmore.cases_head <;> cases hnext
  | later _ hread _ hrest =>
    rw [hparse] at hread
    cases hread
    cases hrest with
    | here hgoes | later hgoes =>
      rw [hname] at hgoes
      cases hgoes

/-- a text whose name was never declared is loaded, and the quoted line shows the name, two columns wide; a function is
called from the host without any depth to spend, and the quoted line shows where the function starts -/
theorem errors_show_places_sample :
    (let source := "\n  ab;"
      ∃ e span line, (({} : Workspace).load "level" source).1 = .error (.script e) ∧ e.diagnostic.span = some span ∧
        e.diagnostic.sourceLine = some line ∧ span.Legible source.toList ∧
        span.shown source.toList <+: line.toList.drop (span.start.column - 1) ∧ underline span line = "  ^^") ∧
    (let source := "void f() { }"
      let token (kind : TokenKind) (lexeme : String) (column : Nat) : Token :=
        ⟨kind, lexeme, ⟨⟨1, column + 1, column⟩, ⟨1, column + lexeme.length + 1, column + lexeme.length⟩, none⟩⟩
      let brace := token (.char '{') "\x7b" 9
      let decl := Function.mk (token (.symbol "void") "void" 0) .void (token (.symbol "f") "f" 5) [] brace []
      let s : State := { env := { globals := .ofBindings "global" [("f", .fn 0 decl)] } }
      decl.StandsIn source.toList ∧ ∃ d, d.ShowsIn source ∧ callByName { line? := Text.line? source } 1 "f" [] s =
        (.ok (.error "Maximum nesting depth exceeded"), { s with lastError := some d })) := by
  refine ⟨?_, ?_⟩
  · intro source
    have hload : (({} : Workspace).load "level" source).1 = .error (.script ⟨.running, {
        code := "E201", message := "Could not find symbol ab", span := some ⟨⟨2, 3, 3⟩, ⟨2, 5, 5⟩, some "level"⟩,
        sourceLine := some "  ab;" }⟩) := by decide +kernel
    have hfeeds : (source.toList.all fun c => !Text.isLineBreak c || c == '\n') = true := by decide
    have hlegible : (⟨⟨2, 3, 3⟩, ⟨2, 5, 5⟩, some "level"⟩ : Span).Legible source.toList := by
      apply Span.legible_of_feeds
      intro c hc hbreak
      simpa [hbreak] using List.all_eq_true.1 hfeeds c hc
    obtain ⟨-, hloading, -⟩ := errors_show_places source
    have hshows := hloading {} "level" false _ hload ?_ ?_
    · exact ⟨_, _, _, hload, rfl, rfl, hlegible, (hshows _ _ rfl rfl hlegible).1, by decide⟩
    · intro number depth arguments s
      exact unplaced_ok _
    · -- the text is read as the name alone
      have hread : (tokenize source (some "level")).toOption.map (readsName {}) = some true := by decide +kernel
      rintro decl ⟨tokens, htokens, hcalls⟩
      rw [htokens] at hread
      exact absurd hcalls (not_statementsCall_of_name (Option.some.inj hread))
  · intro source token brace decl s
    have hstands : decl.StandsIn source.toList := by
      intro t ht
      simp only [decl, Function.anchors, Stmt.listAnchors, List.map_nil, List.append_nil, List.mem_cons,
        List.not_mem_nil, or_false] at ht
      rcases ht with rfl | rfl | rfl <;> exact ⟨by decide, by decide, by decide, by decide⟩
    have hcalls : ∀ other, CallsByName { line? := Text.line? source } 0 "f" [] s other → other.StandsIn source.toList := by
      rintro other ⟨owner, first, hname, hother⟩
      obtain rfl : decl = first := by
        cases hname
        rfl
      obtain rfl | ⟨depth, arguments, dynamic, t, hpath⟩ := hother
      · exact hstands
      · -- without depth the body is never entered
        obtain ⟨mid, hfirst, -⟩ := Relation.TransGen.head'_iff.1 hpath
        cases hfirst
    obtain ⟨-, -, hcalling, -⟩ := errors_show_places source
    obtain ⟨d, hcall, hshows⟩ := hcalling { line? := Text.line? source } 0 "f" [] s ⟨.nestingTooDeep, some decl.span⟩ s rfl
      (fun _ _ _ _ => unplaced_ok _) hcalls rfl
    exact ⟨hstands, d, hshows, hcall⟩

/-- a line separator in a comment starts a line of its own for quoting but not for counting: the line that is quoted for
the character on the second line is the rest of the comment -/
theorem quoted_line_drifts :
    let source := "// a\u2028b\n$"
    ∃ e span line, statementsOf source none = .error (.script e) ∧ e.diagnostic.span = some span ∧
      e.diagnostic.sourceLine = some line ∧
      ¬ span.shown source.toList <+: line.toList.drop (span.start.column - 1) := by
  intro source
  have hscan : (scan source none).fault = some (.unknownCharacter '$' ⟨⟨2, 1, 7⟩, ⟨2, 2, 8⟩, none⟩) := by decide +kernel
  have htokenize : tokenize source none = .error (.unknownCharacter '$' ⟨⟨2, 1, 7⟩, ⟨2, 2, 8⟩, none⟩) := by
    rw [tokenize, hscan]
  have hline : Text.line? source 2 = some "b" := by decide +kernel
  have hread : statementsOf source none =
      .error ((LoadFault.scan (.unknownCharacter '$' ⟨⟨2, 1, 7⟩, ⟨2, 2, 8⟩, none⟩)).failure source) := by
    rw [statementsOf, htokenize]
    rfl
  exact ⟨_, _, _, hread, rfl, hline, by decide⟩

end LevelScript
