/-
What a parser owes to the tokens that it has read.

`Parser.Contract`: a parser that accepts looks at the next token at most, so it accepts the same tokens before any list
that starts with that token or with one that closes what came before; and a parser that refuses a token has looked no
further, so it refuses it before any tokens, and what it has read before the refused token is the start of something
that it accepts. A parser that gives up for lack of depth owes nothing. Contracts are put together like parsers: there
is a rule for sequences, for a token that has to come, and for a token that may come. A contract also says what the
accepted tokens are to the result, so one pass over the grammar gives all that is known of its parsers.
-/
import Mathlib.Tactic
import LevelScript.Syntax.Grammar

namespace LevelScript.Syntax

/-! ## Lists of tokens -/

/-- the list ends: it holds a token that marks the end of the script -/
def Ends (tokens : List Token) : Prop := ∃ t ∈ tokens, t.kind = .eof

/-- no token marks the end of the script -/
def Inner (tokens : List Token) : Prop := ∀ t ∈ tokens, t.kind ≠ .eof

/-- the characters that continue an expression or a list of names -/
def continuingMarks : List Char :=
  ['(', '.', '[', '*', '/', '+', '-', '<', '>', '=', ',']

/-- a token that continues neither an expression, nor a list of names, nor an if statement -/
def Token.closes (t : Token) : Bool :=
  match t.kind with
  | .char c => !continuingMarks.contains c
  | .symbol name => name ≠ "else"
  | _ => true

/-- a token of the given kind, as the canonical form of a tree has it -/
def Token.ofKind (kind : TokenKind) : Token := ⟨kind, "", default⟩

def Token.named (t : Token) : Bool :=
  match t.kind with
  | .symbol _ => true
  | _ => false

/-- the list ends, and its first token closes what came before it -/
def Closing (tokens : List Token) : Prop := Ends tokens ∧ ∀ t ∈ tokens.head?, t.closes = true

/-- the second list ends and starts with the same token -/
def SameHead (rest other : List Token) : Prop := Ends other ∧ other.head? = rest.head?

/-- what may follow in place of the rest: a list that starts with the same token but not with a run to avoid, or one
that closes -/
def Follows (avoid : List Token → Prop) (rest other : List Token) : Prop :=
  SameHead rest other ∧ ¬ avoid other ∨ Closing other

/-- no run of tokens has to be avoided -/
def nothing : List Token → Prop := fun _ => False

theorem Ends.append {ts : List Token} (h : Ends ts) (us : List Token) : Ends (us ++ ts) := by
  obtain ⟨t, ht, hk⟩ := h
  exact ⟨t, List.mem_append_right us ht, hk⟩

theorem Ends.rest {us ts : List Token} (h : Ends (us ++ ts)) (hu : Inner us) : Ends ts := by
  obtain ⟨t, ht, hk⟩ := h
  rcases List.mem_append.1 ht with ht | ht
  · exact absurd hk (hu t ht)
  · exact ⟨t, ht, hk⟩

theorem Ends.tail {t : Token} {ts : List Token} (h : Ends (t :: ts)) (ht : t.kind ≠ .eof) : Ends ts := by
  obtain ⟨u, hu, hk⟩ := h
  rcases List.mem_cons.1 hu with rfl | hu
  · exact absurd hk ht
  · exact ⟨u, hu, hk⟩

theorem not_ends_nil : ¬ Ends [] := by simp [Ends]

theorem Ends.exists_cons {ts : List Token} (h : Ends ts) : ∃ t rest, ts = t :: rest := by
  cases ts with
  | nil => exact absurd h not_ends_nil
  | cons t rest => exact ⟨t, rest, rfl⟩

theorem Inner.nil : Inner [] := by simp [Inner]

theorem Inner.cons {t : Token} {ts : List Token} (ht : t.kind ≠ .eof) (h : Inner ts) : Inner (t :: ts) := by
  simpa [Inner] using ⟨ht, h⟩

theorem Inner.append {ts us : List Token} (ht : Inner ts) (hu : Inner us) : Inner (ts ++ us) := fun t h =>
  (List.mem_append.1 h).elim (ht t) (hu t)

theorem Follows.ends {avoid : List Token → Prop} {rest other : List Token} (h : Follows avoid rest other) :
    Ends other :=
  h.elim (·.1.1) (·.1)

theorem SameHead.follows {rest other : List Token} (h : SameHead rest other) : Follows nothing rest other :=
  .inl ⟨h, id⟩

/-- what comes first decides what may follow -/
theorem Follows.append {avoid : List Token → Prop} {rest other : List Token} (h : Follows avoid rest other)
    (us : List Token) : Follows nothing (us ++ rest) (us ++ other) := by
  cases us with
  | nil => exact h.imp (fun h => ⟨h.1, id⟩) id
  | cons u us => exact .inl ⟨⟨h.ends.append _, rfl⟩, id⟩

theorem SameHead.append {rest other : List Token} (h : SameHead rest other) (us : List Token) :
    Follows nothing (us ++ rest) (us ++ other) := h.follows.append us

theorem Closing.append {tail : List Token} (h : Closing tail) {fill : List Token}
    (hfill : ∀ t ∈ fill.head?, t.closes = true) : Closing (fill ++ tail) := by
  refine ⟨h.1.append fill, ?_⟩
  cases fill with
  | nil => exact h.2
  | cons t fill => exact hfill

/-- behind tokens that were read, another rest starts as the one did that it takes the place of; it has to be looked at
only if nothing was read -/
theorem head_append {P : Token → Prop} {used rest other : List Token} (h : ∀ t ∈ (used ++ rest).head?, P t)
    (hnil : used = [] → ∀ t ∈ other.head?, P t) : ∀ t ∈ (used ++ other).head?, P t := by
  cases used with
  | nil => exact hnil rfl
  | cons u used => exact h

theorem head_append_same {P : Token → Prop} {used rest other : List Token} (h : ∀ t ∈ (used ++ rest).head?, P t)
    (hsame : other.head? = rest.head?) : ∀ t ∈ (used ++ other).head?, P t :=
  head_append h fun hnil => by
    subst hnil
    rwa [hsame]

namespace Parser

variable {α β : Type}

/-! ## Tokens that pass a test -/

theorem kind_of_isChar {t : Token} {c : Char} (h : t.isChar c = true) : t.kind = .char c := by
  unfold Token.isChar at h
  split at h
  · simp_all
  · cases h

theorem kind_of_isSymbol {t : Token} {name : String} (h : t.isSymbol name = true) : t.kind = .symbol name := by
  unfold Token.isSymbol at h
  split at h
  · simp_all
  · cases h

theorem isChar_of_kind {t : Token} {c : Char} (h : t.kind = .char c) : t.isChar c = true := by
  simp [Token.isChar, h]

theorem isSymbol_of_kind {t : Token} {name : String} (h : t.kind = .symbol name) : t.isSymbol name = true := by
  simp [Token.isSymbol, h]

theorem kind_of_named {t : Token} (h : t.named = true) : ∃ name, t.kind = .symbol name := by
  unfold Token.named at h
  split at h
  · exact ⟨_, ‹_›⟩
  · cases h

theorem inner_char {c : Char} (t : Token) (h : t.isChar c = true) : t.kind ≠ .eof := by
  rw [kind_of_isChar h]
  simp

theorem inner_word {name : String} (t : Token) (h : t.isSymbol name = true) : t.kind ≠ .eof := by
  rw [kind_of_isSymbol h]
  simp

theorem inner_symbol (t : Token) (h : t.named = true) : t.kind ≠ .eof := by
  obtain ⟨name, hname⟩ := kind_of_named h
  rw [hname]
  simp

theorem inner_type (t : Token) (h : t.type?.isSome = true) : t.kind ≠ .eof := by
  intro heof
  simp [Token.type?, heof] at h

/-! ## Running parsers -/

theorem run_bind_ok {p : Parser α} {ts rest : List Token} {a : α} (h : p ts = .ok (a, rest)) (f : α → Parser β) :
    (p >>= f) ts = f a rest := by
  simp only [bind, StateT.bind, h, Except.bind]

theorem run_bind_error {p : Parser α} {ts : List Token} {r : Refusal} (h : p ts = .error r) (f : α → Parser β) :
    (p >>= f) ts = .error r := by
  simp only [bind, StateT.bind, h, Except.bind]

theorem run_map (g : α → β) (p : Parser α) : g <$> p = p >>= fun a => pure (g a) := map_eq_pure_bind g p

/-- a sequence accepts only if both its parts do -/
theorem bind_eq_ok {p : Parser α} {f : α → Parser β} {ts rest : List Token} {b : β}
    (h : (p >>= f) ts = .ok (b, rest)) : ∃ a mid, p ts = .ok (a, mid) ∧ f a mid = .ok (b, rest) := by
  rcases hp : p ts with r | ⟨a, mid⟩
  · rw [run_bind_error hp] at h
    cases h
  · exact ⟨a, mid, rfl, (run_bind_ok hp f).symm.trans h⟩

/-- a sequence refuses what its first part refuses, or what its second part does -/
theorem bind_eq_error {p : Parser α} {f : α → Parser β} {ts : List Token} {r : Refusal}
    (h : (p >>= f) ts = .error r) : p ts = .error r ∨ ∃ a mid, p ts = .ok (a, mid) ∧ f a mid = .error r := by
  rcases hp : p ts with r' | ⟨a, mid⟩
  · rw [run_bind_error hp] at h
    cases h
    exact .inl rfl
  · exact .inr ⟨a, mid, rfl, (run_bind_ok hp f).symm.trans h⟩

theorem run_current (f : Token → Parser α) (ts : List Token) : (current >>= f) ts = f (ts.headD default) ts := rfl

/-- a token that may come decides how to go on -/
theorem run_choice (test : Token → Bool) (f : Bool → Parser α) (t : Token) (rest : List Token) :
    (takeRun [test] >>= f) (t :: rest) = if test t then f true rest else f false (t :: rest) := by
  by_cases h : test t = true <;> simp [bind, StateT.bind, takeRun, dropRun?, h, Except.bind]

theorem run_taken {test : Token → Bool} {t : Token} (ht : test t = true) (f : Bool → Parser α) (rest : List Token) :
    (takeRun [test] >>= f) (t :: rest) = f true rest :=
  (run_choice test f t rest).trans (if_pos ht)

theorem run_skipped {test : Token → Bool} {t : Token} (ht : ¬ test t = true) (f : Bool → Parser α)
    (rest : List Token) : (takeRun [test] >>= f) (t :: rest) = f false (t :: rest) :=
  (run_choice test f t rest).trans (if_neg ht)

/-! ## Contracts -/

/-- before any closing list the parser accepts the given tokens -/
def Completes (tokens : List Token) (p : Parser α) : Prop :=
  ∀ tail, Closing tail → ∃ a, p (tokens ++ tail) = .ok (a, tail)

/-- on lists of at most `size` tokens the parser looks no further than it has to: what it accepts is in the relation
`reads` to its result and the rest, and is accepted again before all that may follow; what it refuses is refused again,
and has a completion, the first token of which is as `first` asks -/
structure Contract (size : Nat) (first : List Token → Token → Prop) (avoid : List Token → Prop)
    (reads : α → List Token → List Token → Prop) (p : Parser α) : Prop where
  accepts : ∀ {ts a rest}, ts.length ≤ size → Ends ts → p ts = .ok (a, rest) →
    ∃ used, ts = used ++ rest ∧ Inner used ∧ reads a used rest ∧
      ∀ other, Follows avoid rest other → p (used ++ other) = .ok (a, other)
  refuses : ∀ {ts cause rest}, ts.length ≤ size → Ends ts → p ts = .error ⟨cause, rest⟩ → cause ≠ .tooDeep →
    ∃ used, ts = used ++ rest ∧ Inner used ∧
      (∀ other, SameHead rest other → p (used ++ other) = .error ⟨cause, other⟩) ∧
      ∃ t fill, first used t ∧ Completes (used ++ t :: fill) p

variable {size : Nat} {first : List Token → Token → Prop} {avoid : List Token → Prop}
  {reads : α → List Token → List Token → Prop} {p : Parser α}

/-- a contract may promise less -/
theorem Contract.mono {first' : List Token → Token → Prop} {reads' : α → List Token → List Token → Prop}
    (h : Contract size first avoid reads p) (hfirst : ∀ used t, first used t → first' used t)
    (hreads : ∀ a used rest, Inner used → Ends rest → reads a used rest → reads' a used rest) :
    Contract size first' avoid reads' p where
  accepts hsize hends hp := by
    obtain ⟨used, hts, hinner, hread, hagain⟩ := h.accepts hsize hends hp
    exact ⟨used, hts, hinner, hreads _ _ _ hinner ((hts ▸ hends).rest hinner) hread, hagain⟩
  refuses hsize hends hp hcause := by
    obtain ⟨used, hts, hinner, hagain, t, fill, ht, hfill⟩ := h.refuses hsize hends hp hcause
    exact ⟨used, hts, hinner, hagain, t, fill, hfirst _ _ ht, hfill⟩

/-- a contract is about what the parser does with lists that end -/
theorem Contract.congr {q : Parser α} (h : Contract size first avoid reads p) (heq : ∀ ts, Ends ts → q ts = p ts) :
    Contract size first avoid reads q where
  accepts {ts a rest} hsize hends hq := by
    obtain ⟨used, hts, hinner, hread, hagain⟩ := h.accepts hsize hends ((heq ts hends).symm.trans hq)
    exact ⟨used, hts, hinner, hread, fun other ho => (heq _ (ho.ends.append used)).trans (hagain other ho)⟩
  refuses {ts cause rest} hsize hends hq hcause := by
    obtain ⟨used, hts, hinner, hagain, t, fill, ht, hfill⟩ :=
      h.refuses hsize hends ((heq ts hends).symm.trans hq) hcause
    refine ⟨used, hts, hinner, fun other ho => (heq _ (ho.1.append used)).trans (hagain other ho), t, fill, ht,
      fun tail htail => ?_⟩
    rw [heq _ (htail.1.append _)]
    exact hfill tail htail

/-- a lack of depth obliges to nothing -/
theorem Contract.tooDeep : Contract size first avoid reads (refuse .tooDeep : Parser α) where
  accepts _ _ hp := by cases hp
  refuses _ _ hp hcause := by
    cases hp
    exact absurd rfl hcause

theorem Contract.pure (a : α) (hreads : ∀ rest, Ends rest → reads a [] rest) :
    Contract size first avoid reads (pure a : Parser α) where
  accepts _ hends hp := by
    cases hp
    exact ⟨[], rfl, .nil, hreads _ hends, fun _ _ => rfl⟩
  refuses _ _ hp _ := by cases hp

/-! ## Completions -/

theorem completes_pure (a : α) : Completes [] (pure a : Parser α) := fun _ _ => ⟨a, rfl⟩

theorem Completes.bind {tokens fill : List Token} {f : α → Parser β} (hp : Completes tokens p)
    (hclose : ∀ t ∈ fill.head?, t.closes = true) (hf : ∀ a, Completes fill (f a)) :
    Completes (tokens ++ fill) (p >>= f) := by
  intro tail htail
  obtain ⟨a, ha⟩ := hp (fill ++ tail) (htail.append hclose)
  obtain ⟨b, hb⟩ := hf a tail htail
  exact ⟨b, by rw [List.append_assoc, run_bind_ok ha, hb]⟩

theorem Completes.seq {tokens : List Token} {f : α → Parser β} (hp : Completes tokens p)
    (hf : ∀ a, Completes [] (f a)) : Completes tokens (p >>= f) := by
  have := hp.bind (by simp) hf
  rwa [List.append_nil] at this

theorem Completes.current {tokens : List Token} {f : Token → Parser α} (hf : ∀ t, Completes tokens (f t)) :
    Completes tokens (current >>= f) := fun tail htail => hf _ tail htail

/-! ## Sequences -/

/-- a parser and then another one; what completes the second one has to close the first one -/
theorem Contract.bind {first₁ : List Token → Token → Prop} {reads₁ : α → List Token → List Token → Prop}
    {reads : β → List Token → List Token → Prop} {f : α → Parser β} (fill : List Token)
    (hp : Contract size first₁ nothing reads₁ p) (hfirst : ∀ used t, first₁ used t → first used t)
    (hclose : ∀ t ∈ fill.head?, t.closes = true) (hfill : ∀ a, Completes fill (f a))
    (hf : ∀ a used mid, reads₁ a used mid → ∀ n, used.length + n ≤ size →
      Contract n (fun used' t => first (used ++ used') t ∧ (used' = [] → t.closes = true)) avoid
        (fun b used' rest => mid = used' ++ rest → reads b (used ++ used') rest) (f a)) :
    Contract size first avoid reads (p >>= f) where
  accepts {ts b rest} hsize hends hok := by
    obtain ⟨a, mid, hpa, hfa⟩ := bind_eq_ok hok
    obtain ⟨used, rfl, hinner, hread, hagain⟩ := hp.accepts hsize hends hpa
    rw [List.length_append] at hsize
    obtain ⟨used', hmid, hinner', hread', hagain'⟩ :=
      (hf a used mid hread mid.length hsize).accepts le_rfl (hends.rest hinner) hfa
    refine ⟨used ++ used', by rw [hmid, List.append_assoc], hinner.append hinner', hread' hmid, fun other ho => ?_⟩
    rw [List.append_assoc, run_bind_ok (hagain _ (hmid ▸ ho.append used')), hagain' other ho]
  refuses {ts cause rest} hsize hends herror hcause := by
    rcases bind_eq_error herror with hpe | ⟨a, mid, hpa, hfe⟩
    · obtain ⟨used, hts, hinner, hagain, t, more, ht, hmore⟩ := hp.refuses hsize hends hpe hcause
      refine ⟨used, hts, hinner, fun other ho => run_bind_error (hagain other ho) f, t, more ++ fill, hfirst _ _ ht, ?_⟩
      have := hmore.bind hclose hfill
      rwa [List.append_assoc, List.cons_append] at this
    · obtain ⟨used, rfl, hinner, hread, hagain⟩ := hp.accepts hsize hends hpa
      rw [List.length_append] at hsize
      obtain ⟨used', hmid, hinner', hagain', t, more, ⟨ht, hcloses⟩, hmore⟩ :=
        (hf a used mid hread mid.length hsize).refuses le_rfl (hends.rest hinner) hfe hcause
      have hcont (other : List Token) (ho : Follows nothing rest other) :
          (p >>= f) (used ++ used' ++ other) = f a (used' ++ other) := by
        rw [List.append_assoc, run_bind_ok (hagain _ (hmid ▸ ho.append used'))]
      refine ⟨used ++ used', by rw [hmid, List.append_assoc], hinner.append hinner', fun other ho => ?_, t, more, ht,
        fun tail htail => ?_⟩
      · rw [hcont other ho.follows, hagain' other ho]
      · obtain ⟨b, hb⟩ := hmore tail htail
        refine ⟨b, ?_⟩
        rw [List.append_assoc] at hb ⊢
        cases used' with
        | nil =>
          have hclosing : Closing (t :: more ++ tail) := htail.append fun t' ht' => by
            rw [List.head?_cons, Option.mem_some_iff] at ht'
            exact ht' ▸ hcloses rfl
          rw [hcont _ (.inr hclosing)]
          exact hb
        | cons u used' =>
          rw [List.append_assoc, run_bind_ok (hagain _ ?_)]
          · exact hb
          · exact hmid ▸ .inl ⟨⟨(htail.1.append _).append _, rfl⟩, id⟩

/-- the result may be changed on the way -/
theorem Contract.map {reads : β → List Token → List Token → Prop} (g : α → β)
    (hp : Contract size first avoid (fun a used rest => reads (g a) used rest) p) :
    Contract size first avoid reads (g <$> p) where
  accepts hsize hends hok := by
    rw [run_map] at hok ⊢
    obtain ⟨a, mid, hpa, hga⟩ := bind_eq_ok hok
    cases hga
    obtain ⟨used, hts, hinner, hread, hagain⟩ := hp.accepts hsize hends hpa
    exact ⟨used, hts, hinner, hread, fun other ho => by rw [run_bind_ok (hagain other ho)]; rfl⟩
  refuses hsize hends herror hcause := by
    rw [run_map] at herror ⊢
    rcases bind_eq_error herror with hpe | ⟨a, mid, -, hga⟩
    · obtain ⟨used, hts, hinner, hagain, t, fill, ht, hfill⟩ := hp.refuses hsize hends hpe hcause
      refine ⟨used, hts, hinner, fun other ho => run_bind_error (hagain other ho) _, t, fill, ht, fun tail htail => ?_⟩
      obtain ⟨a, ha⟩ := hfill tail htail
      exact ⟨g a, by rw [run_bind_ok ha]; rfl⟩
    · cases hga

theorem Contract.bindPure {reads : β → List Token → List Token → Prop} (g : α → β)
    (hp : Contract size first avoid (fun a used rest => reads (g a) used rest) p) :
    Contract size first avoid reads (p >>= fun a => Pure.pure (g a)) :=
  run_map g p ▸ hp.map g

/-! ## The next token decides -/

/-- what a parser does at a token: go on behind it, go on before it, or refuse it -/
inductive Next (α : Type) where
  | take (p : Parser α)
  | stay (p : Parser α)
  | stop (cause : RefusalCause)

/-- what a parser does at a list that starts with a token -/
def Next.run (t : Token) (rest : List Token) : Next α → Except Refusal (α × List Token)
  | .take p => p rest
  | .stay p => p (t :: rest)
  | .stop cause => .error ⟨cause, t :: rest⟩

section Next

variable {step : Token → Next α} {q : Parser α}

theorem run_next (hp : ∀ t rest, p (t :: rest) = (step t).run t rest) {t : Token} {next : Next α} (ht : step t = next)
    (rest : List Token) : p (t :: rest) = next.run t rest := by
  rw [hp, ht]

/-- a parser that goes on before the next token does what the parser does that it goes on with -/
theorem run_stay (hp : ∀ t rest, p (t :: rest) = (step t).run t rest) {ts : List Token} (hends : Ends ts)
    (hts : ∀ t ∈ ts.head?, step t = .stay q) : p ts = q ts := by
  obtain ⟨t, ts, rfl⟩ := hends.exists_cons
  exact run_next hp (hts t rfl) ts

/-- a parser that is decided by the next token. Going on before the token, it must not be completed by a token that
decides otherwise; if it accepts nothing at all, no such token may close what came before. -/
theorem Contract.next (step : Token → Next α) (hp : ∀ t rest, p (t :: rest) = (step t).run t rest)
    (hinner : ∀ t q, step t = .take q → t.kind ≠ .eof)
    (htake : ∀ t q, step t = .take q → ∀ n < size, Contract n (fun used t' => first (t :: used) t') avoid
      (fun a used rest => reads a (t :: used) rest) q)
    (hstay : ∀ t q, step t = .stay q → Contract size (fun used t' => first used t' ∧ (used = [] → step t' = .stay q))
      avoid (fun a used rest => ((used ++ rest).head? = some t → reads a used rest) ∧
        (used = [] → ∀ t', t'.closes = true → step t' = .stay q)) q)
    (hstop : ∀ t cause, step t = .stop cause → ∃ sample fill, first [] sample ∧ Completes (sample :: fill) p) :
    Contract size first avoid reads p := by
  constructor
  · intro ts a rest hsize hends hok
    obtain ⟨t, ts, rfl⟩ := hends.exists_cons
    rcases ht : step t with q | q | cause
    · have hends' : Ends ts := hends.tail (hinner t q ht)
      obtain ⟨used, hts, hused, hread, hagain⟩ :=
        (htake t q ht ts.length hsize).accepts le_rfl hends' ((run_next hp ht ts).symm.trans hok)
      exact ⟨t :: used, by rw [hts, List.cons_append], .cons (hinner t q ht) hused, hread,
        fun other ho => (run_next hp ht _).trans (hagain other ho)⟩
    · obtain ⟨used, hts, hused, ⟨hread, hopen⟩, hagain⟩ :=
        (hstay t q ht).accepts hsize hends ((run_next hp ht ts).symm.trans hok)
      have hhead : ∀ t' ∈ (used ++ rest).head?, step t' = .stay q := by
        rw [← hts]
        simpa using ht
      refine ⟨used, hts, hused, hread (by rw [← hts, List.head?_cons]), fun other ho => ?_⟩
      refine (run_stay hp (ho.ends.append used) ?_).trans (hagain other ho)
      rcases ho with ⟨⟨-, hsame⟩, -⟩ | ⟨-, hcloses⟩
      · exact head_append_same hhead hsame
      · exact head_append hhead fun hnil t' ht' => hopen hnil t' (hcloses t' ht')
    · rw [run_next hp ht] at hok
      cases hok
  · intro ts cause rest hsize hends herror hcause
    obtain ⟨t, ts, rfl⟩ := hends.exists_cons
    rcases ht : step t with q | q | cause'
    · have hends' : Ends ts := hends.tail (hinner t q ht)
      obtain ⟨used, hts, hused, hagain, t', more, ht', hmore⟩ :=
        (htake t q ht ts.length hsize).refuses le_rfl hends' ((run_next hp ht ts).symm.trans herror) hcause
      refine ⟨t :: used, by rw [hts, List.cons_append], .cons (hinner t q ht) hused,
        fun other ho => (run_next hp ht _).trans (hagain other ho), t', more, ht', fun tail htail => ?_⟩
      obtain ⟨b, hb⟩ := hmore tail htail
      exact ⟨b, (run_next hp ht _).trans hb⟩
    · obtain ⟨used, hts, hused, hagain, t', more, ⟨ht', hkept⟩, hmore⟩ :=
        (hstay t q ht).refuses hsize hends ((run_next hp ht ts).symm.trans herror) hcause
      have hhead : ∀ t' ∈ (used ++ rest).head?, step t' = .stay q := by
        rw [← hts]
        simpa using ht
      refine ⟨used, hts, hused, fun other ho => ?_, t', more, ht', fun tail htail => ?_⟩
      · rw [run_stay hp (ho.1.append used) (head_append_same hhead ho.2), hagain other ho]
      · have hcompletes := hmore tail htail
        rw [List.append_assoc] at hcompletes ⊢
        rwa [run_stay hp ((htail.1.append _).append _) (head_append hhead fun hnil => by simpa using hkept hnil)]
    · rw [run_next hp ht] at herror
      cases herror
      obtain ⟨sample, fill, hfirst, hfill⟩ := hstop t cause ht
      refine ⟨[], rfl, .nil, fun other ⟨hother, hhead⟩ => ?_, sample, fill, hfirst, hfill⟩
      obtain ⟨t', other, rfl⟩ := hother.exists_cons
      cases Option.some.inj hhead
      exact run_next hp ht other

end Next

/-! ## A token that has to come -/

/-- the parser takes a token that passes the test, and refuses any other one -/
def Takes (test : Token → Bool) (value : Token → α) (cause : RefusalCause) (p : Parser α) : Prop :=
  ∀ t rest, p (t :: rest) = if test t then .ok (value t, rest) else .error ⟨cause, t :: rest⟩

theorem Takes.run {test : Token → Bool} {value : Token → α} {cause : RefusalCause} (h : Takes test value cause p)
    {t : Token} (ht : test t = true) (rest : List Token) : p (t :: rest) = .ok (value t, rest) := by
  rw [h, if_pos ht]

@[simp] theorem isChar_ofKind (c d : Char) : (Token.ofKind (.char c)).isChar d = decide (c = d) := rfl

@[simp] theorem closes_ofKind (c : Char) : (Token.ofKind (.char c)).closes = !continuingMarks.contains c := rfl

theorem takes_char (c : Char) (place : Construct) :
    Takes (·.isChar c) (fun _ => ()) (.expectedChar c place) (char c place) := by
  intro t rest
  refine (run_choice _ _ t rest).trans ?_
  by_cases h : t.isChar c = true <;> simp [h] <;> rfl

theorem takes_symbol (place : Construct) : Takes Token.named id (.expectedSymbol place) (symbol place) := by
  intro t rest
  rcases hk : t.kind with _ | _ | _ | _ | _ | _ <;> simp [symbol, Token.named, hk]

theorem takes_type : Takes (·.type?.isSome) (fun t => t.type?.getD .void) .expectedType type := by
  intro t rest
  rcases hk : t.type? with _ | ty <;> simp [type, hk]

theorem Completes.read {test : Token → Bool} {value : Token → α} {cause : RefusalCause} {t : Token} {fill : List Token}
    {f : α → Parser β} (hp : Takes test value cause p) (ht : test t = true) (hf : Completes fill (f (value t))) :
    Completes (t :: fill) (p >>= f) := by
  intro tail htail
  obtain ⟨b, hb⟩ := hf tail htail
  exact ⟨b, (run_bind_ok (hp.run ht (fill ++ tail)) f).trans hb⟩

/-- a token that has to come, and then a parser; `sample` is a token that could have come -/
theorem Contract.read {reads : β → List Token → List Token → Prop} {test : Token → Bool} {value : Token → α}
    {cause : RefusalCause} {f : α → Parser β} (sample : Token) (fill : List Token) (hp : Takes test value cause p)
    (hsample : test sample = true) (hinner : ∀ t, test t = true → t.kind ≠ .eof) (hfirst : first [] sample)
    (hfill : ∀ a, Completes fill (f a))
    (hf : ∀ t, test t = true → ∀ n < size, Contract n (fun used t' => first (t :: used) t') avoid
      (fun b used rest => reads b (t :: used) rest) (f (value t))) :
    Contract size first avoid reads (p >>= f) := by
  have hsplit {t : Token} {q : Next β} (h : (if test t then .take (f (value t)) else .stop cause) = q) :
      test t = true ∧ q = .take (f (value t)) ∨ q = .stop cause := by
    by_cases ht : test t = true
    · rw [if_pos ht] at h
      exact .inl ⟨ht, h.symm⟩
    · rw [if_neg ht] at h
      exact .inr h.symm
  refine .next (fun t => if test t then .take (f (value t)) else .stop cause) (fun t rest => ?_)
    (fun t q h => ?_) (fun t q h => ?_) (fun t q h => ?_)
    fun _ _ _ => ⟨sample, fill, hfirst, .read hp hsample (hfill _)⟩
  · by_cases ht : test t = true
    · rw [if_pos ht]
      exact run_bind_ok (hp.run ht rest) f
    · rw [if_neg ht]
      exact run_bind_error (by rw [hp, if_neg ht]) f
  · rcases hsplit h with ⟨ht, -⟩ | hq
    · exact hinner t ht
    · cases hq
  · rcases hsplit h with ⟨ht, hq⟩ | hq
    · cases hq
      exact hf t ht
    · cases hq
  · rcases hsplit h with ⟨-, hq⟩ | hq <;> cases hq

/-! ## A token that may come -/

/-- a token that may come, and a parser for either case. The parser for the other case must not be completed by such a
token; if it accepts nothing at all, such a token must not close. -/
theorem Contract.choice {test : Token → Bool} {f : Bool → Parser α}
    (hinner : ∀ t, test t = true → t.kind ≠ .eof)
    (htrue : ∀ t, test t = true → ∀ n < size, Contract n (fun used t' => first (t :: used) t') avoid
      (fun a used rest => reads a (t :: used) rest) (f true))
    (hfalse : Contract size (fun used t => first used t ∧ (used = [] → test t = false)) avoid
      (fun a used rest => ((∀ t ∈ (used ++ rest).head?, test t = false) → reads a used rest) ∧
        (used = [] → ∀ t, test t = true → t.closes = false)) (f false)) :
    Contract size first avoid reads (takeRun [test] >>= f) := by
  have hstay {t : Token} : (if test t then Next.take (f true) else .stay (f false)) = .stay (f false) ↔
      test t = false := by
    by_cases ht : test t = true <;> simp [ht]
  refine .next (fun t => if test t then .take (f true) else .stay (f false)) (fun t rest => ?_)
    (fun t q h => ?_) (fun t q h => ?_) (fun t q h => ?_) (fun t cause h => ?_)
  · rw [run_choice]
    split_ifs <;> rfl
  · by_cases ht : test t = true
    · exact hinner t ht
    · simp [ht] at h
  · by_cases ht : test t = true
    · simp only [ht, if_true, Next.take.injEq] at h
      exact h ▸ htrue t ht
    · simp [ht] at h
  · by_cases ht : test t = true
    · simp [ht] at h
    · simp only [ht, Bool.false_eq_true, if_false, Next.stay.injEq] at h
      subst h
      refine hfalse.mono (fun used t' h => ⟨h.1, fun hused => hstay.2 (h.2 hused)⟩) fun a used rest _ _ h => ?_
      refine ⟨fun hhead => h.1 (by simpa [hhead] using ht), fun hused t' ht' => hstay.2 ?_⟩
      by_contra htest
      have := h.2 hused t' (by simpa using htest)
      rw [ht'] at this
      cases this
  · by_cases ht : test t = true <;> simp [ht] at h

/-- a type that may come, and a parser for either case; the parser for the other case has to read something -/
theorem Contract.choiceOfType {f : Ty → Parser α} {q : Parser α}
    (htype : ∀ t ty, t.type? = some ty → ∀ n < size, Contract n (fun used t' => first (t :: used) t') avoid
      (fun a used rest => reads a (t :: used) rest) (f ty))
    (hother : Contract size (fun used t => first used t ∧ (used = [] → t.type? = none)) avoid
      (fun a used rest => reads a used rest ∧ used ≠ []) q) :
    Contract size first avoid reads (do if ← seesType then let ty ← type; f ty else q) := by
  refine .next (fun t => t.type?.elim (.stay q) fun ty => .take (f ty)) (fun t rest => ?_)
    (fun t r h => ?_) (fun t r h => ?_) (fun t r h => ?_) (fun t cause h => ?_)
  · have hsees : seesType (t :: rest) = .ok (t.type?.isSome, t :: rest) := rfl
    rw [run_bind_ok hsees]
    rcases ht : t.type? with _ | ty
    · simp [Next.run]
    · exact run_bind_ok (by simp [type, ht]) f
  · rcases ht : t.type? with _ | ty
    · simp [ht] at h
    · exact inner_type t (by simp [ht])
  · rcases ht : t.type? with _ | ty
    · simp [ht] at h
    · simp only [ht, Option.elim_some, Next.take.injEq] at h
      exact h ▸ htype t ty ht
  · rcases ht : t.type? with _ | ty
    · simp only [ht, Option.elim_none, Next.stay.injEq] at h
      subst h
      exact hother.mono (fun used t' h => ⟨h.1, fun hused => by rw [h.2 hused, Option.elim_none]⟩)
        fun a used rest _ _ h => ⟨fun _ => h.1, fun hused => absurd hused h.2⟩
    · simp [ht] at h
  · rcases ht : t.type? with _ | ty <;> simp [ht] at h

/-! ## Parsers that know the first token -/

/-- the parsers accept and refuse the same lists, though their results may differ -/
def Alike (p q : Parser α) : Prop := ∀ ts, (p ts).map Prod.snd = (q ts).map Prod.snd

theorem Alike.refl (p : Parser α) : Alike p p := fun _ => rfl

theorem alike_pure (a b : α) : Alike (pure a : Parser α) (pure b) := fun _ => rfl

theorem Alike.bind {p : Parser α} {f g : α → Parser β} (h : ∀ a, Alike (f a) (g a)) : Alike (p >>= f) (p >>= g) := by
  intro ts
  rcases hp : p ts with r | ⟨a, mid⟩
  · rw [run_bind_error hp, run_bind_error hp]
  · rw [run_bind_ok hp, run_bind_ok hp, h a mid]

theorem Alike.bind_both {p q : Parser α} {f g : α → Parser β} (h : Alike p q) (hf : ∀ a b, Alike (f a) (g b)) :
    Alike (p >>= f) (q >>= g) := by
  intro ts
  have hts := h ts
  rcases hp : p ts with r | ⟨a, mid⟩ <;> rcases hq : q ts with r' | ⟨b, mid'⟩ <;> rw [hp, hq] at hts <;> cases hts
  · rw [run_bind_error hp, run_bind_error hq]
  · rw [run_bind_ok hp, run_bind_ok hq, hf a b mid]

theorem Alike.completes {p q : Parser α} (h : Alike p q) {tokens : List Token} (hp : Completes tokens p) :
    Completes tokens q := by
  intro tail htail
  obtain ⟨a, ha⟩ := hp tail htail
  have := h (tokens ++ tail)
  rw [ha] at this
  rcases hq : q (tokens ++ tail) with r | ⟨b, rest⟩ <;> rw [hq] at this <;> cases this
  exact ⟨b, rfl⟩

/-- a parser that is told the next token reads something, and does not depend on that token but for its result -/
theorem Contract.current {f : Token → Parser α} (halike : ∀ t t', Alike (f t) (f t'))
    (hf : ∀ t, Contract size first avoid (fun a used rest => reads a used rest ∧ used ≠ []) (f t)) :
    Contract size first avoid reads (current >>= f) := by
  constructor
  · intro ts a rest hsize hends hok
    obtain ⟨t, ts, rfl⟩ := hends.exists_cons
    obtain ⟨used, hts, hused, ⟨hread, hsome⟩, hagain⟩ := (hf t).accepts hsize hends hok
    obtain ⟨u, used, rfl⟩ := List.exists_cons_of_ne_nil hsome
    cases hts
    exact ⟨t :: used, rfl, hused, hread, hagain⟩
  · intro ts cause rest hsize hends herror hcause
    obtain ⟨t, ts, rfl⟩ := hends.exists_cons
    obtain ⟨used, hts, hused, hagain, t', more, ht', hmore⟩ := (hf t).refuses hsize hends herror hcause
    refine ⟨used, hts, hused, fun other ho => ?_, t', more, ht', fun tail htail => ?_⟩
    · cases used with
      | nil =>
        obtain ⟨s, other, rfl⟩ := ho.1.exists_cons
        have hs : some s = some t := ho.2.trans (congrArg List.head? hts).symm
        cases hs
        exact hagain _ ho
      | cons u used =>
        cases hts
        exact hagain other ho
    · cases used with
      | nil => exact (halike t t').completes hmore tail htail
      | cons u used =>
        cases hts
        exact hmore tail htail

/-! ## Two tokens that may come -/

/-- the list starts with a token that passes the first test and one that passes the second -/
def StartsWith (test₁ test₂ : Token → Bool) (ts : List Token) : Prop :=
  ∃ t u rest, ts = t :: u :: rest ∧ test₁ t = true ∧ test₂ u = true

/-- what closes does not start with a token that goes on -/
theorem head_of_closing {test : Token → Bool} (hopen : ∀ t, test t = true → t.closes = false) {ts : List Token}
    (h : Closing ts) : ∀ t ∈ ts.head?, test t = false := by
  intro t ht
  by_contra htest
  have := hopen t (by simpa using htest)
  rw [h.2 t ht] at this
  cases this

/-- a token of which the first test is true decides about the second token -/
theorem startsWith_cons_iff {test₁ test₂ : Token → Bool} {t : Token} (ht : test₁ t = true) {ts : List Token} :
    StartsWith test₁ test₂ (t :: ts) ↔ ∃ u ∈ ts.head?, test₂ u = true := by
  constructor
  · rintro ⟨t', u, rest, h, -, hu⟩
    cases h
    exact ⟨u, rfl, hu⟩
  · rintro ⟨u, hhead, hu⟩
    obtain ⟨rest, rfl⟩ := List.head?_eq_some_iff.1 hhead
    exact ⟨t, u, rest, rfl, ht, hu⟩

theorem not_startsWith_of_head {test₁ test₂ : Token → Bool} {ts : List Token} (h : ∀ t ∈ ts.head?, test₁ t = false) :
    ¬ StartsWith test₁ test₂ ts := by
  rintro ⟨t, u, rest, rfl, ht, -⟩
  rw [h t rfl] at ht
  cases ht

theorem not_startsWith_of_closing {test₁ test₂ : Token → Bool} (hopen : ∀ t, test₁ t = true → t.closes = false)
    {ts : List Token} (h : Closing ts) : ¬ StartsWith test₁ test₂ ts :=
  not_startsWith_of_head (head_of_closing hopen h)

theorem second_of_not_startsWith {test₁ test₂ : Token → Bool} {t : Token} {ts : List Token}
    (h : ¬ StartsWith test₁ test₂ (t :: ts)) (ht : test₁ t = true) : ∀ u ∈ ts.head?, test₂ u = false := by
  intro u hu
  by_contra htest
  exact h ((startsWith_cons_iff ht).2 ⟨u, hu, by simpa using htest⟩)

section BindChoice

variable {test₁ test₂ : Token → Bool} {f : α → Bool → Parser β} {b : α → β} {a : α} {used mid other : List Token}
  {t : Token}

/-- behind the parser the token does not come, and nothing more is read -/
theorem run_bind_skipped (hfalse : ∀ a, f a false = Pure.pure (b a)) (hpa : p (used ++ other) = .ok (a, other))
    (hends : Ends other) (hother : ∀ t ∈ other.head?, test₁ t = false) :
    (p >>= fun a => takeRun [test₁] >>= f a) (used ++ other) = .ok (b a, other) := by
  obtain ⟨t, other, rfl⟩ := hends.exists_cons
  rw [run_bind_ok hpa, run_skipped (by simp [hother t rfl]), hfalse]
  rfl

/-- behind the parser the token comes. The parser stops before it again, unless the token of the second test follows. -/
theorem run_bind_taken (ht : test₁ t = true)
    (hagain : ∀ other, Follows (StartsWith test₁ test₂) (t :: mid) other → p (used ++ other) = .ok (a, other))
    (hends : Ends other) (hother : ∀ u ∈ other.head?, test₂ u = false) :
    (p >>= fun a => takeRun [test₁] >>= f a) (used ++ t :: other) = f a true other := by
  have hstopped : p (used ++ t :: other) = .ok (a, t :: other) := by
    refine hagain _ (.inl ⟨⟨hends.append [t], rfl⟩, fun hstarts => ?_⟩)
    obtain ⟨u, hhead, hu⟩ := (startsWith_cons_iff ht).1 hstarts
    rw [hother u hhead] at hu
    cases hu
  rw [run_bind_ok hstopped, run_taken ht]

/-- a parser that stops before two certain tokens, and then the first of them, which may come. Another parser follows
it, which the second one cannot start. -/
theorem Contract.bindChoice {first₁ : List Token → Token → Prop} {reads₁ : α → List Token → List Token → Prop}
    {reads : β → List Token → List Token → Prop}
    (hp : Contract size first₁ (StartsWith test₁ test₂) reads₁ p) (hfirst : ∀ used t, first₁ used t → first used t)
    (hstops : ∀ a used rest, reads₁ a used rest → ¬ StartsWith test₁ test₂ rest)
    (hopen : ∀ t, test₁ t = true → t.closes = false ∧ t.kind ≠ .eof) (hfalse : ∀ a, f a false = Pure.pure (b a))
    (hreads : ∀ a used rest, reads₁ a used rest → (∀ t ∈ rest.head?, test₁ t = false) → reads (b a) used rest)
    (htrue : ∀ a used mid, reads₁ a used mid → ∀ t, test₁ t = true → ∀ n < size,
      Contract n (fun used' t' => first (used ++ t :: used') t' ∧ (used' = [] → test₂ t' = false)) nothing
        (fun b used' rest => (mid = t :: (used' ++ rest) → reads b (used ++ t :: used') rest) ∧ used' ≠ []) (f a true)) :
    Contract size first nothing reads (p >>= fun a => takeRun [test₁] >>= f a) := by
  have hcloses {ts : List Token} (h : Closing ts) : ∀ t ∈ ts.head?, test₁ t = false :=
    head_of_closing (fun t ht => (hopen t ht).1) h
  constructor
  · intro ts c rest hsize hends hok
    obtain ⟨a, mid, hpa, hfa⟩ := bind_eq_ok hok
    obtain ⟨used, rfl, hinner, hread, hagain⟩ := hp.accepts hsize hends hpa
    obtain ⟨t, mid, rfl⟩ := (hends.rest hinner).exists_cons
    rw [List.length_append, List.length_cons] at hsize
    by_cases ht : test₁ t = true
    · rw [run_taken ht] at hfa
      have hends' : Ends mid := (hends.rest hinner).tail (hopen t ht).2
      obtain ⟨used', hmid, hused', ⟨hread', hsome⟩, hagain'⟩ :=
        (htrue a used _ hread t ht mid.length (by omega)).accepts le_rfl hends' hfa
      have hmid' := second_of_not_startsWith (hstops _ _ _ hread) ht
      obtain ⟨u, used', rfl⟩ := List.exists_cons_of_ne_nil hsome
      refine ⟨used ++ t :: u :: used', by simp [hmid], hinner.append (.cons (hopen t ht).2 hused'),
        hread' (by rw [hmid]), fun other ho => ?_⟩
      rw [hmid] at hmid'
      rw [List.append_assoc, List.cons_append, run_bind_taken ht hagain (ho.ends.append _) hmid', hagain' other ho]
    · rw [run_skipped ht, hfalse] at hfa
      cases hfa
      have hhead : ∀ u ∈ (t :: mid).head?, test₁ u = false := by simpa using ht
      refine ⟨used, rfl, hinner, hreads a used _ hread hhead, fun other ho => ?_⟩
      have hother : ∀ u ∈ other.head?, test₁ u = false := by
        rcases ho with ⟨⟨-, hsame⟩, -⟩ | ho
        · rwa [hsame]
        · exact hcloses ho
      have hpa' := hagain other (ho.imp (fun h => ⟨h.1, not_startsWith_of_head hother⟩) id)
      exact run_bind_skipped hfalse hpa' ho.ends hother
  · intro ts cause rest hsize hends herror hcause
    rcases bind_eq_error herror with hpe | ⟨a, mid, hpa, hfe⟩
    · obtain ⟨used, hts, hinner, hagain, t, more, ht, hmore⟩ := hp.refuses hsize hends hpe hcause
      refine ⟨used, hts, hinner, fun other ho => run_bind_error (hagain other ho) _, t, more, hfirst _ _ ht,
        fun tail htail => ?_⟩
      obtain ⟨a, ha⟩ := hmore tail htail
      exact ⟨b a, run_bind_skipped hfalse ha htail.1 (hcloses htail)⟩
    · obtain ⟨used, rfl, hinner, hread, hagain⟩ := hp.accepts hsize hends hpa
      obtain ⟨t, mid, rfl⟩ := (hends.rest hinner).exists_cons
      rw [List.length_append, List.length_cons] at hsize
      by_cases ht : test₁ t = true
      · rw [run_taken ht] at hfe
        have hends' : Ends mid := (hends.rest hinner).tail (hopen t ht).2
        obtain ⟨used', hmid, hused', hagain', t', more, ⟨ht', htest'⟩, hmore⟩ :=
          (htrue a used _ hread t ht mid.length (by omega)).refuses le_rfl hends' hfe hcause
        have hmid' := second_of_not_startsWith (hstops _ _ _ hread) ht
        rw [hmid] at hmid'
        refine ⟨used ++ t :: used', by simp [hmid], hinner.append (.cons (hopen t ht).2 hused'),
          fun other ho => ?_, t', more, ht', fun tail htail => ?_⟩
        · rw [List.append_assoc, List.cons_append, run_bind_taken ht hagain (ho.1.append _) (head_append_same hmid' ho.2),
            hagain' other ho]
        · have hother : ∀ u ∈ (used' ++ (t' :: more ++ tail)).head?, test₂ u = false :=
            head_append hmid' fun hnil => by simpa using htest' hnil
          obtain ⟨c, hc⟩ := hmore tail htail
          rw [List.append_assoc] at hc
          refine ⟨c, ?_⟩
          rw [List.append_assoc, List.append_assoc, List.cons_append,
            run_bind_taken ht hagain ((htail.1.append _).append _) hother, hc]
      · rw [run_skipped ht, hfalse] at hfe
        cases hfe

end BindChoice

/-! ## Loops -/

variable {ι : Type}

/-- what an accepting parser leaves is no longer than what it was given, and ends if that does -/
def Trims (p : Parser α) : Prop :=
  ∀ {ts a rest}, Ends ts → p ts = .ok (a, rest) → Ends rest ∧ rest.length ≤ ts.length

theorem Contract.trims (h : ∀ n, Contract n first avoid reads p) : Trims p := by
  intro ts a rest hends hok
  obtain ⟨used, rfl, hinner, -⟩ := (h ts.length).accepts le_rfl hends hok
  exact ⟨hends.rest hinner, by simp⟩

/-- what an accepting parser leaves is shorter, if the parser reads something -/
theorem Contract.shrinks (h : ∀ n, Contract n first avoid reads p) (hreads : ∀ {a used rest}, reads a used rest → used ≠ [])
    {ts rest : List Token} {a : α} (hends : Ends ts) (hok : p ts = .ok (a, rest)) :
    Ends rest ∧ rest.length < ts.length := by
  obtain ⟨used, rfl, hinner, hread, -⟩ := (h ts.length).accepts le_rfl hends hok
  obtain ⟨u, used, rfl⟩ := List.exists_cons_of_ne_nil (hreads hread)
  exact ⟨hends.rest hinner, by simp⟩

theorem Takes.trims {test : Token → Bool} {value : Token → α} {cause : RefusalCause} (h : Takes test value cause p)
    (hinner : ∀ t, test t = true → t.kind ≠ .eof) : Trims p := by
  intro ts a rest hends hok
  obtain ⟨t, ts, rfl⟩ := hends.exists_cons
  by_cases ht : test t = true
  · rw [h.run ht] at hok
    cases hok
    exact ⟨hends.tail (hinner t ht), Nat.le_succ _⟩
  · rw [h, if_neg ht] at hok
    cases hok

theorem bind_congr_run {p : Parser α} {f g : α → Parser β} {ts : List Token}
    (h : ∀ a mid, p ts = .ok (a, mid) → f a mid = g a mid) : (p >>= f) ts = (p >>= g) ts := by
  rcases hp : p ts with r | ⟨a, mid⟩
  · rw [run_bind_error hp, run_bind_error hp]
  · rw [run_bind_ok hp, run_bind_ok hp, h a mid hp]

theorem bind_congr_first {p q : Parser α} {ts us : List Token} (h : p ts = q us) (f : α → Parser β) :
    (p >>= f) ts = (q >>= f) us := by
  simp only [Bind.bind, StateT.bind, h]

/-- a token that may come, and then what may do the same only on the shorter list behind it -/
theorem choice_congr {test : Token → Bool} {f g : Bool → Parser α} {ts : List Token} (hends : Ends ts)
    (hinner : ∀ t, test t = true → t.kind ≠ .eof)
    (htrue : ∀ us, Ends us → us.length < ts.length → f true us = g true us) (hfalse : f false ts = g false ts) :
    (takeRun [test] >>= f) ts = (takeRun [test] >>= g) ts := by
  obtain ⟨t, us, rfl⟩ := hends.exists_cons
  rw [run_choice, run_choice]
  split_ifs with ht
  · exact htrue us (hends.tail (hinner t ht)) (by simp)
  · exact hfalse

/-- a loop with as many rounds as there are tokens -/
def whole (loop : Nat → ι → Parser α) (i : ι) : Parser α := fun ts => loop ts.length i ts

/-- one round of a loop, given the rest of the loop, which it runs on shorter lists only -/
def Round (step : (ι → Parser α) → ι → Parser α) : Prop :=
  ∀ (q q' : ι → Parser α) i ts, Ends ts → (∀ j us, Ends us → us.length < ts.length → q j us = q' j us) →
    step q i ts = step q' i ts

section Loops

variable {loop : Nat → ι → Parser α} (step : (ι → Parser α) → ι → Parser α)
  (hloop : ∀ n i, loop (n + 1) i = step (loop n) i) (hstep : Round step)

include hloop hstep

/-- rounds beyond the number of tokens change nothing -/
theorem loop_eq_of_length_le (n m : Nat) (i : ι) {ts : List Token} (hends : Ends ts) (hn : ts.length ≤ n)
    (hm : ts.length ≤ m) : loop n i ts = loop m i ts := by
  induction n generalizing m i ts with
  | zero =>
    rw [List.length_eq_zero_iff.1 (Nat.le_zero.1 hn)] at hends
    exact absurd hends not_ends_nil
  | succ n ih =>
    cases m with
    | zero =>
      rw [List.length_eq_zero_iff.1 (Nat.le_zero.1 hm)] at hends
      exact absurd hends not_ends_nil
    | succ m =>
      rw [hloop, hloop]
      exact hstep _ _ i ts hends fun j us hus hlt => ih m j hus (by omega) (by omega)

/-- a loop is one round and the same loop -/
theorem whole_eq (i : ι) {ts : List Token} (hends : Ends ts) : whole loop i ts = step (whole loop) i ts := by
  obtain ⟨t, ts, rfl⟩ := hends.exists_cons
  rw [whole, List.length_cons, hloop]
  exact hstep _ _ i _ hends fun j us hus hlt =>
    loop_eq_of_length_le step hloop hstep _ _ j hus (by simpa using Nat.le_of_lt_succ hlt) le_rfl

/-- a loop keeps the contract that one round keeps if the rounds behind it do -/
theorem Contract.rounds (first : ι → List Token → Token → Prop) (reads : ι → α → List Token → List Token → Prop)
    (h : ∀ size, (∀ n < size, ∀ i, Contract n (first i) avoid (reads i) (whole loop i)) →
      ∀ i, Contract size (first i) avoid (reads i) (step (whole loop) i)) (size : Nat) (i : ι) :
    Contract size (first i) avoid (reads i) (whole loop i) := by
  induction size using Nat.strong_induction_on generalizing i with
  | _ size ih => exact (h size ih i).congr fun ts hends => whole_eq step hloop hstep i hends

end Loops

end Parser

end LevelScript.Syntax
