/-
Parsers that read back what has been written.

`Restores` says of a parser that it reads tokens of the given kinds, before whatever may follow them, as a given value, if
the places of the tokens are left out of account. Like contracts, this is put together as parsers are: there is a rule for
sequences, for a token that has to come, for one that may come, and for each of the loops of the grammar that read lists.
-/
import Mathlib.Tactic
import LevelScript.Proofs.Repetition

namespace LevelScript.Syntax.Parser

variable {α β γ δ : Type}

/-- before what may follow, the parser reads tokens of the given kinds as a value, of which `bare` shows what it should -/
def Restores (p : Parser α) (kinds : List TokenKind) (before : List Token → Prop) (bare : α → β) (b : β) : Prop :=
  ∀ ts rest, ts.map (·.kind) = kinds → Ends rest → before rest → ∃ a, p (ts ++ rest) = .ok (a, rest) ∧ bare a = b

/-- anything may follow -/
def anything : List Token → Prop := fun _ => True

variable {p : Parser α} {kinds more : List TokenKind} {before middle : List Token → Prop} {bare : α → β} {b : β}

/-! ## Sequences -/

theorem Restores.pure {a : α} (h : bare a = b) : Restores (pure a) [] before bare b := by
  intro ts rest hts _ _
  obtain rfl := List.map_eq_nil_iff.1 hts
  exact ⟨a, rfl, h⟩

theorem Restores.bind {bare' : γ → δ} {d : δ} {f : α → Parser γ} (hp : Restores p kinds middle bare b)
    (hmiddle : ∀ ts rest, ts.map (·.kind) = more → Ends rest → before rest → middle (ts ++ rest))
    (hf : ∀ a, bare a = b → Restores (f a) more before bare' d) : Restores (p >>= f) (kinds ++ more) before bare' d := by
  intro ts rest hts hends hrest
  obtain ⟨used, others, rfl, hused, hothers⟩ := List.map_eq_append_iff.1 hts
  obtain ⟨a, ha, hbare⟩ := hp used (others ++ rest) hused (hends.append _) (hmiddle _ _ hothers hends hrest)
  obtain ⟨c, hc, hbare'⟩ := hf a hbare others rest hothers hends hrest
  exact ⟨c, by rw [List.append_assoc, run_bind_ok ha, hc], hbare'⟩

/-- a parser and nothing behind it -/
theorem Restores.bindPure {bare' : γ → δ} {d : δ} {g : α → γ} (hp : Restores p kinds before bare b)
    (hg : ∀ a, bare a = b → bare' (g a) = d) : Restores (p >>= fun a => Pure.pure (g a)) kinds before bare' d := by
  have hpure (a : α) (ha : bare a = b) : Restores (Pure.pure (g a)) [] before bare' d := Restores.pure (hg a ha)
  have := hp.bind (fun ts rest hts _ h => by rwa [List.map_eq_nil_iff.1 hts]) hpure
  rwa [List.append_nil] at this

/-- the result may be changed on the way -/
theorem Restores.map {bare' : γ → δ} {d : δ} {g : α → γ} (hp : Restores p kinds before bare b)
    (hg : ∀ a, bare a = b → bare' (g a) = d) : Restores (g <$> p) kinds before bare' d :=
  run_map g p ▸ hp.bindPure hg

theorem Restores.current {f : Token → Parser α} (h : ∀ t, Restores (f t) kinds before bare b) :
    Restores (current >>= f) kinds before bare b := fun ts rest => h ((ts ++ rest).headD default) ts rest

/-- less may follow -/
theorem Restores.mono {before' : List Token → Prop} (h : Restores p kinds before bare b)
    (hbefore : ∀ rest, before' rest → before rest) : Restores p kinds before' bare b :=
  fun ts rest hts hends hrest => h ts rest hts hends (hbefore rest hrest)

/-- a parser that does the same with lists that end -/
theorem Restores.congr {q : Parser α} (h : Restores p kinds before bare b) (heq : ∀ ts, Ends ts → q ts = p ts) :
    Restores q kinds before bare b := by
  intro ts rest hts hends hrest
  rw [heq _ (hends.append ts)]
  exact h ts rest hts hends hrest

/-! ## Single tokens -/

theorem Restores.read {test : Token → Bool} {value : Token → α} {cause : RefusalCause} {kind : TokenKind}
    {f : α → Parser γ} {bare : γ → β} (hp : Takes test value cause p) (htest : ∀ t : Token, t.kind = kind → test t = true)
    (hf : ∀ t : Token, t.kind = kind → Restores (f (value t)) kinds before bare b) :
    Restores (p >>= f) (kind :: kinds) before bare b := by
  intro ts rest hts hends hrest
  obtain ⟨t, ts, rfl, ht, hts⟩ := List.map_eq_cons_iff.1 hts
  obtain ⟨c, hc, hbare⟩ := hf t ht ts rest hts hends hrest
  exact ⟨c, (run_bind_ok (hp.run (htest t ht) _) f).trans hc, hbare⟩

theorem Restores.readChar {c : Char} {place : Construct} {f : Unit → Parser γ} {bare : γ → β}
    (hf : Restores (f ()) kinds before bare b) : Restores (char c place >>= f) (.char c :: kinds) before bare b :=
  .read (takes_char c place) (fun t ht => by simp [Token.isChar, ht]) fun _ _ => hf

theorem Restores.readName {name : Token} (hname : name.IsName) {place : Construct} {f : Token → Parser γ} {bare : γ → β}
    (hf : ∀ t : Token, t.kind = name.kind → Restores (f t) kinds before bare b) :
    Restores (symbol place >>= f) (name.kind :: kinds) before bare b := by
  obtain ⟨word, hword⟩ := hname
  exact .read (takes_symbol place) (fun t ht => by simp [Token.named, ht, hword]) hf

theorem type?_of_declarable {t : Token} {ty : Ty} (hty : ty ∈ Ty.declarable) (ht : t.kind = .symbol ty.name) :
    t.type? = some ty := by
  rw [Token.type?, ht]
  cases ty <;> first | rfl | (revert hty; decide)

theorem Restores.readType {ty : Ty} (hty : ty ∈ Ty.declarable) {f : Ty → Parser γ} {bare : γ → β}
    (hf : Restores (f ty) kinds before bare b) : Restores (type >>= f) (.symbol ty.name :: kinds) before bare b :=
  .read takes_type (fun t ht => by simp [type?_of_declarable hty ht]) fun t ht => by
    simpa [type?_of_declarable hty ht] using hf

/-- a token that may come does -/
theorem Restores.take {test : Token → Bool} {kind : TokenKind} {f : Bool → Parser α}
    (htest : ∀ t : Token, t.kind = kind → test t = true) (hf : Restores (f true) kinds before bare b) :
    Restores (takeRun [test] >>= f) (kind :: kinds) before bare b := by
  intro ts rest hts hends hrest
  obtain ⟨t, ts, rfl, ht, hts⟩ := List.map_eq_cons_iff.1 hts
  obtain ⟨a, ha, hbare⟩ := hf ts rest hts hends hrest
  exact ⟨a, (run_taken (htest t ht) _ _).trans ha, hbare⟩

/-- a token that may come does not, since another one does -/
theorem Restores.skip {test : Token → Bool} {kind : TokenKind} {f : Bool → Parser α}
    (htest : ∀ t : Token, t.kind = kind → test t = false) (hf : Restores (f false) (kind :: kinds) before bare b) :
    Restores (takeRun [test] >>= f) (kind :: kinds) before bare b := by
  intro ts rest hts hends hrest
  obtain ⟨a, ha, hbare⟩ := hf ts rest hts hends hrest
  obtain ⟨t, ts, rfl, ht, hts⟩ := List.map_eq_cons_iff.1 hts
  exact ⟨a, (run_skipped (by simp [htest t ht]) _ _).trans ha, hbare⟩

/-- a token that may come does not, since nothing is left to read -/
theorem Restores.skipRest {test : Token → Bool} {f : Bool → Parser α}
    (htest : ∀ rest, before rest → ∀ t ∈ rest.head?, test t = false) (hf : Restores (f false) [] before bare b) :
    Restores (takeRun [test] >>= f) [] before bare b := by
  intro ts rest hts hends hrest
  obtain ⟨a, ha, hbare⟩ := hf ts rest hts hends hrest
  obtain rfl := List.map_eq_nil_iff.1 hts
  obtain ⟨t, rest, rfl⟩ := hends.exists_cons
  exact ⟨a, (run_skipped (by simp [htest _ hrest t rfl]) _ _).trans ha, hbare⟩

/-- two tokens that may come do -/
theorem Restores.takeTwo {test₁ test₂ : Token → Bool} {kind₁ kind₂ : TokenKind} {f : Bool → Parser α}
    (htest₁ : ∀ t : Token, t.kind = kind₁ → test₁ t = true) (htest₂ : ∀ t : Token, t.kind = kind₂ → test₂ t = true)
    (hf : Restores (f true) kinds before bare b) :
    Restores (takeRun [test₁, test₂] >>= f) (kind₁ :: kind₂ :: kinds) before bare b := by
  intro ts rest hts hends hrest
  obtain ⟨t, ts, rfl, ht, hts⟩ := List.map_eq_cons_iff.1 hts
  obtain ⟨u, ts, rfl, hu, hts⟩ := List.map_eq_cons_iff.1 hts
  obtain ⟨a, ha, hbare⟩ := hf ts rest hts hends hrest
  exact ⟨a, (run_takeTwo (htest₁ t ht) (htest₂ u hu) _ f).trans ha, hbare⟩

theorem Restores.takeType {ty : Ty} (hty : ty ∈ Ty.declarable) {f : Ty → Parser α} {q : Parser α}
    (hf : Restores (f ty) kinds before bare b) :
    Restores (do if ← seesType then let ty ← type; f ty else q) (.symbol ty.name :: kinds) before bare b := by
  intro ts rest hts hends hrest
  obtain ⟨a, ha, hbare⟩ := Restores.readType hty hf ts rest hts hends hrest
  obtain ⟨t, ts, rfl, ht, -⟩ := List.map_eq_cons_iff.1 hts
  have hsees : seesType (t :: ts ++ rest) = .ok (true, t :: ts ++ rest) := by
    simp [seesType, type?_of_declarable hty ht]
  exact ⟨a, (run_bind_ok hsees _).trans ha, hbare⟩

theorem Restores.skipType {kind : TokenKind} {f : Ty → Parser α} {q : Parser α}
    (htype : ∀ t : Token, t.kind = kind → t.type? = none) (hq : Restores q (kind :: kinds) before bare b) :
    Restores (do if ← seesType then let ty ← type; f ty else q) (kind :: kinds) before bare b := by
  intro ts rest hts hends hrest
  obtain ⟨a, ha, hbare⟩ := hq ts rest hts hends hrest
  obtain ⟨t, ts, rfl, ht, -⟩ := List.map_eq_cons_iff.1 hts
  have hsees : seesType (t :: ts ++ rest) = .ok (false, t :: ts ++ rest) := by
    simp [seesType, htype t ht]
  exact ⟨a, (run_bind_ok hsees _).trans ha, hbare⟩

/-! ## Lists with commas -/

section Commas

variable {ι : Type} {item : Parser α} {write : ι → List TokenKind} {value : ι → β} {closer : Char} {place : Construct}
  {xs : List ι}

/-- what may follow an item of a list with commas -/
def behindItem (closer : Char) (rest : List Token) : Prop := startsWith ',' rest = true ∨ startsWith closer rest = true

theorem behindItem_cons {kind : TokenKind} (hkind : kind = .char ',' ∨ kind = .char closer) {ts : List Token}
    (hts : ts.map (·.kind) = kind :: kinds) (rest : List Token) : behindItem closer (ts ++ rest) := by
  obtain ⟨t, ts, rfl, ht, -⟩ := List.map_eq_cons_iff.1 hts
  rcases hkind with rfl | rfl
  · exact .inl (by simp [Token.isChar, ht])
  · exact .inr (by simp [Token.isChar, ht])

/-- items with commas between them, up to the closing character -/
theorem Restores.commas (place : Construct) (hitem : Trims item) (hcloser : closer ≠ ',') (hxs : xs ≠ [])
    (h : ∀ x ∈ xs, Restores item (write x) (behindItem closer) bare (value x)) :
    Restores (whole (fun n (_ : Unit) => commaSeparated item closer place n) ())
      (Syntax.commas (xs.map write) ++ [.char closer]) anything (List.map bare) (xs.map value) := by
  induction xs with
  | nil => exact absurd rfl hxs
  | cons x xs ih =>
    refine Restores.congr ?_ fun ts hts => whole_commaSeparated_eq hitem hts
    cases xs with
    | nil =>
      refine .bind (h x (by simp)) (fun ts rest hts _ _ => behindItem_cons (.inr rfl) hts rest) fun a ha => ?_
      refine .skip (fun t ht => by simpa [Token.isChar, ht] using hcloser) (.readChar (.pure ?_))
      simpa using ha
    | cons next others =>
      have hothers := ih (by simp) fun x hx => h x (by simp [hx])
      rw [List.map_cons, List.map_cons, Syntax.commas, List.append_assoc]
      refine .bind (h x (by simp)) (fun ts rest hts _ _ => behindItem_cons (.inl rfl) hts rest) fun a ha => ?_
      exact .take (fun t ht => isChar_of_kind ht) (hothers.bindPure fun as has => congrArg₂ List.cons ha has)

/-- items with commas between them, or none, up to the closing character, which no item starts with -/
theorem Restores.listUpTo (hitem : Trims item) (hcloser : closer ≠ ',')
    (hstart : ∀ x ∈ xs, ∃ kind kinds, write x = kind :: kinds ∧ kind ≠ .char closer)
    (h : ∀ x ∈ xs, Restores item (write x) (behindItem closer) bare (value x)) :
    Restores (listUpTo item closer place) (Syntax.commas (xs.map write) ++ [.char closer]) anything (List.map bare)
      (xs.map value) := by
  cases xs with
  | nil => exact .take (fun t ht => isChar_of_kind ht) (.pure rfl)
  | cons x xs =>
    have hlist := Restores.commas place hitem hcloser (by simp) h
    obtain ⟨kind, kinds, hkinds, hkind⟩ := hstart x (by simp)
    obtain ⟨others, hothers⟩ : ∃ others, Syntax.commas ((x :: xs).map write) ++ [.char closer] = kind :: others := by
      cases xs <;> simp [Syntax.commas, hkinds]
    rw [hothers] at hlist ⊢
    refine .skip (fun t ht => ?_) hlist
    by_contra hchar
    exact hkind (ht ▸ kind_of_isChar (by simpa using hchar))

end Commas

/-! ## Names of variables -/

theorem Restores.moreNames {names : List Token} (hnames : ∀ name ∈ names, name.IsName) :
    Restores (whole (fun n (_ : Unit) => moreNames n) ()) (names.flatMap fun name => [.char ',', name.kind])
      (fun rest => startsWith ',' rest = false) (List.map (·.kind)) (names.map (·.kind)) := by
  induction names with
  | nil =>
    refine Restores.congr (.skipRest (fun rest hrest t ht => ?_) (.pure rfl)) fun ts hts => whole_moreNames_eq hts
    obtain ⟨more, rfl⟩ := List.head?_eq_some_iff.1 ht
    simpa using hrest
  | cons name names ih =>
    refine Restores.congr (.take (fun t ht => isChar_of_kind ht) ?_) fun ts hts => whole_moreNames_eq hts
    refine .readName (hnames name (by simp)) fun t ht => ?_
    exact (ih fun name hname => hnames name (by simp [hname])).bindPure fun _ h => congrArg₂ List.cons ht h

end LevelScript.Syntax.Parser
