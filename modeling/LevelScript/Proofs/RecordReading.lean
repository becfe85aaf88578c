/-
What the records of a level are read as.

A record describes an argument if it has a name, the type of an argument and a value of the shape of that type which the
type can represent; `Describes` says so without the reading. A record escapes if its value is a number that no
conversion takes, or if its type is data that cannot even be written out. `records_are_read` puts the two together:
reading keeps exactly the records that describe an argument, in order, and logs one warning for every other one, up to
the first record that escapes. The failure of that record ends the reading, whatever stands behind it.
-/
import Mathlib
import LevelScript.Generator.Record
import LevelScript.Proofs.Attempts

namespace LevelScript.Generator

open LevelScript.Syntax

/-! ## What records describe -/

/-- a component of a vector: a number, a truth value, or a text that spells a number -/
inductive Counts : Data → Float → Prop
  | truth (b : Bool) : Counts (.bool b) (if b then 1.0 else 0.0)
  | whole {n : Int} {x : Float} : Decimal.ofInt? n = some x → Counts (.int n) x
  | real (x : Float) : Counts (.float x) x
  | spelled {s : String} {x : Float} : Decimal.readFloat? s = some x → Counts (.text s) x

/-- data of the shape of a type, and the value of the type that represents it -/
inductive Represents : Ty → Data → Val → Prop
  | truth (b : Bool) : Represents .bool (.bool b) (.bool b)
  | nonzero (n : Int) : Represents .bool (.int n) (.bool (n ≠ 0))
  | whole (n : Int) : Represents .int (.int n) (.int n)
  | truncated {x : Float} {n : Int} : Decimal.truncate? x = some n → Represents .int (.float x) (.int n)
  | widened {n : Int} {x : Float} : Decimal.ofInt? n = some x → Represents .float (.int n) (.float x)
  | real (x : Float) : Represents .float (.float x) (.float x)
  | pair {c d : Data} {x y : Float} : Counts c x → Counts d y → Represents .vec2 (.list [c, d]) (.vec2 x y)
  | triple {c d e : Data} {x y z : Float} : Counts c x → Counts d y → Counts e z →
      Represents .vec3 (.list [c, d, e]) (.vec3 x y z)

/-- the record has a name, and a type that an argument can have -/
structure Headed (d : Data) (heading : String) (t : Ty) : Prop where
  name : d.get? "name" = some (.text heading)
  named : heading ≠ ""
  type : d.get? "type" = some (.text t.name)
  supported : t ∈ argumentTypes

/-- the record has the name and the type of the argument, and the value of the argument represents what it holds -/
structure Describes (d : Data) (a : Argument) : Prop where
  headed : Headed d a.name a.type
  value : ∃ given, d.get? "val" = some given ∧ Represents a.type given a.val

/-- data of the shape of a type that lies beyond the range of its numbers, and the failure to convert it -/
inductive Overflows : Ty → Data → HostError → Prop
  | infinite {x : Float} : Decimal.truncate? x = none → x.isNaN = false → Overflows .int (.float x) .infinityToInt
  | large {n : Int} : Decimal.ofInt? n = none → Overflows .float (.int n) .intTooLarge
  | component {t : Ty} {before after : List Data} {n : Int} :
      componentCount? t = some (before.length + 1 + after.length) → (∀ c ∈ before, ∃ x, Counts c x) →
      Decimal.ofInt? n = none → Overflows t (.list (before ++ .int n :: after)) .intTooLarge

/-- the record has a name, but its type cannot be written out, or its value lies beyond the range of its type -/
inductive Escapes (d : Data) : HostError → Prop
  | type {name : String} {type : Data} : d.get? "name" = some (.text name) → name ≠ "" →
      d.get? "type" = some type → type.literal? = none → Escapes d .tooManyDigits
  | value {name : String} {t : Ty} {given : Data} {e : HostError} : Headed d name t → d.get? "val" = some given →
      Overflows t given e → Escapes d e

/-- records that are read in order: each describes the next argument, or does not and costs the next warning -/
inductive Reading : List Data → List Argument → List Record → Prop
  | done : Reading [] [] []
  | kept {d : Data} {a : Argument} {records : List Data} {arguments : List Argument} {warnings : List Record} :
      Describes d a → Reading records arguments warnings → Reading (d :: records) (a :: arguments) warnings
  | skipped {d : Data} {w : Record} {records : List Data} {arguments : List Argument} {warnings : List Record} :
      (∀ a, ¬Describes d a) → w.level = .warning → w.logger = generatorLogger → Reading records arguments warnings →
      Reading (d :: records) arguments (w :: warnings)

/-! ## Numbers -/

theorem floatOfInt_eq_ok {n : Int} {x : Float} : floatOfInt n = .ok x ↔ Decimal.ofInt? n = some x := by
  unfold floatOfInt
  cases Decimal.ofInt? n <;> simp

theorem floatOfInt_eq_error {n : Int} {e : HostError} :
    floatOfInt n = .error e ↔ Decimal.ofInt? n = none ∧ e = .intTooLarge := by
  unfold floatOfInt
  cases Decimal.ofInt? n <;> simp [eq_comm]

theorem intOfFloat_eq_ok {x : Float} {n : Int} : intOfFloat x = .ok n ↔ Decimal.truncate? x = some n := by
  unfold intOfFloat
  cases Decimal.truncate? x <;> simp

theorem componentOf_eq_ok {d : Data} {x : Float} : componentOf d = .ok x ↔ Counts d x := by
  constructor
  · intro h
    cases d with
    | bool b =>
      cases h
      exact .truth b
    | int n => exact .whole (floatOfInt_eq_ok.1 h)
    | float y =>
      cases h
      exact .real _
    | text s =>
      simp only [componentOf, floatOfText] at h
      split at h
      · rename_i hread
        cases h
        exact .spelled hread
      · cases h
    | null | list | record => cases h
  · intro h
    cases h with
    | truth | real => rfl
    | whole h => exact floatOfInt_eq_ok.2 h
    | spelled h => simp [componentOf, floatOfText, h]

/-- the failures of a component that are not confined to its record -/
theorem componentOf_escapes {d : Data} {e : HostError} :
    componentOf d = .error e ∧ isMalformed e = false ↔
      ∃ n, d = .int n ∧ Decimal.ofInt? n = none ∧ e = .intTooLarge := by
  constructor
  · rintro ⟨h, he⟩
    cases d with
    | int n => exact ⟨n, rfl, floatOfInt_eq_error.1 h⟩
    | bool | float => cases h
    | text s =>
      simp only [componentOf, floatOfText] at h
      split at h
      · cases h
      · cases h
        cases he
    | null | list | record =>
      cases h
      cases he
  · rintro ⟨n, rfl, hn, rfl⟩
    exact ⟨floatOfInt_eq_error.2 ⟨hn, rfl⟩, rfl⟩

/-! ## Values -/

/-- data of another form than a type expects only costs the record -/
theorem unexpected_isMalformed {α : Type} {expected : String} {d : Data} {e : HostError}
    (h : (unexpected expected d : Except HostError α) = .error e) : isMalformed e = true := by
  unfold unexpected quotedData at h
  split at h <;> cases h <;> rfl

theorem unexpected_ne_ok {α : Type} {expected : String} {d : Data} {a : α} :
    (unexpected expected d : Except HostError α) ≠ .ok a := by
  unfold unexpected quotedData
  split <;> nofun

/-- a vector is read component by component from a list of the right length -/
theorem valOf_vector {t : Ty} {count : Nat} (ht : componentCount? t = some count) (d : Data) :
    valOf t d = match d with
      | .list components =>
        if components.length = count then do vectorOf (← components.mapM componentOf)
        else unexpected (toString count ++ " components") d
      | _ => unexpected (toString count ++ " components") d := by
  cases t <;> cases ht <;> cases d <;> rfl

theorem represents_vector {t : Ty} {count : Nat} (ht : componentCount? t = some count) {d : Data} {v : Val} :
    Represents t d v ↔
      ∃ components xs, d = .list components ∧ components.length = count ∧ List.Forall₂ Counts components xs ∧
        vectorOf xs = .ok v := by
  constructor
  · intro h
    cases h with
    | pair hc hd =>
      cases ht
      exact ⟨_, _, rfl, rfl, .cons hc (.cons hd .nil), rfl⟩
    | triple hc hd he =>
      cases ht
      exact ⟨_, _, rfl, rfl, .cons hc (.cons hd (.cons he .nil)), rfl⟩
    | _ => cases ht
  · rintro ⟨components, xs, rfl, hlength, hcounts, hvector⟩
    cases t <;> cases ht
    · match components, xs, hlength, hcounts with
      | [_, _], [_, _], _, .cons hc (.cons hd .nil) =>
        cases hvector
        exact .pair hc hd
    · match components, xs, hlength, hcounts with
      | [_, _, _], [_, _, _], _, .cons hc (.cons hd (.cons he .nil)) =>
        cases hvector
        exact .triple hc hd he

/-- the components of a vector type make a vector -/
theorem vectorOf_isOk {t : Ty} {count : Nat} (ht : componentCount? t = some count) {xs : List Float}
    (hlength : xs.length = count) : ∃ v, vectorOf xs = .ok v := by
  cases t <;> cases ht
  · match xs, hlength with
    | [_, _], _ => exact ⟨_, rfl⟩
  · match xs, hlength with
    | [_, _, _], _ => exact ⟨_, rfl⟩

theorem forall₂_componentOf {components : List Data} {xs : List Float} :
    List.Forall₂ (fun d x => componentOf d = .ok x) components xs ↔ List.Forall₂ Counts components xs := by
  simp only [componentOf_eq_ok]

theorem valOf_vector_eq_ok {t : Ty} {count : Nat} (ht : componentCount? t = some count) {d : Data} {v : Val} :
    valOf t d = .ok v ↔ Represents t d v := by
  rw [valOf_vector ht, represents_vector ht]
  constructor
  · intro h
    split at h
    · rename_i components
      split_ifs at h with hlength
      · rcases hxs : components.mapM componentOf with e | xs
        · rw [hxs] at h
          cases h
        rw [hxs] at h
        exact ⟨components, xs, rfl, hlength, forall₂_componentOf.1 (mapM_eq_ok.1 hxs), h⟩
      · exact absurd h unexpected_ne_ok
    · exact absurd h unexpected_ne_ok
  · rintro ⟨components, xs, rfl, hlength, hcounts, hvector⟩
    have hxs : components.mapM componentOf = .ok xs := mapM_eq_ok.2 (forall₂_componentOf.2 hcounts)
    simp only [if_pos hlength, hxs]
    exact hvector

/-- components that cannot be read otherwise than by a failure of the record are those before a number out of range -/
theorem overflows_of_mapM {t : Ty} {components : List Data} {e : HostError}
    (ht : componentCount? t = some components.length) (h : components.mapM componentOf = .error e)
    (he : isMalformed e = false) : Overflows t (.list components) e := by
  obtain ⟨before, c, after, rfl, hbefore, hc⟩ := mapM_eq_error.1 h
  obtain ⟨n, rfl, hn, rfl⟩ := componentOf_escapes.1 ⟨hc, he⟩
  refine .component ?_ (fun b hb => ?_) hn
  · rw [ht, List.length_append, List.length_cons, Nat.add_assoc, Nat.add_comm 1]
  · obtain ⟨x, hx⟩ := hbefore b hb
    exact ⟨x, componentOf_eq_ok.1 hx⟩

theorem mapM_of_overflows {before after : List Data} {n : Int} (hbefore : ∀ c ∈ before, ∃ x, Counts c x)
    (hn : Decimal.ofInt? n = none) : (before ++ Data.int n :: after).mapM componentOf = .error .intTooLarge := by
  refine mapM_eq_error.2 ⟨before, .int n, after, rfl, fun b hb => ?_, floatOfInt_eq_error.2 ⟨hn, rfl⟩⟩
  obtain ⟨x, hx⟩ := hbefore b hb
  exact ⟨x, componentOf_eq_ok.2 hx⟩

theorem valOf_vector_escapes {t : Ty} {count : Nat} (ht : componentCount? t = some count) {d : Data} {e : HostError} :
    valOf t d = .error e ∧ isMalformed e = false ↔ Overflows t d e := by
  rw [valOf_vector ht]
  constructor
  · rintro ⟨h, he⟩
    split at h
    · rename_i components
      split_ifs at h with hlength
      · rcases hxs : components.mapM componentOf with e' | xs
        · rw [hxs] at h
          cases h
          exact overflows_of_mapM (hlength.symm ▸ ht) hxs he
        · rw [hxs] at h
          have hcount : xs.length = count := (mapM_eq_ok.1 hxs).length_eq.symm.trans hlength
          obtain ⟨v, hv⟩ := vectorOf_isOk ht hcount
          exact absurd (h.symm.trans hv) nofun
      · rw [unexpected_isMalformed h] at he
        cases he
    · rw [unexpected_isMalformed h] at he
      cases he
  · intro h
    cases h with
    | infinite | large => cases ht
    | @component _ before after n hcount hbefore hn =>
      have hlength : (before ++ Data.int n :: after).length = count := by
        rw [ht] at hcount
        cases hcount
        simp only [List.length_append, List.length_cons]
        omega
      simp only [if_pos hlength, mapM_of_overflows hbefore hn]
      exact ⟨rfl, rfl⟩

theorem valOf_bool_eq_ok {d : Data} {v : Val} : valOf .bool d = .ok v ↔ Represents .bool d v := by
  constructor
  · intro h
    cases d with
    | bool b =>
      cases h
      exact .truth b
    | int n =>
      cases h
      exact .nonzero n
    | _ => exact absurd h unexpected_ne_ok
  · intro h
    cases h <;> rfl

theorem valOf_int_eq_ok {d : Data} {v : Val} : valOf .int d = .ok v ↔ Represents .int d v := by
  constructor
  · intro h
    cases d with
    | int n =>
      cases h
      exact .whole n
    | float x =>
      rcases hx : intOfFloat x with e | n
      · simp [valOf, hx] at h
      · simp only [valOf, hx] at h
        cases h
        exact .truncated (intOfFloat_eq_ok.1 hx)
    | _ => exact absurd h unexpected_ne_ok
  · intro h
    cases h with
    | whole n => rfl
    | truncated hx =>
      simp only [valOf, intOfFloat_eq_ok.2 hx]
      rfl

theorem valOf_float_eq_ok {d : Data} {v : Val} : valOf .float d = .ok v ↔ Represents .float d v := by
  constructor
  · intro h
    cases d with
    | float x =>
      cases h
      exact .real x
    | int n =>
      rcases hn : floatOfInt n with e | x
      · simp [valOf, hn] at h
      · simp only [valOf, hn] at h
        cases h
        exact .widened (floatOfInt_eq_ok.1 hn)
    | _ => exact absurd h unexpected_ne_ok
  · intro h
    cases h with
    | real x => rfl
    | widened hn =>
      simp only [valOf, floatOfInt_eq_ok.2 hn]
      rfl

/-- reading a value succeeds exactly with the value of the type that represents the data -/
theorem valOf_eq_ok {t : Ty} (ht : t ∈ argumentTypes) {d : Data} {v : Val} : valOf t d = .ok v ↔ Represents t d v := by
  cases t with
  | bool => exact valOf_bool_eq_ok
  | int => exact valOf_int_eq_ok
  | float => exact valOf_float_eq_ok
  | vec2 | vec3 => exact valOf_vector_eq_ok rfl
  | _ => simp [argumentTypes] at ht

/-- data of a form that a type does not expect fails in no way that is not confined to its record -/
theorem overflows_of_unexpected {t : Ty} {expected : String} {d : Data} {e : HostError}
    (h : (unexpected expected d : Except HostError Val) = .error e) (he : isMalformed e = false) : Overflows t d e := by
  rw [unexpected_isMalformed h] at he
  cases he

theorem valOf_bool_escapes {d : Data} {e : HostError} :
    valOf .bool d = .error e ∧ isMalformed e = false ↔ Overflows .bool d e := by
  constructor
  · rintro ⟨h, he⟩
    cases d with
    | bool | int => cases h
    | _ => exact overflows_of_unexpected h he
  · intro h
    cases h with
    | component hcount => cases hcount

theorem valOf_int_escapes {d : Data} {e : HostError} :
    valOf .int d = .error e ∧ isMalformed e = false ↔ Overflows .int d e := by
  constructor
  · rintro ⟨h, he⟩
    cases d with
    | int => cases h
    | float x =>
      simp only [valOf, intOfFloat] at h
      split at h
      · cases h
      · rename_i hx
        cases hnan : x.isNaN with
        | true =>
          rw [hnan] at h
          cases h
          cases he
        | false =>
          rw [hnan] at h
          cases h
          exact .infinite hx hnan
    | _ => exact overflows_of_unexpected h he
  · intro h
    cases h with
    | infinite hx hnan =>
      refine ⟨?_, rfl⟩
      simp only [valOf, intOfFloat, hx, hnan, Bool.false_eq_true, if_false]
      rfl
    | component hcount => cases hcount

theorem valOf_float_escapes {d : Data} {e : HostError} :
    valOf .float d = .error e ∧ isMalformed e = false ↔ Overflows .float d e := by
  constructor
  · rintro ⟨h, he⟩
    cases d with
    | float => cases h
    | int n =>
      rcases hn : floatOfInt n with e' | x
      · simp only [valOf, hn] at h
        cases h
        obtain ⟨hlarge, rfl⟩ := floatOfInt_eq_error.1 hn
        exact .large hlarge
      · simp only [valOf, hn] at h
        cases h
    | _ => exact overflows_of_unexpected h he
  · intro h
    cases h with
    | large hn => simp [valOf, floatOfInt, hn, isMalformed]
    | component hcount => cases hcount

/-- the failures to read a value that are not confined to its record are those of numbers beyond the range -/
theorem valOf_escapes {t : Ty} (ht : t ∈ argumentTypes) {d : Data} {e : HostError} :
    valOf t d = .error e ∧ isMalformed e = false ↔ Overflows t d e := by
  cases t with
  | bool => exact valOf_bool_escapes
  | int => exact valOf_int_escapes
  | float => exact valOf_float_escapes
  | vec2 | vec3 => exact valOf_vector_escapes rfl
  | _ => simp [argumentTypes] at ht

/-! ## Types -/

/-- a number that is written with digits, a sign or a point; no name of a type holds any of the marks -/
theorem mark_mem_write (x : Float) :
    literalLayout.write x ∈ ["nan", "inf", "-inf"] ∨ ∃ c ∈ (literalLayout.write x).toList, c ∈ ['.', '+', '-'] := by
  have hpointed (digits : List Char) (whole : Nat) : '.' ∈ Decimal.pointed digits whole := by
    simp [Decimal.pointed]
  have hdigits (layout : Decimal.Layout) (s : Decimal.Scientific) :
      ∃ c ∈ layout.digitsText s, c ∈ ['.', '+', '-'] := by
    unfold Decimal.Layout.digitsText
    split_ifs
    · exact ⟨'.', hpointed _ _, by simp⟩
    · exact ⟨'.', by simp, by simp⟩
    · exact ⟨'-', by simp, by simp⟩
    · exact ⟨'+', by simp, by simp⟩
  unfold Decimal.Layout.write
  split
  · exact .inl (by simp [literalLayout])
  · rename_i negative _
    cases negative
    · exact .inl (by simp [literalLayout])
    · exact .inl (by decide)
  · rename_i negative mantissa exponent _
    refine .inr ?_
    have hmark : ∃ c ∈ (if mantissa = 0 then ['0', '.', '0']
        else literalLayout.digitsText (Decimal.shortest mantissa exponent)), c ∈ ['.', '+', '-'] := by
      split_ifs
      · exact ⟨'.', by simp, by simp⟩
      · exact hdigits _ _
    obtain ⟨c, hc, hmarks⟩ := hmark
    refine ⟨c, ?_, hmarks⟩
    rw [String.toList_ofList]
    cases negative
    · exact hc
    · exact List.mem_cons_of_mem _ hc

/-- the name of a type is no number, and it has none of the marks that stand in fractions, lists and records -/
theorem typeName_letters {t : Ty} (ht : t ∈ argumentTypes) :
    (∃ c ∈ t.name.toList, c.isDigit = false) ∧ ∀ c ∈ t.name.toList, c ∉ ['.', '+', '-', '[', '{'] := by
  have hletters : (t.name.toList.any (!·.isDigit)) = true ∧
      (t.name.toList.all fun c => decide (c ∉ ['.', '+', '-', '[', '{'])) = true := by
    simp only [argumentTypes, List.mem_cons, List.not_mem_nil, or_false] at ht
    rcases ht with rfl | rfl | rfl | rfl | rfl <;> exact ⟨rfl, rfl⟩
  constructor
  · obtain ⟨c, hc, hdigit⟩ := List.any_eq_true.1 hletters.1
    exact ⟨c, hc, by simpa using hdigit⟩
  · intro c hc
    exact of_decide_eq_true (List.all_eq_true.1 hletters.2 c hc)

/-- data that is no text is not written like the name of a type -/
theorem literal_ne_typeName {d : Data} (hd : ∀ s, d ≠ .text s) {t : Ty} (ht : t ∈ argumentTypes) :
    d.literal? ≠ some t.name := by
  intro h
  obtain ⟨hfirst, hmarks⟩ := typeName_letters ht
  cases d with
  | text s => exact hd s rfl
  | null => cases t <;> simp [Data.literal?, Ty.name] at h
  | bool b => cases b <;> cases t <;> simp [Data.literal?, Ty.name] at h
  | int n =>
    simp only [Data.literal?, Decimal.intText?] at h
    split_ifs at h
    have hname : toString n = t.name := Option.some.inj h
    obtain ⟨c, hc, hdigit⟩ := hfirst
    rw [← hname] at hc hmarks
    cases n with
    | ofNat n =>
      have hrepr : (toString (Int.ofNat n)).toList = Nat.toDigits 10 n := Nat.toList_repr
      rw [hrepr] at hc
      rw [Nat.isDigit_of_mem_toDigits (by decide) (by decide) hc] at hdigit
      cases hdigit
    | negSucc n => exact hmarks '-' (by simp [toString, Int.repr]) (by simp)
  | float x =>
    have hname : literalLayout.write x = t.name := Option.some.inj h
    rcases mark_mem_write x with hword | ⟨c, hc, hmark⟩
    · rw [hname] at hword
      cases t <;> simp [Ty.name] at hword
    · rw [hname] at hc
      refine hmarks c hc ?_
      simp only [List.mem_cons, List.not_mem_nil, or_false] at hmark ⊢
      tauto
  | list items =>
    simp only [Data.literal?, Option.map_eq_some_iff] at h
    obtain ⟨texts, -, hname⟩ := h
    exact hmarks '[' (by rw [← hname]; simp) (by simp)
  | record entries =>
    simp only [Data.literal?, Option.map_eq_some_iff] at h
    obtain ⟨texts, -, hname⟩ := h
    exact hmarks '{' (by rw [← hname]; simp) (by simp)

theorem argumentType_of_word {word : String} {t : Ty} :
    (Ty.ofKeyword? word).filter argumentTypes.contains = some t ↔ word = t.name ∧ t ∈ argumentTypes := by
  rw [Option.filter_eq_some_iff]
  constructor
  · rintro ⟨hfound, hsupported⟩
    have hname : t.name = word := by simpa using List.find?_some hfound
    exact ⟨hname.symm, by simpa using hsupported⟩
  · rintro ⟨rfl, ht⟩
    refine ⟨?_, by simpa using ht⟩
    simp only [argumentTypes, List.mem_cons, List.not_mem_nil, or_false] at ht
    rcases ht with rfl | rfl | rfl | rfl | rfl <;> decide

theorem typeOf?_of_not_text {d : Data} (hd : ∀ s, d ≠ .text s) :
    typeOf? d = (quotedData d).map fun word => (Ty.ofKeyword? word).filter argumentTypes.contains := by
  cases d with
  | text s => exact absurd rfl (hd s)
  | _ =>
    simp only [typeOf?]
    cases quotedData _ <;> rfl

/-- only a text names the type of an argument -/
theorem typeOf?_eq_some {d : Data} {t : Ty} :
    typeOf? d = .ok (some t) ↔ d = .text t.name ∧ t ∈ argumentTypes := by
  by_cases hd : ∃ s, d = .text s
  · obtain ⟨s, rfl⟩ := hd
    have hread : typeOf? (.text s) = .ok ((Ty.ofKeyword? s).filter argumentTypes.contains) := rfl
    rw [hread, Except.ok.injEq, argumentType_of_word, Data.text.injEq]
  · rw [not_exists] at hd
    rw [typeOf?_of_not_text hd]
    constructor
    · intro h
      unfold quotedData at h
      split at h
      · rename_i word hword
        obtain ⟨rfl, ht⟩ := argumentType_of_word.1 (Except.ok.inj h)
        exact absurd hword (literal_ne_typeName hd ht)
      · cases h
    · rintro ⟨rfl, -⟩
      exact absurd rfl (hd t.name)

theorem typeOf?_eq_error {d : Data} {e : HostError} :
    typeOf? d = .error e ↔ (∀ s, d ≠ .text s) ∧ d.literal? = none ∧ e = .tooManyDigits := by
  by_cases hd : ∃ s, d = .text s
  · obtain ⟨s, rfl⟩ := hd
    constructor
    · nofun
    · rintro ⟨htext, -⟩
      exact absurd rfl (htext s)
  · rw [not_exists] at hd
    rw [typeOf?_of_not_text hd]
    unfold quotedData
    cases d.literal? with
    | some word => simp [Except.map]
    | none => simp [Except.map, hd, eq_comm]

/-! ## Records -/

theorem Represents.type_eq {t : Ty} {d : Data} {v : Val} (h : Represents t d v) : v.type = t := by
  cases h <;> rfl

theorem Headed.unique {d : Data} {name name' : String} {t t' : Ty} (h : Headed d name t) (h' : Headed d name' t') :
    name = name' ∧ t = t' := by
  have hname : some (Data.text name) = some (.text name') := h.name.symm.trans h'.name
  have htype : some (Data.text t.name) = some (.text t'.name) := h.type.symm.trans h'.type
  refine ⟨by simpa using hname, ?_⟩
  cases t <;> cases t' <;> simp [Ty.name] at htype ⊢

/-- nothing represents what is not there -/
theorem represents_given {t : Ty} {given? : Option Data} {v : Val} :
    Represents t (given?.getD .null) v ↔ ∃ given, given? = some given ∧ Represents t given v := by
  cases given? with
  | none =>
    constructor
    · nofun
    · rintro ⟨given, h, -⟩
      cases h
  | some given => simp

theorem overflows_given {t : Ty} {given? : Option Data} {e : HostError} :
    Overflows t (given?.getD .null) e ↔ ∃ given, given? = some given ∧ Overflows t given e := by
  cases given? with
  | none =>
    constructor
    · nofun
    · rintro ⟨given, h, -⟩
      cases h
  | some given => simp

/-- a record without a name costs a warning, whatever else it holds -/
theorem argumentOf_unnamed {d : Data} (h : ∀ name, name ≠ "" → d.get? "name" ≠ some (.text name)) :
    ∃ message, argumentOf d = .ok (.inr (warning message)) := by
  cases d with
  | record entries =>
    simp only [argumentOf]
    split
    · rename_i name hname
      have hempty : name.isEmpty = true := by
        by_contra hfull
        exact h name (fun h => hfull (by simp [h])) hname
      rw [if_pos hempty]
      exact ⟨_, rfl⟩
    · exact ⟨_, rfl⟩
  | _ => exact ⟨_, rfl⟩

/-- a record with a name is judged by its type first -/
theorem argumentOf_named {d : Data} {name : String} (hname : d.get? "name" = some (.text name)) (hne : name ≠ "") :
    argumentOf d = typeOf? ((d.get? "type").getD (.text "")) >>= fun
      | none => .ok (.inr (warning ("Invalid type for generator arg " ++ name ++ ": " ++
          loggedData ((d.get? "type").getD .null))))
      | some type => match valOf type ((d.get? "val").getD .null) with
        | .ok v => .ok (.inl ⟨name, v⟩)
        | .error e =>
          if isMalformed e then .ok (.inr (warning ("Invalid value for generator arg " ++ name ++ ": " ++ e.message)))
          else .error e := by
  have hfull : name.isEmpty = false := by simpa using hne
  cases d with
  | record entries =>
    simp only [argumentOf, hname, hfull, Bool.false_eq_true, if_false]
    rfl
  | _ => cases hname

/-- a record with a name and a type is judged by its value -/
theorem argumentOf_headed {d : Data} {name : String} {t : Ty} (h : Headed d name t) :
    argumentOf d = match valOf t ((d.get? "val").getD .null) with
      | .ok v => .ok (.inl ⟨name, v⟩)
      | .error e =>
        if isMalformed e then .ok (.inr (warning ("Invalid value for generator arg " ++ name ++ ": " ++ e.message)))
        else .error e := by
  have htype : typeOf? ((d.get? "type").getD (.text "")) = .ok (some t) := by
    rw [h.type]
    exact typeOf?_eq_some.2 ⟨rfl, h.supported⟩
  rw [argumentOf_named h.name h.named, htype]
  rfl

/-- a record without a name or a type costs a warning, or its type cannot be written out -/
theorem argumentOf_not_headed {d : Data} (h : ∀ name t, ¬Headed d name t) :
    (∃ message, argumentOf d = .ok (.inr (warning message)) ∧ ∀ e, ¬Escapes d e) ∨
      (argumentOf d = .error .tooManyDigits ∧ Escapes d .tooManyDigits) := by
  by_cases hnamed : ∀ name, name ≠ "" → d.get? "name" ≠ some (.text name)
  · obtain ⟨message, hskipped⟩ := argumentOf_unnamed hnamed
    refine .inl ⟨message, hskipped, fun e he => ?_⟩
    cases he with
    | type hname hne => exact hnamed _ hne hname
    | value hheaded => exact h _ _ hheaded
  push Not at hnamed
  obtain ⟨name, hne, hname⟩ := hnamed
  rw [argumentOf_named hname hne]
  rcases htype : typeOf? ((d.get? "type").getD (.text "")) with e | t?
  · obtain ⟨htext, hlong, rfl⟩ := typeOf?_eq_error.1 htype
    refine .inr ⟨rfl, ?_⟩
    rcases hgiven : d.get? "type" with _ | type
    · rw [hgiven] at htext
      exact absurd rfl (htext "")
    · rw [hgiven] at hlong
      exact .type hname hne hgiven hlong
  · cases t? with
    | some t =>
      obtain ⟨hword, ht⟩ := typeOf?_eq_some.1 htype
      refine absurd ⟨hname, hne, ?_, ht⟩ (h name t)
      rcases hgiven : d.get? "type" with _ | type
      · rw [hgiven] at hword
        cases t <;> simp [Ty.name] at hword
      · rw [hgiven] at hword
        exact congrArg some hword
    | none =>
      refine .inl ⟨_, rfl, fun e he => ?_⟩
      cases he with
      | @type _ type _ _ hgiven hlong =>
        rw [hgiven] at htype
        have hfails : typeOf? type = .error .tooManyDigits :=
          typeOf?_eq_error.2 ⟨fun s hs => absurd (hs ▸ hlong) nofun, hlong, rfl⟩
        exact absurd (htype.symm.trans hfails) nofun
      | value hheaded => exact h _ _ hheaded

/-- a record becomes exactly the argument that it describes -/
theorem argumentOf_eq_argument {d : Data} {a : Argument} : argumentOf d = .ok (.inl a) ↔ Describes d a := by
  by_cases hheaded : ∃ name t, Headed d name t
  · obtain ⟨name, t, h⟩ := hheaded
    rw [argumentOf_headed h]
    constructor
    · intro hread
      split at hread
      · rename_i v hv
        have hrepresents : Represents t ((d.get? "val").getD .null) v := (valOf_eq_ok h.supported).1 hv
        obtain rfl : v.type = t := hrepresents.type_eq
        cases hread
        exact ⟨h, represents_given.1 hrepresents⟩
      · split_ifs at hread
        cases hread
    · rintro ⟨hown, hvalue⟩
      obtain ⟨rfl, rfl⟩ := h.unique hown
      rw [(valOf_eq_ok hown.supported).2 (represents_given.2 hvalue)]
  · simp only [not_exists] at hheaded
    constructor
    · intro hread
      rcases argumentOf_not_headed hheaded with ⟨message, hskipped, -⟩ | ⟨hfails, -⟩
      · exact absurd (hread.symm.trans hskipped) nofun
      · exact absurd (hread.symm.trans hfails) nofun
    · intro hdescribes
      exact absurd hdescribes.headed (hheaded _ _)

/-- reading a record fails exactly if the record escapes -/
theorem argumentOf_eq_error {d : Data} {e : HostError} : argumentOf d = .error e ↔ Escapes d e := by
  by_cases hheaded : ∃ name t, Headed d name t
  · obtain ⟨name, t, h⟩ := hheaded
    rw [argumentOf_headed h]
    constructor
    · intro hread
      split at hread
      · cases hread
      · rename_i hfails
        split_ifs at hread with hmalformed
        cases hread
        have hescapes : isMalformed e = false := by simpa using hmalformed
        obtain ⟨given, hgiven, hoverflows⟩ := overflows_given.1 ((valOf_escapes h.supported).1 ⟨hfails, hescapes⟩)
        exact .value h hgiven hoverflows
    · intro hescapes
      cases hescapes with
      | type _ _ htype hlong =>
        rw [h.type] at htype
        cases htype
        cases hlong
      | value hown hgiven hoverflows =>
        obtain ⟨rfl, rfl⟩ := h.unique hown
        obtain ⟨hfails, hescapes⟩ := (valOf_escapes h.supported).2 (overflows_given.2 ⟨_, hgiven, hoverflows⟩)
        simp [hfails, hescapes]
  · simp only [not_exists] at hheaded
    rcases argumentOf_not_headed hheaded with ⟨message, hskipped, hnone⟩ | ⟨hfails, hescapes⟩
    · rw [hskipped]
      exact ⟨nofun, fun h => absurd h (hnone e)⟩
    · rw [hfails]
      constructor
      · intro h
        cases h
        exact hescapes
      · intro h
        cases h with
        | type => rfl
        | value hown => exact absurd hown (hheaded _ _)

/-- whatever is logged about a record is a warning -/
theorem warning_of_argumentOf {d : Data} {w : Record} (h : argumentOf d = .ok (.inr w)) :
    ∃ message, w = warning message := by
  by_cases hheaded : ∃ name t, Headed d name t
  · obtain ⟨name, t, hown⟩ := hheaded
    rw [argumentOf_headed hown] at h
    split at h
    · cases h
    · split_ifs at h
      cases h
      exact ⟨_, rfl⟩
  · simp only [not_exists] at hheaded
    rcases argumentOf_not_headed hheaded with ⟨message, hskipped, -⟩ | ⟨hfails, -⟩
    · rw [hskipped] at h
      cases h
      exact ⟨message, rfl⟩
    · exact absurd (h.symm.trans hfails) nofun

/-! ## Lists of records -/

theorem argumentsOf_kept {d : Data} {a : Argument} (h : argumentOf d = .ok (.inl a)) (ds : List Data) :
    argumentsOf (d :: ds) = ((argumentsOf ds).1.map (a :: ·), (argumentsOf ds).2) := by
  rw [argumentsOf, h]

theorem argumentsOf_skipped {d : Data} {w : Record} (h : argumentOf d = .ok (.inr w)) (ds : List Data) :
    argumentsOf (d :: ds) = ((argumentsOf ds).1, w :: (argumentsOf ds).2) := by
  rw [argumentsOf, h]

theorem argumentsOf_failed {d : Data} {e : HostError} (h : argumentOf d = .error e) (ds : List Data) :
    argumentsOf (d :: ds) = (.error e, []) := by
  rw [argumentsOf, h]

/-- **Reading records.** If no record escapes, reading the records gives exactly the arguments that they describe, in
order, and one warning for every record that describes none. Otherwise it fails the way the first record does that
escapes, with the warnings about the records in front of it. -/
theorem records_are_read (records : List Data) :
    (∃ arguments warnings, ofData (.list records) = (.ok arguments, warnings) ∧
        Reading records arguments warnings ∧ ∀ d ∈ records, ∀ e, ¬Escapes d e) ∨
      ∃ before d after e arguments warnings, records = before ++ d :: after ∧
        ofData (.list records) = (.error e, warnings) ∧ Escapes d e ∧
        Reading before arguments warnings ∧ ∀ d ∈ before, ∀ e, ¬Escapes d e := by
  change (∃ arguments warnings, argumentsOf records = _ ∧ _) ∨ ∃ before d after e arguments warnings, _ ∧
    argumentsOf records = _ ∧ _
  induction records with
  | nil => exact .inl ⟨[], [], rfl, .done, by simp⟩
  | cons d records ih =>
    -- a record that is read adds an argument or a warning, whatever the reading of the others comes to
    have hread (add : List Argument → List Argument) (log : List Record → List Record)
        (hnone : ∀ e, ¬Escapes d e)
        (hrun : argumentsOf (d :: records) = ((argumentsOf records).1.map add, log (argumentsOf records).2))
        (hreads : ∀ ds arguments warnings, Reading ds arguments warnings →
          Reading (d :: ds) (add arguments) (log warnings)) :
        (∃ arguments warnings, argumentsOf (d :: records) = (.ok arguments, warnings) ∧
            Reading (d :: records) arguments warnings ∧ ∀ d' ∈ d :: records, ∀ e, ¬Escapes d' e) ∨
          ∃ before d' after e arguments warnings, d :: records = before ++ d' :: after ∧
            argumentsOf (d :: records) = (.error e, warnings) ∧ Escapes d' e ∧
            Reading before arguments warnings ∧ ∀ d'' ∈ before, ∀ e, ¬Escapes d'' e := by
      rw [hrun]
      rcases ih with ⟨arguments, warnings, hrest, hreading, hothers⟩ |
        ⟨before, d', after, e, arguments, warnings, rfl, hrest, hescapes, hreading, hothers⟩
      · rw [hrest]
        exact .inl ⟨add arguments, log warnings, rfl, hreads _ _ _ hreading, List.forall_mem_cons.2 ⟨hnone, hothers⟩⟩
      · rw [hrest]
        exact .inr ⟨d :: before, d', after, e, add arguments, log warnings, rfl, rfl, hescapes, hreads _ _ _ hreading,
          List.forall_mem_cons.2 ⟨hnone, hothers⟩⟩
    have hcalm {read : Argument ⊕ Record} (h : argumentOf d = .ok read) (e : HostError) : ¬Escapes d e :=
      fun he => absurd (h.symm.trans (argumentOf_eq_error.2 he)) nofun
    rcases hargument : argumentOf d with e | a | w
    · exact .inr ⟨[], d, records, e, [], [], rfl, argumentsOf_failed hargument records,
        argumentOf_eq_error.1 hargument, .done, by simp⟩
    · have hdescribes : Describes d a := argumentOf_eq_argument.1 hargument
      exact hread (a :: ·) id (hcalm hargument) (argumentsOf_kept hargument records) fun _ _ _ => .kept hdescribes
    · have hnot (a : Argument) : ¬Describes d a :=
        fun ha => absurd (hargument.symm.trans (argumentOf_eq_argument.2 ha)) nofun
      obtain ⟨message, rfl⟩ := warning_of_argumentOf hargument
      have hrun : argumentsOf (d :: records) =
          ((argumentsOf records).1.map id, warning message :: (argumentsOf records).2) := by
        rw [argumentsOf_skipped hargument records, Except.map_id]
        rfl
      exact hread id (warning message :: ·) (hcalm hargument) hrun fun _ _ _ => .skipped hnot rfl rfl

/-- a record of a level that holds a number beyond the range of its type ends the reading: it describes no argument, but
there is no warning, and the well-formed record behind it is not read -/
theorem large_number_ends_reading :
    let large := Data.record [("name", .text "a"), ("type", .text "float"), ("val", .int (10 ^ 400))]
    let small := Data.record [("name", .text "b"), ("type", .text "bool"), ("val", .bool true)]
    (∀ a, ¬Describes large a) ∧ Describes small ⟨"b", .bool true⟩ ∧
      ofData (.list [large, small]) = (.error .intTooLarge, []) := by
  intro large small
  have hlarge : Decimal.ofInt? (10 ^ 400) = none := by decide +kernel
  have hheaded : Headed large "a" .float := ⟨rfl, by decide, rfl, by decide⟩
  have hescapes : Escapes large .intTooLarge := .value hheaded rfl (.large hlarge)
  have hfails : argumentOf large = .error .intTooLarge := argumentOf_eq_error.2 hescapes
  have hsmall : Headed small "b" .bool := ⟨rfl, by decide, rfl, by decide⟩
  refine ⟨?_, ⟨hsmall, .bool true, rfl, .truth true⟩, argumentsOf_failed hfails [small]⟩
  intro a ha
  have hread : argumentOf large = .ok (.inl a) := argumentOf_eq_argument.2 ha
  rw [hfails] at hread
  cases hread

end LevelScript.Generator
