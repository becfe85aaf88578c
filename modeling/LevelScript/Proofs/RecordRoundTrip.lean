/-
Arguments written as records and read back.

The writer tags each value with the name of its type, and the reader converts by that tag alone. `Describes` is where the
two meet: the record of an argument describes the argument (`describes_of_recordOf`), and records that describe arguments
are read as them without a warning (`argumentsOf_described`). The other way round an argument that was read has a name
and a type that can be written (`Reading.writable`), so what was read once is stable. `records_round_trip` puts both
together.
-/
import LevelScript.Proofs.RecordReading

namespace LevelScript.Generator

/-- an argument that a level can hold: it has a name, and its value has one of the types of arguments -/
structure Writable (a : Argument) : Prop where
  named : a.name ≠ ""
  supported : a.type ∈ argumentTypes

theorem Describes.writable {d : Data} {a : Argument} (h : Describes d a) : Writable a :=
  ⟨h.headed.named, h.headed.supported⟩

/-! ## Writing -/

/-- a value of the type of an argument is written as data that represents it -/
theorem represents_toData (h : Heap) {v : Val} (hv : v.type ∈ argumentTypes) :
    ∃ given, h.toData maxListDepth v = .ok given ∧ Represents v.type given v := by
  cases v with
  | bool b => exact ⟨.bool b, rfl, .truth b⟩
  | int n => exact ⟨.int n, rfl, .whole n⟩
  | float x => exact ⟨.float x, rfl, .real x⟩
  | vec2 x y => exact ⟨.list [.float x, .float y], rfl, .pair (.real x) (.real y)⟩
  | vec3 x y z => exact ⟨.list [.float x, .float y, .float z], rfl, .triple (.real x) (.real y) (.real z)⟩
  | _ => simp [Val.type, argumentTypes] at hv

/-- the record of an argument describes it -/
theorem describes_of_recordOf (h : Heap) {a : Argument} (ha : Writable a) :
    ∃ d, recordOf h a = .ok d ∧ Describes d a := by
  obtain ⟨given, hgiven, hrepresents⟩ := represents_toData h ha.supported
  have hwritten : recordOf h a =
      .ok (.record [("name", .text a.name), ("type", .text a.type.name), ("val", given)]) := by
    simp only [recordOf, List.contains_iff_mem.2 ha.supported, if_true, hgiven]
    rfl
  exact ⟨_, hwritten, ⟨rfl, ha.named, rfl, ha.supported⟩, given, rfl, hrepresents⟩

/-- writing succeeds, with one record for every argument -/
theorem toData_describes (h : Heap) {arguments : List Argument} (ha : ∀ a ∈ arguments, Writable a) :
    ∃ records, toData h arguments = .ok records ∧ List.Forall₂ Describes records arguments := by
  obtain ⟨records, hall⟩ := exists_forall₂ fun a hmem => describes_of_recordOf h (ha a hmem)
  have hwritten : List.Forall₂ (fun a d => recordOf h a = .ok d) arguments records := hall.imp fun _ _ hd => hd.1
  have hdescribes : List.Forall₂ (fun a d => Describes d a) arguments records := hall.imp fun _ _ hd => hd.2
  exact ⟨records, mapM_eq_ok.2 hwritten, hdescribes.flip⟩

/-! ## Reading -/

/-- records that describe arguments are read as them, and nothing is logged -/
theorem argumentsOf_described {records : List Data} {arguments : List Argument}
    (h : List.Forall₂ Describes records arguments) : argumentsOf records = (.ok arguments, []) := by
  induction h with
  | nil => rfl
  | @cons d a records arguments hdescribes _ ih =>
    rw [argumentsOf_kept (argumentOf_eq_argument.2 hdescribes), ih]
    rfl

/-- whatever was read can be written -/
theorem Reading.writable {records : List Data} {arguments : List Argument} {warnings : List Record}
    (h : Reading records arguments warnings) : ∀ a ∈ arguments, Writable a := by
  induction h with
  | done => simp
  | kept hdescribes _ ih => exact List.forall_mem_cons.2 ⟨hdescribes.writable, ih⟩
  | skipped _ _ _ _ ih => exact ih

/-- a reading that comes to an end has gone through the records one by one -/
theorem reading_of_argumentsOf {records : List Data} {arguments : List Argument} {warnings : List Record}
    (h : argumentsOf records = (.ok arguments, warnings)) : Reading records arguments warnings := by
  induction records generalizing arguments warnings with
  | nil =>
    cases h
    exact .done
  | cons d records ih =>
    rcases hread : argumentOf d with e | a | w
    · rw [argumentsOf_failed hread] at h
      cases h
    all_goals rcases hrest : argumentsOf records with ⟨e | others, logged⟩
    · rw [argumentsOf_kept hread, hrest] at h
      cases h
    · rw [argumentsOf_kept hread, hrest] at h
      cases h
      exact .kept (argumentOf_eq_argument.1 hread) (ih hrest)
    · rw [argumentsOf_skipped hread, hrest] at h
      cases h
    · rw [argumentsOf_skipped hread, hrest] at h
      cases h
      obtain ⟨message, rfl⟩ := warning_of_argumentOf hread
      have hnot (a : Argument) (ha : Describes d a) : False := by
        rw [argumentOf_eq_argument.2 ha] at hread
        cases hread
      exact .skipped hnot rfl rfl (ih hrest)

theorem recordsOf_of_ofData {d : Data} {arguments : List Argument} {warnings : List Record}
    (h : ofData d = (.ok arguments, warnings)) :
    ∃ records, recordsOf d = .ok records ∧ argumentsOf records = (.ok arguments, warnings) := by
  unfold ofData at h
  split at h
  · rename_i records hrecords
    exact ⟨records, hrecords, h⟩
  · cases h

/-- **Round trip of records.** Arguments with a name and a type of arguments are written without failure, and reading
what was written gives back the same arguments in the same order and no warning. So whatever reading gives is stable:
writing it and reading it again changes nothing. -/
theorem records_round_trip (h : Heap) :
    (∀ arguments, (∀ a ∈ arguments, a.name ≠ "" ∧ a.type ∈ argumentTypes) →
      ∃ records, toData h arguments = .ok records ∧ ofData (.list records) = (.ok arguments, [])) ∧
    ∀ d arguments warnings, ofData d = (.ok arguments, warnings) →
      ∃ records, toData h arguments = .ok records ∧ ofData (.list records) = (.ok arguments, []) := by
  have hback (arguments : List Argument) (ha : ∀ a ∈ arguments, Writable a) :
      ∃ records, toData h arguments = .ok records ∧ ofData (.list records) = (.ok arguments, []) := by
    obtain ⟨records, hwritten, hdescribes⟩ := toData_describes h ha
    exact ⟨records, hwritten, argumentsOf_described hdescribes⟩
  constructor
  · exact fun arguments ha => hback arguments fun a hmem => ⟨(ha a hmem).1, (ha a hmem).2⟩
  · intro d arguments warnings hread
    obtain ⟨records, -, harguments⟩ := recordsOf_of_ofData hread
    exact hback arguments (reading_of_argumentsOf harguments).writable

/-- a number beyond the range of floating point, a vector with an infinite component, a value that is no number, and a
name that stands twice all come back; a whole number that was read as a floating-point one is written as that -/
theorem records_round_trip_of_extremes :
    let arguments : List Argument :=
      [⟨"n", .int (10 ^ 200 * 10 ^ 200)⟩, ⟨"x", .float (0.0 / 0.0)⟩, ⟨"v", .vec3 1.5 (1.0 / 0.0) 0.0⟩, ⟨"n", .bool true⟩]
    let whole := Data.record [("name", .text "n"), ("type", .text "float"), ("val", .int 1)]
    let given := Data.list [.null, whole]
    (∀ a ∈ arguments, a.name ≠ "" ∧ a.type ∈ argumentTypes) ∧
      (∃ records, toData {} arguments = .ok records ∧ ofData (.list records) = (.ok arguments, [])) ∧
      ∃ x, Decimal.ofInt? 1 = some x ∧
        ofData given = (.ok [⟨"n", .float x⟩], [warning "Skipping generator arg that is not a mapping: None"]) ∧
        ∃ records, toData {} [⟨"n", .float x⟩] = .ok records ∧ ofData (.list records) = (.ok [⟨"n", .float x⟩], []) := by
  intro arguments whole given
  have ha : ∀ a ∈ arguments, a.name ≠ "" ∧ a.type ∈ argumentTypes := by
    simp [arguments, Argument.type, Val.type, argumentTypes]
  obtain ⟨x, hx⟩ : ∃ x, Decimal.ofInt? 1 = some x := Option.isSome_iff_exists.1 (by decide +kernel)
  have hheaded : Headed whole "n" .float := ⟨rfl, by decide, rfl, by decide⟩
  have hwhole : argumentOf whole = .ok (.inl ⟨"n", .float x⟩) :=
    argumentOf_eq_argument.2 ⟨hheaded, .int 1, rfl, .widened hx⟩
  have hskipped : argumentOf .null = .ok (.inr (warning "Skipping generator arg that is not a mapping: None")) := rfl
  have hread : ofData given =
      (.ok [⟨"n", .float x⟩], [warning "Skipping generator arg that is not a mapping: None"]) := by
    have hlist : ofData given = argumentsOf [.null, whole] := rfl
    rw [hlist, argumentsOf_skipped hskipped, argumentsOf_kept hwhole]
    rfl
  exact ⟨ha, (records_round_trip {}).1 arguments ha, x, hx, hread, (records_round_trip {}).2 given _ _ hread⟩

end LevelScript.Generator
