/-
Arguments by name.

Of several arguments with one name the last one counts. `find?` is all that binding looks at (`bind_congr`), so a
development that knows what the operations on lists of arguments do to `find?` knows what they do to a call: putting two
lists behind each other, putting one argument in its place, and merging each have one equation here. Binding succeeds
exactly with the values of the arguments that are found, each of the type of its parameter.
-/
import LevelScript.Proofs.RecordReading
import LevelScript.Proofs.TypedFrames

namespace LevelScript.Generator

def names (arguments : List Argument) : List String :=
  arguments.map (·.name)

variable {arguments others : List Argument} {a : Argument} {name : String}

/-- where no key stands twice, the last item of a key is the only one -/
theorem reverse_find?_eq_some {α : Type} {key : α → String} {l : List α} (hnodup : (l.map key).Nodup) {k : String}
    {x : α} : l.reverse.find? (key · = k) = some x ↔ x ∈ l ∧ key x = k := by
  constructor
  · intro h
    exact ⟨List.mem_reverse.1 (List.mem_of_find?_eq_some h), by simpa using List.find?_some h⟩
  · rintro ⟨hx, rfl⟩
    obtain ⟨y, hy⟩ : ∃ y, l.reverse.find? (key · = key x) = some y := by
      rw [← Option.isSome_iff_exists, List.find?_isSome]
      exact ⟨x, List.mem_reverse.2 hx, by simp⟩
    have hkey : key y = key x := by simpa using List.find?_some hy
    rw [hy, List.inj_on_of_nodup_map hnodup (List.mem_reverse.1 (List.mem_of_find?_eq_some hy)) hx hkey]

/-! ## The last argument of a name -/

@[simp] theorem find?_nil (name : String) : find? [] name = none := rfl

theorem find?_append (xs ys : List Argument) (name : String) :
    find? (xs ++ ys) name = (find? ys name).or (find? xs name) := by
  simp only [find?, List.reverse_append, List.find?_append]

theorem find?_cons (a : Argument) (rest : List Argument) (name : String) :
    find? (a :: rest) name = (find? rest name).or (if a.name = name then some a else none) := by
  simp [find?, List.find?_append, List.find?_cons]
  split <;> simp_all

theorem find?_eq_none : find? arguments name = none ↔ name ∉ names arguments := by
  simp [find?, names]

theorem mem_of_find? (h : find? arguments name = some a) : a ∈ arguments ∧ a.name = name :=
  ⟨List.mem_reverse.1 (List.mem_of_find?_eq_some h), by simpa using List.find?_some h⟩

/-- where no name stands twice, each argument is the last one of its name -/
theorem find?_of_mem (hnodup : (names arguments).Nodup) (ha : a ∈ arguments) : find? arguments a.name = some a :=
  (reverse_find?_eq_some hnodup).2 ⟨ha, rfl⟩

/-- only arguments of the name count -/
theorem find?_filter (arguments : List Argument) (name : String) :
    find? (arguments.filter (·.name = name)) name = find? arguments name := by
  simp [find?, ← List.filter_reverse, List.find?_filter]

/-- where no name stands twice, the order does not matter -/
theorem find?_perm (hnodup : (names arguments).Nodup) (h : arguments.Perm others) (name : String) :
    find? others name = find? arguments name := by
  have hnames : (names arguments).Perm (names others) := h.map Argument.name
  have hnodup' : (names others).Nodup := hnames.nodup_iff.1 hnodup
  rcases hfound : find? arguments name with _ | a
  · rw [find?_eq_none] at hfound ⊢
    exact fun hmem => hfound (hnames.mem_iff.2 hmem)
  · obtain ⟨ha, rfl⟩ := mem_of_find? hfound
    exact find?_of_mem hnodup' (h.mem_iff.1 ha)

/-! ## Merging -/

theorem names_put (a : Argument) (l : List Argument) :
    names (put a l) = if a.name ∈ names l then names l else names l ++ [a.name] := by
  induction l with
  | nil => rfl
  | cons b l ih =>
    unfold put
    split_ifs with hb hmem hmem
    · exact congrArg (· :: names l) hb.symm
    · exact absurd (hb ▸ List.mem_cons_self) hmem
    · have hin : a.name ∈ names l := (List.mem_cons.1 hmem).resolve_left (Ne.symm hb)
      rw [if_pos hin] at ih
      exact congrArg (b.name :: ·) ih
    · have hout : a.name ∉ names l := fun h => hmem (List.mem_cons_of_mem _ h)
      rw [if_neg hout] at ih
      exact congrArg (b.name :: ·) ih

theorem nodup_put {l : List Argument} (h : (names l).Nodup) (a : Argument) : (names (put a l)).Nodup := by
  rw [names_put]
  split_ifs with hmem
  · exact h
  · exact List.nodup_append.2 ⟨h, List.nodup_singleton _, fun x hx y hy hxy => by simp_all⟩

/-- an argument that is put in its place is the last one of its name, and no other changes -/
theorem find?_put {l : List Argument} (h : (names l).Nodup) (a : Argument) (name : String) :
    find? (put a l) name = if a.name = name then some a else find? l name := by
  induction l with
  | nil => simp [put, find?_cons]
  | cons b l ih =>
    obtain ⟨hb, hl⟩ := List.nodup_cons.1 h
    unfold put
    split_ifs with hsame hname hname
    · rw [find?_cons, if_pos hname, ← hname, ← hsame, find?_eq_none.2 hb]
      rfl
    · rw [find?_cons, find?_cons, if_neg hname, if_neg (hsame ▸ hname)]
    · rw [find?_cons, ih hl, if_pos hname, Option.some_or]
    · rw [find?_cons, ih hl, if_neg hname, find?_cons]

/-- putting arguments in their places one after the other keeps each name once, with what was put last -/
theorem find?_puts {l : List Argument} (h : (names l).Nodup) (added : List Argument) (name : String) :
    (names (added.foldl (fun merged a => put a merged) l)).Nodup ∧
      find? (added.foldl (fun merged a => put a merged) l) name = (find? added name).or (find? l name) := by
  induction added generalizing l with
  | nil => exact ⟨h, rfl⟩
  | cons a added ih =>
    obtain ⟨hnodup, hfind⟩ := ih (nodup_put h a)
    refine ⟨hnodup, ?_⟩
    rw [List.foldl_cons, hfind, find?_put h, find?_cons, Option.or_assoc]
    split_ifs <;> rfl

/-- in a merged list every name stands once -/
theorem nodup_merge (base overrides : List Argument) : (names (merge base overrides)).Nodup :=
  (find?_puts (l := []) List.nodup_nil (base ++ overrides) "").1

/-- an override counts before the list that it is merged into -/
theorem find?_merge (base overrides : List Argument) (name : String) :
    find? (merge base overrides) name = (find? overrides name).or (find? base name) := by
  rw [merge, (find?_puts (l := []) List.nodup_nil _ name).2, find?_nil, Option.or_none, find?_append]

/-! ## Binding -/

/-- the arguments give a parameter a value: that of the last argument with its name, which has its type -/
def Gives (arguments : List Argument) (p : Parameter) (v : Val) : Prop :=
  ∃ a, find? arguments p.name = some a ∧ a.type = p.type ∧ a.val = v

theorem Gives.type_eq {p : Parameter} {v : Val} (h : Gives arguments p v) : v.type = p.type := by
  obtain ⟨a, -, htype, rfl⟩ := h
  exact htype

/-- the arguments cannot be bound to the parameter: none has its name, or the last one of that name has another type -/
inductive Unbound (arguments : List Argument) (p : Parameter) : Cause → Prop
  | missing : find? arguments p.name = none → Unbound arguments p (.missingArgument p.name)
  | mistyped {a : Argument} : find? arguments p.name = some a → a.type ≠ p.type →
      Unbound arguments p (.argumentType p.name p.type a.type)

/-- the value of one parameter -/
def bindOne (arguments : List Argument) (p : Parameter) : Except Cause Val :=
  match find? arguments p.name with
  | none => .error (.missingArgument p.name)
  | some a => if a.type = p.type then .ok a.val else .error (.argumentType p.name p.type a.type)

theorem bind_eq_mapM (params : List Parameter) (arguments : List Argument) :
    bind params arguments = params.mapM (bindOne arguments) := rfl

theorem bindOne_eq_ok {p : Parameter} {v : Val} : bindOne arguments p = .ok v ↔ Gives arguments p v := by
  unfold bindOne Gives
  rcases find? arguments p.name with _ | a
  · simp
  · by_cases htype : a.type = p.type <;> simp [htype]

theorem bindOne_eq_error {p : Parameter} {cause : Cause} :
    bindOne arguments p = .error cause ↔ Unbound arguments p cause := by
  unfold bindOne
  constructor
  · intro h
    split at h
    · rename_i hnone
      cases h
      exact .missing hnone
    · rename_i a hfound
      split_ifs at h with htype
      cases h
      exact .mistyped hfound htype
  · intro h
    cases h with
    | missing hnone => rw [hnone]
    | mistyped hfound htype => simp only [hfound, if_neg htype]

/-- binding succeeds exactly with the values that the arguments give the parameters -/
theorem bind_eq_ok {params : List Parameter} {values : List Val} :
    bind params arguments = .ok values ↔ List.Forall₂ (Gives arguments) params values := by
  rw [bind_eq_mapM, mapM_eq_ok]
  simp only [bindOne_eq_ok]

/-- binding fails exactly at the first parameter that the arguments give no value -/
theorem bind_eq_error {params : List Parameter} {cause : Cause} :
    bind params arguments = .error cause ↔
      ∃ before p after, params = before ++ p :: after ∧ (∀ q ∈ before, ∃ v, Gives arguments q v) ∧
        Unbound arguments p cause := by
  rw [bind_eq_mapM, mapM_eq_error]
  simp only [bindOne_eq_ok, bindOne_eq_error]

/-- values that arguments give the parameters of a function suit it -/
theorem suits_of_bind {params : List Syntax.Param} {values : List Val}
    (h : bind (parametersOf params) arguments = .ok values) : Suits values params := by
  rw [bind_eq_ok, parametersOf, List.forall₂_map_left_iff] at h
  exact h.flip.imp fun _ _ hgives => Gives.type_eq hgives

/-- binding looks only at the last argument of each parameter's name -/
theorem bind_congr {params : List Parameter} (h : ∀ p ∈ params, find? others p.name = find? arguments p.name) :
    bind params others = bind params arguments := by
  rw [bind_eq_mapM, bind_eq_mapM]
  induction params with
  | nil => rfl
  | cons p params ih =>
    obtain ⟨hp, hrest⟩ := List.forall_mem_cons.1 h
    rw [List.mapM_cons, List.mapM_cons, ih hrest, bindOne, hp, bindOne]

end LevelScript.Generator
