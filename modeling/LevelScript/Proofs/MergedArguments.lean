/-
Merged arguments: the last writer wins.

A merged list is known from the order of its names and from what is found under each of them (`eq_of_names_of_find?`). The
names are those of both lists, each at its first place, which is what `List.eraseDups` leaves of them; and what is found is
what the last argument of that name says. Every law of merging is therefore one law about `eraseDups` and one about `find?`.
-/
import LevelScript.Proofs.NamedArguments

namespace LevelScript.Generator

/-! ## First occurrences -/

section Firsts

variable {α : Type} [BEq α] [LawfulBEq α] (xs ys : List α) (x : α)

/-- one more item is left only if it stands nowhere before -/
theorem eraseDups_concat [Decidable (x ∈ xs)] :
    (xs ++ [x]).eraseDups = if x ∈ xs then xs.eraseDups else xs.eraseDups ++ [x] := by
  rw [List.eraseDups_append]
  split_ifs with hx <;> simp [List.removeAll, List.eraseDups_cons, hx]

/-- repetitions inside the second of two lists are repetitions in both together -/
theorem eraseDups_append_eraseDups : (xs ++ ys.eraseDups).eraseDups = (xs ++ ys).eraseDups := by
  classical
  induction ys using List.reverseRecOn with
  | nil => rfl
  | append_singleton ys y ih =>
    rw [← List.append_assoc, eraseDups_concat (xs ++ ys), ← ih, eraseDups_concat ys]
    by_cases hy : y ∈ ys
    · rw [if_pos hy, if_pos (List.mem_append_right xs hy)]
    · rw [if_neg hy, ← List.append_assoc, eraseDups_concat (xs ++ ys.eraseDups)]
      simp only [List.mem_append, List.mem_eraseDups]

/-- repetitions inside the first of two lists are repetitions in both together -/
theorem eraseDups_eraseDups_append : (xs.eraseDups ++ ys).eraseDups = (xs ++ ys).eraseDups := by
  classical
  induction ys using List.reverseRecOn with
  | nil => simpa using eraseDups_append_eraseDups [] xs
  | append_singleton ys y ih =>
    rw [← List.append_assoc, ← List.append_assoc, eraseDups_concat (xs ++ ys), eraseDups_concat (xs.eraseDups ++ ys), ih]
    simp only [List.mem_append, List.mem_eraseDups]

theorem eraseDups_append_self : (xs ++ xs).eraseDups = xs.eraseDups := by
  have hnone : xs.removeAll xs = [] := by simp [List.removeAll]
  rw [List.eraseDups_append, hnone, List.eraseDups_nil, List.append_nil]

/-- what is left stands in the order of the first occurrences -/
theorem pairwise_idxOf_eraseDups : xs.eraseDups.Pairwise fun y z => xs.idxOf y < xs.idxOf z := by
  classical
  induction xs using List.reverseRecOn with
  | nil => exact List.Pairwise.nil
  | append_singleton xs x ih =>
    have hkept : xs.eraseDups.Pairwise fun y z => (xs ++ [x]).idxOf y < (xs ++ [x]).idxOf z := by
      refine ih.imp_of_mem fun {y z} hy hz hlt => ?_
      rwa [List.idxOf_append_of_mem (List.mem_eraseDups.1 hy), List.idxOf_append_of_mem (List.mem_eraseDups.1 hz)]
    rw [eraseDups_concat]
    split_ifs with hx
    · exact hkept
    · refine List.pairwise_append.2 ⟨hkept, List.pairwise_singleton _ _, fun y hy z hz => ?_⟩
      have hmem : y ∈ xs := List.mem_eraseDups.1 hy
      rw [List.mem_singleton.1 hz, List.idxOf_append_of_mem hmem, List.idxOf_append_of_notMem hx]
      exact (List.idxOf_lt_length_of_mem hmem).trans_le (Nat.le_add_right _ _)

end Firsts

/-! ## What a merged list is known from -/

variable {arguments others : List Argument}

theorem names_append (xs ys : List Argument) : names (xs ++ ys) = names xs ++ names ys :=
  List.map_append

/-- what is found is the last argument of its name -/
theorem find?_eq_some {name : String} {a : Argument} :
    find? arguments name = some a ↔ a.name = name ∧
      ∃ before after, arguments = before ++ a :: after ∧ a.name ∉ names after := by
  constructor
  · intro h
    obtain ⟨hname, before, after, hsplit, hbefore⟩ := List.find?_eq_some_iff_append.1 h
    refine ⟨by simpa using hname, after.reverse, before.reverse, by simpa using congrArg List.reverse hsplit, ?_⟩
    rw [names, List.mem_map]
    rintro ⟨b, hb, hsame⟩
    have hother : b.name ≠ name := by simpa using hbefore b (List.mem_reverse.1 hb)
    exact hother (hsame.trans (by simpa using hname))
  · rintro ⟨rfl, before, after, rfl, hafter⟩
    rw [find?_append, find?_cons, find?_eq_none.2 hafter]
    simp

/-- where no name stands twice, the names in order and what is found under them tell the list -/
theorem eq_of_names_of_find? (hnodup : (names arguments).Nodup) (hnames : names arguments = names others)
    (hfind : ∀ name, find? arguments name = find? others name) : arguments = others := by
  have hlength : arguments.length = others.length := by
    simpa [names] using congrArg List.length hnames
  refine List.ext_getElem hlength fun i hi hi' => ?_
  have hname : arguments[i].name = others[i].name := by
    have hat := List.getElem_of_eq hnames (by simpa [names] using hi)
    simpa [names] using hat
  have hfirst := find?_of_mem hnodup (List.getElem_mem hi)
  have hsecond := find?_of_mem (hnames ▸ hnodup) (List.getElem_mem hi')
  rw [hfind, hname, hsecond] at hfirst
  exact (Option.some.inj hfirst).symm

/-! ## Names and places -/

theorem names_puts (writes : List Argument) :
    names (writes.foldl (fun merged a => put a merged) []) = (names writes).eraseDups := by
  induction writes using List.reverseRecOn with
  | nil => rfl
  | append_singleton writes a ih =>
    rw [List.foldl_append, List.foldl_cons, List.foldl_nil, names_put, ih, names_append, names, names, List.map_singleton,
      eraseDups_concat]
    simp only [List.mem_eraseDups]

/-- a merged list has the names of both lists, each at its first place -/
theorem names_merge (base overrides : List Argument) :
    names (merge base overrides) = (names base ++ names overrides).eraseDups := by
  rw [merge, names_puts, names_append]

/-- a list is what the last writer of each name leaves: each name that is written stands there once, in the order of the
first writes, and each argument is the last write to its name -/
structure LastWrites (writes merged : List Argument) : Prop where
  once : ∀ name ∈ names writes, (names merged).count name = 1
  written : ∀ name ∈ names merged, name ∈ names writes
  ordered : (names merged).Pairwise fun m n => (names writes).idxOf m < (names writes).idxOf n
  last : ∀ a ∈ merged, ∃ before after, writes = before ++ a :: after ∧ a.name ∉ names after

theorem lastWrites_merge (base overrides : List Argument) : LastWrites (base ++ overrides) (merge base overrides) := by
  have hnodup := nodup_merge base overrides
  have hnames : names (merge base overrides) = (names (base ++ overrides)).eraseDups := by
    rw [names_merge, names_append]
  refine ⟨fun name hname => ?_, fun name hname => ?_, ?_, fun a ha => ?_⟩
  · exact List.count_eq_one_of_mem hnodup (hnames ▸ List.mem_eraseDups.2 hname)
  · exact List.mem_eraseDups.1 (hnames ▸ hname)
  · exact hnames ▸ pairwise_idxOf_eraseDups _
  · have hfound := find?_of_mem hnodup ha
    rw [find?_merge, ← find?_append] at hfound
    exact (find?_eq_some.1 hfound).2

/-! ## Laws -/

theorem merge_merge (a b c : List Argument) : merge (merge a b) c = merge a (merge b c) := by
  refine eq_of_names_of_find? (nodup_merge _ _) ?_ fun name => ?_
  · calc names (merge (merge a b) c)
        = ((names a ++ names b).eraseDups ++ names c).eraseDups := by rw [names_merge, names_merge]
      _ = (names a ++ (names b ++ names c).eraseDups).eraseDups := by
          rw [eraseDups_eraseDups_append, List.append_assoc, eraseDups_append_eraseDups]
      _ = names (merge a (merge b c)) := by rw [names_merge, names_merge]
  · simp only [find?_merge, Option.or_assoc]

theorem merge_self (a b : List Argument) : merge (merge a b) (merge a b) = merge a b := by
  refine eq_of_names_of_find? (nodup_merge _ _) ?_ fun name => ?_
  · rw [names_merge (merge a b), names_merge a b, eraseDups_append_self]
    simpa using eraseDups_append_eraseDups [] (names a ++ names b)
  · rw [find?_merge (merge a b), Option.or_self]

/-- binding does not tell a merged list from the two lists behind each other -/
theorem bind_merge (params : List Parameter) (a b : List Argument) : bind params (merge a b) = bind params (a ++ b) :=
  bind_congr fun p _ => by rw [find?_merge, find?_append]

/-- **The last writer of a name wins.** Merging keeps each name of the two lists once, in the order of its first occurrence
in the one followed by the other, with the argument of its last occurrence there. It does not matter which two of three lists
are merged first, merging a result with itself changes nothing, and binding sees no difference between the merged list and
the two lists behind each other. -/
theorem merge_last_writer_wins (a b c : List Argument) (params : List Parameter) :
    LastWrites (a ++ b) (merge a b) ∧
      merge (merge a b) c = merge a (merge b c) ∧
      merge (merge a b) (merge a b) = merge a b ∧
      bind params (merge a b) = bind params (a ++ b) :=
  ⟨lastWrites_merge a b, merge_merge a b c, merge_self a b, bind_merge params a b⟩

end LevelScript.Generator
