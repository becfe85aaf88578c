/-
A function that may fail, applied to every item of a list.

There is a result exactly if every item has one (`mapM_eq_ok`), and otherwise the failure is that of the first item which
has none (`mapM_eq_error`). `List.Forall₂` says which result belongs to which item.
-/
import Mathlib.Data.List.Forall2

namespace LevelScript

variable {α β ε : Type} {f : α → Except ε β}

/-- what is made of a result is there only if the result is -/
theorem eq_ok_of_return {c : Except ε α} {g : α → β} {b : β} (h : (do return g (← c)) = Except.ok b) :
    ∃ a, c = .ok a ∧ b = g a := by
  rcases c with e | a
  · cases h
  · cases h
    exact ⟨a, rfl, rfl⟩

theorem mapM_eq_ok {l : List α} {bs : List β} :
    l.mapM f = .ok bs ↔ List.Forall₂ (fun a b => f a = .ok b) l bs := by
  induction l generalizing bs with
  | nil =>
    constructor
    · intro h
      cases h
      exact .nil
    · intro h
      cases h
      rfl
  | cons a l ih =>
    rw [List.mapM_cons]
    constructor
    · intro h
      rcases hb : f a with e | b
      · rw [hb] at h
        cases h
      rcases hbs : l.mapM f with e | rest
      · rw [hb, hbs] at h
        cases h
      rw [hb, hbs] at h
      cases h
      exact .cons hb (ih.1 hbs)
    · intro h
      cases h with
      | cons hb hrest =>
        rw [hb, ih.2 hrest]
        rfl

theorem mapM_cons_eq_error {a : α} {l : List α} {e : ε} :
    (a :: l).mapM f = .error e ↔ f a = .error e ∨ (∃ b, f a = .ok b) ∧ l.mapM f = .error e := by
  rw [List.mapM_cons]
  rcases f a with e' | b
  · constructor
    · intro h
      cases h
      exact .inl rfl
    · rintro (h | ⟨⟨b, hb⟩, -⟩)
      · cases h
        rfl
      · cases hb
  · rcases l.mapM f with e' | bs
    · constructor
      · intro h
        cases h
        exact .inr ⟨⟨b, rfl⟩, rfl⟩
      · rintro (h | ⟨-, h⟩)
        · cases h
        · cases h
          rfl
    · constructor
      · nofun
      · rintro (h | ⟨-, h⟩) <;> cases h

theorem mapM_eq_error {l : List α} {e : ε} :
    l.mapM f = .error e ↔
      ∃ before a after, l = before ++ a :: after ∧ (∀ b ∈ before, ∃ c, f b = .ok c) ∧ f a = .error e := by
  induction l with
  | nil =>
    constructor
    · nofun
    · rintro ⟨before, a, after, h, -⟩
      simp at h
  | cons a l ih =>
    rw [mapM_cons_eq_error, ih]
    constructor
    · rintro (ha | ⟨hok, before, a', after, rfl, hbefore, hfails⟩)
      · exact ⟨[], a, l, rfl, List.forall_mem_nil _, ha⟩
      · exact ⟨a :: before, a', after, rfl, List.forall_mem_cons.2 ⟨hok, hbefore⟩, hfails⟩
    · rintro ⟨before, a', after, hl, hbefore, hfails⟩
      cases before with
      | nil =>
        cases hl
        exact .inl hfails
      | cons b before =>
        cases hl
        obtain ⟨hok, hrest⟩ := List.forall_mem_cons.1 hbefore
        exact .inr ⟨hok, before, a', after, rfl, hrest, hfails⟩

theorem exists_forall₂ {R : α → β → Prop} {l : List α} (h : ∀ a ∈ l, ∃ b, R a b) : ∃ bs, List.Forall₂ R l bs := by
  induction l with
  | nil => exact ⟨[], .nil⟩
  | cons a l ih =>
    obtain ⟨⟨b, hb⟩, hrest⟩ := List.forall_mem_cons.1 h
    obtain ⟨bs, hbs⟩ := ih hrest
    exact ⟨b :: bs, .cons hb hbs⟩

/-- where lists correspond, each item of the first has a counterpart in the other -/
theorem counterpart {R : α → β → Prop} {l : List α} {bs : List β} (h : List.Forall₂ R l bs) {a : α} (ha : a ∈ l) :
    ∃ b ∈ bs, R a b := by
  induction h with
  | nil => cases ha
  | @cons _ b _ _ hhead _ ih =>
    rcases List.mem_cons.1 ha with rfl | ha
    · exact ⟨b, List.mem_cons_self, hhead⟩
    · obtain ⟨c, hc, hac⟩ := ih ha
      exact ⟨c, List.mem_cons_of_mem _ hc, hac⟩

end LevelScript
