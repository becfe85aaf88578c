/-
The quoted line at a position of a text.

Scanning starts a new line at a line feed only, while the lines that diagnostics quote end at other characters as well.
A text is `Counted` if both find the same lines in it: its line breaks are line feeds, alone or behind a carriage return.
Behind a counted text the line of the given number is the one that the position stands in, and from its column on it
shows what comes there, up to the next break (`line?_at`).

A span is `Legible` in a text if what comes in front of it is counted and nothing else breaks the part of it that is
shown. Then the quoted line holds that part at the column of the span, and the carets stand under it (`shown_quoted`).
-/
import LevelScript.Proofs.SourceTiling

namespace LevelScript

open LevelScript.Syntax

/-! ## Lines -/

namespace Text

/-- line breaks are line feeds, alone or behind a carriage return -/
inductive Counted : List Char → Prop where
  | nil : Counted []
  | plain {c : Char} {cs : List Char} : isLineBreak c = false → Counted cs → Counted (c :: cs)
  | feed {cs : List Char} : Counted cs → Counted ('\n' :: cs)
  | pair {cs : List Char} : Counted cs → Counted ('\r' :: '\n' :: cs)

theorem counted_of_feeds {cs : List Char} (h : ∀ c ∈ cs, isLineBreak c = true → c = '\n') : Counted cs := by
  induction cs with
  | nil => exact .nil
  | cons c cs ih =>
    obtain ⟨hc, hcs⟩ := List.forall_mem_cons.1 h
    rcases hbreak : isLineBreak c with _ | _
    · exact .plain hbreak (ih hcs)
    · rw [hc hbreak]
      exact .feed (ih hcs)

theorem linesFrom_plain {c : Char} (hc : isLineBreak c = false) (line cs : List Char) :
    linesFrom line (c :: cs) = linesFrom (c :: line) cs := by
  have hne : c ≠ '\r' := by
    rintro rfl
    cases hc
  rw [linesFrom.eq_3 line c cs (fun _ h _ => hne h), hc]
  rfl

theorem linesFrom_feed (line cs : List Char) :
    linesFrom line ('\n' :: cs) = String.ofList line.reverse :: linesFrom [] cs := by
  rw [linesFrom.eq_3 line '\n' cs (by simp)]
  rfl

/-- the first line goes on up to the first break -/
theorem linesFrom_first {line cs : List Char} {text : String} (h : (linesFrom line cs)[0]? = some text) :
    text.toList = line.reverse ++ cs.takeWhile (!isLineBreak ·) := by
  induction line, cs using linesFrom.induct with
  | case1 line hempty =>
    rw [linesFrom, if_pos hempty] at h
    cases h
  | case2 line hempty =>
    rw [linesFrom, if_neg hempty] at h
    cases h
    simp
  | case3 line rest ih =>
    rw [linesFrom.eq_2] at h
    cases h
    simp [isLineBreak]
  | case4 line c rest hpair hbreak ih =>
    rw [linesFrom.eq_3 line c rest hpair, if_pos hbreak] at h
    cases h
    simp [hbreak]
  | case5 line c rest hpair hbreak ih =>
    rw [linesFrom.eq_3 line c rest hpair, if_neg hbreak] at h
    rw [ih h, List.reverse_cons, List.append_assoc, List.takeWhile_cons_of_pos (by simpa using hbreak)]
    rfl

/-- behind a counted text, the line of as many breaks as there are line feeds has what the position has passed of it, and
then what follows. By induction on the text in front; `line` is what the current line has so far. -/
theorem linesFrom_counted {front : List Char} (hfront : Counted front) (behind line : List Char) (p : Position)
    (hcolumn : p.column = line.length + 1) {text : String}
    (h : (linesFrom line (front ++ behind))[front.count '\n']? = some text) :
    ∃ before, text.toList = before ++ behind.takeWhile (!isLineBreak ·) ∧
      before.length + 1 = (p.after front).column := by
  induction hfront generalizing line p with
  | nil => exact ⟨line.reverse, linesFrom_first h, by simp [Position.after, hcolumn]⟩
  | @plain c cs hc _ ih =>
    have hne : c ≠ '\n' := by
      rintro rfl
      cases hc
    rw [List.cons_append, linesFrom_plain hc, List.count_cons_of_ne hne] at h
    have hstep : (p.step c).column = (c :: line).length + 1 := by simp [Position.step, hne, hcolumn]
    exact ih (c :: line) (p.step c) hstep h
  | feed _ ih =>
    rw [List.cons_append, linesFrom_feed, List.count_cons_self, List.getElem?_cons_succ] at h
    exact ih [] (p.step '\n') rfl h
  | pair _ ih =>
    rw [List.cons_append, List.cons_append, linesFrom.eq_2, List.count_cons_of_ne (by decide), List.count_cons_self,
      List.getElem?_cons_succ] at h
    exact ih [] ((p.step '\r').step '\n') rfl h

/-- the line of a true position behind a counted text: what is in front of its column, and what follows up to the next
break -/
theorem line?_at {text line : String} {p : Position} (hp : p.TrueIn text.toList)
    (hfront : Counted (text.toList.take p.offset)) (h : line? text p.line = some line) :
    ∃ before, line.toList = before ++ (text.toList.drop p.offset).takeWhile (!isLineBreak ·) ∧
      before.length + 1 = p.column := by
  set front := text.toList.take p.offset with hfrontEq
  have hafter : p = Position.after {} front := by
    have horigin : (Position.endOf [] : Position) = {} := rfl
    rw [← horigin, Position.after_endOf, List.nil_append]
    exact hp
  have hline : p.line = front.count '\n' + 1 := by
    rw [hp, Position.endOf, Nat.add_comm]
  rw [hline, line?, lines, ← List.take_append_drop p.offset text.toList] at h
  rw [← hfrontEq] at h
  obtain ⟨before, hbefore, hcolumn⟩ := linesFrom_counted hfront _ [] {} rfl h
  exact ⟨before, hbefore, by rw [hcolumn, ← hafter]⟩

end Text

/-! ## Spans -/

namespace Syntax

instance Position.decidableTrueIn (text : List Char) (p : Position) : Decidable (p.TrueIn text) :=
  inferInstanceAs (Decidable (p = .endOf (text.take p.offset)))

theorem Position.after_of_not_mem {cs : List Char} (h : '\n' ∉ cs) (p : Position) :
    p.after cs = ⟨p.line, p.column + cs.length, p.offset + cs.length⟩ := by
  induction cs generalizing p with
  | nil => rfl
  | cons c cs ih =>
    rw [List.mem_cons, not_or] at h
    obtain ⟨hc, hcs⟩ := h
    have hstep : p.step c = ⟨p.line, p.column + 1, p.offset + 1⟩ := by simp [step, Ne.symm hc]
    calc p.after (c :: cs)
        = (p.step c).after cs := rfl
      _ = ⟨p.line, p.column + (cs.length + 1), p.offset + (cs.length + 1)⟩ := by
        rw [ih hcs, hstep]
        simp [Nat.add_assoc, Nat.add_comm 1]

/-- the span has true positions in the text, in their order -/
structure Span.TrueIn (text : List Char) (span : Span) : Prop where
  start : span.start.TrueIn text
  stop : span.stop.TrueIn text
  ordered : span.start.offset ≤ span.stop.offset

theorem Token.StandsIn.trueIn {text : List Char} {t : Token} (h : t.StandsIn text) : t.span.TrueIn text :=
  ⟨h.start, h.stop, h.ordered⟩

/-- the part of the text in a span that comes in front of its first line feed -/
def Span.shown (text : List Char) (span : Span) : List Char :=
  (text.extract span.start.offset span.stop.offset).takeWhile (· ≠ '\n')

/-- what is in front of the span is counted, and nothing breaks its shown part -/
structure Span.Legible (text : List Char) (span : Span) : Prop where
  front : Text.Counted (text.take span.start.offset)
  shown : ∀ c ∈ span.shown text, Text.isLineBreak c = false

section Spans

variable {text : List Char} {span : Span}

theorem Span.legible_of_feeds (h : ∀ c ∈ text, Text.isLineBreak c = true → c = '\n') : span.Legible text where
  front := Text.counted_of_feeds fun c hc => h c (List.mem_of_mem_take hc)
  shown c hc := by
    have hne : c ≠ '\n' := by simpa using List.mem_takeWhile_imp hc
    have hmem : c ∈ text := List.mem_of_mem_drop (List.mem_of_mem_take ((List.takeWhile_sublist _).mem hc))
    by_contra hbreak
    exact hne (h c hmem (by simpa using hbreak))

/-- the text behind the start of a span is the text of the span and what follows it -/
theorem Span.drop_start (text : List Char) (span : Span) :
    ∃ more, text.drop span.start.offset = text.extract span.start.offset span.stop.offset ++ more :=
  ⟨_, (List.take_append_drop _ _).symm⟩

theorem Span.TrueIn.stop_eq (h : span.TrueIn text) :
    span.stop = .endOf (text.take span.start.offset ++ text.extract span.start.offset span.stop.offset) := by
  rw [List.extract_eq_take_drop, ← List.take_add, Nat.add_sub_cancel' h.ordered]
  exact h.stop

/-- a span on one line is shown as a whole, and it is as wide as it is long -/
theorem Span.TrueIn.on_one_line (h : span.TrueIn text) (hline : span.start.line = span.stop.line) :
    span.shown text = text.extract span.start.offset span.stop.offset ∧
      span.stop.column = span.start.column + (span.shown text).length := by
  set inner := text.extract span.start.offset span.stop.offset with hinner
  have hfeed : '\n' ∉ inner := by
    rw [h.start, h.stop_eq] at hline
    simp only [Position.endOf, List.count_append, ← hinner] at hline
    exact List.count_eq_zero.1 (by omega)
  have hshown : span.shown text = inner := by
    rw [shown, ← hinner]
    exact List.takeWhile_eq_self_iff.2 fun c hc => by simpa using ne_of_mem_of_not_mem hc hfeed
  refine ⟨hshown, ?_⟩
  rw [hshown, h.stop_eq, ← hinner, ← Position.after_endOf, ← h.start, Position.after_of_not_mem hfeed]

/-- a span over several lines is shown up to a line feed -/
theorem Span.TrueIn.on_several_lines (h : span.TrueIn text) (hline : span.start.line ≠ span.stop.line) :
    ∃ more, text.drop span.start.offset = span.shown text ++ '\n' :: more := by
  obtain ⟨behind, hbehind⟩ := span.drop_start text
  rw [shown, hbehind]
  set inner := text.extract span.start.offset span.stop.offset with hinner
  have hfeed : '\n' ∈ inner := by
    by_contra hnone
    apply hline
    rw [h.start, h.stop_eq, ← hinner]
    simp [Position.endOf, List.count_append, List.count_eq_zero.2 hnone]
  rcases hrest : inner.dropWhile (· ≠ '\n') with _ | ⟨c, rest⟩
  · have hall := List.dropWhile_eq_nil_iff.1 hrest '\n' hfeed
    simp at hall
  · have hc : c = '\n' := by
      have hhead := List.head?_dropWhile_not (· ≠ '\n') inner
      rw [hrest] at hhead
      simpa using hhead
    refine ⟨rest ++ behind, ?_⟩
    calc inner ++ behind
        = inner.takeWhile (· ≠ '\n') ++ inner.dropWhile (· ≠ '\n') ++ behind := by rw [List.takeWhile_append_dropWhile]
      _ = inner.takeWhile (· ≠ '\n') ++ '\n' :: (rest ++ behind) := by
        rw [hrest, hc, List.append_assoc, List.cons_append]

/-- the quoted line of a legible span shows its part of the text at its column, and the carets stand under it -/
theorem Span.shown_quoted {text line : String} (h : span.TrueIn text.toList) (hlegible : span.Legible text.toList)
    (hline : Text.line? text span.start.line = some line) :
    span.shown text.toList <+: line.toList.drop (span.start.column - 1) ∧
      underline span line = String.ofList (List.replicate (span.start.column - 1) ' ' ++
        List.replicate (max 1 (span.shown text.toList).length) '^') := by
  obtain ⟨before, hquoted, hcolumn⟩ := Text.line?_at h.start hlegible.front hline
  have hplain : ∀ c ∈ span.shown text.toList, (!Text.isLineBreak c) = true := fun c hc => by
    simpa using hlegible.shown c hc
  have hdrop : line.toList.drop (span.start.column - 1) =
      (text.toList.drop span.start.offset).takeWhile (!Text.isLineBreak ·) := by
    rw [hquoted]
    exact List.drop_left' (by omega)
  constructor
  · obtain ⟨behind, hbehind⟩ := span.drop_start text.toList
    have hprefix : span.shown text.toList <+: text.toList.drop span.start.offset := by
      rw [hbehind]
      exact (List.takeWhile_prefix _).trans (List.prefix_append _ _)
    obtain ⟨more, hmore⟩ := hprefix
    rw [hdrop, ← hmore, List.takeWhile_append_of_pos hplain]
    exact List.prefix_append _ _
  · rw [underline]
    congr 3
    split_ifs with hsame
    · obtain ⟨-, hwidth⟩ := h.on_one_line hsame
      rw [hwidth, Nat.add_sub_cancel_left]
    · obtain ⟨more, hmore⟩ := h.on_several_lines hsame
      have hrun : (text.toList.drop span.start.offset).takeWhile (!Text.isLineBreak ·) = span.shown text.toList := by
        rw [hmore, List.takeWhile_append_of_pos hplain, List.takeWhile_cons_of_neg (by decide), List.append_nil]
      have hlength : line.length = before.length + (span.shown text.toList).length := by
        rw [← String.length_toList, hquoted, hrun, List.length_append]
      rw [hlength]
      omega

end Spans

end Syntax

end LevelScript
