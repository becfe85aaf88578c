/-
A refusal points at the exact token.

The parser reads from left to right and decides by the next token, so what it has read before the token that it refuses
is the start of some script, and what comes behind this token makes no difference. The contract of statements says both
of a single statement; by induction on its statements a script takes them over.
-/
import Mathlib.Tactic
import LevelScript.Proofs.StatementContract

namespace LevelScript.Syntax

open LevelScript.Syntax.Parser

variable {depths : Depths}

/-! ## Tokens before a refused one -/

/-- whatever stands in place of the rest, the script is refused at the same first token of it -/
def RefusedBefore (depths : Depths) (before : List Token) (cause : RefusalCause) (rest : List Token) : Prop :=
  ∀ other, SameHead rest other → parse (before ++ other) depths = .error ⟨cause, other⟩

/-- the tokens are the start of a script; if there are none, of one that starts with a number -/
def Viable (depths : Depths) (before : List Token) : Prop :=
  ∃ t fill script, numberFirst before t ∧ parse (before ++ (t :: fill ++ [.ofKind .eof])) depths = .ok script

theorem closing_eof : Closing [Token.ofKind .eof] :=
  ⟨⟨_, List.mem_singleton_self _, rfl⟩, by simp [Token.closes, Token.ofKind]⟩

theorem parse_eof : parse [Token.ofKind .eof] depths = .ok [] := rfl

/-- a script is refused where its first statement is -/
theorem parse_eq_error {ts rest : List Token} {cause : RefusalCause} (hends : Ends ts) (hended : ended ts = false)
    (hcause : cause ≠ .tooDeep) (hrefused : statement depths depths.statement ts = .error ⟨cause, rest⟩) :
    parse ts depths = .error ⟨cause, rest⟩ := by
  rw [parse_eq hends, hended, (parseStatement_eq_error hcause).2 hrefused]
  rfl

/-! ## The statement that is refused -/

/-- no statement comes before the refused token -/
theorem refused_first {ts rest : List Token} {cause : RefusalCause} (hends : Ends ts) (hended : ended ts = false)
    (hrefused : statement depths depths.statement ts = .error ⟨cause, rest⟩) (hcause : cause ≠ .tooDeep) :
    ∃ before, ts = before ++ rest ∧ Inner before ∧ RefusedBefore depths before cause rest ∧ Viable depths before := by
  obtain ⟨before, rfl, hinner, hagain, t, fill, hfirst, hfill⟩ :=
    (contract_fullStatement ts.length).refuses le_rfl hends hrefused hcause
  refine ⟨before, rfl, hinner, fun other hother => ?_, t, fill, ?_⟩
  · refine parse_eq_error (hother.1.append _) ?_ hcause (hagain other hother)
    cases before with
    | nil =>
      rw [List.nil_append] at hends
      obtain ⟨u, rest, rfl⟩ := hends.exists_cons
      obtain ⟨u', other, rfl⟩ := hother.1.exists_cons
      cases hother.2
      exact hended
    | cons u before => exact not_ended (by simp) hinner _
  · obtain ⟨s, hs⟩ := hfill _ closing_eof
    refine ⟨[s], hfirst, ?_⟩
    rw [← List.append_assoc, parse_of_statement (closing_eof.1.append _) hs, parse_eof]
    rfl

/-- a statement comes before the tokens of a refused script -/
theorem refused_behind {ts mid rest before : List Token} {s : Stmt} {cause : RefusalCause} (hends : Ends ts)
    (hok : statement depths depths.statement ts = .ok (s, mid)) (hmid : mid = before ++ rest) (hinner : Inner before)
    (hrefused : RefusedBefore depths before cause rest) (hviable : Viable depths before) :
    ∃ before, ts = before ++ rest ∧ Inner before ∧ RefusedBefore depths before cause rest ∧ Viable depths before := by
  obtain ⟨used, rfl, hused, hread, hagain⟩ := (contract_fullStatement ts.length).accepts le_rfl hends hok
  have hparse {other : List Token} (h : Follows nothing mid other) :
      parse (used ++ other) depths = (s :: ·) <$> parse other depths :=
    parse_of_statement (h.ends.append _) (hagain other h)
  refine ⟨used ++ before, by rw [hmid, List.append_assoc], hused.append hinner, fun other hother => ?_, ?_⟩
  · rw [List.append_assoc, hparse (hmid ▸ hother.append before), hrefused other hother]
    rfl
  · obtain ⟨t, fill, script, hfirst, hscript⟩ := hviable
    refine ⟨t, fill, s :: script, fun h => absurd (List.append_eq_nil_iff.1 h).1 hread.nonempty, ?_⟩
    -- the statement is read again: what follows starts as before, or with a number
    have hfollows : Follows nothing mid (before ++ (t :: fill ++ [.ofKind .eof])) := by
      have hcompleted : Ends (before ++ (t :: fill ++ [.ofKind .eof])) := (closing_eof.1.append _).append _
      cases before with
      | nil => exact .inr ⟨hcompleted, by simpa using hfirst.closes rfl⟩
      | cons u before => exact .inl ⟨⟨hcompleted, by rw [hmid]; rfl⟩, id⟩
    rw [List.append_assoc, hparse hfollows, hscript]
    rfl

/-- the tokens before the refused one are the start of a script, and what comes behind it makes no difference -/
theorem refused_exactly {ts rest : List Token} {cause : RefusalCause} (hends : Ends ts)
    (hrefused : parse ts depths = .error ⟨cause, rest⟩) (hcause : cause ≠ .tooDeep) :
    ∃ before, ts = before ++ rest ∧ Inner before ∧ RefusedBefore depths before cause rest ∧ Viable depths before := by
  -- by induction on the tokens that are left when the statements in front have been read
  induction hn : ts.length using Nat.strong_induction_on generalizing ts with
  | _ n ih =>
    rcases hs : parseStatement depths ts with r | ⟨s, mid⟩
    · rw [parse_eq hends, hs] at hrefused
      split_ifs at hrefused with hended
      cases hrefused
      exact refused_first hends (by simpa using hended) ((parseStatement_eq_error hcause).1 hs) hcause
    · obtain ⟨hmid, hlt⟩ := parseStatement_shrinks hends hs
      have hrest : parse mid depths = .error ⟨cause, rest⟩ := by
        have hparse := parse_of_statement hends (parseStatement_eq_ok.1 hs)
        rw [hrefused] at hparse
        rcases hm : parse mid depths with r | script <;> rw [hm] at hparse <;> cases hparse
        rfl
      obtain ⟨before, hbefore, hinner, hagain, hviable⟩ := ih mid.length (hn ▸ hlt) hmid hrest rfl
      exact refused_behind hends (parseStatement_eq_ok.1 hs) hbefore hinner hagain hviable

/-! ## The place -/

/-- **Refusals are exact.** A script that is refused for anything but its depth is refused at a token such that the tokens
before it are the start of a script that is accepted, and such that whatever begins with the tokens up to this one is
refused with the same diagnostic: code, message, span and hints. -/
theorem refusal_is_exact {tokens : List Token} (hends : Ends tokens) {refusal : Refusal}
    (hrefused : parse tokens depths = .error refusal) (hcause : refusal.cause ≠ .tooDeep) :
    ∃ before token behind, tokens = before ++ token :: behind ∧
      (∀ line?, (refusal.diagnostic line?).span = some token.span) ∧
      (∃ completion script, parse (before ++ completion) depths = .ok script ∧ Ends completion) ∧
      ∀ other, Ends (token :: other) → ∃ refusal', parse (before ++ token :: other) depths = .error refusal' ∧
        ∀ line?, refusal'.diagnostic line? = refusal.diagnostic line? := by
  obtain ⟨cause, rest⟩ := refusal
  obtain ⟨before, rfl, hinner, hagain, t, fill, script, -, hscript⟩ := refused_exactly hends hrefused hcause
  obtain ⟨token, behind, rfl⟩ := (hends.rest hinner).exists_cons
  refine ⟨before, token, behind, rfl, fun _ => rfl, ⟨_, script, hscript, closing_eof.1.append _⟩, fun other hother => ?_⟩
  exact ⟨_, hagain _ ⟨hother, rfl⟩, fun _ => rfl⟩

/-- an opening parenthesis where the name of a variable should be -/
theorem refusal_is_exact_declaration :
    let tokens := ([.symbol "int", .symbol "x", .char ',', .char '(', .char ';', .eof] : List TokenKind).map Token.ofKind
    ∃ before token behind, tokens = before ++ token :: behind ∧
      (∀ line?, ((Refusal.mk (.expectedSymbol .variableDeclaration)
        (([.char '(', .char ';', .eof] : List TokenKind).map Token.ofKind)).diagnostic line?).span = some token.span) ∧
      (∃ completion script, parse (before ++ completion) = .ok script ∧ Ends completion) ∧
      ∀ other, Ends (token :: other) → ∃ refusal', parse (before ++ token :: other) = .error refusal' ∧
        ∀ line?, refusal'.diagnostic line? = (Refusal.mk (.expectedSymbol .variableDeclaration)
          (([.char '(', .char ';', .eof] : List TokenKind).map Token.ofKind)).diagnostic line? :=
  refusal_is_exact ⟨.ofKind .eof, by simp, rfl⟩ (by rfl) (by simp)

end LevelScript.Syntax
