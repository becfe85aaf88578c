/-
Functions that a script declares.

A function may stand at the top of a script or inside of other statements. Whatever parsing accepts can be written again
(`StatementRead.readable`), so the parameters of all these functions have types that a script can name, in every
workspace that a host comes to.
-/
import LevelScript.Proofs.QuotedLines
import LevelScript.Proofs.StackDiscipline
import LevelScript.Proofs.StatementContract

namespace LevelScript

open LevelScript.Syntax Eval

namespace Syntax

/-- the statement declares the function, itself or in one of its parts -/
inductive Stmt.Declares : Stmt → Function → Prop where
  | here (decl : Function) : Declares (.fn decl) decl
  | body {outer decl : Function} {stmt : Stmt} : stmt ∈ outer.body → stmt.Declares decl → Declares (.fn outer) decl
  | arm {token : Token} {arms : List (Expr × Stmt)} {otherwise : Option Stmt} {arm : Expr × Stmt} {decl : Function} :
    arm ∈ arms → arm.2.Declares decl → Declares (.branch token arms otherwise) decl
  | otherwise {token : Token} {arms : List (Expr × Stmt)} {stmt : Stmt} {decl : Function} : stmt.Declares decl →
    Declares (.branch token arms (some stmt)) decl
  | loop {token : Token} {counter : Option Param} {start condition increment : Expr} {body : Stmt} {decl : Function} :
    body.Declares decl → Declares (.loop token counter start condition increment body) decl
  | block {token : Token} {stmts : List Stmt} {stmt : Stmt} {decl : Function} : stmt ∈ stmts → stmt.Declares decl →
    Declares (.block token stmts) decl

/-- a declaration inside of a statement that can be read can be read itself -/
theorem Stmt.Declares.readable {stmt : Stmt} {decl : Function} (h : stmt.Declares decl) {depths : Depths}
    {depth : Nat} (hread : stmt.Readable depths depth) : ∃ inner, (Stmt.fn decl).Readable depths inner := by
  induction h generalizing depth with
  | here decl => exact ⟨depth, hread⟩
  | body hmem _ ih =>
    cases hread with
    | fn _ _ _ hbody => exact ih (hbody _ hmem)
  | arm hmem _ ih =>
    cases hread with
    | branch _ _ harms _ => exact ih (harms _ hmem)
  | otherwise _ ih =>
    cases hread with
    | branch _ _ _ hotherwise => exact ih (hotherwise _ rfl)
  | loop _ ih =>
    cases hread with
    | loop _ _ _ _ hbody => exact ih hbody
  | block hmem _ ih =>
    cases hread with
    | block hbody => exact ih (hbody _ hmem)

/-- the types of the parameters of a function that can be read are ones that a script can name -/
theorem Function.declarable {decl : Function} {depths : Depths} {depth : Nat}
    (h : (Stmt.fn decl).Readable depths depth) : ∀ p ∈ decl.params, p.type ∈ Ty.declarable := by
  cases h with
  | fn _ _ hparams _ => exact fun p hp => (hparams p hp).1

theorem readable_of_parseStatement {depths : Depths} {ts rest : List Token} {stmt : Stmt} (hends : Ends ts)
    (h : parseStatement depths ts = .ok (stmt, rest)) : stmt.Readable depths depths.statement := by
  obtain ⟨used, -, -, hread, -⟩ := (contract_fullStatement ts.length).accepts le_rfl hends (parseStatement_eq_ok.1 h)
  exact hread.readable

end Syntax

theorem readable_runTokens (setting : Setting) (bound : Nat) {tokens : List Token} (hends : Ends tokens) (s : State) :
    ∀ stmt ∈ (runTokens setting bound tokens s).statements,
      stmt.Readable setting.depths setting.depths.statement := by
  induction bound generalizing tokens s with
  | zero => simp [runTokens]
  | succ bound ih =>
    rw [runTokens]
    split_ifs
    · simp
    rcases hparse : parseStatement setting.depths tokens with refusal | ⟨stmt, rest⟩
    · simp
    have hread := readable_of_parseStatement hends hparse
    dsimp only
    split
    · simpa using hread
    · exact List.forall_mem_cons.2 ⟨hread, ih (parseStatement_shrinks hends hparse).1 _⟩

/-- what a script has been read as can be read with depths that some platform allows -/
def Script.Readable (s : Script) : Prop :=
  ∃ depths : Depths, ∀ stmt ∈ s.statements, stmt.Readable depths depths.statement

def Script.Declares (s : Script) (decl : Function) : Prop := ∃ stmt ∈ s.statements, stmt.Declares decl

theorem Script.Declares.declarable {s : Script} {decl : Function} (h : s.Declares decl) (hs : s.Readable) :
    ∀ p ∈ decl.params, p.type ∈ Ty.declarable := by
  obtain ⟨stmt, hmem, hdeclares⟩ := h
  obtain ⟨depths, hs⟩ := hs
  obtain ⟨depth, hread⟩ := hdeclares.readable (hs stmt hmem)
  exact Function.declarable hread

namespace Workspace

theorem readable_ranScript (w : Workspace) (path source : String) (dynamic : Bool) :
    (w.ranScript path source dynamic).Readable := by
  refine ⟨((w.opened path source dynamic).setting w.scripts.size).depths, ?_⟩
  change ∀ stmt ∈ (w.loading path source dynamic).2.statements, _
  rcases htokens : tokenize source (some path) with fault | tokens
  · rw [loading_scan w dynamic htokens]
    simp
  · rw [loading_tokens w dynamic htokens]
    exact readable_runTokens _ _ (standsIn_of_tokenize htokens).2 _

/-- in every workspace the statements of the scripts can be read -/
theorem reads (m : Manners) : ScriptInvariant m Script.Readable where
  unloaded s := ⟨.standard, by simp [Script.unloaded]⟩
  loads {w path source dynamic} _ := readable_ranScript w path source dynamic
  called _ h _ := h
  failed h := h
  installed h := h

end Workspace

/-! ## Texts of one function -/

/-- the function that a text declares, if it does nothing else -/
def soleFunction? (depths : Depths) (path source : String) : Option Function :=
  match statementsOf source (some path) depths with
  | .ok [.fn decl] => some decl
  | _ => none

namespace Workspace

/-- a text that declares one function can be loaded, and does no more than bind it, unless the name is taken -/
theorem load_soleFunction (w : Workspace) {path source : String} {decl : Function}
    (h : soleFunction? w.platform.depths path source = some decl)
    (hfree : (builtinFrame w.scripts.size).binds decl.name = false) (dynamic : Bool) :
    let after := (w.load path source dynamic).2
    let script := after.script w.scripts.size
    (w.load path source dynamic).1 = .ok w.scripts.size ∧ after.heap = w.heap ∧ script.loaded = true ∧
      script.statements = [.fn decl] ∧ script.get? decl.name = some (.fn w.scripts.size decl) := by
  have hread : statementsOf source (some path) w.platform.depths = .ok [.fn decl] := by
    unfold soleFunction? at h
    split at h
    · rename_i hread
      cases h
      exact hread
    · cases h
  obtain ⟨tokens, htokens, hstmts⟩ := tokens_of_statementsOf hread
  let setting := (w.opened path source dynamic).setting w.scripts.size
  let bound := (builtinFrame w.scripts.size).set decl.name (.fn w.scripts.size decl)
  have hrun : inOrder setting [.fn decl] (w.loadState path source dynamic) =
      (.ok (), { w.loadState path source dynamic with env := ⟨bound, []⟩ }) := by
    have hdeclare : (w.loadState path source dynamic).env.declare? decl.name (.fn w.scripts.size decl) =
        some ⟨bound, []⟩ := if_neg (Bool.eq_false_iff.1 hfree)
    have hexec : exec setting setting.evaluation (.fn decl) (w.loadState path source dynamic) =
        (.ok (), { w.loadState path source dynamic with env := ⟨bound, []⟩ }) := by
      obtain ⟨below, hbelow⟩ := Nat.exists_eq_add_of_le' setting.enters
      rw [hbelow]
      change Eval.declare decl.name (.fn w.scripts.size decl) decl.span _ = _
      rw [Eval.declare, hdeclare]
    have hattempt : attempt setting (.fn decl) (w.loadState path source dynamic) =
        (.ok (), { w.loadState path source dynamic with env := ⟨bound, []⟩ }) := run_catch_ok hexec _
    have hclear : (w.loadState path source dynamic).clear = w.loadState path source dynamic := rfl
    rw [run_inOrder_cons, hclear, run_bind_ok hattempt]
    rfl
  obtain ⟨hanswer, -, hheap, henv, -, -, hstatements, hloaded⟩ := load_completed w dynamic htokens hstmts hrun
  refine ⟨hanswer, hheap.trans (heap_opened w path source dynamic), hloaded, hstatements, ?_⟩
  simp only [Script.get?, henv, Option.bind_some, Env.lookup?, List.findSome?_nil, Option.none_or]
  exact Frame.get?_set_self _ _ _

end Workspace

end LevelScript
