import Stencil.Proofs.Syntax.Progress.Rounds

/-!
# Every reader comes to an end

By induction on the bound on the depth of recursion: `Halting file n` collects that the readers
with the bound `n` come to an end, provided the bound is sixteen for each lexeme that is left, and
more for a reader that is called before others take a lexeme. The bound of a whole text is never reached
(`answers_parseModule`, `answers_parseExpr`), and every round of every loop takes a lexeme, is the
last one or fails at a position (`Loop.progresses`).
-/

namespace Stencil

namespace Parser

open TokenStream

variable {file : Bytes}

/-- What the readers with the bound `n` leave of the lexemes, when they succeed. -/
structure Halting (file : Bytes) (n : Nat) : Prop where
  typePath {s} : Placed file s → 16 * s.rest.length + 10 ≤ n → ∀ x,
    Shrinks file (s.rest.length + 1) s (Parser.typePath n x)
  params {s} : Placed file s → 16 * s.rest.length + 10 ≤ n → ∀ seen,
    Shrinks file (s.rest.length + 1) s (Parser.params n seen)
  expr {s} : Placed file s → 16 * s.rest.length + 13 ≤ n →
    Shrinks file s.rest.length s (Parser.expr n)
  binary {s} : Placed file s → 16 * s.rest.length + 12 ≤ n → ∀ level,
    Shrinks file s.rest.length s (Parser.binary n level)
  binaryRest {s} : Placed file s → 16 * s.rest.length + 10 ≤ n → ∀ level x,
    Shrinks file (s.rest.length + 1) s (Parser.binaryRest n level x)
  unary {s} : Placed file s → 16 * s.rest.length + 11 ≤ n →
    Shrinks file s.rest.length s (Parser.unary n)
  selectors {s} : Placed file s → 16 * s.rest.length + 10 ≤ n → ∀ x,
    Shrinks file (s.rest.length + 1) s (Parser.selectors n x)
  args {s} : Placed file s → 16 * s.rest.length + 14 ≤ n → ∀ closing seen,
    Shrinks file (s.rest.length + 1) s (Parser.args n closing seen)
  exprList {s} : Placed file s → 16 * s.rest.length + 14 ≤ n → ∀ seen,
    Shrinks file s.rest.length s (Parser.exprList n seen)
  primary {s} : Placed file s → 16 * s.rest.length + 10 ≤ n →
    Shrinks file s.rest.length s (Parser.primary n)
  template {s} : Placed file s → s.current.token = .punct .openTemplate →
    16 * s.rest.length + 9 ≤ n →
    Shrinks file s.rest.length s (Parser.template n)
  templateBody {s} : Placed file s → 16 * s.rest.length + 10 ≤ n → ∀ seen,
    Shrinks file (s.rest.length + 1) s (Parser.templateBody n seen)
  island {s} : Placed file s → 16 * s.rest.length + 16 ≤ n → ∀ seen,
    Shrinks file (s.rest.length + 1) s (Parser.island n seen)
  islandStmt {s} : Placed file s → 16 * s.rest.length + 15 ≤ n →
    Shrinks file s.rest.length s (Parser.islandStmt n)
  block {s} : Placed file s → 16 * s.rest.length + 11 ≤ n →
    Shrinks file s.rest.length s (Parser.block n)
  stmts {s} : Placed file s → 16 * s.rest.length + 15 ≤ n → ∀ seen,
    Shrinks file (s.rest.length + 1) s (Parser.stmts n seen)
  varDefs {s} : Placed file s → 16 * s.rest.length + 10 ≤ n → ∀ seen,
    Shrinks file s.rest.length s (Parser.varDefs n seen)
  parenExpr {s} : Placed file s → 16 * s.rest.length + 10 ≤ n →
    Shrinks file s.rest.length s (Parser.parenExpr n)
  conditional {s} : Placed file s → 16 * s.rest.length + 11 ≤ n → ∀ p,
    Shrinks file s.rest.length s (Parser.conditional n p)
  caseStmts {s} : Placed file s → 16 * s.rest.length + 15 ≤ n → ∀ seen,
    Shrinks file (s.rest.length + 1) s (Parser.caseStmts n seen)
  caseBody {s} : Placed file s → 16 * s.rest.length + 10 ≤ n →
    Shrinks file s.rest.length s (Parser.caseBody n)
  switchArms {s} : Placed file s → 16 * s.rest.length + 10 ≤ n → ∀ seen dflt,
    Shrinks file (s.rest.length + 1) s (Parser.switchArms n seen dflt)
  stmt {s} : Placed file s → 16 * s.rest.length + 14 ≤ n →
    Shrinks file s.rest.length s (Parser.stmt n)

/-- A round of a loop, when it comes to an end: it takes a lexeme, or is the last one and leaves
fewer than `M`. -/
def Rounds (file : Bytes) (M : Nat) {σ β : Type} (s : TokenStream) (r : Parser (Round σ β)) :
    Prop :=
  Halts file s r fun x s' => x.Takes s.rest.length M s'

variable {n : Nat} {s : TokenStream}

/-- A lexeme of a known kind is taken. -/
theorem shrinks_past {k : TokenKind} (hs : s.Placed file) (h : s.current.token.kind = k)
    (hk : k ≠ .eof) : Shrinks file s.rest.length s advance := shrinks_advance hs (h ▸ hk)

/-- A known token is taken. -/
theorem shrinks_pastToken {t : Token} (hs : s.Placed file) (h : s.current.token = t)
    (hk : t.kind ≠ .eof) : Shrinks file s.rest.length s advance := shrinks_advance hs (h ▸ hk)

/-! ### Expressions -/

theorem typePath_rounds (hs : s.Placed file) (x : Expr) :
    Rounds file (s.rest.length + 1) s (typePathRound n x) := by
  refine halts_sees (fun hdot => ?_) (halts_pure hs (Nat.lt_succ_self _))
  refine (shrinks_past hs hdot (by simp)).bind fun dot s₁ h₁ hlt₁ => ?_
  refine (shrinks_ident h₁).bind fun name s₂ h₂ hlt₂ => ?_
  exact halts_pure h₂ (Nat.lt_trans hlt₂ hlt₁)

theorem params_rounds (hs : s.Placed file) (seen : List Param) :
    Rounds file (s.rest.length + 1) s (paramsRound n seen) := by
  refine halts_sees (fun _ => halts_pure hs (Nat.lt_succ_self _)) ?_
  dsimp only
  split
  · refine .discard ((shrinks_mark hs _).bind fun _ s₁ h₁ hlt₁ => ?_)
    refine (shrinks_ident h₁).bind fun name s₂ h₂ hlt₂ => ?_
    exact halts_pure h₂ (Nat.lt_trans hlt₂ hlt₁)
  · refine (shrinks_ident hs).bind fun name s₁ h₁ hlt₁ => ?_
    exact halts_pure h₁ hlt₁

namespace Halting

variable (h : Halting file n)

include h

theorem expr_succ (hs : s.Placed file) (hn : 16 * s.rest.length + 13 ≤ n + 1) :
    Shrinks file s.rest.length s (Parser.expr (n + 1)) := by
  rw [Parser.expr]
  refine (h.binary hs (by omega) 1).bind fun x s₁ h₁ hlt₁ => ?_
  refine halts_sees (fun _ => ?_) (halts_pure h₁ hlt₁)
  refine (shrinks_advance_succ h₁).bind fun p s₂ h₂ hlt₂ => ?_
  refine (h.expr h₂ (by omega)).bind fun y s₃ h₃ hlt₃ => ?_
  exact halts_pure h₃ (by omega)

theorem binary_succ (hs : s.Placed file) (hn : 16 * s.rest.length + 12 ≤ n + 1) (level : Nat) :
    Shrinks file s.rest.length s (Parser.binary (n + 1) level) := by
  rw [Parser.binary]
  refine (h.unary hs (by omega)).bind fun x s₁ h₁ hlt₁ => ?_
  exact (h.binaryRest h₁ (by omega) level x).mono (by omega)

theorem binary_rounds (hs : s.Placed file) (hn : 16 * s.rest.length + 10 ≤ n + 1) (level : Nat)
    (x : Expr) : Rounds file (s.rest.length + 1) s (binaryRound level n x) := by
  refine halts_peek ?_
  split
  · exact halts_pure hs (Nat.lt_succ_self _)
  · rename_i op hop
    split
    · exact halts_pure hs (Nat.lt_succ_self _)
    · have hne : s.current.token.kind ≠ .eof := by
        intro heof
        rw [heof] at hop
        cases hop
      refine (shrinks_advance hs hne).bind fun p s₁ h₁ hlt₁ => ?_
      refine (h.binary h₁ (by omega) _).bind fun y s₂ h₂ hlt₂ => ?_
      exact halts_pure h₂ (Nat.lt_trans hlt₂ hlt₁)

theorem unary_succ (hs : s.Placed file) (hn : 16 * s.rest.length + 11 ≤ n + 1) :
    Shrinks file s.rest.length s (Parser.unary (n + 1)) := by
  rw [Parser.unary]
  have operand (op : UnaryOp) {m : Punct} (hm : s.current.token.kind = .punct m) :
      Shrinks file s.rest.length s
        (do
          let p ← advance
          return Expr.unary p op (← Parser.unary n)) := by
    refine (shrinks_past hs hm (by simp)).bind fun p s₁ h₁ hlt₁ => ?_
    exact (h.unary h₁ (by omega)).bind fun x s₂ h₂ hlt₂ => halts_pure h₂ (by omega)
  refine halts_peek ?_
  split
  · exact operand .not ‹_›
  · exact operand .negate ‹_›
  · refine (h.primary hs (by omega)).bind fun x s₁ h₁ hlt₁ => ?_
    exact (h.selectors h₁ (by omega) x).mono (by omega)

theorem args_rounds (hs : s.Placed file) (hn : 16 * s.rest.length + 14 ≤ n + 1) (closing : Punct)
    (seen : List Expr) : Rounds file (s.rest.length + 1) s (argsRound closing n seen) := by
  refine halts_sees (fun _ => halts_pure hs (Nat.lt_succ_self _)) ?_
  dsimp only
  split
  · refine .discard ((shrinks_mark hs _).bind fun _ s₁ h₁ hlt₁ => ?_)
    refine (h.expr h₁ (by omega)).bind fun x s₂ h₂ hlt₂ => ?_
    exact halts_pure h₂ (Nat.lt_trans hlt₂ hlt₁)
  · refine (h.expr hs (by omega)).bind fun x s₁ h₁ hlt₁ => ?_
    exact halts_pure h₁ hlt₁

/-- The arguments after an opening mark and the mark that closes them. -/
theorem arguments {β : Type} {Q : β → TokenStream → Prop} {f : List Expr → Position → Parser β}
    (hs : s.Placed file) (hn : 16 * s.rest.length + 14 ≤ n) (closing : Punct)
    (hf : ∀ xs r s₁, s₁.Placed file → s₁.rest.length < s.rest.length + 1 →
      Halts file s₁ (f xs r) Q) :
    Halts file s (Parser.args n closing [] >>= fun xs => advance >>= fun r => f xs r) Q := by
  refine (h.args hs hn closing []).bind fun xs s₁ h₁ hlt₁ => ?_
  exact (shrinks_advance_succ h₁).bind fun r s₂ h₂ hlt₂ => hf xs r s₂ h₂ (by omega)

theorem selectors_rounds (hs : s.Placed file) (hn : 16 * s.rest.length + 10 ≤ n + 1) (x : Expr) :
    Rounds file (s.rest.length + 1) s (selectorsRound n x) := by
  refine halts_peek ?_
  split
  · refine (shrinks_past hs ‹_› (by simp)).bind fun dot s₁ h₁ hlt₁ => ?_
    refine (shrinks_ident h₁).bind fun name s₂ h₂ hlt₂ => ?_
    refine halts_sees (fun _ => ?_) (halts_pure h₂ (Nat.lt_trans hlt₂ hlt₁))
    refine (shrinks_advance_succ h₂).bind fun l s₃ h₃ hlt₃ => ?_
    exact h.arguments h₃ (by omega) _ fun xs r s₄ h₄ hlt₄ => halts_pure h₄
      (show s₄.rest.length < s.rest.length by omega)
  · refine (shrinks_past hs ‹_› (by simp)).bind fun l s₁ h₁ hlt₁ => ?_
    refine halts_sees (fun _ => ?_) ?_
    · rw [refuse_bind]
      exact halts_refuse h₁ (by simp)
    · exact h.arguments h₁ (by omega) _ fun xs r s₂ h₂ hlt₂ => halts_pure h₂
        (show s₂.rest.length < s.rest.length by omega)
  · exact halts_pure hs (Nat.lt_succ_self _)

theorem exprList_rounds (hs : s.Placed file) (hn : 16 * s.rest.length + 14 ≤ n + 1)
    (seen : List Expr) : Rounds file s.rest.length s (exprListRound n seen) := by
  refine (h.expr hs (by omega)).bind fun x s₁ h₁ hlt₁ => ?_
  refine halts_sees (fun _ => .discard ?_) (halts_pure h₁ hlt₁)
  refine (shrinks_advance_succ h₁).bind fun p s₂ h₂ hlt₂ => ?_
  exact halts_pure h₂ (show s₂.rest.length < s.rest.length by omega)

theorem primary_succ (hs : s.Placed file) (hn : 16 * s.rest.length + 10 ≤ n + 1) :
    Shrinks file s.rest.length s (Parser.primary (n + 1)) := by
  rw [Parser.primary]
  refine halts_get ?_
  dsimp only
  split
  · rename_i v hv
    have hne : s.current.token.kind ≠ .eof := by
      intro heof
      rw [Token.kind_eq_eof.1 heof] at hv
      cases hv
    exact (shrinks_advance hs hne).bind fun p s₁ h₁ hlt₁ => halts_pure h₁ hlt₁
  split
  · refine (shrinks_pastToken hs ‹_› (by simp [Token.kind])).bind fun p s₁ h₁ hlt₁ => ?_
    exact halts_pure h₁ hlt₁
  · refine (shrinks_ident hs).bind fun name s₁ h₁ hlt₁ => ?_
    refine halts_sees (fun _ => ?_) (halts_pure h₁ hlt₁)
    refine (shrinks_advance_succ h₁).bind fun l s₂ h₂ hlt₂ => ?_
    exact h.arguments h₂ (by omega) _ fun xs r s₃ h₃ hlt₃ => halts_pure h₃ (by omega)
  · refine (shrinks_pastToken hs ‹_› (by simp [Token.kind])).bind fun p s₁ h₁ hlt₁ => ?_
    refine (shrinks_ident h₁).bind fun name s₂ h₂ hlt₂ => ?_
    refine (h.typePath h₂ (by omega) _).bind fun type s₃ h₃ hlt₃ => ?_
    refine (shrinks_mark h₃ _).bind fun l s₄ h₄ hlt₄ => ?_
    exact h.arguments h₄ (by omega) _ fun xs r s₅ h₅ hlt₅ => halts_pure h₅ (by omega)
  · refine .discard ((shrinks_pastToken hs ‹_› (by simp [Token.kind])).bind fun _ s₁ h₁ hlt₁ => ?_)
    refine (h.expr h₁ (by omega)).bind fun x s₂ h₂ hlt₂ => .discard ?_
    exact (shrinks_mark h₂ _).bind fun _ s₃ h₃ hlt₃ => halts_pure h₃ (by omega)
  · refine (shrinks_pastToken hs ‹_› (by simp [Token.kind])).bind fun l s₁ h₁ hlt₁ => ?_
    exact h.arguments h₁ (by omega) _ fun xs r s₂ h₂ hlt₂ => halts_pure h₂ (by omega)
  · refine (h.template hs ‹_› (by omega)).bind fun b s₁ h₁ hlt₁ => ?_
    exact halts_pure h₁ hlt₁
  · exact halts_refuse hs (by simp)

/-! ### Templates and blocks -/

theorem template_succ (hs : s.Placed file) (hopen : s.current.token = .punct .openTemplate)
    (hn : 16 * s.rest.length + 9 ≤ n + 1) :
    Shrinks file s.rest.length s (Parser.template (n + 1)) := by
  rw [Parser.template]
  refine (shrinks_pastToken hs hopen (by simp [Token.kind])).bind fun l s₁ h₁ hlt₁ => ?_
  refine (h.templateBody h₁ (by omega) []).bind fun sts s₂ h₂ hlt₂ => ?_
  exact (shrinks_advance_succ h₂).bind fun r s₃ h₃ hlt₃ => halts_pure h₃ (by omega)

theorem templateBody_rounds (hs : s.Placed file) (hn : 16 * s.rest.length + 10 ≤ n + 1)
    (seen : List Stmt) : Rounds file (s.rest.length + 1) s (templateRound n seen) := by
  refine halts_token ?_
  split
  · refine (shrinks_pastToken hs ‹_› (by simp [Token.kind])).bind fun p s₁ h₁ hlt₁ => ?_
    exact halts_pure h₁ hlt₁
  · refine .discard ((shrinks_pastToken hs ‹_› (by simp [Token.kind])).bind fun _ s₁ h₁ hlt₁ => ?_)
    refine (h.island h₁ (by omega) []).bind fun sts s₂ h₂ hlt₂ => .discard ?_
    refine (shrinks_advance_succ h₂).bind fun _ s₃ h₃ hlt₃ => ?_
    exact halts_pure h₃ (show s₃.rest.length < s.rest.length by omega)
  · exact halts_pure hs (Nat.lt_succ_self _)
  · exact halts_refuse hs (by simp)

theorem island_rounds (hs : s.Placed file) (hn : 16 * s.rest.length + 16 ≤ n + 1)
    (seen : List Stmt) : Rounds file (s.rest.length + 1) s (islandRound n seen) := by
  refine halts_sees (fun _ => halts_pure hs (Nat.lt_succ_self _)) ?_
  refine (h.islandStmt hs (by omega)).bind fun st s₁ h₁ hlt₁ => ?_
  exact halts_pure h₁ hlt₁

theorem islandStmt_succ (hs : s.Placed file) (hn : 16 * s.rest.length + 15 ≤ n + 1) :
    Shrinks file s.rest.length s (Parser.islandStmt (n + 1)) := by
  rw [Parser.islandStmt]
  refine halts_peek ?_
  split
  iterate 10 exact h.stmt hs (by omega)
  · exact halts_refuse hs (by simp)
  · refine (h.expr hs (by omega)).bind fun x s₁ h₁ hlt₁ => ?_
    refine halts_sees (fun _ => .discard ?_) (halts_pure h₁ hlt₁)
    exact (shrinks_advance_succ h₁).bind fun _ s₂ h₂ hlt₂ => halts_pure h₂ (by omega)

theorem block_succ (hs : s.Placed file) (hn : 16 * s.rest.length + 11 ≤ n + 1) :
    Shrinks file s.rest.length s (Parser.block (n + 1)) := by
  rw [Parser.block]
  refine halts_peek ?_
  split
  · refine (shrinks_past hs ‹_› (by simp)).bind fun l s₁ h₁ hlt₁ => ?_
    refine (h.stmts h₁ (by omega) []).bind fun sts s₂ h₂ hlt₂ => ?_
    exact (shrinks_advance_succ h₂).bind fun r s₃ h₃ hlt₃ => halts_pure h₃ (by omega)
  · exact h.template hs (Token.kind_eq_punct.1 ‹_›) (by omega)
  · exact halts_refuse hs (by simp)

theorem stmts_rounds (hs : s.Placed file) (hn : 16 * s.rest.length + 15 ≤ n + 1)
    (seen : List Stmt) : Rounds file (s.rest.length + 1) s (stmtsRound n seen) := by
  refine halts_peek ?_
  split
  · exact halts_pure hs (Nat.lt_succ_self _)
  · exact halts_refuse hs (by simp)
  · refine (h.stmt hs (by omega)).bind fun st s₁ h₁ hlt₁ => ?_
    exact halts_pure h₁ hlt₁

/-! ### Statements -/

theorem varDefs_rounds (hs : s.Placed file) (hn : 16 * s.rest.length + 10 ≤ n + 1)
    (seen : List VarDef) : Rounds file s.rest.length s (varDefsRound n seen) := by
  have more (v : VarDef) {s₁ : TokenStream} (h₁ : s₁.Placed file)
      (hlt₁ : s₁.rest.length < s.rest.length) :
      Halts file s₁
        (do
          if ← sees .comma then
            discard advance
            return Round.again (v :: seen)
          else
            semi
            return Round.done (v :: seen).reverse)
        fun x s' => x.Takes s.rest.length s.rest.length s' := by
    refine halts_sees (fun _ => .discard ?_) ?_
    · refine (shrinks_advance_succ h₁).bind fun _ s₂ h₂ hlt₂ => ?_
      exact halts_pure h₂ (show s₂.rest.length < s.rest.length by omega)
    · refine (shrinks_semi h₁).bind fun _ s₂ h₂ hlt₂ => ?_
      exact halts_pure h₂ (show s₂.rest.length < s.rest.length by omega)
  refine (shrinks_ident hs).bind fun name s₁ h₁ hlt₁ => ?_
  refine halts_sees (fun _ => .discard ?_) (more (.mk name.1 name.2 none) h₁ hlt₁)
  refine (shrinks_advance_succ h₁).bind fun _ s₂ h₂ hlt₂ => ?_
  refine (h.expr h₂ (by omega)).bind fun x s₃ h₃ hlt₃ => ?_
  exact more (.mk name.1 name.2 (some x)) h₃ (by omega)

theorem parenExpr_succ (hs : s.Placed file) (hn : 16 * s.rest.length + 10 ≤ n + 1) :
    Shrinks file s.rest.length s (Parser.parenExpr (n + 1)) := by
  rw [Parser.parenExpr]
  refine .discard ((shrinks_mark hs _).bind fun _ s₁ h₁ hlt₁ => ?_)
  refine (h.expr h₁ (by omega)).bind fun x s₂ h₂ hlt₂ => .discard ?_
  exact (shrinks_mark h₂ _).bind fun _ s₃ h₃ hlt₃ => halts_pure h₃ (by omega)

theorem conditional_succ (hs : s.Placed file) (hn : 16 * s.rest.length + 11 ≤ n + 1)
    (p : Position) : Shrinks file s.rest.length s (Parser.conditional (n + 1) p) := by
  rw [Parser.conditional]
  refine (h.parenExpr hs (by omega)).bind fun test s₁ h₁ hlt₁ => ?_
  refine (h.block h₁ (by omega)).bind fun yes s₂ h₂ hlt₂ => ?_
  refine halts_seesWord (fun _ => ?_) (halts_pure h₂ (by omega))
  refine (shrinks_advance_succ h₂).bind fun e s₃ h₃ hlt₃ => ?_
  refine halts_seesWord (fun _ => ?_) ?_
  · refine (shrinks_advance_succ h₃).bind fun p' s₄ h₄ hlt₄ => ?_
    exact (h.conditional h₄ (by omega) p').bind fun inner s₅ h₅ hlt₅ => halts_pure h₅ (by omega)
  · exact (h.block h₃ (by omega)).bind fun no s₄ h₄ hlt₄ => halts_pure h₄ (by omega)

theorem caseStmts_rounds (hs : s.Placed file) (hn : 16 * s.rest.length + 15 ≤ n + 1)
    (seen : List Stmt) : Rounds file (s.rest.length + 1) s (caseStmtsRound n seen) := by
  refine halts_peek ?_
  split
  iterate 3 exact halts_pure hs (Nat.lt_succ_self _)
  · refine (h.stmt hs (by omega)).bind fun st s₁ h₁ hlt₁ => ?_
    exact halts_pure h₁ hlt₁

theorem caseBody_succ (hs : s.Placed file) (hn : 16 * s.rest.length + 10 ≤ n + 1) :
    Shrinks file s.rest.length s (Parser.caseBody (n + 1)) := by
  rw [Parser.caseBody]
  refine (shrinks_mark hs _).bind fun l s₁ h₁ hlt₁ => ?_
  refine (h.caseStmts h₁ (by omega) []).bind fun sts s₂ h₂ hlt₂ => ?_
  exact halts_here (halts_pure h₂ (by omega))

theorem switchArms_rounds (hs : s.Placed file) (hn : 16 * s.rest.length + 10 ≤ n + 1)
    (seen : List SwitchCase × Option Block) :
    Rounds file (s.rest.length + 1) s (switchRound n seen) := by
  refine halts_peek ?_
  split
  · exact halts_pure hs (Nat.lt_succ_self _)
  · dsimp only
    split
    · rw [refuse_bind]
      exact halts_refuse hs (by simp)
    · refine (shrinks_past hs ‹_› (by simp)).bind fun p s₁ h₁ hlt₁ => ?_
      refine (h.exprList h₁ (by omega) []).bind fun values s₂ h₂ hlt₂ => ?_
      refine (h.caseBody h₂ (by omega)).bind fun body s₃ h₃ hlt₃ => ?_
      exact halts_pure h₃ (show s₃.rest.length < s.rest.length by omega)
  · dsimp only
    split
    · rw [refuse_bind]
      exact halts_refuse hs (by simp)
    · refine .discard ((shrinks_past hs ‹_› (by simp)).bind fun _ s₁ h₁ hlt₁ => ?_)
      refine (h.caseBody h₁ (by omega)).bind fun body s₂ h₂ hlt₂ => ?_
      exact halts_pure h₂ (show s₂.rest.length < s.rest.length by omega)
  · exact halts_refuse hs (by simp)

/-- The blocks of a loop over the elements of a value. -/
theorem eachBodies {N : Nat} (hs : s.Placed file) (hn : 16 * s.rest.length + 11 ≤ n)
    (hN : s.rest.length < N) (make : Block → Option Block → Stmt) :
    Shrinks file N s (do
      let body ← Parser.block n
      if ← seesWord .betweenWord then
        discard advance
        return make body (some (← Parser.block n))
      return make body none) := by
  refine (h.block hs hn).bind fun body s₁ h₁ hlt₁ => ?_
  refine halts_seesWord (fun _ => .discard ?_) (halts_pure h₁ (by omega))
  refine (shrinks_advance_succ h₁).bind fun _ s₂ h₂ hlt₂ => ?_
  exact (h.block h₂ (by omega)).bind fun between s₃ h₃ hlt₃ => halts_pure h₃ (by omega)

theorem stmt_succ (hs : s.Placed file) (hn : 16 * s.rest.length + 14 ≤ n + 1) :
    Shrinks file s.rest.length s (Parser.stmt (n + 1)) := by
  rw [Parser.stmt]
  refine halts_peek ?_
  split
  · refine (shrinks_past hs ‹_› (by simp)).bind fun p s₁ h₁ hlt₁ => ?_
    exact (h.varDefs h₁ (by omega) []).bind fun vs s₂ h₂ hlt₂ => halts_pure h₂ (by omega)
  · refine (shrinks_past hs ‹_› (by simp)).bind fun p s₁ h₁ hlt₁ => ?_
    exact (h.exprList h₁ (by omega) []).bind fun xs s₂ h₂ hlt₂ => shrinks_end h₂ (by omega) _
  · refine (shrinks_past hs ‹_› (by simp)).bind fun p s₁ h₁ hlt₁ => halts_peek ?_
    split
    iterate 3 exact shrinks_end h₁ hlt₁ _
    exact (h.expr h₁ (by omega)).bind fun x s₂ h₂ hlt₂ => shrinks_end h₂ (by omega) _
  · refine (shrinks_past hs ‹_› (by simp)).bind fun p s₁ h₁ hlt₁ => ?_
    exact (h.conditional h₁ (by omega) p).mono (by omega)
  · refine (shrinks_past hs ‹_› (by simp)).bind fun p s₁ h₁ hlt₁ => ?_
    refine (h.parenExpr h₁ (by omega)).bind fun test s₂ h₂ hlt₂ => ?_
    exact (h.block h₂ (by omega)).bind fun b s₃ h₃ hlt₃ => halts_pure h₃ (by omega)
  · refine (shrinks_past hs ‹_› (by simp)).bind fun p s₁ h₁ hlt₁ => .discard ?_
    refine (shrinks_mark h₁ _).bind fun _ s₂ h₂ hlt₂ => ?_
    refine (shrinks_ident h₂).bind fun name s₃ h₃ hlt₃ => .discard ?_
    refine (shrinks_consume (k := .keyword .inWord) h₃ (by simp)).bind fun _ s₄ h₄ hlt₄ => ?_
    refine (h.expr h₄ (by omega)).bind fun x s₅ h₅ hlt₅ => ?_
    have body {s₆ : TokenStream} (h₆ : s₆.Placed file) (hlt₆ : s₆.rest.length < s.rest.length)
        (filter : Option WhereClause) :
        Shrinks file s.rest.length s₆ (do
          discard (mark .rparen)
          let body ← Parser.block n
          if ← seesWord .betweenWord then
            discard advance
            return Stmt.each p name.1 name.2 x filter body (some (← Parser.block n))
          return Stmt.each p name.1 name.2 x filter body none) := by
      refine .discard ((shrinks_mark h₆ _).bind fun _ s₇ h₇ hlt₇ => ?_)
      exact h.eachBodies h₇ (by omega) (by omega) (.each p name.1 name.2 x filter)
    refine halts_seesWord (fun _ => ?_) (body h₅ (by omega) none)
    refine (shrinks_advance_succ h₅).bind fun wp s₆ h₆ hlt₆ => ?_
    exact (h.expr h₆ (by omega)).bind fun y s₇ h₇ hlt₇ => body h₇ (by omega) (some (.mk wp y))
  · refine (shrinks_past hs ‹_› (by simp)).bind fun p s₁ h₁ hlt₁ => ?_
    refine (h.parenExpr h₁ (by omega)).bind fun x s₂ h₂ hlt₂ => .discard ?_
    refine (shrinks_mark h₂ _).bind fun _ s₃ h₃ hlt₃ => ?_
    refine (h.switchArms h₃ (by omega) [] none).bind fun arms s₄ h₄ hlt₄ => ?_
    exact (shrinks_advance_succ h₄).bind fun r s₅ h₅ hlt₅ => halts_pure h₅ (by omega)
  iterate 2
    exact (shrinks_past hs ‹_› (by simp)).bind fun p s₁ h₁ hlt₁ => shrinks_end h₁ hlt₁ _
  iterate 2 exact (h.block hs (by omega)).bind fun b s₁ h₁ hlt₁ => halts_pure h₁ hlt₁
  iterate 2 exact halts_refuse hs (by simp)
  · exact (h.expr hs (by omega)).bind fun x s₁ h₁ hlt₁ => shrinks_end h₁ hlt₁ _

/-! ### All readers -/

theorem succ : Halting file (n + 1) where
  typePath hs hn x := by
    rw [typePath_succ]
    exact (typePath_rounds hs x).next fun y s₁ h₁ hlt₁ =>
      (h.typePath h₁ (by omega) y).mono (by omega)
  params hs hn seen := by
    rw [params_succ]
    exact (params_rounds hs seen).next fun y s₁ h₁ hlt₁ =>
      (h.params h₁ (by omega) y).mono (by omega)
  expr := h.expr_succ
  binary := h.binary_succ
  binaryRest hs hn level x := by
    rw [binaryRest_succ]
    exact (h.binary_rounds hs hn level x).next fun y s₁ h₁ hlt₁ =>
      (h.binaryRest h₁ (by omega) level y).mono (by omega)
  unary := h.unary_succ
  selectors hs hn x := by
    rw [selectors_succ]
    exact (h.selectors_rounds hs hn x).next fun y s₁ h₁ hlt₁ =>
      (h.selectors h₁ (by omega) y).mono (by omega)
  args hs hn closing seen := by
    rw [args_succ]
    exact (h.args_rounds hs hn closing seen).next fun y s₁ h₁ hlt₁ =>
      (h.args h₁ (by omega) closing y).mono (by omega)
  exprList hs hn seen := by
    rw [exprList_succ]
    exact (h.exprList_rounds hs hn seen).next fun y s₁ h₁ hlt₁ =>
      (h.exprList h₁ (by omega) y).mono (by omega)
  primary := h.primary_succ
  template := h.template_succ
  templateBody hs hn seen := by
    rw [templateBody_succ]
    exact (h.templateBody_rounds hs hn seen).next fun y s₁ h₁ hlt₁ =>
      (h.templateBody h₁ (by omega) y).mono (by omega)
  island hs hn seen := by
    rw [island_succ]
    exact (h.island_rounds hs hn seen).next fun y s₁ h₁ hlt₁ =>
      (h.island h₁ (by omega) y).mono (by omega)
  islandStmt := h.islandStmt_succ
  block := h.block_succ
  stmts hs hn seen := by
    rw [stmts_succ]
    exact (h.stmts_rounds hs hn seen).next fun y s₁ h₁ hlt₁ =>
      (h.stmts h₁ (by omega) y).mono (by omega)
  varDefs hs hn seen := by
    rw [varDefs_succ]
    exact (h.varDefs_rounds hs hn seen).next fun y s₁ h₁ hlt₁ =>
      (h.varDefs h₁ (by omega) y).mono (by omega)
  parenExpr := h.parenExpr_succ
  conditional := h.conditional_succ
  caseStmts hs hn seen := by
    rw [caseStmts_succ]
    exact (h.caseStmts_rounds hs hn seen).next fun y s₁ h₁ hlt₁ =>
      (h.caseStmts h₁ (by omega) y).mono (by omega)
  caseBody := h.caseBody_succ
  switchArms hs hn seen dflt := by
    rw [switchArms_succ n (seen, dflt)]
    exact (h.switchArms_rounds hs hn (seen, dflt)).next fun y s₁ h₁ hlt₁ =>
      (h.switchArms h₁ (by omega) y.1 y.2).mono (by omega)
  stmt := h.stmt_succ

omit h

theorem zero : Halting file 0 := by
  constructor <;> intros <;> omega

end Halting

theorem halting (file : Bytes) (n : Nat) : Halting file n := by
  induction n with
  | zero => exact .zero
  | succ n ih => exact ih.succ

/-! ### Modules -/

variable {n : Nat} {s : TokenStream}

theorem shrinks_load (hs : s.Placed file) (h : s.current.token.kind = .keyword .loadWord) :
    Shrinks file s.rest.length s load := by
  rw [load]
  refine (shrinks_past hs h (by simp)).bind fun p s₁ h₁ hlt₁ => halts_token ?_
  split
  · refine (shrinks_pastToken h₁ ‹_› (by simp [Token.kind])).bind fun np s₂ h₂ hlt₂ => ?_
    exact (shrinks_mark h₂ _).bind fun _ s₃ h₃ hlt₃ => halts_pure h₃ (by omega)
  · exact halts_refuse h₁ (by simp)

theorem shrinks_function (hs : s.Placed file) (h : s.current.token.kind = .keyword .functionWord)
    (hn : 16 * s.rest.length ≤ n) : Shrinks file s.rest.length s (function n) := by
  rw [function]
  refine (shrinks_past hs h (by simp)).bind fun p s₁ h₁ hlt₁ => ?_
  refine (shrinks_ident h₁).bind fun name s₂ h₂ hlt₂ => .discard ?_
  refine (shrinks_mark h₂ _).bind fun _ s₃ h₃ hlt₃ => ?_
  refine ((halting file n).params h₃ (by omega) []).bind fun ps s₄ h₄ hlt₄ => .discard ?_
  refine (shrinks_advance_succ h₄).bind fun _ s₅ h₅ hlt₅ => ?_
  exact ((halting file n).block h₅ (by omega)).bind fun b s₆ h₆ hlt₆ => halts_pure h₆ (by omega)

theorem moduleItems_rounds (hs : s.Placed file) (hn : 16 * s.rest.length + 16 ≤ n + 1)
    (m : Module) : Rounds file (s.rest.length + 1) s (moduleRound n m) := by
  refine halts_peek ?_
  split
  · exact halts_here (halts_pure hs (Nat.lt_succ_self _))
  · exact (shrinks_load hs ‹_›).bind fun l s₁ h₁ hlt₁ => halts_pure h₁ hlt₁
  · exact (shrinks_function hs ‹_› (by omega)).bind fun f s₁ h₁ hlt₁ => halts_pure h₁ hlt₁
  · refine (shrinks_past hs ‹_› (by simp)).bind fun p s₁ h₁ hlt₁ => ?_
    refine ((halting file n).varDefs h₁ (by omega) []).bind fun vs s₂ h₂ hlt₂ => ?_
    exact halts_pure h₂ (Nat.lt_trans hlt₂ hlt₁)
  · exact ((halting file n).stmt hs (by omega)).bind fun st s₁ h₁ hlt₁ => halts_pure h₁ hlt₁

theorem shrinks_moduleItems (n : Nat) : ∀ {s : TokenStream}, s.Placed file →
    16 * s.rest.length + 16 ≤ n → ∀ m : Module,
      Shrinks file (s.rest.length + 1) s (moduleItems n m) := by
  induction n with
  | zero =>
    intro s _ hn
    omega
  | succ n ih =>
    intro s hs hn m
    rw [moduleItems_succ]
    exact (moduleItems_rounds hs hn m).next fun m' s₁ h₁ hlt₁ =>
      (ih h₁ (by omega) m').mono (by omega)

/-- Every round of every loop takes a lexeme, is the last one, or fails at a position. -/
theorem Loop.progresses {σ β : Type} {p : Nat → σ → Parser β} {round : Nat → σ → Parser (Round σ β)}
    (h : Loop p round) (file : Bytes) : Progresses file round := by
  intro s n x hs hn
  have hall := halting file n
  cases h with
  | typePath => exact typePath_rounds hs x
  | params => exact params_rounds hs x
  | binary level => exact hall.binary_rounds hs (by omega) level x
  | selectors => exact hall.selectors_rounds hs (by omega) x
  | args closing => exact hall.args_rounds hs (by omega) closing x
  | exprList =>
    refine (hall.exprList_rounds hs (by omega) x).mono fun r s' h => ?_
    cases r with
    | again => exact h
    | done => exact Nat.lt_succ_of_lt h
  | template => exact hall.templateBody_rounds hs (by omega) x
  | island => exact hall.island_rounds hs (by omega) x
  | stmts => exact hall.stmts_rounds hs (by omega) x
  | varDefs =>
    refine (hall.varDefs_rounds hs (by omega) x).mono fun r s' h => ?_
    cases r with
    | again => exact h
    | done => exact Nat.lt_succ_of_lt h
  | caseStmts => exact hall.caseStmts_rounds hs (by omega) x
  | switch => exact hall.switchArms_rounds hs (by omega) x
  | module => exact moduleItems_rounds hs (by omega) x

/-! ### Whole texts -/

/-- A result, or an error with a position that is not about the depth of recursion. -/
inductive Answers (file : Bytes) {α : Type} : Except SyntaxError α → Prop where
  | ok (a) : Answers file (.ok a)
  | error {e : SyntaxError} : e.Placed file → Answers file (.error e)

/-- A reader that comes to an end on every stream does on that of a text. -/
theorem answers_run {α : Type} {p : Nat → Parser α} (src : Bytes)
    (hp : ∀ s n, TokenStream.Placed file s → 16 * s.rest.length + 16 ≤ n →
      Halts file s (p n) fun _ _ => True) : Answers file (run p file src) := by
  have hplaced := scan_placed file src
  cases hscan : scan file src with
  | mk lexemes fault =>
    cases lexemes with
    | nil =>
      rw [hscan] at hplaced
      have hclosed := scan_closed file src
      rw [hscan] at hclosed
      cases fault with
      | none =>
        generalize hx : (⟨[], none⟩ : Scan) = x at hclosed
        cases hclosed with
        | ended _ _ => simp at hx
        | broken _ => cases hx
      | some e =>
        rw [run, hscan]
        exact .error (hplaced.fault e rfl)
    | cons l rest =>
      rw [run_of_scan hscan]
      have hscan' : scan file src = ⟨TokenStream.lexemes ⟨l, rest, fault⟩, fault⟩ := hscan
      have hs : TokenStream.Placed file ⟨l, rest, fault⟩ := placed_of_scan hscan'
      have hends := hp _ (16 * (rest.length + 4)) hs (by simp only; omega)
      unfold Halts at hends
      generalize StateT.run _ _ = r at hends ⊢
      cases hends with
      | ok => exact .ok _
      | error he => exact .error he

theorem answers_parseModule (file src : Bytes) : Answers file (parseModule file src) :=
  answers_run src fun _ n hs hn => Halts.mono (shrinks_moduleItems n hs hn _) fun _ _ _ => trivial

theorem answers_parseExpr (file src : Bytes) : Answers file (parseExpr file src) := by
  refine answers_run src fun s n hs hn => ?_
  refine ((halting file n).expr hs (by omega)).bind fun x s₁ h₁ _ => ?_
  refine halts_sees (fun _ => .discard ((shrinks_advance_succ h₁).bind fun _ s₂ h₂ _ => ?_)) ?_
  · refine halts_peek ?_
    split
    · exact halts_pure h₂ trivial
    · exact .error ⟨h₂.current, by simp⟩
  · refine halts_peek ?_
    split
    · exact halts_pure h₁ trivial
    · exact .error ⟨h₁.current, by simp⟩

end Parser

/-- Scanning and parsing come to an end on every text. Each token but the end of the file takes
bytes, so there are no more of them than bytes, and the end of the file is read for ever after.
Every round of every loop of the parser takes a lexeme, is the last one or fails at a position. A
module and an expression have a tree, or an error at a position, and never because of the bound on
the depth of recursion. -/
theorem parsing_terminates (file src : Bytes) :
    (∀ ls d, (ScanPoint.ofBytes file src).Reads ls d →
      countTokens ls + d.left ≤ src.length ∧ d.Step file d.next) ∧
    (∀ {σ β : Type} {p : Nat → σ → Parser β} {round : Nat → σ → Parser (Parser.Round σ β)},
      Parser.Loop p round → p = Parser.loop round ∧ Parser.Progresses file round) ∧
    Parser.Answers file (parseModule file src) ∧ Parser.Answers file (parseExpr file src) := by
  refine ⟨fun ls d hreads => ⟨?_, ?_⟩, fun h => ⟨h.eq, h.progresses file⟩,
    Parser.answers_parseModule file src, Parser.answers_parseExpr file src⟩
  · exact left_ofBytes ▸ count_reads hreads
  · exact ScanPoint.step_next (hreads.inFile (.start file))

end Stencil
