import Stencil.Proofs.Syntax.Cut.Steps
import Stencil.Proofs.Syntax.Derivation.Statements
import Stencil.Proofs.Syntax.Printer

/-!
# Every reader on a text that is cut short

By induction on the bound on the depth of recursion: `Tracks bad n` collects what the readers
with the bound `n` do before the cut. The bound has to be sixteen for each lexeme that is left,
and more for a reader that is called before others take a lexeme.
-/

namespace Stencil

namespace Parser

open TokenStream

variable {bad : SyntaxError → Prop}

/-- What the readers with the bound `n` do on a text that is cut short, when they succeed on the
whole text with some bound. -/
structure Tracks (bad : SyntaxError → Prop) (n : Nat) : Prop where
  typePath {s t} : s.CutOf bad t → 16 * s.rest.length + 10 ≤ n → ∀ m x,
    Follows bad (s.rest.length + 1) s t (Parser.typePath n x) (Parser.typePath m x)
  params {s t} : s.CutOf bad t → 16 * s.rest.length + 10 ≤ n → ∀ m seen,
    Follows bad (s.rest.length + 1) s t (Parser.params n seen) (Parser.params m seen)
  expr {s t} : s.CutOf bad t → 16 * s.rest.length + 13 ≤ n → ∀ m,
    Follows bad s.rest.length s t (Parser.expr n) (Parser.expr m)
  binary {s t} : s.CutOf bad t → 16 * s.rest.length + 12 ≤ n → ∀ m level,
    Follows bad s.rest.length s t (Parser.binary n level) (Parser.binary m level)
  binaryRest {s t} : s.CutOf bad t → 16 * s.rest.length + 10 ≤ n → ∀ m level x,
    Follows bad (s.rest.length + 1) s t (Parser.binaryRest n level x) (Parser.binaryRest m level x)
  unary {s t} : s.CutOf bad t → 16 * s.rest.length + 11 ≤ n → ∀ m,
    Follows bad s.rest.length s t (Parser.unary n) (Parser.unary m)
  selectors {s t} : s.CutOf bad t → 16 * s.rest.length + 10 ≤ n → ∀ m x,
    Follows bad (s.rest.length + 1) s t (Parser.selectors n x) (Parser.selectors m x)
  args {s t} : s.CutOf bad t → 16 * s.rest.length + 14 ≤ n → ∀ m closing seen,
    Follows bad (s.rest.length + 1) s t (Parser.args n closing seen) (Parser.args m closing seen)
  exprList {s t} : s.CutOf bad t → 16 * s.rest.length + 14 ≤ n → ∀ m seen,
    Follows bad s.rest.length s t (Parser.exprList n seen) (Parser.exprList m seen)
  primary {s t} : s.CutOf bad t → 16 * s.rest.length + 10 ≤ n → ∀ m,
    Follows bad s.rest.length s t (Parser.primary n) (Parser.primary m)
  template {s t} : s.CutOf bad t → 16 * s.rest.length + 9 ≤ n → ∀ m,
    Follows bad s.rest.length s t (Parser.template n) (Parser.template m)
  templateBody {s t} : s.CutOf bad t → 16 * s.rest.length + 10 ≤ n → ∀ m seen,
    Follows bad (s.rest.length + 1) s t (Parser.templateBody n seen) (Parser.templateBody m seen)
  island {s t} : s.CutOf bad t → 16 * s.rest.length + 16 ≤ n → ∀ m seen,
    Follows bad (s.rest.length + 1) s t (Parser.island n seen) (Parser.island m seen)
  islandStmt {s t} : s.CutOf bad t → 16 * s.rest.length + 15 ≤ n → ∀ m,
    Follows bad s.rest.length s t (Parser.islandStmt n) (Parser.islandStmt m)
  block {s t} : s.CutOf bad t → 16 * s.rest.length + 11 ≤ n → ∀ m,
    Follows bad s.rest.length s t (Parser.block n) (Parser.block m)
  stmts {s t} : s.CutOf bad t → 16 * s.rest.length + 15 ≤ n → ∀ m seen,
    Follows bad (s.rest.length + 1) s t (Parser.stmts n seen) (Parser.stmts m seen)
  varDefs {s t} : s.CutOf bad t → 16 * s.rest.length + 10 ≤ n → ∀ m seen,
    Follows bad s.rest.length s t (Parser.varDefs n seen) (Parser.varDefs m seen)
  parenExpr {s t} : s.CutOf bad t → 16 * s.rest.length + 10 ≤ n → ∀ m,
    Follows bad s.rest.length s t (Parser.parenExpr n) (Parser.parenExpr m)
  conditional {s t} : s.CutOf bad t → 16 * s.rest.length + 11 ≤ n → ∀ m p,
    Follows bad s.rest.length s t (Parser.conditional n p) (Parser.conditional m p)
  caseStmts {s t} : s.CutOf bad t → 16 * s.rest.length + 15 ≤ n → ∀ m seen,
    Follows bad (s.rest.length + 1) s t (Parser.caseStmts n seen) (Parser.caseStmts m seen)
  caseBody {s t} : s.CutOf bad t → 16 * s.rest.length + 10 ≤ n → ∀ m,
    Follows bad s.rest.length s t (Parser.caseBody n) (Parser.caseBody m)
  switchArms {s t} : s.CutOf bad t → 16 * s.rest.length + 10 ≤ n → ∀ m seen dflt,
    Follows bad (s.rest.length + 1) s t (Parser.switchArms n seen dflt)
      (Parser.switchArms m seen dflt)
  stmt {s t} : s.CutOf bad t → 16 * s.rest.length + 14 ≤ n → ∀ m,
    Follows bad s.rest.length s t (Parser.stmt n) (Parser.stmt m)

variable {n : Nat} {s t : TokenStream}

/-! ### Expressions -/

theorem Tracks.typePath_succ (h : Tracks bad n) (hc : s.CutOf bad t)
    (hn : 16 * s.rest.length + 10 ≤ n + 1) (m : Nat) (x : Expr) :
    Follows bad (s.rest.length + 1) s t (Parser.typePath (n + 1) x) (Parser.typePath (m + 1) x) := by
  rw [Parser.typePath, Parser.typePath]
  refine follows_sees hc ?_ (follows_pure hc (Nat.lt_succ_self _) x)
  refine (follows_advance hc).bind (fun _ => (refuses_ident.bind _).settles) fun p s₁ t₁ h₁ hlt₁ => ?_
  refine (follows_ident h₁).bind (fun _ => settles_typePath _ (by omega)) fun q s₂ t₂ h₂ hlt₂ => ?_
  exact (h.typePath h₂ (by omega) m _).mono (by omega)

theorem Tracks.params_succ (h : Tracks bad n) (hc : s.CutOf bad t)
    (hn : 16 * s.rest.length + 10 ≤ n + 1) (m : Nat) (seen : List Param) :
    Follows bad (s.rest.length + 1) s t (Parser.params (n + 1) seen) (Parser.params (m + 1) seen) := by
  rw [Parser.params, Parser.params]
  refine follows_sees hc (follows_pure hc (Nat.lt_succ_self _) _) ?_
  have rest {s₁ t₁ : TokenStream} (h₁ : s₁.CutOf bad t₁) (hlt : s₁.rest.length < s.rest.length + 1) :
      Follows bad (s.rest.length + 1) s₁ t₁
        (ident >>= fun name => Parser.params n (⟨name.1, name.2⟩ :: seen))
        (ident >>= fun name => Parser.params m (⟨name.1, name.2⟩ :: seen)) := by
    refine (follows_ident h₁).bind (fun _ => (refuses_params _ (by omega)).settles)
      fun q s₂ t₂ h₂ hlt₂ => ?_
    exact (h.params h₂ (by omega) m _).mono (by omega)
  dsimp only
  split
  · refine .discard ?_
    exact (follows_mark _ hc).bind (fun _ => (refuses_ident.bind _).settles)
      fun p s₁ t₁ h₁ hlt₁ => rest h₁ (by omega)
  · exact rest hc (Nat.lt_succ_self _)

theorem Tracks.expr_succ (h : Tracks bad n) (hc : s.CutOf bad t)
    (hn : 16 * s.rest.length + 13 ≤ n + 1) (m : Nat) :
    Follows bad s.rest.length s t (Parser.expr (n + 1)) (Parser.expr (m + 1)) := by
  rw [Parser.expr, Parser.expr]
  refine (h.binary hc (by omega) m 1).bind (fun x => settles_sees (settles_pure x))
    fun x s₁ t₁ h₁ hlt₁ => ?_
  refine follows_sees h₁ ?_ (follows_pure h₁ hlt₁ x)
  refine (follows_advance h₁).bind (fun p => ((refuses_expr (by omega)).bind _).settles)
    fun p s₂ t₂ h₂ hlt₂ => ?_
  exact (h.expr h₂ (by omega) m).bind (fun _ => settles_pure _) fun y s₃ t₃ h₃ hlt₃ =>
    follows_pure h₃ (by omega) _

theorem Tracks.binary_succ (h : Tracks bad n) (hc : s.CutOf bad t)
    (hn : 16 * s.rest.length + 12 ≤ n + 1) (m level : Nat) :
    Follows bad s.rest.length s t (Parser.binary (n + 1) level) (Parser.binary (m + 1) level) := by
  rw [Parser.binary, Parser.binary]
  refine (h.unary hc (by omega) m).bind (fun x => settles_binaryRest _ _ (by omega))
    fun x s₁ t₁ h₁ hlt₁ => ?_
  exact (h.binaryRest h₁ (by omega) m level x).mono (by omega)

theorem Tracks.binaryRest_succ (h : Tracks bad n) (hc : s.CutOf bad t)
    (hn : 16 * s.rest.length + 10 ≤ n + 1) (m level : Nat) (x : Expr) :
    Follows bad (s.rest.length + 1) s t (Parser.binaryRest (n + 1) level x)
      (Parser.binaryRest (m + 1) level x) := by
  rw [Parser.binaryRest, Parser.binaryRest]
  refine follows_peek hc ?_
  split
  · exact follows_pure hc (Nat.lt_succ_self _) x
  · split
    · exact follows_pure hc (Nat.lt_succ_self _) x
    · refine (follows_advance hc).bind (fun p => ((refuses_binary _ (by omega)).bind _).settles)
        fun p s₁ t₁ h₁ hlt₁ => ?_
      refine (h.binary h₁ (by omega) m _).bind (fun y => settles_binaryRest _ _ (by omega))
        fun y s₂ t₂ h₂ hlt₂ => ?_
      exact (h.binaryRest h₂ (by omega) m level _).mono (by omega)

theorem Tracks.unary_succ (h : Tracks bad n) (hc : s.CutOf bad t)
    (hn : 16 * s.rest.length + 11 ≤ n + 1) (m : Nat) :
    Follows bad s.rest.length s t (Parser.unary (n + 1)) (Parser.unary (m + 1)) := by
  rw [Parser.unary, Parser.unary]
  have operand (op : UnaryOp) : Follows bad s.rest.length s t
      (do
        let p ← advance
        return Expr.unary p op (← Parser.unary n))
      (do
        let p ← advance
        return Expr.unary p op (← Parser.unary m)) := by
    refine (follows_advance hc).bind (fun p => ((refuses_unary (by omega)).bind _).settles)
      fun p s₁ t₁ h₁ hlt₁ => ?_
    exact (h.unary h₁ (by omega) m).bind (fun _ => settles_pure _) fun x s₂ t₂ h₂ hlt₂ =>
      follows_pure h₂ (by omega) _
  refine follows_peek hc ?_
  split
  · exact operand .not
  · exact operand .negate
  · refine (h.primary hc (by omega) m).bind (fun x => settles_selectors _ (by omega))
      fun x s₁ t₁ h₁ hlt₁ => ?_
    exact (h.selectors h₁ (by omega) m x).mono (by omega)

theorem Tracks.args_succ (h : Tracks bad n) (hc : s.CutOf bad t)
    (hn : 16 * s.rest.length + 14 ≤ n + 1) (m : Nat) (closing : Punct) (seen : List Expr) :
    Follows bad (s.rest.length + 1) s t (Parser.args (n + 1) closing seen)
      (Parser.args (m + 1) closing seen) := by
  rw [Parser.args, Parser.args]
  refine follows_sees hc (follows_pure hc (Nat.lt_succ_self _) _) ?_
  have next {s₁ t₁ : TokenStream} (h₁ : s₁.CutOf bad t₁) (hlt : s₁.rest.length < s.rest.length + 1) :
      Follows bad (s.rest.length + 1) s₁ t₁
        (Parser.expr n >>= fun x => Parser.args n closing (x :: seen))
        (Parser.expr m >>= fun x => Parser.args m closing (x :: seen)) := by
    refine (h.expr h₁ (by omega) m).bind (fun _ => (refuses_args _ _ (by omega)).settles)
      fun x s₂ t₂ h₂ hlt₂ => ?_
    exact (h.args h₂ (by omega) m closing _).mono (by omega)
  dsimp only
  split
  · refine .discard ?_
    exact (follows_mark _ hc).bind (fun _ => ((refuses_expr (by omega)).bind _).settles)
      fun p s₁ t₁ h₁ hlt₁ => next h₁ (by omega)
  · exact next hc (Nat.lt_succ_self _)

/-- The arguments after an opening mark and the mark that closes them. -/
theorem Tracks.arguments (h : Tracks bad n) {N m : Nat} {β : Type} {f f' : List Expr → Position → Parser β}
    (hc : s.CutOf bad t) (hn : 16 * s.rest.length + 14 ≤ n) (closing : Punct)
    (hset : ∀ xs r, Settles bad (f' xs r))
    (hf : ∀ xs r s₁ t₁, s₁.CutOf bad t₁ → s₁.rest.length < s.rest.length →
      Follows bad N s₁ t₁ (f' xs r) (f xs r)) :
    Follows bad N s t (Parser.args n closing [] >>= fun xs => advance >>= fun r => f' xs r)
      (Parser.args m closing [] >>= fun xs => advance >>= fun r => f xs r) := by
  refine (h.args hc hn m closing []).bind (fun xs => settles_advance_bind (hset xs))
    fun xs s₁ t₁ h₁ hlt₁ => ?_
  exact (follows_advance h₁).bind (hset xs) fun r s₂ t₂ h₂ hlt₂ => hf xs r s₂ t₂ h₂ (by omega)

theorem Tracks.selectors_succ (h : Tracks bad n) (hc : s.CutOf bad t)
    (hn : 16 * s.rest.length + 10 ≤ n + 1) (m : Nat) (x : Expr) :
    Follows bad (s.rest.length + 1) s t (Parser.selectors (n + 1) x)
      (Parser.selectors (m + 1) x) := by
  rw [Parser.selectors, Parser.selectors]
  refine follows_peek hc ?_
  split
  · refine (follows_advance hc).bind (fun dot => (refuses_ident.bind _).settles)
      fun dot s₁ t₁ h₁ hlt₁ => ?_
    refine (follows_ident h₁).bind (fun name => settles_sees (settles_selectors _ (by omega)))
      fun name s₂ t₂ h₂ hlt₂ => ?_
    refine follows_sees h₂ ?_ ((h.selectors h₂ (by omega) m _).mono (by omega))
    refine (follows_advance h₂).bind (fun l => ((refuses_args _ _ (by omega)).bind _).settles)
      fun l s₃ t₃ h₃ hlt₃ => ?_
    exact h.arguments h₃ (by omega) _ (fun _ _ => settles_selectors _ (by omega))
      fun xs r s₄ t₄ h₄ hlt₄ => (h.selectors h₄ (by omega) m _).mono (by omega)
  · refine (follows_advance hc).bind
      (fun l => (refuses_sees ((refuses_args _ _ (by omega)).bind _)).settles)
      fun l s₁ t₁ h₁ hlt₁ => follows_sees h₁ (follows_refuse_bind _) ?_
    exact h.arguments h₁ (by omega) _ (fun _ _ => settles_selectors _ (by omega))
      fun xs r s₂ t₂ h₂ hlt₂ => (h.selectors h₂ (by omega) m _).mono (by omega)
  · exact follows_pure hc (Nat.lt_succ_self _) x

theorem Tracks.exprList_succ (h : Tracks bad n) (hc : s.CutOf bad t)
    (hn : 16 * s.rest.length + 14 ≤ n + 1) (m : Nat) (seen : List Expr) :
    Follows bad s.rest.length s t (Parser.exprList (n + 1) seen)
      (Parser.exprList (m + 1) seen) := by
  rw [Parser.exprList, Parser.exprList]
  refine (h.expr hc (by omega) m).bind (fun x => settles_sees (settles_pure _))
    fun x s₁ t₁ h₁ hlt₁ => ?_
  refine follows_sees h₁ (.discard ?_) (follows_pure h₁ hlt₁ _)
  refine (follows_advance h₁).bind (fun p => (refuses_exprList _ (by omega)).settles)
    fun p s₂ t₂ h₂ hlt₂ => ?_
  exact (h.exprList h₂ (by omega) m _).mono (by omega)

theorem Tracks.primary_succ (h : Tracks bad n) (hc : s.CutOf bad t)
    (hn : 16 * s.rest.length + 10 ≤ n + 1) (m : Nat) :
    Follows bad s.rest.length s t (Parser.primary (n + 1)) (Parser.primary (m + 1)) := by
  rw [Parser.primary, Parser.primary]
  refine follows_get ?_
  obtain hsame | ⟨x, hx⟩ := hc.current
  · rw [hsame]
    dsimp only
    split
    · exact (follows_advance hc).bind (fun _ => settles_pure _) fun p s₁ t₁ h₁ hlt₁ =>
        follows_pure h₁ hlt₁ _
    split
    · exact (follows_advance hc).bind (fun _ => settles_pure _) fun p s₁ t₁ h₁ hlt₁ =>
        follows_pure h₁ hlt₁ _
    · refine (follows_ident hc).bind (fun name => settles_sees (settles_pure _))
        fun name s₁ t₁ h₁ hlt₁ => follows_sees h₁ ?_ (follows_pure h₁ hlt₁ _)
      refine (follows_advance h₁).bind (fun l => ((refuses_args _ _ (by omega)).bind _).settles)
        fun l s₂ t₂ h₂ hlt₂ => ?_
      exact h.arguments h₂ (by omega) _ (fun _ _ => settles_pure _) fun xs r s₃ t₃ h₃ hlt₃ =>
        follows_pure h₃ (by omega) _
    · refine (follows_advance hc).bind (fun p => (refuses_ident.bind _).settles)
        fun p s₁ t₁ h₁ hlt₁ => ?_
      refine (follows_ident h₁).bind (fun name => (settles_typePath _ (by omega)).bind
        fun type => ((refuses_mark _).bind _).settles) fun name s₂ t₂ h₂ hlt₂ => ?_
      refine (h.typePath h₂ (by omega) m _).bind (fun type => ((refuses_mark _).bind _).settles)
        fun type s₃ t₃ h₃ hlt₃ => ?_
      refine (follows_mark _ h₃).bind (fun l => ((refuses_args _ _ (by omega)).bind _).settles)
        fun l s₄ t₄ h₄ hlt₄ => ?_
      exact h.arguments h₄ (by omega) _ (fun _ _ => settles_pure _) fun xs r s₅ t₅ h₅ hlt₅ =>
        follows_pure h₅ (by omega) _
    · refine .discard ((follows_advance hc).bind
        (fun _ => ((refuses_expr (by omega)).bind _).settles) fun _ s₁ t₁ h₁ hlt₁ => ?_)
      refine (h.expr h₁ (by omega) m).bind (fun x => ((refuses_mark _).discard.bind _).settles)
        fun x s₂ t₂ h₂ hlt₂ => .discard ?_
      exact (follows_mark _ h₂).bind (fun _ => settles_pure _) fun _ s₃ t₃ h₃ hlt₃ =>
        follows_pure h₃ (by omega) _
    · refine (follows_advance hc).bind (fun l => ((refuses_args _ _ (by omega)).bind _).settles)
        fun l s₁ t₁ h₁ hlt₁ => ?_
      exact h.arguments h₁ (by omega) _ (fun _ _ => settles_pure _) fun xs r s₂ t₂ h₂ hlt₂ =>
        follows_pure h₂ (by omega) _
    · exact (h.template hc (by omega) m).bind (fun _ => settles_pure _) fun b s₁ t₁ h₁ hlt₁ =>
        follows_pure h₁ hlt₁ _
    · exact follows_refuse _
  · rw [hx]
    exact follows_refuse _

/-! ### Templates and blocks -/

theorem Tracks.template_succ (h : Tracks bad n) (hc : s.CutOf bad t)
    (hn : 16 * s.rest.length + 9 ≤ n + 1) (m : Nat) :
    Follows bad s.rest.length s t (Parser.template (n + 1)) (Parser.template (m + 1)) := by
  rw [Parser.template, Parser.template]
  refine (follows_advance hc).bind
    (fun l => ((refuses_templateBody _ (by omega)).bind _).settles) fun l s₁ t₁ h₁ hlt₁ => ?_
  refine (h.templateBody h₁ (by omega) m []).bind
    (fun sts => settles_advance_bind fun _ => settles_pure _) fun sts s₂ t₂ h₂ hlt₂ => ?_
  exact (follows_advance h₂).bind (fun _ => settles_pure _) fun r s₃ t₃ h₃ hlt₃ =>
    follows_pure h₃ (by omega) _

theorem Tracks.templateBody_succ (h : Tracks bad n) (hc : s.CutOf bad t)
    (hn : 16 * s.rest.length + 10 ≤ n + 1) (m : Nat) (seen : List Stmt) :
    Follows bad (s.rest.length + 1) s t (Parser.templateBody (n + 1) seen)
      (Parser.templateBody (m + 1) seen) := by
  rw [Parser.templateBody, Parser.templateBody]
  cases hc with
  | @cons l ls f ms g hl hcut =>
    have hc : CutOf bad ⟨l, ls, f⟩ ⟨l, ms, g⟩ := .cons hl hcut
    refine follows_token rfl ?_
    split
    · refine (follows_advance hc).bind (fun p => (refuses_templateBody _ (by omega)).settles)
        fun p s₁ t₁ h₁ hlt₁ => ?_
      exact (h.templateBody h₁ (by omega) m _).mono (by omega)
    · refine .discard ((follows_advance hc).bind (fun p => ((refuses_island _ (by omega)).bind _).settles)
        fun p s₁ t₁ h₁ hlt₁ => ?_)
      refine (h.island h₁ (by omega) m []).bind (fun sts => ?_) fun sts s₂ t₂ h₂ hlt₂ => .discard ?_
      · exact (settles_advance.bind fun _ => settles_pure _).bind fun _ =>
          (refuses_templateBody _ (by omega)).settles
      · refine (follows_advance h₂).bind (fun _ => (refuses_templateBody _ (by omega)).settles)
          fun p s₃ t₃ h₃ hlt₃ => ?_
        exact (h.templateBody h₃ (by omega) m _).mono (by omega)
    · exact follows_pure hc (Nat.lt_succ_self _) _
    · exact follows_refuse _
  | @short l l' e x x' ms g ht ht' hpos hspent =>
    -- after the text that is cut short, the end of the file is refused
    have hrefuse : Refuses bad (Parser.templateBody n (.text l'.pos x' :: seen)) :=
      refuses_templateBody _ (by omega)
    obtain ⟨err, hrun, herr⟩ := hrefuse _ hspent
    intro a t' _
    rw [run_token, ht']
    have hstep := run_advance_short (f := fun p => Parser.templateBody n (.text p x' :: seen)) l' e
    exact (hstep.trans hrun).symm ▸ .fails herr

theorem Tracks.island_succ (h : Tracks bad n) (hc : s.CutOf bad t)
    (hn : 16 * s.rest.length + 16 ≤ n + 1) (m : Nat) (seen : List Stmt) :
    Follows bad (s.rest.length + 1) s t (Parser.island (n + 1) seen)
      (Parser.island (m + 1) seen) := by
  rw [Parser.island, Parser.island]
  refine follows_sees hc (follows_pure hc (Nat.lt_succ_self _) _) ?_
  refine (h.islandStmt hc (by omega) m).bind (fun _ => (refuses_island _ (by omega)).settles)
    fun st s₁ t₁ h₁ hlt₁ => ?_
  exact (h.island h₁ (by omega) m _).mono (by omega)

theorem Tracks.islandStmt_succ (h : Tracks bad n) (hc : s.CutOf bad t)
    (hn : 16 * s.rest.length + 15 ≤ n + 1) (m : Nat) :
    Follows bad s.rest.length s t (Parser.islandStmt (n + 1)) (Parser.islandStmt (m + 1)) := by
  rw [Parser.islandStmt, Parser.islandStmt]
  refine follows_peek hc ?_
  split
  iterate 10 exact h.stmt hc (by omega) m
  · exact follows_refuse _
  · refine (h.expr hc (by omega) m).bind (fun x => settles_sees (settles_pure _))
      fun x s₁ t₁ h₁ hlt₁ => follows_sees h₁ (.discard ?_) (follows_pure h₁ hlt₁ _)
    exact (follows_advance h₁).bind (fun _ => settles_pure _) fun _ s₂ t₂ h₂ hlt₂ =>
      follows_pure h₂ (by omega) _

theorem Tracks.block_succ (h : Tracks bad n) (hc : s.CutOf bad t)
    (hn : 16 * s.rest.length + 11 ≤ n + 1) (m : Nat) :
    Follows bad s.rest.length s t (Parser.block (n + 1)) (Parser.block (m + 1)) := by
  rw [Parser.block, Parser.block]
  refine follows_peek hc ?_
  split
  · refine (follows_advance hc).bind (fun l => ((refuses_stmts _ (by omega)).bind _).settles)
      fun l s₁ t₁ h₁ hlt₁ => ?_
    refine (h.stmts h₁ (by omega) m []).bind
      (fun sts => settles_advance_bind fun _ => settles_pure _) fun sts s₂ t₂ h₂ hlt₂ => ?_
    exact (follows_advance h₂).bind (fun _ => settles_pure _) fun r s₃ t₃ h₃ hlt₃ =>
      follows_pure h₃ (by omega) _
  · exact h.template hc (by omega) m
  · exact follows_refuse _

theorem Tracks.stmts_succ (h : Tracks bad n) (hc : s.CutOf bad t)
    (hn : 16 * s.rest.length + 15 ≤ n + 1) (m : Nat) (seen : List Stmt) :
    Follows bad (s.rest.length + 1) s t (Parser.stmts (n + 1) seen)
      (Parser.stmts (m + 1) seen) := by
  rw [Parser.stmts, Parser.stmts]
  refine follows_peek hc ?_
  split
  · exact follows_pure hc (Nat.lt_succ_self _) _
  · exact follows_refuse _
  · refine (h.stmt hc (by omega) m).bind (fun _ => (refuses_stmts _ (by omega)).settles)
      fun st s₁ t₁ h₁ hlt₁ => ?_
    exact (h.stmts h₁ (by omega) m _).mono (by omega)

/-! ### Statements -/

theorem Tracks.varDefs_succ (h : Tracks bad n) (hc : s.CutOf bad t)
    (hn : 16 * s.rest.length + 10 ≤ n + 1) (m : Nat) (seen : List VarDef) :
    Follows bad s.rest.length s t (Parser.varDefs (n + 1) seen)
      (Parser.varDefs (m + 1) seen) := by
  rw [Parser.varDefs, Parser.varDefs]
  have more (v : VarDef) {s₁ t₁ : TokenStream} (h₁ : s₁.CutOf bad t₁)
      (hlt₁ : s₁.rest.length < s.rest.length) :
      Follows bad s.rest.length s₁ t₁
        (do
          if ← sees .comma then
            discard advance
            Parser.varDefs n (v :: seen)
          else
            semi
            return (v :: seen).reverse)
        (do
          if ← sees .comma then
            discard advance
            Parser.varDefs m (v :: seen)
          else
            semi
            return (v :: seen).reverse) := by
    refine follows_sees h₁ (.discard ?_) (follows_end h₁ (by omega) _)
    refine (follows_advance h₁).bind (fun _ => (refuses_varDefs _ (by omega)).settles)
      fun _ s₂ t₂ h₂ hlt₂ => ?_
    exact (h.varDefs h₂ (by omega) m _).mono (by omega)
  refine (follows_ident hc).bind (fun name => ?_) fun name s₁ t₁ h₁ hlt₁ => ?_
  · exact settles_sees ((settles_pure none).bind fun _ => settles_sees (settles_end _))
  · refine follows_sees h₁ (.discard ?_) (more (.mk name.1 name.2 none) h₁ hlt₁)
    refine (follows_advance h₁).bind (fun _ => ((refuses_expr (by omega)).bind _).settles)
      fun _ s₂ t₂ h₂ hlt₂ => ?_
    exact (h.expr h₂ (by omega) m).bind (fun x => settles_sees (settles_end _))
      fun x s₃ t₃ h₃ hlt₃ => more (.mk name.1 name.2 (some x)) h₃ (by omega)

theorem Tracks.parenExpr_succ (h : Tracks bad n) (hc : s.CutOf bad t)
    (hn : 16 * s.rest.length + 10 ≤ n + 1) (m : Nat) :
    Follows bad s.rest.length s t (Parser.parenExpr (n + 1)) (Parser.parenExpr (m + 1)) := by
  rw [Parser.parenExpr, Parser.parenExpr]
  refine .discard ((follows_mark _ hc).bind
    (fun _ => ((refuses_expr (by omega)).bind _).settles) fun _ s₁ t₁ h₁ hlt₁ => ?_)
  refine (h.expr h₁ (by omega) m).bind (fun x => ((refuses_mark _).discard.bind _).settles)
    fun x s₂ t₂ h₂ hlt₂ => .discard ?_
  exact (follows_mark _ h₂).bind (fun _ => settles_pure _) fun _ s₃ t₃ h₃ hlt₃ =>
    follows_pure h₃ (by omega) _

theorem Tracks.conditional_succ (h : Tracks bad n) (hc : s.CutOf bad t)
    (hn : 16 * s.rest.length + 11 ≤ n + 1) (m : Nat) (p : Position) :
    Follows bad s.rest.length s t (Parser.conditional (n + 1) p)
      (Parser.conditional (m + 1) p) := by
  rw [Parser.conditional, Parser.conditional]
  refine (h.parenExpr hc (by omega) m).bind (fun test => ((refuses_block (by omega)).bind _).settles)
    fun test s₁ t₁ h₁ hlt₁ => ?_
  refine (h.block h₁ (by omega) m).bind (fun yes => settles_seesWord (settles_pure _))
    fun yes s₂ t₂ h₂ hlt₂ => follows_seesWord h₂ ?_ (follows_pure h₂ (by omega) _)
  refine (follows_advance h₂).bind
    (fun e => settles_seesWord ((refuses_block (by omega)).bind _).settles)
    fun e s₃ t₃ h₃ hlt₃ => follows_seesWord h₃ ?_ ?_
  · refine (follows_advance h₃).bind
      (fun q => ((refuses_conditional _ (by omega)).bind _).settles) fun q s₄ t₄ h₄ hlt₄ => ?_
    exact (h.conditional h₄ (by omega) m q).bind (fun _ => settles_pure _)
      fun inner s₅ t₅ h₅ hlt₅ => follows_pure h₅ (by omega) _
  · exact (h.block h₃ (by omega) m).bind (fun _ => settles_pure _)
      fun no s₄ t₄ h₄ hlt₄ => follows_pure h₄ (by omega) _

theorem Tracks.caseStmts_succ (h : Tracks bad n) (hc : s.CutOf bad t)
    (hn : 16 * s.rest.length + 15 ≤ n + 1) (m : Nat) (seen : List Stmt) :
    Follows bad (s.rest.length + 1) s t (Parser.caseStmts (n + 1) seen)
      (Parser.caseStmts (m + 1) seen) := by
  rw [Parser.caseStmts, Parser.caseStmts]
  refine follows_peek hc ?_
  split
  iterate 3 exact follows_pure hc (Nat.lt_succ_self _) _
  refine (h.stmt hc (by omega) m).bind (fun _ => (refuses_caseStmts _ (by omega)).settles)
    fun st s₁ t₁ h₁ hlt₁ => ?_
  exact (h.caseStmts h₁ (by omega) m _).mono (by omega)

theorem Tracks.caseBody_succ (h : Tracks bad n) (hc : s.CutOf bad t)
    (hn : 16 * s.rest.length + 10 ≤ n + 1) (m : Nat) :
    Follows bad s.rest.length s t (Parser.caseBody (n + 1)) (Parser.caseBody (m + 1)) := by
  rw [Parser.caseBody, Parser.caseBody]
  refine (follows_mark _ hc).bind (fun l => ((refuses_caseStmts _ (by omega)).bind _).settles)
    fun l s₁ t₁ h₁ hlt₁ => ?_
  refine (h.caseStmts h₁ (by omega) m []).bind (fun sts s hs => .spent hs)
    fun sts s₂ t₂ h₂ hlt₂ => ?_
  exact follows_here h₂ (follows_pure h₂ (by omega) _)

theorem Tracks.switchArms_succ (h : Tracks bad n) (hc : s.CutOf bad t)
    (hn : 16 * s.rest.length + 10 ≤ n + 1) (m : Nat) (seen : List SwitchCase)
    (dflt : Option Block) :
    Follows bad (s.rest.length + 1) s t (Parser.switchArms (n + 1) seen dflt)
      (Parser.switchArms (m + 1) seen dflt) := by
  rw [Parser.switchArms, Parser.switchArms]
  refine follows_peek hc ?_
  split
  · exact follows_pure hc (Nat.lt_succ_self _) _
  · dsimp only
    split
    · exact follows_refuse_bind _
    · refine (follows_advance hc).bind
        (fun p => ((refuses_exprList _ (by omega)).bind _).settles) fun p s₁ t₁ h₁ hlt₁ => ?_
      refine (h.exprList h₁ (by omega) m []).bind
        (fun xs => ((refuses_caseBody (by omega)).bind _).settles) fun xs s₂ t₂ h₂ hlt₂ => ?_
      refine (h.caseBody h₂ (by omega) m).bind
        (fun body => (refuses_switchArms _ _ (by omega)).settles) fun body s₃ t₃ h₃ hlt₃ => ?_
      exact (h.switchArms h₃ (by omega) m _ dflt).mono (by omega)
  · dsimp only
    split
    · exact follows_refuse_bind _
    · refine .discard ((follows_advance hc).bind
        (fun p => ((refuses_caseBody (by omega)).bind _).settles) fun p s₁ t₁ h₁ hlt₁ => ?_)
      refine (h.caseBody h₁ (by omega) m).bind
        (fun body => (refuses_switchArms _ _ (by omega)).settles) fun body s₂ t₂ h₂ hlt₂ => ?_
      exact (h.switchArms h₂ (by omega) m _ _).mono (by omega)
  · exact follows_refuse _

/-- The bodies of a loop over the elements of a collection. -/
theorem Tracks.eachBodies (h : Tracks bad n) {N m : Nat} (hc : s.CutOf bad t)
    (hN : s.rest.length < N) (hn : 16 * s.rest.length + 10 ≤ n) (st : Block → Option Block → Stmt) :
    Follows bad N s t
      (do
        discard (mark .rparen)
        let body ← Parser.block n
        if ← seesWord .betweenWord then
          discard advance
          return st body (some (← Parser.block n))
        else return st body none)
      (do
        discard (mark .rparen)
        let body ← Parser.block m
        if ← seesWord .betweenWord then
          discard advance
          return st body (some (← Parser.block m))
        else return st body none) := by
  refine .discard ((follows_mark _ hc).bind
    (fun _ => ((refuses_block (by omega)).bind _).settles) fun _ s₁ t₁ h₁ hlt₁ => ?_)
  refine (h.block h₁ (by omega) m).bind (fun body => settles_seesWord (settles_pure _))
    fun body s₂ t₂ h₂ hlt₂ => follows_seesWord h₂ (.discard ?_) (follows_pure h₂ (by omega) _)
  refine (follows_advance h₂).bind (fun _ => ((refuses_block (by omega)).bind _).settles)
    fun _ s₃ t₃ h₃ hlt₃ => ?_
  exact (h.block h₃ (by omega) m).bind (fun _ => settles_pure _)
    fun between s₄ t₄ h₄ hlt₄ => follows_pure h₄ (by omega) _

theorem Tracks.stmt_succ (h : Tracks bad n) (hc : s.CutOf bad t)
    (hn : 16 * s.rest.length + 14 ≤ n + 1) (m : Nat) :
    Follows bad s.rest.length s t (Parser.stmt (n + 1)) (Parser.stmt (m + 1)) := by
  rw [Parser.stmt, Parser.stmt]
  refine follows_peek hc ?_
  split
  · refine (follows_advance hc).bind (fun p => ((refuses_varDefs _ (by omega)).bind _).settles)
      fun p s₁ t₁ h₁ hlt₁ => ?_
    exact (h.varDefs h₁ (by omega) m []).bind (fun _ => settles_pure _)
      fun vs s₂ t₂ h₂ hlt₂ => follows_pure h₂ (by omega) _
  · refine (follows_advance hc).bind (fun p => ((refuses_exprList _ (by omega)).bind _).settles)
      fun p s₁ t₁ h₁ hlt₁ => ?_
    exact (h.exprList h₁ (by omega) m []).bind (fun xs => settles_end _)
      fun xs s₂ t₂ h₂ hlt₂ => follows_end h₂ (by omega) _
  · refine (follows_advance hc).bind
      (fun p => settles_peek ((refuses_expr (by omega)).bind _).settles)
      fun p s₁ t₁ h₁ hlt₁ => follows_peek h₁ ?_
    split
    iterate 3 exact follows_end h₁ hlt₁ _
    exact (h.expr h₁ (by omega) m).bind (fun x => settles_end _)
      fun x s₂ t₂ h₂ hlt₂ => follows_end h₂ (by omega) _
  · refine (follows_advance hc).bind (fun p => (refuses_conditional _ (by omega)).settles)
      fun p s₁ t₁ h₁ hlt₁ => ?_
    exact (h.conditional h₁ (by omega) m p).mono (by omega)
  · refine (follows_advance hc).bind (fun p => ((refuses_parenExpr (by omega)).bind _).settles)
      fun p s₁ t₁ h₁ hlt₁ => ?_
    refine (h.parenExpr h₁ (by omega) m).bind
      (fun test => ((refuses_block (by omega)).bind _).settles) fun test s₂ t₂ h₂ hlt₂ => ?_
    exact (h.block h₂ (by omega) m).bind (fun _ => settles_pure _)
      fun b s₃ t₃ h₃ hlt₃ => follows_pure h₃ (by omega) _
  · refine (follows_advance hc).bind (fun p => ((refuses_mark _).discard.bind _).settles)
      fun p s₁ t₁ h₁ hlt₁ => .discard ?_
    refine (follows_mark _ h₁).bind (fun _ => (refuses_ident.bind _).settles)
      fun _ s₂ t₂ h₂ hlt₂ => ?_
    refine (follows_ident h₂).bind
      (fun name => ((refuses_consume (by simp)).discard.bind _).settles)
      fun name s₃ t₃ h₃ hlt₃ => .discard ?_
    refine (follows_consume h₃).bind (fun _ => ((refuses_expr (by omega)).bind _).settles)
      fun _ s₄ t₄ h₄ hlt₄ => ?_
    refine (h.expr h₄ (by omega) m).bind (fun x => settles_seesWord
      ((settles_pure none).bind fun _ => ((refuses_mark _).discard.bind _).settles))
      fun x s₅ t₅ h₅ hlt₅ => follows_seesWord h₅ ?_ ?_
    · refine (follows_advance h₅).bind (fun wp => ((refuses_expr (by omega)).bind _).settles)
        fun wp s₆ t₆ h₆ hlt₆ => ?_
      exact (h.expr h₆ (by omega) m).bind (fun y => (settles_pure _).bind
        fun _ => ((refuses_mark _).discard.bind _).settles) fun y s₇ t₇ h₇ hlt₇ =>
          h.eachBodies h₇ (by omega) (by omega) (.each p name.1 name.2 x (some (.mk wp y)))
    · exact h.eachBodies h₅ (by omega) (by omega) (.each p name.1 name.2 x none)
  · refine (follows_advance hc).bind (fun p => ((refuses_parenExpr (by omega)).bind _).settles)
      fun p s₁ t₁ h₁ hlt₁ => ?_
    refine (h.parenExpr h₁ (by omega) m).bind
      (fun x => ((refuses_mark _).discard.bind _).settles) fun x s₂ t₂ h₂ hlt₂ => .discard ?_
    refine (follows_mark _ h₂).bind
      (fun _ => ((refuses_switchArms _ _ (by omega)).bind _).settles) fun _ s₃ t₃ h₃ hlt₃ => ?_
    refine (h.switchArms h₃ (by omega) m [] none).bind
      (fun arms => settles_advance_bind fun _ => settles_pure _) fun arms s₄ t₄ h₄ hlt₄ => ?_
    exact (follows_advance h₄).bind (fun _ => settles_pure _)
      fun r s₅ t₅ h₅ hlt₅ => follows_pure h₅ (by omega) _
  iterate 2
    exact (follows_advance hc).bind (fun p => settles_end _)
      fun p s₁ t₁ h₁ hlt₁ => follows_end h₁ hlt₁ _
  iterate 2
    exact (h.block hc (by omega) m).bind (fun _ => settles_pure _)
      fun b s₁ t₁ h₁ hlt₁ => follows_pure h₁ hlt₁ _
  · exact follows_refuse _
  · exact follows_refuse _
  · exact (h.expr hc (by omega) m).bind (fun x => settles_end _)
      fun x s₁ t₁ h₁ hlt₁ => follows_end h₁ hlt₁ _

/-! ### All readers -/

theorem tracks_zero : Tracks bad 0 := by
  constructor <;> intros <;> omega

theorem Tracks.succ (h : Tracks bad n) : Tracks bad (n + 1) where
  typePath hc hn m x :=
    .of_succ (Parser.typePath · x) rfl (fun m => h.typePath_succ hc hn m x) m
  params hc hn m seen :=
    .of_succ (Parser.params · seen) rfl (fun m => h.params_succ hc hn m seen) m
  expr hc hn m :=
    .of_succ Parser.expr rfl (fun m => h.expr_succ hc hn m) m
  binary hc hn m level :=
    .of_succ (Parser.binary · level) rfl (fun m => h.binary_succ hc hn m level) m
  binaryRest hc hn m level x :=
    .of_succ (Parser.binaryRest · level x) rfl (fun m => h.binaryRest_succ hc hn m level x) m
  unary hc hn m :=
    .of_succ Parser.unary rfl (fun m => h.unary_succ hc hn m) m
  selectors hc hn m x :=
    .of_succ (Parser.selectors · x) rfl (fun m => h.selectors_succ hc hn m x) m
  args hc hn m closing seen :=
    .of_succ (Parser.args · closing seen) rfl (fun m => h.args_succ hc hn m closing seen) m
  exprList hc hn m seen :=
    .of_succ (Parser.exprList · seen) rfl (fun m => h.exprList_succ hc hn m seen) m
  primary hc hn m :=
    .of_succ Parser.primary rfl (fun m => h.primary_succ hc hn m) m
  template hc hn m :=
    .of_succ Parser.template rfl (fun m => h.template_succ hc hn m) m
  templateBody hc hn m seen :=
    .of_succ (Parser.templateBody · seen) rfl (fun m => h.templateBody_succ hc hn m seen) m
  island hc hn m seen :=
    .of_succ (Parser.island · seen) rfl (fun m => h.island_succ hc hn m seen) m
  islandStmt hc hn m :=
    .of_succ Parser.islandStmt rfl (fun m => h.islandStmt_succ hc hn m) m
  block hc hn m :=
    .of_succ Parser.block rfl (fun m => h.block_succ hc hn m) m
  stmts hc hn m seen :=
    .of_succ (Parser.stmts · seen) rfl (fun m => h.stmts_succ hc hn m seen) m
  varDefs hc hn m seen :=
    .of_succ (Parser.varDefs · seen) rfl (fun m => h.varDefs_succ hc hn m seen) m
  parenExpr hc hn m :=
    .of_succ Parser.parenExpr rfl (fun m => h.parenExpr_succ hc hn m) m
  conditional hc hn m p :=
    .of_succ (Parser.conditional · p) rfl (fun m => h.conditional_succ hc hn m p) m
  caseStmts hc hn m seen :=
    .of_succ (Parser.caseStmts · seen) rfl (fun m => h.caseStmts_succ hc hn m seen) m
  caseBody hc hn m :=
    .of_succ Parser.caseBody rfl (fun m => h.caseBody_succ hc hn m) m
  switchArms hc hn m seen dflt :=
    .of_succ (Parser.switchArms · seen dflt) rfl (fun m => h.switchArms_succ hc hn m seen dflt) m
  stmt hc hn m :=
    .of_succ Parser.stmt rfl (fun m => h.stmt_succ hc hn m) m

theorem tracks (bad : SyntaxError → Prop) (n : Nat) : Tracks bad n := by
  induction n with
  | zero => exact tracks_zero
  | succ n ih => exact ih.succ

/-! ### Modules -/

theorem follows_load (hc : s.CutOf bad t) : Follows bad s.rest.length s t load load := by
  rw [load]
  refine (follows_advance hc).bind (fun p => (refuses_token (refuses_refuse _)).settles)
    fun p s₁ t₁ h₁ hlt₁ => ?_
  obtain hsame | ⟨x, hx⟩ := h₁.current
  · refine follows_token (congrArg _ hsame) ?_
    split
    · refine (follows_advance h₁).bind (fun np => ((refuses_mark _).bind _).settles)
        fun np s₂ t₂ h₂ hlt₂ => ?_
      exact (follows_mark _ h₂).bind (fun _ => settles_pure _)
        fun e s₃ t₃ h₃ hlt₃ => follows_pure h₃ (by omega) _
    · exact follows_refuse _
  · intro a t' hy
    rw [yields_token, hx] at hy
    exact absurd hy not_yields_refuse

theorem follows_function (hc : s.CutOf bad t) {n m : Nat} (hn : 16 * s.rest.length ≤ n) :
    Follows bad s.rest.length s t (function n) (function m) := by
  rw [function, function]
  refine (follows_advance hc).bind (fun p => (refuses_ident.bind _).settles)
    fun p s₁ t₁ h₁ hlt₁ => ?_
  refine (follows_ident h₁).bind (fun name => ((refuses_mark _).discard.bind _).settles)
    fun name s₂ t₂ h₂ hlt₂ => .discard ?_
  refine (follows_mark _ h₂).bind (fun _ => ((refuses_params _ (by omega)).bind _).settles)
    fun _ s₃ t₃ h₃ hlt₃ => ?_
  refine ((tracks bad n).params h₃ (by omega) m []).bind
    (fun ps => (settles_advance.bind fun _ => settles_pure _).bind
      fun _ => ((refuses_block (by omega)).bind _).settles)
    fun ps s₄ t₄ h₄ hlt₄ => .discard ?_
  refine (follows_advance h₄).bind (fun _ => ((refuses_block (by omega)).bind _).settles)
    fun _ s₅ t₅ h₅ hlt₅ => ?_
  exact ((tracks bad n).block h₅ (by omega) m).bind (fun _ => settles_pure _)
    fun b s₆ t₆ h₆ hlt₆ => follows_pure h₆ (by omega) _

theorem follows_moduleItems (n : Nat) : ∀ {s t : TokenStream}, s.CutOf bad t →
    16 * s.rest.length + 16 ≤ n → ∀ (m : Nat) (x : Module),
      Follows bad (s.rest.length + 1) s t (moduleItems n x) (moduleItems m x) := by
  induction n with
  | zero =>
    intro s t _ hn
    omega
  | succ n ih =>
    intro s t hc hn m x
    refine .of_succ (moduleItems · x) rfl (fun m => ?_) m
    rw [moduleItems, moduleItems]
    refine follows_peek hc ?_
    split
    · exact follows_here hc (follows_pure hc (Nat.lt_succ_self _) _)
    · refine (follows_load hc).bind (fun _ => settles_moduleItems _ (by omega))
        fun l s₁ t₁ h₁ hlt₁ => ?_
      exact (ih h₁ (by omega) m _).mono (by omega)
    · refine (follows_function hc (by omega)).bind (fun _ => settles_moduleItems _ (by omega))
        fun f s₁ t₁ h₁ hlt₁ => ?_
      exact (ih h₁ (by omega) m _).mono (by omega)
    · refine (follows_advance hc).bind (fun p => ((refuses_varDefs _ (by omega)).bind _).settles)
        fun p s₁ t₁ h₁ hlt₁ => ?_
      refine ((tracks bad n).varDefs h₁ (by omega) m []).bind
        (fun vs => settles_moduleItems _ (by omega)) fun vs s₂ t₂ h₂ hlt₂ => ?_
      exact (ih h₂ (by omega) m _).mono (by omega)
    · refine ((tracks bad n).stmt hc (by omega) m).bind (fun _ => settles_moduleItems _ (by omega))
        fun st s₁ t₁ h₁ hlt₁ => ?_
      exact (ih h₁ (by omega) m _).mono (by omega)

/-! ### Whole texts -/

/-- **A text that is cut short** is read as the whole text is until the cut; there it is refused,
or what was read is complete. -/
theorem run_cut {α : Type} {p : Nat → Parser α} {file src : Bytes} {m : Nat} {t t' : TokenStream}
    {a : α} (hset : ∀ n, 64 ≤ n → Settles bad (p n))
    (hp : ∀ s n, s.CutOf bad t → 16 * (s.rest.length + 4) ≤ n →
      Follows bad (s.rest.length + 1) s t (p n) (p m))
    (hy : (p m).Yields t a t') (hcut : CutScan bad (scan file src) t.lexemes) :
    (∃ b, ∃ s' : TokenStream, run p file src = .ok b ∧ (s'.CutOf bad t' ∨ s'.Spent bad)) ∨
      ∃ e, run p file src = .error e ∧ bad e := by
  have follow {l : Lexeme} {rest : List Lexeme} {fault : Option SyntaxError}
      (hs : scan file src = ⟨l :: rest, fault⟩) (hc : CutOf bad ⟨l, rest, fault⟩ t) :
      (∃ b, ∃ s' : TokenStream, run p file src = .ok b ∧ (s'.CutOf bad t' ∨ s'.Spent bad)) ∨
        ∃ e, run p file src = .error e ∧ bad e := by
    have hrun := hp _ _ hc (Nat.le_refl _) a t' hy
    rw [run_of_scan hs]
    generalize StateT.run _ _ = r at hrun ⊢
    cases hrun with
    | agrees h => exact .inl ⟨_, _, rfl, .inl h.2.1⟩
    | spent h => exact .inl ⟨_, _, rfl, .inr h⟩
    | fails he => exact .inr ⟨_, rfl, he⟩
  generalize hx : scan file src = x at hcut
  generalize hl : t.lexemes = ls at hcut
  obtain ⟨l₀, rest₀, fault₀⟩ := t
  cases hcut with
  | @fault e _ he => exact .inr ⟨e, by rw [run, hx], he⟩
  | @eof e _ heof hrefused =>
    have hs : Spent bad ⟨e, [], none⟩ := ⟨heof, rfl, rfl, hrefused⟩
    have hrun := hset _ (Nat.le_refl _) _ hs
    rw [run_of_scan hx]
    generalize StateT.run _ _ = r at hrun ⊢
    cases hrun with
    | agrees h => exact h.elim
    | spent h => exact .inl ⟨_, _, rfl, .inr h⟩
    | fails he => exact .inr ⟨_, rfl, he⟩
  | short ht ht' hpos heof hrefused =>
    cases hl
    exact follow hx (.short ht ht' hpos ⟨heof, rfl, rfl, hrefused⟩)
  | cons hne hrest =>
    cases hl
    exact follow hx (.cons hne hrest)

end Parser

/-- **A text cut at a line end**: if the whole text is read, the part up to the line end is read
or refused only because it ends too soon. -/
theorem parseModule_line {file pre post : Bytes} {m : Module}
    (h : parseModule file (pre ++ 10 :: post) = .ok m) :
    (∃ m', parseModule file (pre ++ [10]) = .ok m') ∨
      ∃ e, parseModule file (pre ++ [10]) = .error e ∧ e.atEnd = true := by
  obtain ⟨t, t', hscan, hy⟩ := Parser.run_eq_ok.1 h
  obtain ⟨_, _, hnone, -⟩ := isProgram_of_parseModule h
  have hcut := scan_cut file pre post (by rw [hnone])
  rw [hscan] at hcut
  obtain ⟨m', s', hm', -⟩ | he := Parser.run_cut (p := fun n => Parser.moduleItems n _)
    (fun n hn => Parser.settles_moduleItems _ (by omega))
    (fun s n hc hn => Parser.follows_moduleItems n hc (by omega) _ _) hy hcut
  · exact .inl ⟨m', hm'⟩
  · exact .inr he

/-! ### An expression that breaks off

A text that is an expression up to something that is no token, and that could be completed there,
is refused for what is no token and for nothing else. The part that is read follows the reading of
any completion of it.
-/

namespace Parser

open TokenStream

/-- The end of a text that is an expression. -/
def endExpr (x : Expr) : Parser Expr := do
  match ← peek with
  | .eof => return x
  | k => throw ⟨← here, .afterExpression k, false⟩

/-- The reader of a text that is an expression. -/
def wholeExpr (n : Nat) : Parser Expr := do
  let x ← expr n
  if ← sees .semi then
    discard advance
    endExpr x
  else endExpr x

variable {bad : SyntaxError → Prop} {s t : TokenStream} {n m : Nat}

theorem settles_wholeExpr (hn : 7 ≤ n) : Settles bad (wholeExpr n) :=
  ((refuses_expr hn).bind _).settles

theorem settles_endExpr (x : Expr) : Settles bad (endExpr x) :=
  settles_peek (settles_pure x)

/-- Before the cut there is more to come. -/
theorem follows_endExpr {N : Nat} (hc : s.CutOf bad t) (hN : s.rest.length < N) (x : Expr) :
    Follows bad N s t (endExpr x) (endExpr x) := by
  refine follows_peek hc ?_
  split
  · exact follows_pure hc hN x
  · intro a t' hy
    cases hy

theorem follows_wholeExpr (hc : s.CutOf bad t) (hn : 16 * s.rest.length + 13 ≤ n) :
    Follows bad (s.rest.length + 1) s t (wholeExpr n) (wholeExpr m) := by
  rw [wholeExpr, wholeExpr]
  refine ((tracks bad n).expr hc hn m).bind (fun x => settles_sees (settles_endExpr x))
    fun x s₁ t₁ h₁ hlt₁ => ?_
  refine follows_sees h₁ (.discard ?_) (follows_endExpr h₁ (by omega) x)
  exact (follows_advance h₁).bind (fun _ => settles_endExpr x)
    fun _ s₂ t₂ h₂ hlt₂ => follows_endExpr h₂ (by omega) x

theorem cutScan_of_live (bad : SyntaxError → Prop) {E : SyntaxError} (hE : bad E) {ls : List Lexeme}
    (hlive : ∀ l ∈ ls, l.token ≠ .eof) (more : List Lexeme) :
    CutScan bad ⟨ls, some E⟩ (ls ++ more) := by
  induction ls with
  | nil => exact .fault hE
  | cons l ls ih =>
    exact .cons (s := ⟨ls, some E⟩) (hlive l List.mem_cons_self)
      (ih fun k hk => hlive k (List.mem_cons_of_mem l hk))

theorem parseExpr_eq (file src : Bytes) : parseExpr file src = run wholeExpr file src := rfl

/-- A text that breaks off within an expression, at something that is no token, is refused for
that. -/
theorem parseExpr_of_fault {file src : Bytes} {ls more : List Lexeme} {x : Expr} {E : SyntaxError}
    (hs : scan file src = ⟨ls, some E⟩) (hlive : ∀ l ∈ ls, l.token ≠ .eof) (hE : E.atEnd = false)
    (hx : IsExpr .accepted (ls ++ more) x) : parseExpr file src = .error E := by
  have hwhole : (wholeExpr (16 * (ls ++ more).length + 7)).Yields
      (ls ++ more ++ (⟨⟨.eof, default, []⟩, [], none⟩ : TokenStream)) x
      ⟨⟨.eof, default, []⟩, [], none⟩ := by
    refine (expr_yields hx (not_continues rfl) (Nat.le_refl _)).bind ?_
    refine .unseen (fun h => ?_) (.peek rfl yields_pure)
    cases h
  have hcut := cutScan_of_live (· = E) rfl hlive (more ++ [⟨.eof, default, []⟩])
  rw [← hs, ← List.append_assoc] at hcut
  obtain ⟨y, s', -, hend | hend⟩ | ⟨e, he, rfl⟩ := run_cut (p := wholeExpr)
    (fun n hn => settles_wholeExpr (by omega)) (fun s n hc hn => follows_wholeExpr hc (by omega))
    hwhole (by rwa [lexemes_append])
  · -- the reading of the whole text ends at its end, which no text before a cut has
    cases hend with
    | cons hne _ => exact absurd rfl hne
    | short ht _ _ _ => cases ht
  · have hrefused := congrArg SyntaxError.atEnd (hend.refused .nestingLimit)
    rw [hE] at hrefused
    cases hrefused
  · rw [parseExpr_eq, he]

end Parser

end Stencil
