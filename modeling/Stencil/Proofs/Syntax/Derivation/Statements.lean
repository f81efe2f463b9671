import Stencil.Proofs.Syntax.Derivation.Expressions
import Stencil.Proofs.Syntax.Lexemes

/-!
# Statements, blocks and templates follow the grammar

The steps of `Conforms` for the readers of statements, and the induction that puts all of them
together: `conforms`.

## Modules and texts follow the grammar

What holds of the readers of the constructs of a module, and of a text that is read as a
module: it is the text of a module of the grammar.
-/

namespace Stencil

namespace Parser

open TokenStream

variable {n : Nat}

/-! ### Templates and islands -/

theorem Conforms.template_succ (h : Conforms n) (s : TokenStream) (ho : s.current.Is .openTemplate) :
    (Parser.template (n + 1)).Reads s fun b ls _ => IsTemplate .accepted ls b := by
  rw [Parser.template]
  refine reads_advance (ho.kind ▸ nofun) fun s₁ => (h.templateBody s₁ []).bind ?_
  rintro sts ls s₂ ⟨hc, more, hm, rfl⟩
  exact reads_advance (hc.kind ▸ nofun) fun s₃ => reads_pure (.mk ho hm hc)

theorem Conforms.templateBody_succ (h : Conforms n) (s : TokenStream) (seen : List Stmt) :
    (Parser.templateBody (n + 1) seen).Reads s fun sts ls s' =>
      s'.current.Is .closeTemplate ∧
        ∃ more, IsTemplateBody .accepted ls more ∧ sts = seen.reverse ++ more := by
  rw [Parser.templateBody]
  refine reads_token ?_
  split
  · rename_i t ht
    refine reads_advance (by rw [ht]; nofun) fun s₁ => (h.templateBody s₁ _).mono ?_
    rintro sts ls s' ⟨hc, more, hm, rfl⟩
    exact ⟨hc, _, .text ht hm, by simp⟩
  · rename_i ho
    refine .discard (reads_advance (by rw [ho]; nofun) fun s₁ => (h.island s₁ []).bind ?_)
    rintro items is s₂ ⟨hd, more, hi, rfl⟩
    refine .discard (reads_advance (hd.kind ▸ nofun) fun s₃ => (h.templateBody s₃ _).mono ?_)
    rintro sts ls s' ⟨hc, more', hm, rfl⟩
    exact ⟨hc, _, .island ho hi nofun hd hm, by simp⟩
  · rename_i hc
    exact reads_pure ⟨hc, [], .nil, by simp⟩
  · exact reads_refuse _

/-- An item is put in front of the rest of an island. -/
theorem IsItem.cons {next : Lexeme} {ls ms : List Lexeme} {st : Stmt} {sts : List Stmt}
    (h : IsItem next ls st) (hm : IsIsland .accepted ms sts)
    (hnext : ms = [] → next.Is .dollar) (hhead : ∀ l, ms.head? = some l → next = l) :
    IsIsland .accepted (ls ++ ms) (st :: sts) := by
  cases h with
  | output hx hc hs => exact .output hx (fun l hl => hhead l hl ▸ ⟨hc, hs⟩) hm
  | expr hx hs => simpa using IsIsland.expr hx hs hm
  | @stmt l ls st hl hst =>
    by_cases hd : next.token.kind = .punct .dollar
    · -- the statement may have been left without its semicolon, and then it is the last item
      obtain rfl | ⟨l', ms, rfl, hl'⟩ := hm.starts
      · obtain rfl := hm.eq_nil rfl
        rw [List.append_nil]
        rw [decide_eq_true hd] at hst
        exact .last rfl hl hst
      · rw [← hhead l' rfl, hd] at hl'
        cases hl'
    · rw [decide_eq_false hd] at hst
      exact .stmt hl hst hm

theorem Conforms.island_succ (h : Conforms n) (s : TokenStream) (seen : List Stmt) :
    (Parser.island (n + 1) seen).Reads s fun sts ls s' =>
      s'.current.Is .dollar ∧ ∃ more, IsIsland .accepted ls more ∧ sts = seen.reverse ++ more := by
  rw [Parser.island]
  refine reads_sees (fun hd => reads_pure ⟨hd, [], .nil, by simp⟩) fun _ => ?_
  refine (h.islandStmt s).bind fun st ls s₁ hst => (h.island s₁ _).left ?_
  rintro sts ms s' rfl ⟨hd, more, hm, rfl⟩
  refine ⟨hd, st :: more, hst.cons hm ?_ ?_, by simp⟩
  · rintro rfl
    exact hd
  · intro l hl
    rw [current_append, List.headD_eq_head?_getD, hl, Option.getD_some]

theorem Conforms.islandStmt_succ (h : Conforms n) (s : TokenStream) :
    (Parser.islandStmt (n + 1)).Reads s fun st ls s' => IsItem s'.current ls st := by
  rw [Parser.islandStmt]
  refine reads_peek ?_
  have item (hs : s.current.StartsItem .accepted) :
      (Parser.stmt n).Reads s fun st ls s' => IsItem s'.current ls st := by
    refine (h.stmt s).left fun st ls s' hls hst => ?_
    obtain ⟨l, ls, rfl, -⟩ := hst.starts
    rw [hls] at hs
    exact .stmt hs hst
  split
  · exact item (.inl ⟨_, Token.kind_eq_keyword.1 ‹_›, rfl⟩)
  · exact item (.inl ⟨_, Token.kind_eq_keyword.1 ‹_›, rfl⟩)
  · exact item (.inl ⟨_, Token.kind_eq_keyword.1 ‹_›, rfl⟩)
  · exact item (.inl ⟨_, Token.kind_eq_keyword.1 ‹_›, rfl⟩)
  · exact item (.inl ⟨_, Token.kind_eq_keyword.1 ‹_›, rfl⟩)
  · exact item (.inl ⟨_, Token.kind_eq_keyword.1 ‹_›, rfl⟩)
  · exact item (.inl ⟨_, Token.kind_eq_keyword.1 ‹_›, rfl⟩)
  · exact item (.inl ⟨_, Token.kind_eq_keyword.1 ‹_›, rfl⟩)
  · exact item (.inl ⟨_, Token.kind_eq_keyword.1 ‹_›, rfl⟩)
  · exact item (.inr ⟨rfl, Token.kind_eq_punct.1 ‹_›⟩)
  · exact reads_refuse _
  · refine (h.expr s).bind fun x ls s₁ ⟨hx, hc⟩ => reads_sees (fun hs => ?_) fun hs => ?_
    · exact .discard (reads_advance (hs.kind ▸ nofun) fun s₂ => reads_pure (.expr hx hs))
    · exact reads_pure (by simpa using IsItem.output hx hc hs)

/-! ### Blocks -/

theorem Conforms.block_succ (h : Conforms n) (s : TokenStream) :
    (Parser.block (n + 1)).Reads s fun b ls _ => IsBlock .accepted ls b := by
  rw [Parser.block]
  refine reads_peek ?_
  split
  · rename_i hk
    refine reads_advance (hk ▸ nofun) fun s₁ => (h.stmts s₁ []).bind ?_
    rintro sts ls s₂ ⟨hr, more, hm, rfl⟩
    exact reads_advance (hr.kind ▸ nofun) fun s₃ =>
      reads_pure (.braces (Token.kind_eq_punct.1 hk) hm hr)
  · rename_i hk
    exact (h.template s (Token.kind_eq_punct.1 hk)).mono fun b ls s' => .template
  · exact reads_refuse _

/-- Statements before a lexeme that is not `$` do not start with it. -/
theorem not_atDollar {d : Dialect} {ls : List Lexeme} {sts : List Stmt} {s : TokenStream}
    (h : IsStmts d ls sts) (hs : s.atDollar = false) : (ls ++ s).atDollar = false := by
  obtain rfl | ⟨l, ls, rfl, hl⟩ := h.starts
  · exact hs
  · exact decide_eq_false (ne_of_starts hl rfl)

theorem Conforms.stmts_succ (h : Conforms n) (s : TokenStream) (seen : List Stmt) :
    (Parser.stmts (n + 1) seen).Reads s fun sts ls s' =>
      s'.current.Is .rbrace ∧ ∃ more, IsStmts .accepted ls more ∧ sts = seen.reverse ++ more := by
  rw [Parser.stmts]
  refine reads_peek ?_
  split
  · rename_i hk
    exact reads_pure ⟨Token.kind_eq_punct.1 hk, [], .nil, by simp⟩
  · exact reads_refuse _
  · refine (h.stmt s).bind fun st ls s₁ hst => (h.stmts s₁ _).left ?_
    rintro sts ms s' rfl ⟨hr, more, hm, rfl⟩
    rw [not_atDollar hm (decide_eq_false (hr.kind ▸ nofun))] at hst
    exact ⟨hr, _, .cons hst hm, by simp⟩

theorem Conforms.caseStmts_succ (h : Conforms n) (s : TokenStream) (seen : List Stmt) :
    (Parser.caseStmts (n + 1) seen).Reads s fun sts ls s' =>
      s'.atDollar = false ∧ ∃ more, IsStmts .accepted ls more ∧ sts = seen.reverse ++ more := by
  rw [Parser.caseStmts]
  refine reads_peek ?_
  split
  · rename_i hk
    exact reads_pure ⟨decide_eq_false (hk ▸ nofun), [], .nil, by simp⟩
  · rename_i hk
    exact reads_pure ⟨decide_eq_false (hk ▸ nofun), [], .nil, by simp⟩
  · rename_i hk
    exact reads_pure ⟨decide_eq_false (hk ▸ nofun), [], .nil, by simp⟩
  · refine (h.stmt s).bind fun st ls s₁ hst => (h.caseStmts s₁ _).left ?_
    rintro sts ms s' rfl ⟨hr, more, hm, rfl⟩
    rw [not_atDollar hm hr] at hst
    exact ⟨hr, _, .cons hst hm, by simp⟩

theorem Conforms.caseBody_succ (h : Conforms n) (s : TokenStream) :
    (Parser.caseBody (n + 1)).Reads s fun b ls s' =>
      ∃ c ms sts, ls = c :: ms ∧ c.Is .colon ∧ IsStmts .accepted ms sts ∧
        b = .mk c.pos sts s'.current.pos false := by
  rw [Parser.caseBody]
  refine reads_mark fun hc s₁ => (h.caseStmts s₁ []).bind ?_
  rintro sts ls s₂ ⟨-, more, hm, rfl⟩
  exact reads_here (reads_pure ⟨s.current, ls, sts, by simp, hc, hm, rfl⟩)

theorem noArms_succ (n : Nat) (s : TokenStream) (seen : List SwitchCase)
    (b : Block) : (Parser.switchArms (n + 1) seen (some b)).Reads s fun r ls s' =>
      s'.current.Is .rbrace ∧ ls = [] ∧ r = (seen.reverse, some b) := by
  rw [Parser.switchArms]
  refine reads_peek ?_
  split
  · rename_i hk
    exact reads_pure ⟨Token.kind_eq_punct.1 hk, rfl, rfl⟩
  · exact reads_refuse_bind _
  · exact reads_refuse_bind _
  · exact reads_refuse _

theorem Conforms.switchArms_succ (h : Conforms n) (s : TokenStream) (seen : List SwitchCase) :
    (Parser.switchArms (n + 1) seen none).Reads s fun r ls s' =>
      s'.current.Is .rbrace ∧
        ∃ cases, IsArms .accepted s'.current ls cases r.2 ∧ r.1 = seen.reverse ++ cases := by
  rw [Parser.switchArms]
  refine reads_peek ?_
  split
  · rename_i hk
    exact reads_pure ⟨Token.kind_eq_punct.1 hk, [], .nil, by simp⟩
  · rename_i hk
    refine reads_advance (hk ▸ nofun) fun s₁ => (h.exprList s₁ []).bind ?_
    rintro xs vs s₂ ⟨ys, hv, rfl⟩
    refine (h.caseBody s₂).bind ?_
    rintro body ls s₃ ⟨c, ms, sts, rfl, hc, hm, rfl⟩
    refine (h.switchArms s₃ _).left ?_
    rintro r as s' rfl ⟨hr, cases, ha, hcases⟩
    refine ⟨hr, _, ?_, by rw [hcases, List.reverse_cons, List.append_assoc, List.singleton_append]⟩
    have harm := IsArms.case (Token.kind_eq_keyword.1 hk) hv hc hm ha
    rw [current_append]
    simpa using harm
  · rename_i hk
    refine .discard (reads_advance (hk ▸ nofun) fun s₁ => (h.caseBody s₁).bind ?_)
    rintro body ls s₂ ⟨c, ms, sts, rfl, hc, hm, rfl⟩
    refine (h.noArms s₂ seen _).left ?_
    rintro r as s' rfl ⟨hr, rfl, rfl⟩
    refine ⟨hr, [], ?_, by simp⟩
    rw [List.append_nil]
    exact .dflt (Token.kind_eq_keyword.1 hk) hc hm
  · exact reads_refuse _

/-! ### Statements -/

theorem Conforms.varDefs_succ (h : Conforms n) (s : TokenStream) (seen : List VarDef) :
    (Parser.varDefs (n + 1) seen).Reads s fun vs ls s' =>
      ∃ ms es more, ls = ms ++ es ∧ IsVarDefs .accepted ms more ∧ IsEnd s'.atDollar es ∧
        vs = seen.reverse ++ more := by
  rw [Parser.varDefs]
  refine reads_ident fun m hm s₁ => ?_
  have rest (i : Option Expr) (ls : List Lexeme) (s₂ : TokenStream)
      (hv : IsVarDef .accepted (s.current :: ls) (.mk s.current.pos m i)) :
      Reads (do
        if ← sees .comma then
          discard advance
          Parser.varDefs n (.mk s.current.pos m i :: seen)
        else
          semi
          pure (VarDef.mk s.current.pos m i :: seen).reverse) s₂ fun vs ls' s' =>
        ∃ ms es more, s.current :: (ls ++ ls') = ms ++ es ∧ IsVarDefs .accepted ms more ∧
          IsEnd s'.atDollar es ∧ vs = seen.reverse ++ more := by
    refine reads_sees (fun hc => ?_) fun _ => ?_
    · refine .discard (reads_advance (hc.kind ▸ nofun) fun s₃ => (h.varDefs s₃ _).mono ?_)
      rintro vs _ s' ⟨ms, es, more, rfl, hvs, he, rfl⟩
      exact ⟨_, es, _, by simp, .more hv hc hvs, he, by simp⟩
    · exact reads_semi fun es s₃ he => reads_pure ⟨_, es, _, by simp, .one hv, he, by simp⟩
  dsimp only
  refine reads_sees (fun he => ?_) fun _ => ?_
  · refine .discard (reads_advance (he.kind ▸ nofun) fun s₂ => (h.expr s₂).bind
      fun x ls s₃ ⟨hx, _⟩ => ?_)
    exact (rest (some x) (s₁.current :: ls) s₃ (.init hm he hx)).mono fun vs ls' s' hvs => hvs
  · exact rest none [] s₁ (.bare hm)

theorem Conforms.parenExpr_succ (h : Conforms n) (s : TokenStream) :
    (Parser.parenExpr (n + 1)).Reads s fun x ls _ =>
      ∃ lp ms rp, ls = lp :: ms ++ [rp] ∧ lp.Is .lparen ∧ IsExpr .accepted ms x ∧
        rp.Is .rparen := by
  rw [Parser.parenExpr]
  exact .discard (reads_mark fun hl s₁ => (h.expr s₁).bind fun x ls s₂ ⟨hx, _⟩ =>
    .discard (reads_mark fun hr s₃ => reads_pure ⟨_, _, _, rfl, hl, hx, hr⟩))

theorem Conforms.conditional_succ (h : Conforms n) (s : TokenStream) {l : Lexeme}
    (hl : l.IsWord .ifWord) : (Parser.conditional (n + 1) l.pos).Reads s fun st ls _ =>
      IsConditional .accepted (l :: ls) st := by
  rw [Parser.conditional]
  refine (h.parenExpr s).bind ?_
  rintro x _ s₁ ⟨lp, ms, rp, rfl, hlp, hx, hrp⟩
  refine (h.block s₁).bind fun b bs s₂ hb => reads_seesWord (fun he => ?_) fun _ => reads_pure ?_
  · refine reads_advance (he.kind ▸ nofun) fun s₃ => reads_seesWord (fun hi => ?_) fun _ => ?_
    · refine reads_advance (hi.kind ▸ nofun) fun s₄ => (h.conditional s₄ hi).bind
        fun st ls s₅ hst => reads_pure ?_
      have hx := IsConditional.chain hl hlp hx hrp hb he hst
      simpa using hx
    · refine (h.block s₃).bind fun c cs s₄ hc => reads_pure ?_
      have hx := IsConditional.two hl hlp hx hrp hb he hc
      simpa using hx
  · have hx := IsConditional.one hl hlp hx hrp hb
    simpa using hx

theorem Conforms.stmt_succ (h : Conforms n) (s : TokenStream) :
    (Parser.stmt (n + 1)).Reads s fun st ls s' => IsStmt .accepted s'.atDollar ls st := by
  rw [Parser.stmt]
  refine reads_peek ?_
  split
  · rename_i hk
    refine reads_advance (hk ▸ nofun) fun s₁ => (h.varDefs s₁ []).bind ?_
    rintro vs _ s₂ ⟨ms, es, more, rfl, hvs, he, rfl⟩
    refine reads_pure ?_
    rw [List.append_nil]
    exact .define (Token.kind_eq_keyword.1 hk) hvs he
  · rename_i hk
    refine reads_advance (hk ▸ nofun) fun s₁ => (h.exprList s₁ []).bind ?_
    rintro xs ls s₂ ⟨ys, hys, rfl⟩
    refine reads_semi fun es s₃ he => reads_pure ?_
    rw [List.append_nil]
    exact .output (Token.kind_eq_keyword.1 hk) hys he
  · rename_i hk
    refine reads_advance (hk ▸ nofun) fun s₁ => reads_peek ?_
    have hr := Token.kind_eq_keyword.1 hk
    have bare : (semi >>= fun _ => pure (Stmt.ret s.current.pos none)).Reads s₁ fun st ls s' =>
        IsStmt .accepted s'.atDollar (s.current :: ls) st :=
      reads_semi fun es s₂ he => reads_pure (by rw [List.append_nil]; exact .ret hr he)
    split
    · exact bare
    · exact bare
    · exact bare
    · refine (h.expr s₁).bind fun x ls s₂ ⟨hx, _⟩ => reads_semi fun es s₃ he => reads_pure ?_
      rw [List.append_nil]
      exact .retValue hr hx he
  · rename_i hk
    exact reads_advance (hk ▸ nofun) fun s₁ =>
      (h.conditional s₁ (Token.kind_eq_keyword.1 hk)).mono fun st ls s' => .cond
  · rename_i hk
    refine reads_advance (hk ▸ nofun) fun s₁ => (h.parenExpr s₁).bind ?_
    rintro x _ s₂ ⟨lp, ms, rp, rfl, hlp, hx, hrp⟩
    refine (h.block s₂).bind fun b bs s₃ hb => reads_pure ?_
    have hst : IsStmt .accepted s₃.atDollar _ _ :=
      .loop (Token.kind_eq_keyword.1 hk) hlp hx hrp hb
    simpa using hst
  · rename_i hk
    refine reads_advance (hk ▸ nofun) fun s₁ => .discard (reads_mark fun hlp s₂ => ?_)
    refine reads_ident fun v hv s₃ => .discard (reads_consume nofun fun hi s₄ => ?_)
    refine (h.expr s₄).bind fun x ls s₅ ⟨hx, _⟩ => ?_
    dsimp only
    -- the rest of the loop, after its condition on the elements
    have rest (w : Option WhereClause) (fs : List Lexeme) (hw : IsFilter .accepted fs w)
        (s₆ : TokenStream) : Reads (do
          discard (mark .rparen)
          let body ← Parser.block n
          if ← seesWord .betweenWord then
            discard advance
            let between ← Parser.block n
            pure (Stmt.each s.current.pos s₂.current.pos v x w body (some between))
          else pure (Stmt.each s.current.pos s₂.current.pos v x w body none)) s₆
        fun st ms s' => IsStmt .accepted s'.atDollar
          (s.current :: s₁.current :: s₂.current :: s₃.current :: ls ++ fs ++ ms) st := by
      refine .discard (reads_mark fun hrp s₇ => (h.block s₇).bind fun b bs s₈ hb => ?_)
      have hst (l : Bool) (ws : List Lexeme) (between : Option Block)
          (hw' : IsBetween .accepted ws between) : IsStmt .accepted l _ _ :=
        .each (Token.kind_eq_keyword.1 hk) hlp hv (Token.kind_eq_keyword.1 hi) hx hw hrp hb hw'
      refine reads_seesWord (fun hbt => ?_) fun _ => reads_pure (by simpa using hst _ _ _ .none)
      refine .discard (reads_advance (hbt.kind ▸ nofun) fun s₉ => (h.block s₉).bind
        fun c cs s₁₀ hc => reads_pure ?_)
      simpa using hst _ _ _ (.some hbt hc)
    refine reads_seesWord (fun hw => ?_) fun _ => ?_
    · refine reads_advance (hw.kind ▸ nofun) fun s₆ => (h.expr s₆).bind fun y fs s₇ ⟨hy, _⟩ => ?_
      exact (rest _ _ (.some hw hy) s₇).mono fun st ms s' hst => by simpa using hst
    · exact (rest none [] .none s₅).mono fun st ms s' hst => by simpa using hst
  · rename_i hk
    refine reads_advance (hk ▸ nofun) fun s₁ => (h.parenExpr s₁).bind ?_
    rintro x _ s₂ ⟨lp, ms, rp, rfl, hlp, hx, hrp⟩
    refine .discard (reads_mark fun hlb s₃ => (h.switchArms s₃ []).bind ?_)
    rintro ⟨cases, dflt⟩ as s₄ ⟨hrb, arms, ha, rfl⟩
    refine reads_advance (hrb.kind ▸ nofun) fun s₅ => reads_pure ?_
    have hst : IsStmt .accepted s₅.atDollar _ _ :=
      .switch (Token.kind_eq_keyword.1 hk) hlp hx hrp hlb ha hrb
    simpa using hst
  · rename_i hk
    exact reads_advance (hk ▸ nofun) fun s₁ => reads_semi fun es s₂ he =>
      reads_pure (by rw [List.append_nil]; exact .leave (Token.kind_eq_keyword.1 hk) he)
  · rename_i hk
    exact reads_advance (hk ▸ nofun) fun s₁ => reads_semi fun es s₂ he =>
      reads_pure (by rw [List.append_nil]; exact .again (Token.kind_eq_keyword.1 hk) he)
  · exact (h.block s).bind fun b ls s₁ hb => reads_pure (by rw [List.append_nil]; exact .block hb)
  · exact (h.block s).bind fun b ls s₁ hb => reads_pure (by rw [List.append_nil]; exact .block hb)
  · exact reads_refuse _
  · exact reads_refuse _
  · rename_i hk _ _
    have hexpr : (Parser.expr n).Reads s fun x ls _ =>
        IsExpr .accepted ls x ∧ ls.head? = some s.current := by
      refine (h.expr s).left ?_
      rintro x ls s' rfl ⟨hx, -⟩
      obtain ⟨l, ls, rfl, -⟩ := hx.starts
      exact ⟨hx, rfl⟩
    refine hexpr.bind fun x ls s₁ ⟨hx, hls⟩ => reads_semi fun es s₂ he => reads_pure ?_
    obtain ⟨l, ls, rfl, -⟩ := hx.starts
    obtain rfl : l = s.current := by simpa using hls
    rw [List.append_nil]
    exact .expr (fun _ ho => hk ho.kind) hx he

/-! ### All readers -/

theorem conforms_zero : Conforms 0 where
  expr _ := reads_refuse _
  binary _ _ _ _ := reads_refuse _
  binaryRest _ _ _ _ _ _ _ _ _ := reads_refuse _
  unary _ := reads_refuse _
  selectors _ _ _ _ _ := reads_refuse _
  primary _ := reads_refuse _
  args _ _ := reads_refuse _
  moreArgs _ _ _ _ := reads_refuse _
  exprList _ _ := reads_refuse _
  template _ _ := reads_refuse _
  templateBody _ _ := reads_refuse _
  island _ _ := reads_refuse _
  islandStmt _ := reads_refuse _
  block _ := reads_refuse _
  stmts _ _ := reads_refuse _
  varDefs _ _ := reads_refuse _
  parenExpr _ := reads_refuse _
  conditional _ _ _ := reads_refuse _
  caseStmts _ _ := reads_refuse _
  caseBody _ := reads_refuse _
  switchArms _ _ := reads_refuse _
  noArms _ _ _ := reads_refuse _
  stmt _ := reads_refuse _

theorem Conforms.succ (h : Conforms n) : Conforms (n + 1) where
  expr := h.expr_succ
  binary s _ := h.binary_succ s
  binaryRest s _ _ _ _ := h.binaryRest_succ s
  unary := h.unary_succ
  selectors s _ _ := h.selectors_succ s
  primary := h.primary_succ
  args := h.args_succ
  moreArgs s m _ := h.moreArgs_succ s m
  exprList := h.exprList_succ
  template := h.template_succ
  templateBody := h.templateBody_succ
  island := h.island_succ
  islandStmt := h.islandStmt_succ
  block := h.block_succ
  stmts := h.stmts_succ
  varDefs := h.varDefs_succ
  parenExpr := h.parenExpr_succ
  conditional s _ := h.conditional_succ s
  caseStmts := h.caseStmts_succ
  caseBody := h.caseBody_succ
  switchArms := h.switchArms_succ
  noArms := noArms_succ n
  stmt := h.stmt_succ

theorem conforms : ∀ n, Conforms n
  | 0 => conforms_zero
  | n + 1 => (conforms n).succ

end Parser

/-! ## Modules and texts follow the grammar -/

/-- The constructs of `m` and then those of `rest`, whose end is the end of the module. -/
def Module.followedBy (m rest : Module) : Module :=
  ⟨m.path, m.loads ++ rest.loads, m.functions ++ rest.functions, m.defs ++ rest.defs,
    m.stmts ++ rest.stmts, rest.endPos⟩

open TokenStream

namespace Parser

/-! ### Constructs of a module -/

theorem reads_moreParams (n : Nat) (s : TokenStream) {seen : List Param} (hs : seen ≠ []) :
    (params n seen).Reads s fun ps ls s' => s'.current.Is .rparen ∧
      (ls = [] ∧ ps = seen.reverse ∨ ∃ c ms more, ls = c :: ms ∧ c.Is .comma ∧
        IsNames ms more ∧ ps = seen.reverse ++ more) := by
  induction n generalizing s seen with
  | zero => exact reads_refuse _
  | succ n ih =>
    rw [params]
    refine reads_sees (fun hr => reads_pure ⟨hr, .inl ⟨rfl, rfl⟩⟩) fun _ => ?_
    have he : (!seen.isEmpty) = true := by simpa using hs
    simp only [he, if_true]
    refine .discard (reads_mark fun hc s₁ => reads_ident fun m hm s₂ =>
      (ih s₂ (List.cons_ne_nil _ seen)).mono fun ps ls s' ⟨hr, hps⟩ => ⟨hr, .inr ?_⟩)
    obtain ⟨rfl, rfl⟩ | ⟨c, ms, more, rfl, hc', hmore, rfl⟩ := hps
    · exact ⟨_, [s₁.current], _, rfl, hc, .one hm, by simp⟩
    · exact ⟨_, _, _, rfl, hc, .more hm hc' hmore, by simp⟩

theorem reads_params (n : Nat) (s : TokenStream) :
    (params n []).Reads s fun ps ls s' => s'.current.Is .rparen ∧ IsParams ls ps := by
  cases n with
  | zero => exact reads_refuse _
  | succ n =>
    rw [params]
    refine reads_sees (fun hr => reads_pure ⟨hr, .none⟩) fun _ => reads_ident fun m hm s₁ =>
      (reads_moreParams n s₁ (List.cons_ne_nil _ [])).mono fun ps ls s' ⟨hr, hps⟩ => ⟨hr, ?_⟩
    obtain ⟨rfl, rfl⟩ | ⟨c, ms, more, rfl, hc', hmore, rfl⟩ := hps
    · exact .some (.one hm)
    · exact .some (.more hm hc' hmore)

theorem reads_load (s : TokenStream) (hl : s.current.IsWord .loadWord) :
    load.Reads s fun x ls _ => IsLoad ls x := by
  rw [load]
  refine reads_advance (hl.kind ▸ nofun) fun s₁ => reads_token ?_
  split
  · rename_i m hm
    exact reads_advance (by rw [hm]; nofun) fun s₂ => reads_mark fun he s₃ =>
      reads_pure (.mk hl hm he)
  · exact reads_refuse _

theorem reads_function (n : Nat) (s : TokenStream) (hl : s.current.IsWord .functionWord) :
    (function n).Reads s fun f ls _ => IsFunction .accepted ls f := by
  rw [function]
  refine reads_advance (hl.kind ▸ nofun) fun s₁ => reads_ident fun m hm s₂ =>
    .discard (reads_mark fun hp s₃ => ?_)
  refine (reads_params n s₃).bind fun ps ls s₄ ⟨hr, hps⟩ =>
    .discard (reads_advance (hr.kind ▸ nofun) fun s₅ => ?_)
  refine ((conforms n).block s₅).bind fun b bs s₆ hb => reads_pure ?_
  rw [List.append_nil]
  exact .mk hl hm hp hps hr hb

/-- A module does not start with `$`. -/
theorem not_atDollar_module {d : Dialect} {file : Bytes} {e : Position} {ls : List Lexeme}
    {m : Module} {s : TokenStream} (h : IsModule d file e ls m) (hs : s.current.token = .eof) :
    (ls ++ s).atDollar = false := by
  refine decide_eq_false fun hd => ?_
  obtain rfl | ⟨l, ls, rfl, hl⟩ := h.starts
  · cases hd.symm.trans (Token.kind_eq_eof.2 hs)
  · exact ne_of_starts hl rfl hd

/-- The constructs that are read go after those that were there. -/
theorem reads_moduleItems (n : Nat) (s : TokenStream) (m : Module) :
    (moduleItems n m).Reads s fun m' ls s' => s'.current.token = .eof ∧
      ∃ rest, IsModule .accepted m.path s'.current.pos ls rest ∧ m' = m.followedBy rest := by
  induction n generalizing s m with
  | zero => exact reads_refuse _
  | succ n ih =>
    rw [moduleItems]
    refine reads_peek ?_
    split
    · rename_i hk
      exact reads_here (reads_pure ⟨Token.kind_eq_eof.1 hk, _, .nil, by
        simp [Module.followedBy]⟩)
    · rename_i hk
      refine (reads_load s (Token.kind_eq_keyword.1 hk)).bind fun x ls s₁ hx => (ih s₁ _).mono ?_
      rintro m' ms s' ⟨he, rest, hr, rfl⟩
      exact ⟨he, _, .load hx hr, by simp [Module.followedBy]⟩
    · rename_i hk
      refine (reads_function n s (Token.kind_eq_keyword.1 hk)).bind
        fun f ls s₁ hf => (ih s₁ _).mono ?_
      rintro m' ms s' ⟨he, rest, hr, rfl⟩
      exact ⟨he, _, .function hf hr, by simp [Module.followedBy]⟩
    · rename_i hk
      refine reads_advance (hk ▸ nofun) fun s₁ => ((conforms n).varDefs s₁ []).bind ?_
      rintro vs _ s₂ ⟨ms, es, more, rfl, hvs, hes, rfl⟩
      refine (ih s₂ _).left ?_
      rintro m' ls s' rfl ⟨he, rest, hr, rfl⟩
      rw [not_atDollar_module hr he] at hes
      cases hes with
      | missing h => cases h
      | semi hs =>
        have hm := IsModule.define (Token.kind_eq_keyword.1 hk) hvs hs hr
        exact ⟨he, _, by simpa using hm, by simp [Module.followedBy]⟩
    · rename_i hk
      have hstmt : (Parser.stmt n).Reads s fun st ls s₁ =>
          IsStmt .accepted s₁.atDollar ls st ∧ ls.head? = some s.current := by
        refine ((conforms n).stmt s).left ?_
        rintro st ls s' rfl hst
        obtain ⟨l, ls, rfl, -⟩ := hst.starts
        exact ⟨hst, rfl⟩
      refine hstmt.bind fun st ls s₁ ⟨hst, hls⟩ => (ih s₁ _).left ?_
      rintro m' ms s' rfl ⟨he, rest, hr, rfl⟩
      rw [not_atDollar_module hr he] at hst
      obtain ⟨l, ls, rfl, -⟩ := hst.starts
      obtain rfl : l = s.current := by simpa using hls
      exact ⟨he, _, .stmt (fun hd => hk hd.kind) hst hr, by simp [Module.followedBy]⟩

end Parser

theorem IsModule.path_eq {d : Dialect} {file : Bytes} {e : Position} {ls : List Lexeme} {m : Module}
    (h : IsModule d file e ls m) : m.path = file := by
  induction h with
  | nil => rfl
  | load _ _ ih => exact ih
  | function _ _ ih => exact ih
  | define _ _ _ _ ih => exact ih
  | stmt _ _ _ ih => exact ih

/-- A text that is read as a module is that of a module of the grammar. -/
theorem isProgram_of_parseModule {file src : Bytes} {m : Module} (h : parseModule file src = .ok m) :
    IsProgram .accepted file src m := by
  obtain ⟨s, s', hs, hy⟩ := Parser.run_eq_ok.1 h
  have hc := scan_closed file src
  rw [hs] at hc
  obtain ⟨ls, rfl, he, rest, hr, rfl⟩ := Parser.reads_moduleItems _ s _ hc.ended_stream _ s' hy
  rw [fault_append] at hs hc
  refine ⟨ls, s'.current, ?_, he, ?_⟩
  · rw [hs, lexemes_append, hc.eq_of_eof he]
    rfl
  · obtain ⟨_, _, _, _, _, _⟩ := rest
    obtain rfl := hr.path_eq
    exact hr

end Stencil
