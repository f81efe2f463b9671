import Stencil.Proofs.Syntax.Reading

/-!
# The steps of the readers

For each reader and each alternative of its phrase, what it yields on lexemes of that
alternative, given what the readers yield that it calls.
-/

namespace Stencil

namespace Parser

variable {n k : Nat} {x y z : Expr} {xs : List Expr} {l dot lp rp : Lexeme} {m : Bytes}
variable {s s' s₁ s₂ s₃ : TokenStream}

/-! ### Expressions -/

theorem yields_expr (hx : (binary n 1).Yields s x s') (he : ¬ s'.current.Is .assign) :
    (expr (n + 1)).Yields s x s' := by
  rw [expr]
  exact hx.bind (.unseen he yields_pure)

theorem yields_assign (hx : (binary n 1).Yields s x (s₁.push l)) (hl : l.Is .assign)
    (hy : (expr n).Yields s₁ y s') : (expr (n + 1)).Yields s (.assign x l.pos y) s' := by
  rw [expr]
  exact hx.bind (.sees hl (.advance (hy.bind yields_pure)))

theorem yields_binary (hx : (unary n).Yields s x s₁) (hy : (binaryRest n k x).Yields s₁ y s') :
    (binary (n + 1) k).Yields s y s' := by
  rw [binary]
  exact hx.bind hy

theorem yields_noOperator (h : ∀ op, s.current.IsOperator op → op.level < k) :
    (binaryRest (n + 1) k x).Yields s x s := by
  rw [binaryRest, yields_peek]
  split
  · exact yields_pure
  · rename_i op hop
    rw [if_pos (h op hop)]
    exact yields_pure

theorem yields_operator {op : BinaryOp} (hl : l.IsOperator op) (hk : k ≤ op.level)
    (hy : (binary n (op.level + 1)).Yields s y s₁)
    (hz : (binaryRest n k (.binary x l.pos op y)).Yields s₁ z s') :
    (binaryRest (n + 1) k x).Yields (s.push l) z s' := by
  rw [binaryRest, yields_peek, TokenStream.current_push, show binaryOp? _ = _ from hl]
  dsimp only
  rw [if_neg (Nat.not_lt.2 hk)]
  exact .advance (hy.bind hz)

theorem yields_not (hl : l.Is .bang) (hx : (unary n).Yields s x s') :
    (unary (n + 1)).Yields (s.push l) (.unary l.pos .not x) s' := by
  rw [unary]
  exact .peek hl.kind (.advance (hx.bind yields_pure))

theorem yields_negate (hl : l.Is .minus) (hx : (unary n).Yields s x s') :
    (unary (n + 1)).Yields (s.push l) (.unary l.pos .negate x) s' := by
  rw [unary]
  exact .peek hl.kind (.advance (hx.bind yields_pure))

theorem yields_operand (hs : s.current.token.kind.startsOperand = true)
    (hx : (primary n >>= selectors n).Yields s x s') : (unary (n + 1)).Yields s x s' := by
  rw [unary, yields_peek]
  split
  iterate 2 exact absurd ‹_› (ne_of_starts hs rfl)
  exact hx

theorem yields_noSelector (hd : ¬ s.current.Is .dot) (hb : ¬ s.current.Is .lbrack) :
    (selectors (n + 1) x).Yields s x s := by
  rw [selectors, yields_peek]
  split
  · exact absurd (Token.kind_eq_punct.1 ‹_›) hd
  · exact absurd (Token.kind_eq_punct.1 ‹_›) hb
  · exact yields_pure

theorem yields_member (hd : dot.Is .dot) (hl : l.Names m) (hp : ¬ s.current.Is .lparen)
    (hy : (selectors n (.member x dot.pos l.pos m)).Yields s y s') :
    (selectors (n + 1) x).Yields ((s.push l).push dot) y s' := by
  rw [selectors]
  exact .peek hd.kind (.advance (.ident hl (.unseen hp hy)))

theorem yields_method (hd : dot.Is .dot) (hl : l.Names m) (hp : lp.Is .lparen)
    (hxs : (args n .rparen []).Yields s xs (s₁.push rp))
    (hy : (selectors n (.method x dot.pos l.pos m lp.pos xs rp.pos)).Yields s₁ y s') :
    (selectors (n + 1) x).Yields (((s.push lp).push l).push dot) y s' := by
  rw [selectors]
  exact .peek hd.kind (.advance (.ident hl (.sees hp (.advance (hxs.bind (.advance hy))))))

theorem yields_index (hl : l.Is .lbrack) (hs : ¬ s.current.Is .rbrack)
    (hxs : (args n .rbrack []).Yields s xs (s₁.push rp))
    (hy : (selectors n (.index x l.pos xs rp.pos)).Yields s₁ y s') :
    (selectors (n + 1) x).Yields (s.push l) y s' := by
  rw [selectors]
  exact .peek hl.kind (.advance (.unseen hs (hxs.bind (.advance hy))))

theorem yields_literal {v : Literal} (hv : literal? l.token = some v) :
    (primary (n + 1)).Yields (s.push l) (.literal l.pos l.raw v) s := by
  rw [primary, yields_get, TokenStream.current_push, hv]
  exact .advance yields_pure

theorem yields_null (hl : l.IsWord .nullWord) : (primary (n + 1)).Yields (s.push l) (.null l.pos) s := by
  rw [primary, yields_get, TokenStream.current_push, show l.token = _ from hl]
  exact .advance yields_pure

theorem yields_name (hl : l.Names m) (hp : ¬ s.current.Is .lparen) :
    (primary (n + 1)).Yields (s.push l) (.name l.pos m) s := by
  rw [primary, yields_get, TokenStream.current_push, show l.token = _ from hl]
  exact .ident hl (.unseen hp yields_pure)

theorem yields_call (hl : l.Names m) (hp : lp.Is .lparen)
    (hxs : (args n .rparen []).Yields s xs (s'.push rp)) :
    (primary (n + 1)).Yields ((s.push lp).push l) (.call l.pos m lp.pos xs rp.pos) s' := by
  rw [primary, yields_get, TokenStream.current_push, show l.token = _ from hl]
  exact .ident hl (.sees hp (.advance (hxs.bind (.advance yields_pure))))

theorem yields_new {t : Expr} {name : Lexeme} (hl : l.IsWord .newWord) (hn : name.Names m)
    (ht : (typePath n (.name name.pos m)).Yields s t (s₁.push lp)) (hp : lp.Is .lparen)
    (hxs : (args n .rparen []).Yields s₁ xs (s'.push rp)) :
    (primary (n + 1)).Yields ((s.push name).push l) (.new l.pos t lp.pos xs rp.pos) s' := by
  rw [primary, yields_get, TokenStream.current_push, show l.token = _ from hl]
  exact .advance (.ident hn (ht.bind (.mark hp (hxs.bind (.advance yields_pure)))))

theorem yields_paren (hl : l.Is .lparen) (hx : (expr n).Yields s x (s'.push rp))
    (hp : rp.Is .rparen) : (primary (n + 1)).Yields (s.push l) x s' := by
  rw [primary, yields_get, TokenStream.current_push, show l.token = _ from hl]
  exact .discard (.advance (hx.bind (.discard (.mark hp yields_pure))))

theorem yields_list (hl : l.Is .lbrack) (hxs : (args n .rbrack []).Yields s xs (s'.push rp)) :
    (primary (n + 1)).Yields (s.push l) (.list l.pos xs rp.pos) s' := by
  rw [primary, yields_get, TokenStream.current_push, show l.token = _ from hl]
  exact .advance (hxs.bind (.advance yields_pure))

theorem yields_templateExpr {b : Block} (hs : s.current.Is .openTemplate)
    (hb : (template n).Yields s b s') : (primary (n + 1)).Yields s (.template b) s' := by
  rw [primary, yields_get, show s.current.token = _ from hs]
  exact hb.bind yields_pure

theorem yields_noArgs {c : Punct} {seen : List Expr} (hs : s.current.Is c) :
    (args (n + 1) c seen).Yields s seen.reverse s := by
  rw [args]
  exact .sees hs yields_pure

theorem yields_firstArg {c : Punct} (hs : ¬ s.current.Is c) (hx : (expr n).Yields s x s₁)
    (hxs : (args n c [x]).Yields s₁ xs s') : (args (n + 1) c []).Yields s xs s' := by
  rw [args]
  exact .unseen hs (hx.bind hxs)

theorem yields_nextArg {c : Punct} {seen : List Expr} (hl : l.Is .comma) (hc : c ≠ .comma)
    (hseen : seen ≠ []) (hx : (expr n).Yields s x s₁)
    (hxs : (args n c (x :: seen)).Yields s₁ xs s') :
    (args (n + 1) c seen).Yields (s.push l) xs s' := by
  have hs : ¬ (s.push l).current.Is c := fun h => by
    cases (Token.punct.inj (hl.symm.trans h)); exact hc rfl
  have he : (!seen.isEmpty) = true := by simpa using hseen
  rw [args]
  refine .unseen hs ?_
  simp only [he, if_true]
  exact .discard (.mark hl (hx.bind hxs))

theorem yields_oneExpr {seen : List Expr} (hx : (expr n).Yields s x s')
    (hc : ¬ s'.current.Is .comma) : (exprList (n + 1) seen).Yields s (seen.reverse ++ [x]) s' := by
  rw [exprList, ← List.reverse_cons]
  exact hx.bind (.unseen hc yields_pure)

theorem yields_moreExprs {seen : List Expr} (hx : (expr n).Yields s x (s₁.push l))
    (hl : l.Is .comma) (hxs : (exprList n (x :: seen)).Yields s₁ xs s') :
    (exprList (n + 1) seen).Yields s xs s' := by
  rw [exprList]
  exact hx.bind (.sees hl (.discard (.advance hxs)))

/-! ### Templates and islands -/

variable {sts : List Stmt} {st : Stmt} {b c : Block} {seen : List Stmt} {last : Bool}
variable {es : List Lexeme}

theorem yields_template (hb : (templateBody n []).Yields s sts (s'.push rp)) :
    (template (n + 1)).Yields (s.push l) (.mk l.pos sts rp.pos true) s' := by
  rw [template]
  exact .advance (hb.bind (.advance yields_pure))

theorem yields_templateEnd (hs : s.current.Is .closeTemplate) :
    (templateBody (n + 1) seen).Yields s seen.reverse s := by
  rw [templateBody]
  exact .token hs yields_pure

theorem yields_text (hl : l.token = .text m)
    (hb : (templateBody n (.text l.pos m :: seen)).Yields s sts s') :
    (templateBody (n + 1) seen).Yields (s.push l) sts s' := by
  rw [templateBody]
  exact .token hl (.advance hb)

theorem yields_island {items : List Stmt} (hl : l.Is .dollar)
    (hi : (island n []).Yields s items (s₁.push rp))
    (hb : (templateBody n (items.reverse ++ seen)).Yields s₁ sts s') :
    (templateBody (n + 1) seen).Yields (s.push l) sts s' := by
  rw [templateBody]
  exact .token hl (.discard (.advance (hi.bind (.discard (.advance hb)))))

theorem yields_noItem (hs : s.current.Is .dollar) :
    (island (n + 1) seen).Yields s seen.reverse s := by
  rw [island]
  exact .sees hs yields_pure

theorem yields_item (hs : ¬ s.current.Is .dollar) (hst : (islandStmt n).Yields s st s₁)
    (h : (island n (st :: seen)).Yields s₁ sts s') : (island (n + 1) seen).Yields s sts s' := by
  rw [island]
  exact .unseen hs (hst.bind h)

theorem yields_itemExpr (hs : s.current.token.kind.startsExpr = true)
    (hx : (expr n).Yields s x (s'.push l)) (hl : l.Is .semi) :
    (islandStmt (n + 1)).Yields s (.expr x) s' := by
  rw [islandStmt, yields_peek]
  split
  iterate 11 exact absurd ‹_› (ne_of_starts hs rfl)
  exact hx.bind (.sees hl (.discard (.advance yields_pure)))

theorem yields_itemOutput (hs : s.current.token.kind.startsExpr = true)
    (hx : (expr n).Yields s x s') (hl : ¬ s'.current.Is .semi) :
    (islandStmt (n + 1)).Yields s (.output x.start [x]) s' := by
  rw [islandStmt, yields_peek]
  split
  iterate 11 exact absurd ‹_› (ne_of_starts hs rfl)
  exact hx.bind (.unseen hl yields_pure)

theorem yields_itemStmt (hs : s.current.StartsItem .accepted) (hst : (stmt n).Yields s st s') :
    (islandStmt (n + 1)).Yields s st s' := by
  rw [islandStmt, yields_peek]
  obtain ⟨k, hk, hw⟩ | ⟨-, hb⟩ := hs
  · rw [hk.kind]
    cases k <;> first | exact hst | cases hw
  · rw [hb.kind]
    exact hst

/-! ### Blocks -/

theorem yields_braces (hl : l.Is .lbrace) (hsts : (stmts n []).Yields s sts (s'.push rp)) :
    (block (n + 1)).Yields (s.push l) (.mk l.pos sts rp.pos false) s' := by
  rw [block]
  exact .peek hl.kind (.advance (hsts.bind (.advance yields_pure)))

theorem yields_templateBlock (hs : s.current.Is .openTemplate)
    (hb : (template n).Yields s b s') : (block (n + 1)).Yields s b s' := by
  rw [block]
  exact .peek hs.kind hb

theorem yields_noStmt (hs : s.current.Is .rbrace) :
    (stmts (n + 1) seen).Yields s seen.reverse s := by
  rw [stmts]
  exact .peek hs.kind yields_pure

theorem yields_stmts (hs : s.current.token.kind.startsStmt = true)
    (hst : (stmt n).Yields s st s₁) (hsts : (stmts n (st :: seen)).Yields s₁ sts s') :
    (stmts (n + 1) seen).Yields s sts s' := by
  rw [stmts, yields_peek]
  split
  iterate 2 exact absurd ‹_› (ne_of_starts hs rfl)
  exact hst.bind hsts

/-- The lexeme ends the statements of an arm of a switch. -/
def EndsArm (l : Lexeme) : Prop := l.IsWord .caseWord ∨ l.IsWord .defaultWord ∨ l.Is .rbrace

theorem yields_noCaseStmt (hs : EndsArm s.current) :
    (caseStmts (n + 1) seen).Yields s seen.reverse s := by
  rw [caseStmts]
  obtain hs | hs | hs := hs
  · exact .peek hs.kind yields_pure
  · exact .peek hs.kind yields_pure
  · exact .peek hs.kind yields_pure

theorem yields_caseStmts (hs : s.current.token.kind.startsStmt = true)
    (hst : (stmt n).Yields s st s₁) (hsts : (caseStmts n (st :: seen)).Yields s₁ sts s') :
    (caseStmts (n + 1) seen).Yields s sts s' := by
  rw [caseStmts, yields_peek]
  split
  iterate 3 exact absurd ‹_› (ne_of_starts hs rfl)
  exact hst.bind hsts

theorem yields_caseBody (hl : l.Is .colon) (hsts : (caseStmts n []).Yields s sts s') :
    (caseBody (n + 1)).Yields (s.push l) (.mk l.pos sts s'.current.pos false) s' := by
  rw [caseBody]
  exact .mark hl (hsts.bind yields_pure)

variable {arms : List SwitchCase} {r : List SwitchCase × Option Block}

theorem yields_noArm {dflt : Option Block} (hs : s.current.Is .rbrace) :
    (switchArms (n + 1) arms dflt).Yields s (arms.reverse, dflt) s := by
  rw [switchArms]
  exact .peek hs.kind yields_pure

theorem yields_case (hl : l.IsWord .caseWord) (hxs : (exprList n []).Yields s xs s₁)
    (hb : (caseBody n).Yields s₁ b s₂)
    (h : (switchArms n (.mk l.pos xs b :: arms) none).Yields s₂ r s') :
    (switchArms (n + 1) arms none).Yields (s.push l) r s' := by
  rw [switchArms]
  exact .peek hl.kind (.advance (hxs.bind (hb.bind h)))

theorem yields_default (hl : l.IsWord .defaultWord) (hb : (caseBody n).Yields s b s₁)
    (h : (switchArms n arms (some b)).Yields s₁ r s') :
    (switchArms (n + 1) arms none).Yields (s.push l) r s' := by
  rw [switchArms]
  exact .peek hl.kind (.discard (.advance (hb.bind h)))

/-! ### Statements -/

variable {vars : List VarDef} {seenVars : List VarDef} {eq : Lexeme}

/-- What follows a variable in a definition; `seen` are the variables so far, last first. -/
def afterVar (n : Nat) (seen : List VarDef) : Parser (List VarDef) := do
  if ← sees .comma then
    discard advance
    varDefs n seen
  else
    semi
    return seen.reverse

theorem yields_bareVar (hl : l.Names m) (he : ¬ s.current.Is .assign)
    (h : (afterVar n (.mk l.pos m none :: seenVars)).Yields s vars s') :
    (varDefs (n + 1) seenVars).Yields (s.push l) vars s' := by
  rw [varDefs]
  exact .ident hl (.unseen he h)

theorem yields_initVar (hl : l.Names m) (he : eq.Is .assign) (hx : (expr n).Yields s x s₁)
    (h : (afterVar n (.mk l.pos m (some x) :: seenVars)).Yields s₁ vars s') :
    (varDefs (n + 1) seenVars).Yields ((s.push eq).push l) vars s' := by
  rw [varDefs]
  exact .ident hl (.sees he (.discard (.advance (hx.bind h))))

theorem yields_lastVar (he : IsEnd last es) (hd : last = true → s.current.Is .dollar) :
    (afterVar n seenVars).Yields (es ++ s) seenVars.reverse s := by
  have hc : ¬ (es ++ s).current.Is .comma := by
    cases he with
    | semi hm => exact fun h => by cases hm.symm.trans h
    | missing hm => exact fun h => by cases (hd hm).symm.trans h
  rw [afterVar]
  exact .unseen hc ((yields_semi he hd).bind yields_pure)

theorem yields_nextVar (hl : l.Is .comma) (h : (varDefs n seenVars).Yields s vars s') :
    (afterVar n seenVars).Yields (s.push l) vars s' := by
  rw [afterVar]
  exact .sees hl (.discard (.advance h))

theorem yields_parenExpr (hl : lp.Is .lparen) (hx : (expr n).Yields s x (s'.push rp))
    (hr : rp.Is .rparen) : (parenExpr (n + 1)).Yields (s.push lp) x s' := by
  rw [parenExpr]
  exact .discard (.mark hl (hx.bind (.discard (.mark hr yields_pure))))

variable {p : Position}

theorem yields_if (hx : (parenExpr n).Yields s x s₁) (hb : (block n).Yields s₁ b s')
    (he : ¬ s'.current.IsWord .elseWord) :
    (conditional (n + 1) p).Yields s (.cond p x b none) s' := by
  rw [conditional]
  exact hx.bind (hb.bind (.unseenWord he yields_pure))

theorem yields_else (hx : (parenExpr n).Yields s x s₁) (hb : (block n).Yields s₁ b (s₂.push l))
    (he : l.IsWord .elseWord) (hs : ¬ s₂.current.IsWord .ifWord) (hc : (block n).Yields s₂ c s') :
    (conditional (n + 1) p).Yields s (.cond p x b (some c)) s' := by
  rw [conditional]
  exact hx.bind (hb.bind (.seesWord he (.advance (.unseenWord hs (hc.bind yields_pure)))))

theorem yields_elseIf {i : Lexeme} (hx : (parenExpr n).Yields s x s₁)
    (hb : (block n).Yields s₁ b ((s₂.push i).push l)) (he : l.IsWord .elseWord)
    (hi : i.IsWord .ifWord) (hst : (conditional n i.pos).Yields s₂ st s') :
    (conditional (n + 1) p).Yields s
      (.cond p x b (some (.mk l.pos [st] st.span.last false))) s' := by
  rw [conditional]
  exact hx.bind (hb.bind (.seesWord he (.advance (.seesWord hi (.advance (hst.bind yields_pure))))))

theorem yields_define (hl : l.IsWord .defWord) (h : (varDefs n []).Yields s vars s') :
    (stmt (n + 1)).Yields (s.push l) (.define l.pos vars) s' := by
  rw [stmt]
  exact .peek hl.kind (.advance (h.bind yields_pure))

theorem yields_output (hl : l.IsWord .outWord) (hx : (exprList n []).Yields s xs (es ++ s'))
    (he : IsEnd last es) (hd : last = true → s'.current.Is .dollar) :
    (stmt (n + 1)).Yields (s.push l) (.output l.pos xs) s' := by
  rw [stmt]
  exact .peek hl.kind (.advance (hx.bind ((yields_semi he hd).bind yields_pure)))

theorem yields_return (hl : l.IsWord .returnWord) (he : IsEnd last es)
    (hd : last = true → s.current.Is .dollar) :
    (stmt (n + 1)).Yields ((es ++ s).push l) (.ret l.pos none) s := by
  rw [stmt]
  refine .peek hl.kind (.advance ?_)
  have h : (semi >>= fun _ => pure (Stmt.ret l.pos none)).Yields (es ++ s) (.ret l.pos none) s :=
    (yields_semi he hd).bind yields_pure
  cases he with
  | semi hm => exact .peek hm.kind h
  | missing hm => exact .peek (hd hm).kind h

theorem yields_returnValue (hl : l.IsWord .returnWord)
    (hs : s.current.token.kind.startsExpr = true) (hx : (expr n).Yields s x (es ++ s'))
    (he : IsEnd last es) (hd : last = true → s'.current.Is .dollar) :
    (stmt (n + 1)).Yields (s.push l) (.ret l.pos (some x)) s' := by
  rw [stmt]
  refine .peek hl.kind (.advance ?_)
  rw [yields_peek]
  split
  iterate 3 exact absurd ‹_› (ne_of_starts hs rfl)
  exact hx.bind ((yields_semi he hd).bind yields_pure)

theorem yields_cond (hl : l.IsWord .ifWord) (h : (conditional n l.pos).Yields s st s') :
    (stmt (n + 1)).Yields (s.push l) st s' := by
  rw [stmt]
  exact .peek hl.kind (.advance h)

theorem yields_while (hl : l.IsWord .whileWord) (hx : (parenExpr n).Yields s x s₁)
    (hb : (block n).Yields s₁ b s') : (stmt (n + 1)).Yields (s.push l) (.loop l.pos x b) s' := by
  rw [stmt]
  exact .peek hl.kind (.advance (hx.bind (hb.bind yields_pure)))

/-- A loop over elements, given how its condition on them and the rest are read. -/
theorem yields_for {var i : Lexeme} {filter : Option WhereClause} {between : Option Block}
    {fs : TokenStream} (hl : l.IsWord .forWord) (hp : lp.Is .lparen) (hv : var.Names m)
    (hi : i.IsWord .inWord) (hx : (expr n).Yields s x fs)
    (hf : filter = none ∧ fs = s₁.push rp ∨ ∃ y w s₂, fs = s₂.push w ∧
      w.IsWord .whereWord ∧ (expr n).Yields s₂ y (s₁.push rp) ∧ filter = some (.mk w.pos y)) (hr : rp.Is .rparen)
    (hb : (block n).Yields s₁ b s₂)
    (hw : between = none ∧ s₂ = s' ∧ ¬ s₂.current.IsWord .betweenWord ∨
      ∃ c t bt, s₂ = t.push bt ∧ bt.IsWord .betweenWord ∧ (block n).Yields t c s' ∧
        between = some c) :
    (stmt (n + 1)).Yields ((((s.push i).push var).push lp).push l)
      (.each l.pos var.pos m x filter b between) s' := by
  rw [stmt]
  refine .peek hl.kind (.advance (.discard (.mark hp (.ident hv (.discard (.consume hi.kind
    (hx.bind ?_)))))))
  have rest (filter : Option WhereClause) : Yields (do
      discard (mark .rparen)
      let body ← block n
      if ← seesWord .betweenWord then
        discard advance
        let between ← block n
        pure (Stmt.each l.pos var.pos m x filter body (some between))
      else pure (Stmt.each l.pos var.pos m x filter body none)) (s₁.push rp)
      (.each l.pos var.pos m x filter b between) s' := by
    refine .discard (.mark hr (hb.bind ?_))
    obtain ⟨rfl, rfl, hw⟩ | ⟨c, t, bt, rfl, hw, hc, rfl⟩ := hw
    · exact .unseenWord hw yields_pure
    · exact .seesWord hw (.discard (.advance (hc.bind yields_pure)))
  dsimp only
  obtain ⟨rfl, rfl⟩ | ⟨y, w, t, rfl, hw, hy, rfl⟩ := hf
  · exact .unseenWord (fun h => by cases hr.symm.trans h) (rest none)
  · exact .seesWord hw (.advance (hy.bind (rest _)))

theorem yields_switch {lb : Lexeme} (hl : l.IsWord .switchWord)
    (hx : (parenExpr n).Yields s x (s₁.push lb)) (hb : lb.Is .lbrace)
    (h : (switchArms n [] none).Yields s₁ r (s'.push rp)) :
    (stmt (n + 1)).Yields (s.push l) (.switch l.pos x r.1 r.2 rp.pos) s' := by
  rw [stmt]
  exact .peek hl.kind (.advance (hx.bind (.discard (.mark hb (h.bind (.advance yields_pure))))))

theorem yields_break (hl : l.IsWord .breakWord) (he : IsEnd last es)
    (hd : last = true → s.current.Is .dollar) :
    (stmt (n + 1)).Yields ((es ++ s).push l) (.leave l.pos) s := by
  rw [stmt]
  exact .peek hl.kind (.advance ((yields_semi he hd).bind yields_pure))

theorem yields_continue (hl : l.IsWord .continueWord) (he : IsEnd last es)
    (hd : last = true → s.current.Is .dollar) :
    (stmt (n + 1)).Yields ((es ++ s).push l) (.again l.pos) s := by
  rw [stmt]
  exact .peek hl.kind (.advance ((yields_semi he hd).bind yields_pure))

theorem yields_block (hs : s.current.Is .lbrace ∨ s.current.Is .openTemplate)
    (hb : (block n).Yields s b s') : (stmt (n + 1)).Yields s (.block b) s' := by
  rw [stmt]
  obtain hs | hs := hs
  · exact .peek hs.kind (hb.bind yields_pure)
  · exact .peek hs.kind (hb.bind yields_pure)

theorem yields_exprStmt (hs : s.current.token.kind.startsExpr = true)
    (ht : ¬ s.current.Is .openTemplate) (hx : (expr n).Yields s x (es ++ s'))
    (he : IsEnd last es) (hd : last = true → s'.current.Is .dollar) :
    (stmt (n + 1)).Yields s (.expr x) s' := by
  have ht' := fun h => ht (Token.kind_eq_punct.1 h)
  rw [stmt, yields_peek]
  split
  iterate 10 exact absurd ‹_› (ne_of_starts hs rfl)
  · exact absurd ‹_› ht'
  iterate 2 exact absurd ‹_› (ne_of_starts hs rfl)
  exact hx.bind ((yields_semi he hd).bind yields_pure)

end Parser

end Stencil
