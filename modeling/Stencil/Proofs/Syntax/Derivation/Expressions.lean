import Stencil.Proofs.Syntax.Reading

/-!
# What is read follows the grammar

Whenever a reader succeeds, the lexemes it has taken are those of a phrase of the grammar, and
the tree it gives is the one they are written for. The proof is by induction on the bound on
the depth of recursion: `Conforms n` collects what holds of the readers with the bound `n`, and
each of them is then followed once.

A reader that goes round collecting items gives those it was handed and those it has read.
-/

namespace Stencil

namespace Parser

open TokenStream

/-- A whole item of an island, given the lexeme after it. -/
inductive IsItem (next : Lexeme) : List Lexeme → Stmt → Prop where
  | output {ls x} : IsExpr .accepted ls x → ¬ Continues 0 ls next → ¬ next.Is .semi →
      IsItem next ls (.output x.start [x])
  | expr {ls l x} : IsExpr .accepted ls x → l.Is .semi → IsItem next (ls ++ [l]) (.expr x)
  | stmt {l ls st} : l.StartsItem .accepted →
      IsStmt .accepted (decide (next.token.kind = .punct .dollar)) (l :: ls) st →
      IsItem next (l :: ls) st

/-- What is read with the bound `n` follows the grammar. -/
structure Conforms (n : Nat) : Prop where
  expr (s) : (Parser.expr n).Reads s fun x ls s' =>
    IsExpr .accepted ls x ∧ ¬ Continues 0 ls s'.current
  binary (s) {k} : 1 ≤ k → k ≤ 10 → (Parser.binary n k).Reads s fun x ls s' =>
    IsLevel .accepted k ls x ∧ ¬ Continues k ls s'.current
  binaryRest (s) {k j x ms} : 1 ≤ k → k ≤ j → IsLevel .accepted j ms x →
    ¬ Continues (j + 1) ms s.current → (Parser.binaryRest n k x).Reads s fun y ls s' =>
      IsLevel .accepted k (ms ++ ls) y ∧ ¬ Continues k (ms ++ ls) s'.current
  unary (s) : (Parser.unary n).Reads s fun x ls s' =>
    IsUnary .accepted ls x ∧ ¬ Continues 10 ls s'.current
  selectors (s) {x ms} : IsPostfix .accepted ms x → (s.current.Is .lparen → ¬ EndsInName ms) →
    (Parser.selectors n x).Reads s fun y ls s' =>
      IsPostfix .accepted (ms ++ ls) y ∧ ¬ Continues 10 (ms ++ ls) s'.current
  primary (s) : (Parser.primary n).Reads s fun x ls s' =>
    IsPrimary .accepted ls x ∧ (s'.current.Is .lparen → ¬ EndsInName ls)
  args (s) (m) : (Parser.args n m []).Reads s fun xs ls s' =>
    s'.current.Is m ∧ IsArgs .accepted ls xs ∧ (¬ s.current.Is m → xs ≠ [])
  moreArgs (s) (m) {seen} : seen ≠ [] → (Parser.args n m seen).Reads s fun xs ls s' =>
    s'.current.Is m ∧ (ls = [] ∧ xs = seen.reverse ∨ ∃ c ms ys, ls = c :: ms ∧ c.Is .comma ∧
      IsExprs .accepted ms ys ∧ xs = seen.reverse ++ ys)
  exprList (s) (seen) : (Parser.exprList n seen).Reads s fun xs ls _ =>
    ∃ ys, IsExprs .accepted ls ys ∧ xs = seen.reverse ++ ys
  template (s) : s.current.Is .openTemplate → (Parser.template n).Reads s fun b ls _ =>
    IsTemplate .accepted ls b
  templateBody (s) (seen) : (Parser.templateBody n seen).Reads s fun sts ls s' =>
    s'.current.Is .closeTemplate ∧
      ∃ more, IsTemplateBody .accepted ls more ∧ sts = seen.reverse ++ more
  island (s) (seen) : (Parser.island n seen).Reads s fun sts ls s' =>
    s'.current.Is .dollar ∧ ∃ more, IsIsland .accepted ls more ∧ sts = seen.reverse ++ more
  islandStmt (s) : (Parser.islandStmt n).Reads s fun st ls s' => IsItem s'.current ls st
  block (s) : (Parser.block n).Reads s fun b ls _ => IsBlock .accepted ls b
  stmts (s) (seen) : (Parser.stmts n seen).Reads s fun sts ls s' =>
    s'.current.Is .rbrace ∧ ∃ more, IsStmts .accepted ls more ∧ sts = seen.reverse ++ more
  varDefs (s) (seen) : (Parser.varDefs n seen).Reads s fun vs ls s' =>
    ∃ ms es more, ls = ms ++ es ∧ IsVarDefs .accepted ms more ∧ IsEnd s'.atDollar es ∧
      vs = seen.reverse ++ more
  parenExpr (s) : (Parser.parenExpr n).Reads s fun x ls _ =>
    ∃ lp ms rp, ls = lp :: ms ++ [rp] ∧ lp.Is .lparen ∧ IsExpr .accepted ms x ∧ rp.Is .rparen
  conditional (s) {l : Lexeme} : l.IsWord .ifWord →
    (Parser.conditional n l.pos).Reads s fun st ls _ => IsConditional .accepted (l :: ls) st
  caseStmts (s) (seen) : (Parser.caseStmts n seen).Reads s fun sts ls s' =>
    s'.atDollar = false ∧ ∃ more, IsStmts .accepted ls more ∧ sts = seen.reverse ++ more
  caseBody (s) : (Parser.caseBody n).Reads s fun b ls s' =>
    ∃ c ms sts, ls = c :: ms ∧ c.Is .colon ∧ IsStmts .accepted ms sts ∧
      b = .mk c.pos sts s'.current.pos false
  switchArms (s) (seen) : (Parser.switchArms n seen none).Reads s fun r ls s' =>
    s'.current.Is .rbrace ∧
      ∃ cases, IsArms .accepted s'.current ls cases r.2 ∧ r.1 = seen.reverse ++ cases
  noArms (s) (seen) (b) : (Parser.switchArms n seen (some b)).Reads s fun r ls s' =>
    s'.current.Is .rbrace ∧ ls = [] ∧ r = (seen.reverse, some b)
  stmt (s) : (Parser.stmt n).Reads s fun st ls s' => IsStmt .accepted s'.atDollar ls st

variable {n : Nat} {s : TokenStream}

/-! ### Expressions -/

theorem reads_typePath (n : Nat) (s : TokenStream) {t : Expr} {ts : List Lexeme}
    (ht : IsTypeName ts t) : (typePath n t).Reads s fun u ls _ => IsTypeName (ts ++ ls) u := by
  induction n generalizing s t ts with
  | zero => exact reads_refuse _
  | succ n ih =>
    rw [typePath]
    refine reads_sees (fun hd => ?_) fun _ => reads_pure (by simpa using ht)
    refine reads_advance (hd.kind ▸ nofun) fun s₁ => reads_ident fun m hm s₂ => ?_
    exact (ih s₂ (.member ht hd hm)).mono fun u ls s' hu => by simpa using hu

theorem Conforms.expr_succ (h : Conforms n) (s : TokenStream) :
    (Parser.expr (n + 1)).Reads s fun x ls s' =>
      IsExpr .accepted ls x ∧ ¬ Continues 0 ls s'.current := by
  rw [Parser.expr]
  refine (h.binary s (Nat.le_refl 1) (by omega)).bind fun x ls s₁ ⟨hl, hc⟩ => ?_
  refine reads_sees (fun he => ?_) fun he => reads_pure ?_
  · refine reads_advance (he.kind ▸ nofun) fun s₂ => (h.expr s₂).bind fun y ms s₃ ⟨hm, hc⟩ =>
      reads_pure ?_
    simp only [List.append_nil]
    refine ⟨.assign hl he hm, ?_⟩
    rwa [continues_append (List.cons_ne_nil _ _), ← List.singleton_append,
      continues_append hm.starts.ne_nil]
  · rw [List.append_nil]
    refine ⟨.level hl, fun hcon => ?_⟩
    cases hcon with
    | member h => exact hc (.member h)
    | index h => exact hc (.index h)
    | call h hn => exact hc (.call h hn)
    | operator h _ => exact hc (.operator h (binaryOp_level _).1)
    | assign h _ => exact he h

theorem Conforms.binary_succ (h : Conforms n) (s : TokenStream) {k : Nat} (hk : 1 ≤ k)
    (hk' : k ≤ 10) : (Parser.binary (n + 1) k).Reads s fun x ls s' =>
      IsLevel .accepted k ls x ∧ ¬ Continues k ls s'.current := by
  rw [Parser.binary]
  exact (h.unary s).bind fun x ls s₁ ⟨hl, hc⟩ =>
    h.binaryRest s₁ hk hk' (.unary hl) fun hcon => hc (hcon.mono (by omega))

theorem Conforms.binaryRest_succ (h : Conforms n) (s : TokenStream) {k j : Nat} {x : Expr}
    {ms : List Lexeme} (hk : 1 ≤ k) (hj : k ≤ j) (hx : IsLevel .accepted j ms x)
    (hc : ¬ Continues (j + 1) ms s.current) :
    (Parser.binaryRest (n + 1) k x).Reads s fun y ls s' =>
      IsLevel .accepted k (ms ++ ls) y ∧ ¬ Continues k (ms ++ ls) s'.current := by
  -- an operator that is left alone does not bind as tightly as level `k`
  have stop (ho : ∀ op, s.current.IsOperator op → op.level < k) :
      (pure x : Parser Expr).Reads s fun y ls s' =>
        IsLevel .accepted k (ms ++ ls) y ∧ ¬ Continues k (ms ++ ls) s'.current := by
    refine reads_pure ?_
    rw [List.append_nil]
    refine ⟨IsLevel.weaken hx hj, fun hcon => ?_⟩
    cases hcon with
    | member h => exact hc (.member h)
    | index h => exact hc (.index h)
    | call h hn => exact hc (.call h hn)
    | operator h hl => exact absurd (ho _ h) (by omega)
    | assign _ h => omega
  rw [Parser.binaryRest]
  refine reads_peek ?_
  split
  · rename_i hop
    exact stop fun op h => by simp [Lexeme.IsOperator, hop] at h
  · rename_i op hop
    split
    · rename_i hlt
      refine stop fun op' h => ?_
      obtain rfl : op = op' := by simpa [Lexeme.IsOperator, hop] using h
      exact hlt
    · rename_i hlt
      have hle : op.level ≤ j :=
        Nat.le_of_not_lt fun hgt => hc (.operator hop hgt)
      have hne : s.current.token.kind ≠ .eof := fun he => by rw [he] at hop; cases hop
      refine reads_advance hne fun s₁ =>
        (h.binary s₁ (by omega) (by have := binaryOp_level op; omega)).bind fun y ys s₂ hys => ?_
      obtain ⟨hy, hc'⟩ := hys
      have hlevel := IsLevel.binary (IsLevel.weaken hx hle) hop hy
      have hcon : ¬ Continues (op.level + 1) (ms ++ s.current :: ys) s₂.current := by
        rwa [continues_append (List.cons_ne_nil _ _), ← List.singleton_append,
          continues_append hy.starts.ne_nil]
      exact (h.binaryRest s₂ hk (by omega) hlevel hcon).mono fun z zs s₃ hz => by
        simpa only [List.append_assoc, List.cons_append] using hz

theorem Conforms.unary_succ (h : Conforms n) (s : TokenStream) :
    (Parser.unary (n + 1)).Reads s fun x ls s' =>
      IsUnary .accepted ls x ∧ ¬ Continues 10 ls s'.current := by
  rw [Parser.unary]
  refine reads_peek ?_
  have signed {q : Position → Expr → Expr}
      (hq : ∀ ls x, IsUnary .accepted ls x → IsUnary .accepted (s.current :: ls) (q s.current.pos x))
      (he : s.current.token.kind ≠ .eof) :
      (advance >>= fun p => Parser.unary n >>= fun x => pure (q p x)).Reads s fun x ls s' =>
        IsUnary .accepted ls x ∧ ¬ Continues 10 ls s'.current := by
    refine reads_advance he fun s₁ => (h.unary s₁).bind fun x ls s₂ ⟨hx, hc⟩ => reads_pure ?_
    rw [List.append_nil]
    refine ⟨hq ls x hx, ?_⟩
    rwa [← List.singleton_append, continues_append hx.starts.ne_nil]
  split
  · rename_i hk
    exact signed (fun ls x => .not (Token.kind_eq_punct.1 hk)) (hk ▸ nofun)
  · rename_i hk
    exact signed (fun ls x => .negate (Token.kind_eq_punct.1 hk)) (hk ▸ nofun)
  · exact (h.primary s).bind fun x ls s₁ ⟨hx, hc⟩ =>
      (h.selectors s₁ (.primary hx) hc).mono fun y ms s₂ ⟨hy, hc⟩ => ⟨.operand hy, hc⟩

theorem Conforms.selectors_succ (h : Conforms n) (s : TokenStream) {x : Expr} {ms : List Lexeme}
    (hx : IsPostfix .accepted ms x) (hc : s.current.Is .lparen → ¬ EndsInName ms) :
    (Parser.selectors (n + 1) x).Reads s fun y ls s' =>
      IsPostfix .accepted (ms ++ ls) y ∧ ¬ Continues 10 (ms ++ ls) s'.current := by
  rw [Parser.selectors]
  refine reads_peek ?_
  split
  · rename_i hk
    refine reads_advance (hk ▸ nofun) fun s₁ => reads_ident fun n hn s₂ => ?_
    have hdot := Token.kind_eq_punct.1 hk
    refine reads_sees (fun hp => ?_) fun hp => ?_
    · refine reads_advance (hp.kind ▸ nofun) fun s₃ =>
        (h.args s₃ .rparen).bind fun xs as s₄ ⟨hr, has, _⟩ => ?_
      refine reads_advance (hr.kind ▸ nofun) fun s₅ => ?_
      have hm := IsPostfix.method hx hdot hn hp has hr
      exact (h.selectors s₅ hm fun _ => not_endsInName (hr.kind ▸ nofun)).mono fun y ls s' hy => by
        simpa using hy
    · have hm := IsPostfix.member hx hdot hn
      exact (h.selectors s₂ hm fun hp' => absurd hp' hp).mono fun y ls s' hy => by simpa using hy
  · rename_i hk
    refine reads_advance (hk ▸ nofun) fun s₁ => reads_sees (fun _ => ?_) fun hne => ?_
    · exact reads_refuse_bind _
    · refine (h.args s₁ .rbrack).bind fun xs as s₂ ⟨hr, has, hne'⟩ => ?_
      refine reads_advance (hr.kind ▸ nofun) fun s₃ => ?_
      have hm := IsPostfix.index hx (Token.kind_eq_punct.1 hk) has (fun _ => hne' hne) hr
      exact (h.selectors s₃ hm fun _ => not_endsInName (hr.kind ▸ nofun)).mono fun y ls s' hy => by
        simpa using hy
  · rename_i hdot hlb
    refine reads_pure ?_
    rw [List.append_nil]
    refine ⟨hx, fun hcon => ?_⟩
    cases hcon with
    | member h => exact hdot h.kind
    | index h => exact hlb h.kind
    | call h hn => exact hc h hn
    | @operator op _ h => have := binaryOp_level op; omega
    | assign _ h => omega

theorem Conforms.primary_succ (h : Conforms n) (s : TokenStream) :
    (Parser.primary (n + 1)).Reads s fun x ls s' =>
      IsPrimary .accepted ls x ∧ (s'.current.Is .lparen → ¬ EndsInName ls) := by
  -- the closing mark of the arguments
  have closing (s : TokenStream) {m : Punct} (hm : s.current.Is m) (ls : List Lexeme) :
      ¬ EndsInName (ls ++ [s.current]) :=
    not_endsInName (hm.kind ▸ nofun)
  rw [Parser.primary]
  refine reads_get ?_
  split
  · rename_i v hv
    have hk := startsOperand_literal hv
    refine reads_advance (fun he => by rw [he] at hk; cases hk) fun s₁ =>
      reads_pure ⟨.literal hv, fun _ => @not_endsInName [] _ fun he => ?_⟩
    rw [Token.kind_eq_ident] at he
    obtain ⟨m, he⟩ := he
    simp [he, literal?] at hv
  split
  · rename_i hk
    refine reads_advance (by rw [hk]; nofun) fun s₁ =>
      reads_pure ⟨.null hk, fun _ => @not_endsInName [] _ (by rw [hk]; nofun)⟩
  · refine reads_ident fun m hm s₁ => reads_sees (fun hp => ?_) fun hp => ?_
    · refine reads_advance (hp.kind ▸ nofun) fun s₂ =>
        (h.args s₂ .rparen).bind fun xs as s₃ ⟨hr, has, _⟩ => ?_
      refine reads_advance (hr.kind ▸ nofun) fun s₄ => reads_pure ?_
      exact ⟨.call hm hp has hr, fun _ => closing s₃ hr (s.current :: s₁.current :: as)⟩
    · exact reads_pure ⟨.name hm, fun hp' => absurd hp' hp⟩
  · rename_i hk
    refine reads_advance (by rw [hk]; nofun) fun s₁ => reads_ident fun m hm s₂ => ?_
    refine (reads_typePath n s₂ (.name hm)).bind fun t ts s₃ ht => reads_mark fun hp s₄ => ?_
    refine (h.args s₄ .rparen).bind fun xs as s₅ ⟨hr, has, _⟩ => ?_
    refine reads_advance (hr.kind ▸ nofun) fun s₆ => reads_pure ?_
    have hx := IsPrimary.new hk ht hp has hr
    simp only [List.append_assoc, List.cons_append, List.nil_append] at hx ⊢
    exact ⟨hx, fun _ => by simpa using closing s₅ hr (s.current :: s₁.current :: ts ++ s₃.current :: as)⟩
  · rename_i hk
    refine .discard (reads_advance (by rw [hk]; nofun) fun s₁ => ?_)
    refine (h.expr s₁).bind fun x ls s₂ ⟨hx, _⟩ => .discard (reads_mark fun hr s₃ => reads_pure ?_)
    exact ⟨.paren hk hx hr, fun _ => closing s₂ hr (s.current :: ls)⟩
  · rename_i hk
    refine reads_advance (by rw [hk]; nofun) fun s₁ =>
      (h.args s₁ .rbrack).bind fun xs as s₂ ⟨hr, has, _⟩ => ?_
    refine reads_advance (hr.kind ▸ nofun) fun s₃ => reads_pure ?_
    exact ⟨.list hk has hr, fun _ => closing s₂ hr (s.current :: as)⟩
  · rename_i hk
    refine (h.template s hk).bind fun b ls s₁ hb => reads_pure ?_
    rw [List.append_nil]
    refine ⟨.template hb, fun _ => ?_⟩
    cases hb with
    | @mk o ls c _ _ _ hc => exact @not_endsInName (o :: ls) _ (hc.kind ▸ nofun)
  · exact reads_refuse _

theorem Conforms.args_succ (h : Conforms n) (s : TokenStream) (m : Punct) :
    (Parser.args (n + 1) m []).Reads s fun xs ls s' =>
      s'.current.Is m ∧ IsArgs .accepted ls xs ∧ (¬ s.current.Is m → xs ≠ []) := by
  rw [Parser.args]
  refine reads_sees (fun hm => reads_pure ⟨hm, .none, fun h => absurd hm h⟩) fun _ => ?_
  refine (h.expr s).bind fun x ls s₁ ⟨hx, _⟩ => (h.moreArgs s₁ m (List.cons_ne_nil x [])).mono
    fun xs ms s' ⟨hm, hxs⟩ => ?_
  obtain ⟨rfl, rfl⟩ | ⟨c, ms, ys, rfl, hc, hys, rfl⟩ := hxs
  · rw [List.append_nil]
    exact ⟨hm, .some (.one hx), fun _ => List.cons_ne_nil _ _⟩
  · exact ⟨hm, .some (.more hx hc hys), fun _ => List.cons_ne_nil _ _⟩

theorem Conforms.moreArgs_succ (h : Conforms n) (s : TokenStream) (m : Punct) {seen : List Expr}
    (hs : seen ≠ []) : (Parser.args (n + 1) m seen).Reads s fun xs ls s' =>
      s'.current.Is m ∧ (ls = [] ∧ xs = seen.reverse ∨ ∃ c ms ys, ls = c :: ms ∧ c.Is .comma ∧
        IsExprs .accepted ms ys ∧ xs = seen.reverse ++ ys) := by
  rw [Parser.args]
  refine reads_sees (fun hm => reads_pure ⟨hm, .inl ⟨rfl, rfl⟩⟩) fun _ => ?_
  have he : (!seen.isEmpty) = true := by simpa using hs
  simp only [he, if_true]
  refine .discard (reads_mark fun hc s₁ => (h.expr s₁).bind fun x ls s₂ ⟨hx, _⟩ =>
    (h.moreArgs s₂ m (List.cons_ne_nil x seen)).mono fun xs ms s' ⟨hm, hxs⟩ => ⟨hm, .inr ?_⟩)
  obtain ⟨rfl, rfl⟩ | ⟨c, ms, ys, rfl, hc', hys, rfl⟩ := hxs
  · exact ⟨_, ls, [x], by simp, hc, .one hx, by simp⟩
  · exact ⟨_, ls ++ c :: ms, x :: ys, rfl, hc, .more hx hc' hys, by simp⟩

theorem Conforms.exprList_succ (h : Conforms n) (s : TokenStream) (seen : List Expr) :
    (Parser.exprList (n + 1) seen).Reads s fun xs ls _ =>
      ∃ ys, IsExprs .accepted ls ys ∧ xs = seen.reverse ++ ys := by
  rw [Parser.exprList]
  refine (h.expr s).bind fun x ls s₁ ⟨hx, _⟩ => reads_sees (fun hc => ?_) fun _ => reads_pure ?_
  · refine .discard (reads_advance (hc.kind ▸ nofun) fun s₂ => (h.exprList s₂ _).mono ?_)
    rintro xs ms s' ⟨ys, hys, rfl⟩
    exact ⟨x :: ys, .more hx hc hys, by simp⟩
  · exact ⟨[x], by simpa using IsExprs.one hx, by simp⟩

end Parser

end Stencil
