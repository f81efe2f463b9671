import Stencil.Proofs.Syntax.Recognition.Steps

/-!
# Every phrase is read

The lexemes of a phrase of the grammar, followed by a lexeme that does not go on with it, are
read as the tree of the phrase. The proof is by recursion on the phrase. The bound on the depth
of recursion has to be sixteen for each lexeme, and a little more for the readers that are
called before a lexeme is taken.

The operands of binary operators and the selectors after an operand stand on the left of what
follows them. What is read after them is therefore a hypothesis, `next`.
-/

namespace Stencil

namespace Parser

open TokenStream

theorem exists_succ {k n : Nat} (h : k + 1 ≤ n) : ∃ m, n = m + 1 :=
  ⟨n - 1, by omega⟩

theorem starts_current {P : TokenKind → Bool} {ls : List Lexeme} {s : TokenStream}
    (h : Starts P ls) : P (ls ++ s).current.token.kind = true := by
  obtain ⟨l, ls, rfl, hl⟩ := h
  exact hl

/-! ### The lexeme after a phrase -/

/-- The lexeme starts no further part of a statement. -/
def EndsStmt (l : Lexeme) : Prop := ¬ l.IsWord .elseWord ∧ ¬ l.IsWord .betweenWord

theorem endsStmt_of_kind {l : Lexeme} {k : TokenKind} (hl : l.token.kind = k)
    (hk : k ≠ .keyword .elseWord ∧ k ≠ .keyword .betweenWord) : EndsStmt l :=
  ⟨fun h => hk.1 (hl.symm.trans h.kind), fun h => hk.2 (hl.symm.trans h.kind)⟩

/-- What comes after a statement of a list is a statement or the end of the list. -/
theorem endsStmt_append {ls : List Lexeme} {s : TokenStream}
    (h : ls = [] ∨ Starts TokenKind.startsStmt ls) (hs : EndsStmt s.current) :
    EndsStmt (ls ++ s).current := by
  obtain rfl | ⟨l, ls, rfl, hl⟩ := h
  · exact hs
  · exact endsStmt_of_kind rfl ⟨ne_of_starts hl rfl, ne_of_starts hl rfl⟩

theorem endsArm_append {r : Lexeme} {ls : List Lexeme} {cases : List SwitchCase}
    {dflt : Option Block} {s : TokenStream} (h : IsArms .accepted r ls cases dflt)
    (hs : s.current.Is .rbrace) : EndsArm (ls ++ s).current := by
  cases h with
  | nil => exact .inr (.inr hs)
  | dflt h => exact .inr (.inl h)
  | case h => exact .inl h

theorem endsStmt_of_endsArm {l : Lexeme} (h : EndsArm l) : EndsStmt l := by
  obtain h | h | h := h
  · exact endsStmt_of_kind h.kind ⟨nofun, nofun⟩
  · exact endsStmt_of_kind h.kind ⟨nofun, nofun⟩
  · exact endsStmt_of_kind h.kind ⟨nofun, nofun⟩

/-- The end of a statement, be it a semicolon or the end of an island, ends an expression. -/
theorem end_kind {last : Bool} {es : List Lexeme} {s : TokenStream} (he : IsEnd last es)
    (hd : last = true → s.current.Is .dollar) :
    (es ++ s).current.token.kind = .punct .semi ∨ (es ++ s).current.token.kind = .punct .dollar := by
  cases he with
  | semi hm => exact .inl hm.kind
  | missing hm => exact .inr (hd hm).kind

theorem end_continuesExpr {last : Bool} {es : List Lexeme} {s : TokenStream} (he : IsEnd last es)
    (hd : last = true → s.current.Is .dollar) :
    (es ++ s).current.token.kind.continuesExpr = false := by
  obtain h | h := end_kind he hd
  · rw [h]; rfl
  · rw [h]; rfl

theorem end_not_comma {last : Bool} {es : List Lexeme} {s : TokenStream} (he : IsEnd last es)
    (hd : last = true → s.current.Is .dollar) : ¬ (es ++ s).current.Is .comma := by
  intro h
  obtain h' | h' := end_kind he hd
  · cases h'.symm.trans h.kind
  · cases h'.symm.trans h.kind

theorem template_current {ls : List Lexeme} {b : Block} {s : TokenStream}
    (h : IsTemplate .accepted ls b) : (ls ++ s).current.Is .openTemplate := by
  cases h with
  | mk ho _ _ => exact ho

theorem block_current {ls : List Lexeme} {b : Block} {s : TokenStream} (h : IsBlock .accepted ls b) :
    (ls ++ s).current.Is .lbrace ∨ (ls ++ s).current.Is .openTemplate := by
  cases h with
  | braces hl _ _ => exact .inl hl
  | template h => exact .inr (template_current h)

theorem block_not_if {ls : List Lexeme} {b : Block} {s : TokenStream} (h : IsBlock .accepted ls b) :
    ¬ (ls ++ s).current.IsWord .ifWord := by
  intro hi
  obtain h | h := block_current h
  · cases h.symm.trans hi
  · cases h.symm.trans hi

theorem filter_continuesExpr {fs : List Lexeme} {filter : Option WhereClause} {rp : Lexeme}
    {s : TokenStream} (h : IsFilter .accepted fs filter) (hr : rp.Is .rparen) :
    (fs ++ s.push rp).current.token.kind.continuesExpr = false := by
  cases h with
  | none => rw [nil_append, current_push, hr.kind]; rfl
  | some hl _ => rw [cons_append, current_push, hl.kind]; rfl

theorem not_is_of_kind {l : Lexeme} {k : TokenKind} {m : Punct} (hl : l.token.kind = k)
    (hk : k ≠ .punct m) : ¬ l.Is m :=
  fun h => hk (hl.symm.trans h.kind)

theorem typeName_yields : ∀ {ts : List Lexeme} {t : Expr}, IsTypeName ts t →
    ∀ {u : Expr} {s s' : TokenStream} {b n : Nat},
      (∀ m, b ≤ m → (typePath m t).Yields s u s') → b + ts.length ≤ n →
        ∃ l name s₀, ts ++ s = s₀.push l ∧ l.Names name ∧
          (typePath n (.name l.pos name)).Yields s₀ u s'
  | _, _, .name hl, _, _, _, _, _, next, hn =>
    ⟨_, _, _, rfl, hl, next _ (Nat.le_of_add_right_le hn)⟩
  | _, _, .member ht hd hl, u, s, s', b, n, next, hn => by
    simp only [List.length_append, List.length_cons, List.length_nil] at hn
    rw [append_append]
    refine typeName_yields ht (b := b + 1) (n := n) (fun m hm => ?_) (by omega)
    obtain ⟨m, rfl⟩ := exists_succ hm
    rw [typePath]
    exact .sees hd (.advance (.ident hl (next m (by omega))))

theorem noTypePath {t : Expr} {lp : Lexeme} {s : TokenStream} (hl : lp.Is .lparen) (m : Nat)
    (hm : 1 ≤ m) : (typePath m t).Yields (s.push lp) t (s.push lp) := by
  obtain ⟨m, rfl⟩ := exists_succ hm
  rw [typePath]
  exact .unseen (fun h => by cases hl.symm.trans h) yields_pure

mutual

theorem expr_yields : ∀ {ls : List Lexeme} {x : Expr}, IsExpr .accepted ls x →
    ∀ {s : TokenStream} {n : Nat}, ¬ Continues 0 ls s.current → 16 * ls.length + 7 ≤ n →
      (expr n).Yields (ls ++ s) x s
  | _, _, .level h, s, n => fun hc hn => by
    obtain ⟨n, rfl⟩ := exists_succ hn
    refine yields_expr (level_yields h (b := 1) (Nat.le_refl 1) (fun h => hc (h.mono (by omega)))
      (fun m hm => ?_) (by omega)) fun he => hc (.assign he rfl)
    obtain ⟨m, rfl⟩ := exists_succ hm
    exact yields_noOperator fun op ho => absurd (.operator ho (Nat.zero_le _)) hc
  | _, _, .assign hx hl hy, s, n => fun hc hn => by
    obtain ⟨n, rfl⟩ := exists_succ hn
    simp only [List.length_append, List.length_cons] at hn
    rw [continues_append (List.cons_ne_nil _ _), ← List.singleton_append,
      continues_append hy.starts.ne_nil] at hc
    rw [append_append, cons_append]
    refine yields_assign (level_yields hx (b := 1) (Nat.le_refl 1) (not_continues_assign hl)
      (fun m hm => ?_) (by omega)) hl (expr_yields hy hc (by omega))
    obtain ⟨m, rfl⟩ := exists_succ hm
    exact yields_noOperator fun op ho => absurd hl (ho.not_is rfl)

theorem level_yields : ∀ {k : Nat} {ls : List Lexeme} {x : Expr}, IsLevel .accepted k ls x →
    ∀ {level : Nat} {y : Expr} {s s' : TokenStream} {b n : Nat}, level ≤ k →
      ¬ Continues (k + 1) ls s.current → (∀ m, b ≤ m → (binaryRest m level x).Yields s y s') →
      b + 16 * ls.length + 5 ≤ n → (binary n level).Yields (ls ++ s) y s'
  | _, _, _, .unary h, level, y, s, s', b, n => fun hk hc next hn => by
    obtain ⟨n, rfl⟩ := exists_succ hn
    exact yields_binary (unary_yields h (fun h => hc h.level_ten) (by omega)) (next n (by omega))
  | _, _, _, .up h, level, y, s, s', b, n => fun hk hc next hn =>
    level_yields h (by omega) (fun h => hc (h.mono (by omega))) next hn
  | _, _, _, @IsLevel.binary _ op _ _ ms _ _ hx hl hy, level, y, s, s', b, n =>
    fun hk hc next hn => by
    simp only [List.length_append, List.length_cons] at hn
    rw [continues_append (List.cons_ne_nil _ _), ← List.singleton_append,
      continues_append hy.starts.ne_nil] at hc
    rw [append_append, cons_append]
    refine level_yields hx (b := b + 16 * ms.length + 7) hk hl.not_continues (fun m hm => ?_)
      (by omega)
    obtain ⟨m, rfl⟩ := exists_succ hm
    refine yields_operator hl hk (level_yields hy (b := 1) (Nat.le_refl _)
      (fun h => hc (h.mono (by omega))) (fun i hi => ?_) (by omega)) (next m (by omega))
    obtain ⟨i, rfl⟩ := exists_succ hi
    exact yields_noOperator fun op' ho => Nat.lt_of_not_le fun h => hc (.operator ho h)

theorem unary_yields : ∀ {ls : List Lexeme} {x : Expr}, IsUnary .accepted ls x →
    ∀ {s : TokenStream} {n : Nat}, ¬ Continues 10 ls s.current → 16 * ls.length + 4 ≤ n →
      (unary n).Yields (ls ++ s) x s
  | _, _, .not hl hx, s, n => fun hc hn => by
    obtain ⟨n, rfl⟩ := exists_succ hn
    rw [← List.singleton_append, continues_append hx.starts.ne_nil] at hc
    rw [List.length_cons] at hn
    exact yields_not hl (unary_yields hx hc (by omega))
  | _, _, .negate hl hx, s, n => fun hc hn => by
    obtain ⟨n, rfl⟩ := exists_succ hn
    rw [← List.singleton_append, continues_append hx.starts.ne_nil] at hc
    rw [List.length_cons] at hn
    exact yields_negate hl (unary_yields hx hc (by omega))
  | _, _, .operand hx, s, n => fun hc hn => by
    obtain ⟨n, rfl⟩ := exists_succ hn
    refine yields_operand (starts_current hx.starts) (postfix_yields hx (b := 1) (fun hp hn => hc (.call hp hn))
      (fun m hm => ?_) (by omega))
    obtain ⟨m, rfl⟩ := exists_succ hm
    exact yields_noSelector (fun h => hc (.member h)) fun h => hc (.index h)

theorem postfix_yields : ∀ {ls : List Lexeme} {x : Expr}, IsPostfix .accepted ls x →
    ∀ {y : Expr} {s s' : TokenStream} {b n : Nat}, (s.current.Is .lparen → ¬ EndsInName ls) →
      (∀ m, b ≤ m → (selectors m x).Yields s y s') → b + 16 * ls.length + 2 ≤ n →
      (primary n >>= selectors n).Yields (ls ++ s) y s'
  | _, _, .primary hx, y, s, s', b, n => fun hp next hn =>
    (primary_yields hx hp (by omega)).bind (next n (by omega))
  | _, _, .member hx hd hl, y, s, s', b, n => fun hp next hn => by
    simp only [List.length_append, List.length_cons, List.length_nil] at hn
    rw [append_append]
    refine postfix_yields hx (b := b + 1) (fun h => ?_) (fun m hm => ?_) (by omega)
    · cases hd.symm.trans h
    · obtain ⟨m, rfl⟩ := exists_succ hm
      exact yields_member hd hl (fun h => hp h ⟨_, _, by simp, hl⟩) (next m (by omega))
  | _, _, @IsPostfix.method _ _ _ _ _ as _ _ _ _ hx hd hl hlp has hr, y, s, s', b, n =>
    fun hp next hn => by
    simp only [List.length_append, List.length_cons, List.length_nil] at hn
    simp only [append_append, List.append_assoc, List.cons_append, cons_append, nil_append]
    refine postfix_yields hx (b := b + 16 * as.length + 10) (fun h => ?_) (fun m hm => ?_) (by omega)
    · cases hd.symm.trans h
    · obtain ⟨m, rfl⟩ := exists_succ hm
      exact yields_method hd hl hlp (args_yields has (.inl rfl) hr (by omega)) (next m (by omega))
  | _, _, @IsPostfix.index _ _ _ as _ _ _ hx hl has hne hr, y, s, s', b, n => fun hp next hn => by
    simp only [List.length_append, List.length_cons, List.length_nil] at hn
    simp only [append_append, List.append_assoc, List.cons_append, cons_append, nil_append]
    refine postfix_yields hx (b := b + 16 * as.length + 10) (fun h => ?_) (fun m hm => ?_) (by omega)
    · cases hl.symm.trans h
    · obtain ⟨m, rfl⟩ := exists_succ hm
      have hs := has.starts (hne rfl)
      exact yields_index hl (not_is_of_kind rfl (ne_of_starts (starts_current hs) rfl))
        (args_yields has (.inr rfl) hr (by omega)) (next m (by omega))

theorem primary_yields : ∀ {ls : List Lexeme} {x : Expr}, IsPrimary .accepted ls x →
    ∀ {s : TokenStream} {n : Nat}, (s.current.Is .lparen → ¬ EndsInName ls) →
      16 * ls.length + 2 ≤ n → (primary n).Yields (ls ++ s) x s
  | _, _, .literal hv, s, n => fun hp hn => by
    obtain ⟨n, rfl⟩ := exists_succ hn
    exact yields_literal hv
  | _, _, .null hl, s, n => fun hp hn => by
    obtain ⟨n, rfl⟩ := exists_succ hn
    exact yields_null hl
  | _, _, .name hl, s, n => fun hp hn => by
    obtain ⟨n, rfl⟩ := exists_succ hn
    exact yields_name hl fun h => hp h ⟨_, _, rfl, hl⟩
  | _, _, .call hl hlp has hr, s, n => fun hp hn => by
    obtain ⟨n, rfl⟩ := exists_succ hn
    simp only [List.length_append, List.length_cons, List.length_nil] at hn
    simp only [append_append, cons_append, nil_append]
    exact yields_call hl hlp (args_yields has (.inl rfl) hr (by omega))
  | _, _, .new hl ht hlp has hr, s, n => fun hp hn => by
    obtain ⟨n, rfl⟩ := exists_succ hn
    simp only [List.length_append, List.length_cons, List.length_nil] at hn
    simp only [append_append, List.append_assoc, List.cons_append, cons_append, nil_append]
    obtain ⟨name, _, s₀, hs, hname, hty⟩ := typeName_yields ht (b := 1) (n := n)
      (noTypePath hlp) (by omega)
    rw [hs]
    exact yields_new hl hname hty hlp (args_yields has (.inl rfl) hr (by omega))
  | _, _, .paren hl hx hr, s, n => fun hp hn => by
    obtain ⟨n, rfl⟩ := exists_succ hn
    simp only [List.length_append, List.length_cons, List.length_nil] at hn
    simp only [append_append, cons_append, nil_append]
    exact yields_paren hl (expr_yields hx (not_continues (by rw [current_push, hr.kind]; rfl))
      (by omega)) hr
  | _, _, .list hl has hr, s, n => fun hp hn => by
    obtain ⟨n, rfl⟩ := exists_succ hn
    simp only [List.length_append, List.length_cons, List.length_nil] at hn
    simp only [append_append, cons_append, nil_append]
    exact yields_list hl (args_yields has (.inr rfl) hr (by omega))
  | _, _, .template hb, s, n => fun hp hn => by
    obtain ⟨n, rfl⟩ := exists_succ hn
    exact yields_templateExpr (template_current hb) (template_yields hb (by omega))

theorem args_yields : ∀ {ls : List Lexeme} {xs : List Expr}, IsArgs .accepted ls xs →
    ∀ {c : Punct} {s : TokenStream} {n : Nat}, c = .rparen ∨ c = .rbrack → s.current.Is c →
      16 * ls.length + 9 ≤ n → (args n c []).Yields (ls ++ s) xs s
  | _, _, .none, c, s, n => fun hc hs hn => by
    obtain ⟨n, rfl⟩ := exists_succ hn
    exact yields_noArgs hs
  | _, _, .some h, c, s, n => fun hc hs hn => by
    obtain ⟨n, rfl⟩ := exists_succ hn
    obtain ⟨x, s₁, hx, hxs⟩ := exprsArgs_yields h [] hc hs (Nat.le_of_succ_le_succ hn)
    refine yields_firstArg (not_is_of_kind rfl (ne_of_starts (starts_current h.starts) ?_)) hx hxs
    obtain rfl | rfl := hc <;> rfl

theorem exprsArgs_yields : ∀ {ls : List Lexeme} {xs : List Expr}, IsExprs .accepted ls xs →
    ∀ {c : Punct} {s : TokenStream} {n : Nat} (seen : List Expr), c = .rparen ∨ c = .rbrack →
      s.current.Is c → 16 * ls.length + 8 ≤ n → ∃ x s₁, (expr n).Yields (ls ++ s) x s₁ ∧
        (args n c (x :: seen)).Yields s₁ (seen.reverse ++ xs) s
  | _, _, .one hx, c, s, n => fun seen hc hs hn => by
    have hk : s.current.token.kind.continuesExpr = false := by
      rw [hs.kind]
      obtain rfl | rfl := hc <;> rfl
    refine ⟨_, s, expr_yields hx (not_continues hk) (by omega), ?_⟩
    obtain ⟨n, rfl⟩ := exists_succ hn
    rw [← List.reverse_cons]
    exact yields_noArgs hs
  | _, _, .more hx hl hxs, c, s, n => fun seen hc hs hn => by
    simp only [List.length_append, List.length_cons] at hn
    rw [append_append, cons_append]
    refine ⟨_, _, expr_yields hx (not_continues (by rw [current_push, hl.kind]; rfl)) (by omega), ?_⟩
    obtain ⟨n, rfl⟩ := exists_succ hn
    obtain ⟨y, s₁, hy, hys⟩ := exprsArgs_yields hxs (n := n) (_ :: seen) hc hs (by omega)
    rw [List.reverse_cons, List.append_assoc] at hys
    exact yields_nextArg hl (by obtain rfl | rfl := hc <;> nofun) (List.cons_ne_nil _ _) hy hys

theorem exprs_yields : ∀ {ls : List Lexeme} {xs : List Expr}, IsExprs .accepted ls xs →
    ∀ {s : TokenStream} {n : Nat} (seen : List Expr),
      s.current.token.kind.continuesExpr = false → ¬ s.current.Is .comma →
      16 * ls.length + 8 ≤ n → (exprList n seen).Yields (ls ++ s) (seen.reverse ++ xs) s
  | _, _, .one hx, s, n => fun seen hk hc hn => by
    obtain ⟨n, rfl⟩ := exists_succ hn
    exact yields_oneExpr (expr_yields hx (not_continues hk) (by omega)) hc
  | _, _, .more (x := x) hx hl hxs, s, n => fun seen hk hc hn => by
    obtain ⟨n, rfl⟩ := exists_succ hn
    simp only [List.length_append, List.length_cons] at hn
    rw [append_append, cons_append]
    have hys := exprs_yields hxs (n := n) (x :: seen) hk hc (by omega)
    rw [List.reverse_cons, List.append_assoc] at hys
    exact yields_moreExprs (expr_yields hx (not_continues (by rw [current_push, hl.kind]; rfl))
      (by omega)) hl hys

theorem template_yields : ∀ {ls : List Lexeme} {b : Block}, IsTemplate .accepted ls b →
    ∀ {s : TokenStream} {n : Nat}, 16 * ls.length + 1 ≤ n → (template n).Yields (ls ++ s) b s
  | _, _, .mk ho hb hc, s, n => fun hn => by
    obtain ⟨n, rfl⟩ := exists_succ hn
    simp only [List.length_append, List.length_cons, List.length_nil] at hn
    simp only [append_append, cons_append, nil_append]
    exact yields_template (templateBody_yields hb [] hc (by omega))

theorem templateBody_yields : ∀ {ls : List Lexeme} {sts : List Stmt},
    IsTemplateBody .accepted ls sts → ∀ {s : TokenStream} {n : Nat} (seen : List Stmt),
      s.current.Is .closeTemplate → 16 * ls.length + 1 ≤ n →
        (templateBody n seen).Yields (ls ++ s) (seen.reverse ++ sts) s
  | _, _, .nil, s, n => fun seen hc hn => by
    obtain ⟨n, rfl⟩ := exists_succ hn
    rw [List.append_nil]
    exact yields_templateEnd hc
  | _, _, .text hl h, s, n => fun seen hc hn => by
    obtain ⟨n, rfl⟩ := exists_succ hn
    rw [List.length_cons] at hn
    rw [cons_append]
    refine yields_text hl ?_
    simpa using templateBody_yields h (n := n) (_ :: seen) hc (by omega)
  | _, _, @IsTemplateBody.island _ _ _ _ _ items _ ho hi _ hd h, s, n => fun seen hc hn => by
    obtain ⟨n, rfl⟩ := exists_succ hn
    simp only [List.length_append, List.length_cons] at hn
    simp only [append_append, cons_append]
    refine yields_island ho (island_yields hi [] hd (by omega)) ?_
    simpa using templateBody_yields h (n := n) (items.reverse ++ seen) hc (by omega)

theorem island_yields : ∀ {ls : List Lexeme} {sts : List Stmt}, IsIsland .accepted ls sts →
    ∀ {s : TokenStream} {n : Nat} (seen : List Stmt), s.current.Is .dollar →
      16 * ls.length + 10 ≤ n → (island n seen).Yields (ls ++ s) (seen.reverse ++ sts) s
  | _, _, .nil, s, n => fun seen hd hn => by
    obtain ⟨n, rfl⟩ := exists_succ hn
    rw [List.append_nil]
    exact yields_noItem hd
  | _, _, @IsIsland.output _ ls ms x _ hx hc h, s, n => fun seen hd hn => by
    obtain ⟨n, rfl⟩ := exists_succ hn
    obtain ⟨i, rfl⟩ : ∃ i, n = i + 1 := exists_succ (k := 0) (by omega)
    have hpos := List.length_pos_iff.2 hx.starts.ne_nil
    rw [List.length_append] at hn
    rw [append_append]
    have hstart := starts_current (s := ms ++ s) hx.starts
    have hnext : ¬ Continues 0 ls (ms ++ s).current ∧ ¬ (ms ++ s).current.Is .semi := by
      cases ms with
      | nil => exact ⟨not_continues (by rw [nil_append, hd.kind]; rfl), not_is_of_kind hd.kind nofun⟩
      | cons l ms => exact hc l rfl
    have hrest := island_yields h (n := i + 1) (.output x.start [x] :: seen) hd (by omega)
    rw [List.reverse_cons, List.append_assoc] at hrest
    exact yields_item (not_is_of_kind rfl (ne_of_starts hstart rfl))
      (yields_itemOutput hstart (expr_yields hx hnext.1 (by omega)) hnext.2) hrest
  | _, _, .expr (x := x) hx hl h, s, n => fun seen hd hn => by
    obtain ⟨n, rfl⟩ := exists_succ hn
    obtain ⟨i, rfl⟩ : ∃ i, n = i + 1 := exists_succ (k := 0) (by omega)
    simp only [List.length_append, List.length_cons] at hn
    rw [append_append, cons_append]
    have hstart {s : TokenStream} := starts_current (s := s) hx.starts
    have hrest := island_yields h (n := i + 1) (.expr x :: seen) hd (by omega)
    rw [List.reverse_cons, List.append_assoc] at hrest
    exact yields_item (not_is_of_kind rfl (ne_of_starts hstart rfl)) (yields_itemExpr hstart
      (expr_yields hx (not_continues (by rw [current_push, hl.kind]; rfl)) (by omega)) hl) hrest
  | _, _, @IsIsland.stmt _ _ ls ms st _ hl hst h, s, n => fun seen hd hn => by
    obtain ⟨n, rfl⟩ := exists_succ hn
    obtain ⟨i, rfl⟩ : ∃ i, n = i + 1 := exists_succ (k := 0) (by omega)
    rw [List.length_append, List.length_cons] at hn
    rw [append_append]
    have hstart := starts_current (s := ms ++ s) hst.starts
    have hend := endsStmt_append h.starts (endsStmt_of_kind hd.kind ⟨nofun, nofun⟩)
    have hrest := island_yields h (n := i + 1) (st :: seen) hd (by omega)
    rw [List.reverse_cons, List.append_assoc] at hrest
    exact yields_item (not_is_of_kind rfl (ne_of_starts hstart rfl)) (yields_itemStmt hl
      (stmt_yields hst nofun hend (by rw [List.length_cons]; omega))) hrest
  | _, _, @IsIsland.last _ _ ls st _ hl hst, s, n => fun seen hd hn => by
    obtain ⟨n, rfl⟩ := exists_succ hn
    obtain ⟨i, rfl⟩ : ∃ i, n = i + 1 := exists_succ (k := 0) (by omega)
    have hstart := starts_current (s := s) hst.starts
    have hrest : (island (i + 1) (st :: seen)).Yields s (seen.reverse ++ [st]) s := by
      rw [← List.reverse_cons]
      exact yields_noItem hd
    exact yields_item (not_is_of_kind rfl (ne_of_starts hstart rfl)) (yields_itemStmt hl
      (stmt_yields hst (fun _ => hd) (endsStmt_of_kind hd.kind ⟨nofun, nofun⟩) (by omega))) hrest

theorem block_yields : ∀ {ls : List Lexeme} {b : Block}, IsBlock .accepted ls b →
    ∀ {s : TokenStream} {n : Nat}, 16 * ls.length + 2 ≤ n → (block n).Yields (ls ++ s) b s
  | _, _, .braces hl h hr, s, n => fun hn => by
    obtain ⟨n, rfl⟩ := exists_succ hn
    simp only [List.length_append, List.length_cons, List.length_nil] at hn
    simp only [append_append, cons_append, nil_append]
    exact yields_braces hl (stmts_yields h [] hr (by omega))
  | _, _, .template h, s, n => fun hn => by
    obtain ⟨n, rfl⟩ := exists_succ hn
    exact yields_templateBlock (template_current h) (template_yields h (by omega))

theorem stmts_yields : ∀ {ls : List Lexeme} {sts : List Stmt}, IsStmts .accepted ls sts →
    ∀ {s : TokenStream} {n : Nat} (seen : List Stmt), s.current.Is .rbrace →
      16 * ls.length + 9 ≤ n → (stmts n seen).Yields (ls ++ s) (seen.reverse ++ sts) s
  | _, _, .nil, s, n => fun seen hr hn => by
    obtain ⟨n, rfl⟩ := exists_succ hn
    rw [List.append_nil]
    exact yields_noStmt hr
  | _, _, @IsStmts.cons _ _ _ st _ hst h, s, n => fun seen hr hn => by
    obtain ⟨n, rfl⟩ := exists_succ hn
    have hpos := List.length_pos_iff.2 hst.starts.ne_nil
    rw [List.length_append] at hn
    rw [append_append]
    have hend := endsStmt_append h.starts (endsStmt_of_kind hr.kind ⟨nofun, nofun⟩)
    have hrest := stmts_yields h (n := n) (st :: seen) hr (by omega)
    rw [List.reverse_cons, List.append_assoc] at hrest
    exact yields_stmts (starts_current hst.starts) (stmt_yields hst nofun hend (by omega)) hrest

theorem caseStmts_yields : ∀ {ls : List Lexeme} {sts : List Stmt}, IsStmts .accepted ls sts →
    ∀ {s : TokenStream} {n : Nat} (seen : List Stmt), EndsArm s.current →
      16 * ls.length + 9 ≤ n → (caseStmts n seen).Yields (ls ++ s) (seen.reverse ++ sts) s
  | _, _, .nil, s, n => fun seen hr hn => by
    obtain ⟨n, rfl⟩ := exists_succ hn
    rw [List.append_nil]
    exact yields_noCaseStmt hr
  | _, _, @IsStmts.cons _ _ _ st _ hst h, s, n => fun seen hr hn => by
    obtain ⟨n, rfl⟩ := exists_succ hn
    have hpos := List.length_pos_iff.2 hst.starts.ne_nil
    rw [List.length_append] at hn
    rw [append_append]
    have hend := endsStmt_append h.starts (endsStmt_of_endsArm hr)
    have hrest := caseStmts_yields h (n := n) (st :: seen) hr (by omega)
    rw [List.reverse_cons, List.append_assoc] at hrest
    exact yields_caseStmts (starts_current hst.starts) (stmt_yields hst nofun hend (by omega)) hrest

theorem stmt_yields : ∀ {last : Bool} {ls : List Lexeme} {st : Stmt}, IsStmt .accepted last ls st →
    ∀ {s : TokenStream} {n : Nat}, (last = true → s.current.Is .dollar) → EndsStmt s.current →
      16 * ls.length + 8 ≤ n → (stmt n).Yields (ls ++ s) st s
  | _, _, _, .define hl h he, s, n => fun hd hend hn => by
    obtain ⟨n, rfl⟩ := exists_succ hn
    simp only [List.length_append, List.length_cons] at hn
    simp only [append_append, cons_append]
    exact yields_define hl (varDefs_yields h [] he hd (by omega))
  | _, _, _, @IsStmt.output _ _ _ _ es _ hl h he, s, n => fun hd hend hn => by
    obtain ⟨n, rfl⟩ := exists_succ hn
    simp only [List.length_append, List.length_cons] at hn
    simp only [append_append, cons_append]
    have hc : ¬ (es ++ s).current.Is .comma := end_not_comma he hd
    exact yields_output hl (exprs_yields h [] (end_continuesExpr he hd) hc (by omega)) he hd
  | _, _, _, .ret hl he, s, n => fun hd hend hn => by
    obtain ⟨n, rfl⟩ := exists_succ hn
    exact yields_return hl he hd
  | _, _, _, .retValue hl hx he, s, n => fun hd hend hn => by
    obtain ⟨n, rfl⟩ := exists_succ hn
    simp only [List.length_append, List.length_cons] at hn
    simp only [append_append, cons_append]
    exact yields_returnValue hl (starts_current hx.starts)
      (expr_yields hx (not_continues (end_continuesExpr he hd)) (by omega)) he hd
  | _, _, _, .cond h, s, n => fun hd hend hn => by
    obtain ⟨n, rfl⟩ := exists_succ hn
    obtain ⟨l, s₀, hs, hl, hy⟩ := conditional_yields h hend.1 (n := n) (by omega)
    rw [hs]
    exact yields_cond hl hy
  | _, _, _, .loop hl hlp hx hr hb, s, n => fun hd hend hn => by
    obtain ⟨n, rfl⟩ := exists_succ hn
    obtain ⟨i, rfl⟩ : ∃ i, n = i + 1 := exists_succ (k := 0) (by omega)
    simp only [List.length_append, List.length_cons] at hn
    simp only [append_append, cons_append]
    exact yields_while hl (yields_parenExpr hlp (expr_yields hx
      (not_continues (by rw [current_push, hr.kind]; rfl)) (by omega)) hr)
      (block_yields hb (by omega))
  | _, _, _, .each hl hlp hv hi hx hf hr hb hw, s, n => fun hd hend hn => by
    obtain ⟨n, rfl⟩ := exists_succ hn
    simp only [List.length_append, List.length_cons] at hn
    simp only [append_append, cons_append]
    exact yields_for hl hlp hv hi (expr_yields hx (not_continues (filter_continuesExpr hf hr))
      (by omega)) (filter_yields hf (n := n) hr (by omega)) hr (block_yields hb (by omega))
      (between_yields hw hend.2 (by omega))
  | _, _, _, .switch hl hlp hx hr hlb ha hrb, s, n => fun hd hend hn => by
    obtain ⟨n, rfl⟩ := exists_succ hn
    obtain ⟨i, rfl⟩ : ∃ i, n = i + 1 := exists_succ (k := 0) (by omega)
    simp only [List.length_append, List.length_cons, List.length_nil] at hn
    simp only [append_append, cons_append, nil_append]
    exact yields_switch hl (yields_parenExpr hlp (expr_yields hx
      (not_continues (by rw [current_push, hr.kind]; rfl)) (by omega)) hr) hlb
      (arms_yields ha [] rfl hrb (by omega))
  | _, _, _, .leave hl he, s, n => fun hd hend hn => by
    obtain ⟨n, rfl⟩ := exists_succ hn
    exact yields_break hl he hd
  | _, _, _, .again hl he, s, n => fun hd hend hn => by
    obtain ⟨n, rfl⟩ := exists_succ hn
    exact yields_continue hl he hd
  | _, _, _, .block h, s, n => fun hd hend hn => by
    obtain ⟨n, rfl⟩ := exists_succ hn
    exact yields_block (block_current h) (block_yields h (by omega))
  | _, _, _, .expr ht hx he, s, n => fun hd hend hn => by
    obtain ⟨n, rfl⟩ := exists_succ hn
    rw [List.length_append] at hn
    rw [append_append]
    exact yields_exprStmt (starts_current hx.starts) (ht rfl)
      (expr_yields hx (not_continues (end_continuesExpr he hd)) (by omega)) he hd

theorem varDefs_yields : ∀ {ls : List Lexeme} {vs : List VarDef}, IsVarDefs .accepted ls vs →
    ∀ {last : Bool} {es : List Lexeme} {s : TokenStream} {n : Nat} (seen : List VarDef),
      IsEnd last es → (last = true → s.current.Is .dollar) → 16 * ls.length + 8 ≤ n →
        (varDefs n seen).Yields (ls ++ (es ++ s)) (seen.reverse ++ vs) s
  | _, _, .one (v := v) h, last, es, s, n => fun seen he hd hn => by
    obtain ⟨n, rfl⟩ := exists_succ hn
    rw [← List.reverse_cons]
    exact varDef_yields h (end_continuesExpr he hd) (yields_lastVar he hd) (by omega)
  | _, _, .more (v := v) h hl hvs, last, es, s, n => fun seen he hd hn => by
    obtain ⟨n, rfl⟩ := exists_succ hn
    simp only [List.length_append, List.length_cons] at hn
    rw [append_append, cons_append]
    have hrest := varDefs_yields hvs (n := n) (v :: seen) he hd (by omega)
    rw [List.reverse_cons, List.append_assoc] at hrest
    exact varDef_yields h (by rw [current_push, hl.kind]; rfl) (yields_nextVar hl hrest) (by omega)

theorem varDef_yields : ∀ {ls : List Lexeme} {v : VarDef}, IsVarDef .accepted ls v →
    ∀ {s s' : TokenStream} {n : Nat} {vars seen : List VarDef},
      s.current.token.kind.continuesExpr = false →
      (afterVar n (v :: seen)).Yields s vars s' → 16 * ls.length + 7 ≤ n + 1 →
        (varDefs (n + 1) seen).Yields (ls ++ s) vars s'
  | _, _, .bare hl, s, s', n, vars, seen => fun hk next hn => by
    rw [cons_append, nil_append]
    exact yields_bareVar hl (fun h => by rw [h.kind] at hk; cases hk) next
  | _, _, .init hl he hx, s, s', n, vars, seen => fun hk next hn => by
    simp only [List.length_cons] at hn
    exact yields_initVar hl he (expr_yields hx (not_continues hk) (by omega)) next

theorem conditional_yields : ∀ {ls : List Lexeme} {st : Stmt}, IsConditional .accepted ls st →
    ∀ {s : TokenStream} {n : Nat}, ¬ s.current.IsWord .elseWord → 16 * ls.length ≤ n →
      ∃ l s₀, ls ++ s = s₀.push l ∧ l.IsWord .ifWord ∧ (conditional n l.pos).Yields s₀ st s
  | _, _, .one hl hlp hx hr hb, s, n => fun he hn => by
    simp only [List.length_append, List.length_cons] at hn
    obtain ⟨i, rfl⟩ : ∃ i, n = i + 2 := ⟨n - 2, by omega⟩
    simp only [append_append, cons_append]
    exact ⟨_, _, rfl, hl, yields_if (yields_parenExpr hlp (expr_yields hx
      (not_continues (by rw [current_push, hr.kind]; rfl)) (by omega)) hr)
      (block_yields hb (by omega)) he⟩
  | _, _, @IsConditional.two _ _ _ _ _ _ _ cs _ _ _ hl hlp hx hr hb hel hc, s, n => fun he hn => by
    simp only [List.length_append, List.length_cons] at hn
    obtain ⟨i, rfl⟩ : ∃ i, n = i + 2 := ⟨n - 2, by omega⟩
    simp only [append_append, List.append_assoc, List.cons_append, cons_append]
    have hi : ¬ (cs ++ s).current.IsWord .ifWord := block_not_if hc
    exact ⟨_, _, rfl, hl, yields_else (yields_parenExpr hlp (expr_yields hx
      (not_continues (by rw [current_push, hr.kind]; rfl)) (by omega)) hr)
      (block_yields hb (by omega)) hel hi (block_yields hc (by omega))⟩
  | _, _, .chain hl hlp hx hr hb hel hc, s, n => fun he hn => by
    simp only [List.length_append, List.length_cons] at hn
    obtain ⟨i, rfl⟩ : ∃ i, n = i + 2 := ⟨n - 2, by omega⟩
    simp only [append_append, List.append_assoc, List.cons_append, cons_append]
    obtain ⟨k, s₀, hs, hk, hst⟩ := conditional_yields hc he (n := i + 1) (by omega)
    rw [hs]
    exact ⟨_, _, rfl, hl, yields_elseIf (yields_parenExpr hlp (expr_yields hx
      (not_continues (by rw [current_push, hr.kind]; rfl)) (by omega)) hr)
      (block_yields hb (by omega)) hel hk hst⟩

theorem filter_yields : ∀ {fs : List Lexeme} {filter : Option WhereClause},
    IsFilter .accepted fs filter → ∀ {rp : Lexeme} {s : TokenStream} {n : Nat}, rp.Is .rparen →
      16 * fs.length + 8 ≤ n →
        filter = none ∧ fs ++ s.push rp = s.push rp ∨ ∃ y w s₂, fs ++ s.push rp = s₂.push w ∧
          w.IsWord .whereWord ∧ (expr n).Yields s₂ y (s.push rp) ∧ filter = some (.mk w.pos y)
  | _, _, .none, _, _, _ => fun _ _ => .inl ⟨rfl, rfl⟩
  | _, _, .some hl hx, rp, s, n => fun hr hn => by
    rw [List.length_cons] at hn
    exact .inr ⟨_, _, _, rfl, hl, expr_yields hx (not_continues (by rw [current_push, hr.kind]; rfl))
      (by omega), rfl⟩

theorem between_yields : ∀ {ws : List Lexeme} {between : Option Block},
    IsBetween .accepted ws between → ∀ {s : TokenStream} {n : Nat},
      ¬ s.current.IsWord .betweenWord → 16 * ws.length ≤ n →
        between = none ∧ ws ++ s = s ∧ ¬ (ws ++ s).current.IsWord .betweenWord ∨
          ∃ c t bt, ws ++ s = t.push bt ∧ bt.IsWord .betweenWord ∧ (block n).Yields t c s ∧
            between = some c
  | _, _, .none, _, _ => fun hs _ => .inl ⟨rfl, rfl, hs⟩
  | _, _, .some hl hb, s, n => fun hs hn => by
    rw [List.length_cons] at hn
    exact .inr ⟨_, _, _, rfl, hl, block_yields hb (by omega), rfl⟩

theorem arms_yields : ∀ {r : Lexeme} {ls : List Lexeme} {cases : List SwitchCase}
    {dflt : Option Block}, IsArms .accepted r ls cases dflt →
    ∀ {s : TokenStream} {n : Nat} (seen : List SwitchCase), s.current = r → r.Is .rbrace →
      16 * ls.length + 1 ≤ n →
        (switchArms n seen none).Yields (ls ++ s) (seen.reverse ++ cases, dflt) s
  | _, _, _, _, .nil, s, n => fun seen hs hr hn => by
    obtain ⟨n, rfl⟩ := exists_succ hn
    rw [List.append_nil]
    exact yields_noArm (hs ▸ hr)
  | _, _, _, _, .dflt hl hc h, s, n => fun seen hs hr hn => by
    simp only [List.length_cons] at hn
    obtain ⟨i, rfl⟩ : ∃ i, n = i + 2 := ⟨n - 2, by omega⟩
    have hr' : s.current.Is .rbrace := hs ▸ hr
    have hbody := yields_caseBody hc (caseStmts_yields h (n := i) [] (.inr (.inr hr')) (by omega))
    rw [hs] at hbody
    rw [List.append_nil]
    exact yields_default hl hbody (yields_noArm hr')
  | _, _, _, _, @IsArms.case _ r l _ c _ ms xs sts _ _ hl hxs hc h ha, s, n =>
    fun seen hs hr hn => by
    simp only [List.length_append, List.length_cons] at hn
    obtain ⟨i, rfl⟩ : ∃ i, n = i + 2 := ⟨n - 2, by omega⟩
    simp only [append_append, List.append_assoc, List.cons_append, cons_append]
    have hbody := yields_caseBody hc (caseStmts_yields h (n := i) []
      (endsArm_append ha (hs ▸ hr)) (by omega))
    rw [current_append, hs] at hbody
    have hrest := arms_yields ha (n := i + 1)
      (.mk l.pos xs (.mk c.pos sts (ms.headD r).pos false) :: seen) hs hr (by omega)
    rw [List.reverse_cons, List.append_assoc, List.singleton_append] at hrest
    exact yields_case hl (exprs_yields hxs [] (by rw [current_push, hc.kind]; rfl)
      (not_is_of_kind hc.kind nofun) (by omega)) hbody hrest

end

end Parser

end Stencil
