import Stencil.Proofs.Source.Cut
import Stencil.Proofs.Syntax.Lexemes

/-!
# Reading a text that is cut short

A reader is run on the lexemes of a text that is cut short, and succeeds on those of the whole
text. Then it does on the former what it does on the latter until it comes to the cut, and there
it can only be refused the end of the file, or run into the error at which the text breaks off
(`Parser.run_cut`).

The bound on the depth of recursion is counted by the lexemes that are left, so that the shorter
text has a bound of its own; that it is never reached is proved along the way.
-/

namespace Stencil

/-- Only the end of the file is left, and `bad` holds of every refusal of it. -/
structure TokenStream.Spent (bad : SyntaxError → Prop) (s : TokenStream) : Prop where
  eof : s.current.token = .eof
  rest : s.rest = []
  fault : s.fault = none
  refused (cause : SyntaxCause) : bad ⟨s.current.pos, cause, true⟩

/-- The lexemes of the stream are those of another up to a cut; the one at hand stands before
it. -/
inductive TokenStream.CutOf (bad : SyntaxError → Prop) : TokenStream → TokenStream → Prop where
  | cons {l ls f ms g} : l.token ≠ .eof → CutScan bad ⟨ls, f⟩ ms → CutOf bad ⟨l, ls, f⟩ ⟨l, ms, g⟩
  | short {l l' e t t' ms g} : l.token = .text t → l'.token = .text t' → l'.pos = l.pos →
      (⟨e, [], none⟩ : TokenStream).Spent bad → CutOf bad ⟨l', [e], none⟩ ⟨l, ms, g⟩

variable {bad : SyntaxError → Prop}

namespace TokenStream.CutOf

variable {s t : TokenStream}

theorem kind (h : s.CutOf bad t) : s.current.token.kind = t.current.token.kind := by
  cases h with
  | cons => rfl
  | short ht ht' => simp only [ht, ht', Token.kind]

theorem pos (h : s.CutOf bad t) : s.current.pos = t.current.pos := by
  cases h with
  | cons => rfl
  | short _ _ hpos => exact hpos

/-- Only a piece of template text is cut short. -/
theorem current (h : s.CutOf bad t) :
    s.current = t.current ∨ ∃ x, t.current.token = .text x := by
  cases h with
  | cons => exact .inl rfl
  | short ht => exact .inr ⟨_, ht⟩

end TokenStream.CutOf

namespace Parser

open TokenStream

variable {α β : Type}

/-- How a run on a text that is cut short comes out: as `P` says, at the end of the file, or
with an error. -/
inductive Outcome (bad : SyntaxError → Prop) (P : α → TokenStream → Prop) :
    Except SyntaxError (α × TokenStream) → Prop where
  | agrees {a s} : P a s → Outcome bad P (.ok (a, s))
  | spent {a s} : s.Spent bad → Outcome bad P (.ok (a, s))
  | fails {e} : bad e → Outcome bad P (.error e)

/-- At the end of the file the reader stays there or fails. -/
def Settles (bad : SyntaxError → Prop) (p : Parser α) : Prop :=
  ∀ s, s.Spent bad → Outcome bad (fun _ _ => False) (StateT.run p s)

/-- At the end of the file the reader fails. -/
def Refuses (bad : SyntaxError → Prop) (p : Parser α) : Prop :=
  ∀ s, s.Spent bad → ∃ e, StateT.run p s = .error e ∧ bad e

/-- If `p` succeeds on the stream `t`, then `p'` does the same on the stream `s`, unless it comes
to the cut; fewer than `N` lexemes are left. -/
def Follows (bad : SyntaxError → Prop) (N : Nat) (s t : TokenStream) (p' p : Parser α) : Prop :=
  ∀ a t', p.Yields t a t' →
    Outcome bad (fun b s' => b = a ∧ s'.CutOf bad t' ∧ s'.rest.length < N) (StateT.run p' s)

/-! ### At the end of the file -/

section

variable {p : Parser α} {f : α → Parser β}

theorem Refuses.settles (h : Refuses bad p) : Settles bad p := by
  intro s hs
  obtain ⟨e, hrun, he⟩ := h s hs
  rw [hrun]
  exact .fails he

theorem Refuses.bind (h : Refuses bad p) (f : α → Parser β) : Refuses bad (p >>= f) := by
  intro s hs
  obtain ⟨e, hrun, he⟩ := h s hs
  exact ⟨e, by rw [run_bind_eq, hrun]; rfl, he⟩

theorem Settles.bind (h : Settles bad p) (hf : ∀ a, Settles bad (f a)) :
    Settles bad (p >>= f) := by
  intro s hs
  have hp := h s hs
  rw [run_bind_eq]
  generalize StateT.run p s = r at hp
  cases hp with
  | agrees h => exact h.elim
  | spent hs' => exact hf _ _ hs'
  | fails he => exact .fails he

theorem settles_pure (a : α) : Settles bad (pure a : Parser α) :=
  fun _ hs => .spent hs

theorem settles_advance : Settles bad advance := by
  rintro ⟨l, _ | ⟨m, rest⟩, _ | f⟩ hs
  · exact .spent hs
  · cases hs.fault
  · cases hs.rest
  · cases hs.rest

theorem refuses_refuse (cause : SyntaxCause) : Refuses bad (refuse cause : Parser α) := by
  intro s hs
  have hk : decide (s.current.token.kind = .eof) = true := by
    rw [hs.eof]
    rfl
  refine ⟨⟨s.current.pos, cause, decide (s.current.token.kind = .eof)⟩, rfl, ?_⟩
  rw [hk]
  exact hs.refused cause

theorem refuses_peek {f : TokenKind → Parser β} (h : Refuses bad (f .eof)) :
    Refuses bad (peek >>= f) := by
  intro s hs
  have hk : s.current.token.kind = .eof := Token.kind_eq_eof.2 hs.eof
  obtain ⟨e, hrun, he⟩ := h s hs
  rw [← hk] at hrun
  exact ⟨e, hrun, he⟩

theorem settles_peek {f : TokenKind → Parser β} (h : Settles bad (f .eof)) :
    Settles bad (peek >>= f) := by
  intro s hs
  have hk : s.current.token.kind = .eof := Token.kind_eq_eof.2 hs.eof
  have hrun := h s hs
  rw [← hk] at hrun
  exact hrun

theorem refuses_token {f : Token → Parser β} (h : Refuses bad (f .eof)) :
    Refuses bad (token >>= f) := by
  intro s hs
  obtain ⟨e, hrun, he⟩ := h s hs
  rw [← hs.eof] at hrun
  exact ⟨e, hrun, he⟩

theorem discard_eq_bind (p : Parser α) : Functor.discard p = p >>= fun _ => pure () := rfl

theorem Refuses.discard (h : Refuses bad p) : Refuses bad (Functor.discard p) := by
  change Refuses bad (p >>= fun _ => pure ())
  exact h.bind _

theorem refuses_sees {m : Punct} {a b : Parser β} (h : Refuses bad b) :
    Refuses bad (sees m >>= fun c => if c = true then a else b) := by
  refine refuses_peek (f := fun k => if decide (k = .punct m) = true then a else b) ?_
  rwa [if_neg (by simp)]

theorem settles_sees {m : Punct} {a b : Parser β} (h : Settles bad b) :
    Settles bad (sees m >>= fun c => if c = true then a else b) := by
  refine settles_peek (f := fun k => if decide (k = .punct m) = true then a else b) ?_
  rwa [if_neg (by simp)]

theorem settles_seesWord {k : Keyword} {a b : Parser β} (h : Settles bad b) :
    Settles bad (seesWord k >>= fun c => if c = true then a else b) := by
  refine settles_peek (f := fun k' => if decide (k' = .keyword k) = true then a else b) ?_
  rwa [if_neg (by simp)]

theorem refuses_consume {k : TokenKind} (hk : k ≠ .eof) : Refuses bad (consume k) := by
  rw [consume]
  refine refuses_peek ?_
  rw [if_neg (Ne.symm hk)]
  exact refuses_refuse _

theorem refuses_mark (m : Punct) : Refuses bad (mark m) :=
  refuses_consume (by simp)

theorem refuses_ident : Refuses bad ident :=
  refuses_token (refuses_refuse _)

theorem refuses_semi : Refuses bad semi :=
  refuses_sees (refuses_mark .semi).discard

theorem settles_end (a : α) : Settles bad (semi >>= fun _ => pure a) :=
  (refuses_semi.bind _).settles

theorem settles_advance_bind {f : Position → Parser β} (h : ∀ p, Settles bad (f p)) :
    Settles bad (advance >>= f) :=
  settles_advance.bind h

end

/-! The readers of the language, with a bound that lets them come to the first lexeme. -/

section

variable {n : Nat}

theorem settles_typePath (x : Expr) (hn : 7 ≤ n) : Settles bad (typePath n x) := by
  obtain ⟨n, rfl⟩ := Nat.exists_eq_add_of_le' hn
  rw [typePath]
  exact settles_sees (settles_pure _)

theorem settles_binaryRest (level : Nat) (x : Expr) (hn : 7 ≤ n) :
    Settles bad (binaryRest n level x) := by
  obtain ⟨n, rfl⟩ := Nat.exists_eq_add_of_le' hn
  rw [binaryRest]
  exact settles_peek (settles_pure _)

theorem settles_selectors (x : Expr) (hn : 7 ≤ n) : Settles bad (selectors n x) := by
  obtain ⟨n, rfl⟩ := Nat.exists_eq_add_of_le' hn
  rw [selectors]
  exact settles_peek (settles_pure _)

theorem refuses_primary (n : Nat) : Refuses bad (primary (n + 1)) := by
  intro s hs
  have hrefuse : ∃ e, StateT.run (refuse (.expectedPrimary .eof) : Parser Expr) s = .error e ∧
      bad e := refuses_refuse _ s hs
  rw [primary]
  obtain ⟨⟨t, p, raw⟩, rest, fault⟩ := s
  obtain rfl : t = .eof := hs.eof
  exact hrefuse

theorem refuses_unary (hn : 5 ≤ n) : Refuses bad (unary n) := by
  obtain ⟨n, rfl⟩ := Nat.exists_eq_add_of_le' hn
  rw [unary]
  exact refuses_peek ((refuses_primary (n + 3)).bind _)

theorem refuses_binary (level : Nat) (hn : 6 ≤ n) : Refuses bad (binary n level) := by
  obtain ⟨n, rfl⟩ := Nat.exists_eq_add_of_le' hn
  rw [binary]
  exact (refuses_unary (by omega)).bind _

theorem refuses_expr (hn : 7 ≤ n) : Refuses bad (expr n) := by
  obtain ⟨n, rfl⟩ := Nat.exists_eq_add_of_le' hn
  rw [expr]
  exact (refuses_binary 1 (by omega)).bind _

theorem refuses_params (seen : List Param) (hn : 7 ≤ n) : Refuses bad (params n seen) := by
  obtain ⟨n, rfl⟩ := Nat.exists_eq_add_of_le' hn
  rw [params]
  refine refuses_sees ?_
  cases seen with
  | nil => exact refuses_ident.bind _
  | cons p seen => exact (refuses_mark .comma).discard.bind _

theorem refuses_args (m : Punct) (seen : List Expr) (hn : 8 ≤ n) : Refuses bad (args n m seen) := by
  obtain ⟨n, rfl⟩ := Nat.exists_eq_add_of_le' hn
  rw [args]
  refine refuses_sees ?_
  cases seen with
  | nil => exact (refuses_expr (by omega)).bind _
  | cons p seen => exact (refuses_mark .comma).discard.bind _

theorem refuses_exprList (seen : List Expr) (hn : 8 ≤ n) : Refuses bad (exprList n seen) := by
  obtain ⟨n, rfl⟩ := Nat.exists_eq_add_of_le' hn
  rw [exprList]
  exact (refuses_expr (by omega)).bind _

theorem refuses_templateBody (seen : List Stmt) (hn : 7 ≤ n) :
    Refuses bad (templateBody n seen) := by
  obtain ⟨n, rfl⟩ := Nat.exists_eq_add_of_le' hn
  rw [templateBody]
  exact refuses_token (refuses_refuse _)

theorem refuses_block (hn : 7 ≤ n) : Refuses bad (block n) := by
  obtain ⟨n, rfl⟩ := Nat.exists_eq_add_of_le' hn
  rw [block]
  exact refuses_peek (refuses_refuse _)

theorem refuses_stmts (seen : List Stmt) (hn : 7 ≤ n) : Refuses bad (stmts n seen) := by
  obtain ⟨n, rfl⟩ := Nat.exists_eq_add_of_le' hn
  rw [stmts]
  exact refuses_peek (refuses_refuse _)

theorem refuses_stmt (hn : 8 ≤ n) : Refuses bad (stmt n) := by
  obtain ⟨n, rfl⟩ := Nat.exists_eq_add_of_le' hn
  rw [stmt]
  exact refuses_peek ((refuses_expr (by omega)).bind _)

theorem refuses_islandStmt (hn : 7 ≤ n) : Refuses bad (islandStmt n) := by
  obtain ⟨n, rfl⟩ := Nat.exists_eq_add_of_le' hn
  rw [islandStmt]
  exact refuses_peek (refuses_refuse _)

theorem refuses_island (seen : List Stmt) (hn : 8 ≤ n) : Refuses bad (island n seen) := by
  obtain ⟨n, rfl⟩ := Nat.exists_eq_add_of_le' hn
  rw [island]
  exact refuses_sees ((refuses_islandStmt (by omega)).bind _)

theorem refuses_varDefs (seen : List VarDef) (hn : 7 ≤ n) : Refuses bad (varDefs n seen) := by
  obtain ⟨n, rfl⟩ := Nat.exists_eq_add_of_le' hn
  rw [varDefs]
  exact refuses_ident.bind _

theorem refuses_parenExpr (hn : 7 ≤ n) : Refuses bad (parenExpr n) := by
  obtain ⟨n, rfl⟩ := Nat.exists_eq_add_of_le' hn
  rw [parenExpr]
  exact (refuses_mark .lparen).discard.bind _

theorem refuses_conditional (p : Position) (hn : 8 ≤ n) : Refuses bad (conditional n p) := by
  obtain ⟨n, rfl⟩ := Nat.exists_eq_add_of_le' hn
  rw [conditional]
  exact (refuses_parenExpr (by omega)).bind _

theorem refuses_caseStmts (seen : List Stmt) (hn : 9 ≤ n) : Refuses bad (caseStmts n seen) := by
  obtain ⟨n, rfl⟩ := Nat.exists_eq_add_of_le' hn
  rw [caseStmts]
  exact refuses_peek ((refuses_stmt (by omega)).bind _)

theorem refuses_caseBody (hn : 7 ≤ n) : Refuses bad (caseBody n) := by
  obtain ⟨n, rfl⟩ := Nat.exists_eq_add_of_le' hn
  rw [caseBody]
  exact (refuses_mark .colon).bind _

theorem refuses_switchArms (seen : List SwitchCase) (dflt : Option Block) (hn : 7 ≤ n) :
    Refuses bad (switchArms n seen dflt) := by
  obtain ⟨n, rfl⟩ := Nat.exists_eq_add_of_le' hn
  rw [switchArms]
  exact refuses_peek (refuses_refuse _)

theorem settles_moduleItems (m : Module) (hn : 7 ≤ n) : Settles bad (moduleItems n m) := by
  obtain ⟨n, rfl⟩ := Nat.exists_eq_add_of_le' hn
  rw [moduleItems]
  exact settles_peek fun s hs => .spent hs

end

/-! ### Before the cut -/

section

variable {p p' : Parser α} {f f' : α → Parser β} {s t : TokenStream} {N M : Nat}

theorem follows_refuse {p' : Parser α} (cause : SyntaxCause) :
    Follows bad N s t p' (refuse cause) :=
  fun _ _ h => absurd h not_yields_refuse

theorem follows_refuse_bind {p' : Parser β} (cause : SyntaxCause) :
    Follows bad N s t p' ((refuse cause : Parser α) >>= f) := by
  intro b t' hy
  obtain ⟨a, s₁, ha, -⟩ := yields_bind.1 hy
  exact absurd ha not_yields_refuse

theorem Follows.bind (hp : Follows bad M s t p' p) (hset : ∀ a, Settles bad (f' a))
    (hf : ∀ a s₁ t₁, s₁.CutOf bad t₁ → s₁.rest.length < M → Follows bad N s₁ t₁ (f' a) (f a)) :
    Follows bad N s t (p' >>= f') (p >>= f) := by
  intro b t' h
  obtain ⟨a, t₁, ha, hb⟩ := yields_bind.1 h
  have hrun := hp a t₁ ha
  rw [run_bind_eq]
  generalize StateT.run p' s = r at hrun
  cases hrun with
  | agrees h =>
    obtain ⟨rfl, hcut, hlen⟩ := h
    exact hf _ _ _ hcut hlen b t' hb
  | @spent a s hs =>
    have hend := hset a s hs
    simp only [Except.bind]
    generalize StateT.run (f' a) s = r at hend ⊢
    cases hend with
    | agrees h => exact h.elim
    | spent hs' => exact .spent hs'
    | fails he => exact .fails he
  | fails he => exact .fails he

/-- Without a bound nothing is read. -/
theorem Follows.of_succ {p' : Parser α} (p : Nat → Parser α) (hzero : p 0 = refuse .nestingLimit)
    (hsucc : ∀ m, Follows bad N s t p' (p (m + 1))) (m : Nat) : Follows bad N s t p' (p m) := by
  cases m with
  | zero =>
    rw [hzero]
    exact follows_refuse _
  | succ m => exact hsucc m

theorem Follows.mono (h : Follows bad M s t p' p) (hM : M ≤ N) : Follows bad N s t p' p := by
  intro a t' hy
  have hrun := h a t' hy
  generalize StateT.run p' s = r at hrun
  cases hrun with
  | agrees h => exact .agrees ⟨h.1, h.2.1, by omega⟩
  | spent hs => exact .spent hs
  | fails he => exact .fails he

theorem follows_pure (h : s.CutOf bad t) (hN : s.rest.length < N) (a : α) :
    Follows bad N s t (pure a) (pure a) := by
  rintro _ _ ⟨⟩
  exact .agrees ⟨rfl, h, hN⟩

theorem follows_peek {f g : TokenKind → Parser β} (h : s.CutOf bad t)
    (hf : Follows bad N s t (g t.current.token.kind) (f t.current.token.kind)) :
    Follows bad N s t (peek >>= g) (peek >>= f) := by
  rw [← h.kind] at hf
  intro a t' hy
  rw [yields_peek, ← h.kind] at hy
  exact hf a t' hy

theorem follows_get {f f' : TokenStream → Parser β} (hf : Follows bad N s t (f' s) (f t)) :
    Follows bad N s t ((get : Parser TokenStream) >>= f') ((get : Parser TokenStream) >>= f) := by
  intro a t' hy
  rw [yields_get] at hy
  exact hf a t' hy

theorem follows_here {f f' : Position → Parser β} (h : s.CutOf bad t)
    (hf : Follows bad N s t (f' t.current.pos) (f t.current.pos)) :
    Follows bad N s t (here >>= f') (here >>= f) := by
  rw [← h.pos] at hf
  intro a t' hy
  rw [yields_here, ← h.pos] at hy
  exact hf a t' hy

theorem follows_sees {m : Punct} {a a' b b' : Parser β} (h : s.CutOf bad t)
    (ha : Follows bad N s t a' a) (hb : Follows bad N s t b' b) :
    Follows bad N s t (sees m >>= fun c => if c = true then a' else b')
      (sees m >>= fun c => if c = true then a else b) := by
  refine follows_peek (f := fun k => if decide (k = .punct m) = true then a else b)
    (g := fun k => if decide (k = .punct m) = true then a' else b') h ?_
  split
  · exact ha
  · exact hb

theorem follows_seesWord {k : Keyword} {a a' b b' : Parser β} (h : s.CutOf bad t)
    (ha : Follows bad N s t a' a) (hb : Follows bad N s t b' b) :
    Follows bad N s t (seesWord k >>= fun c => if c = true then a' else b')
      (seesWord k >>= fun c => if c = true then a else b) := by
  refine follows_peek (f := fun k' => if decide (k' = .keyword k) = true then a else b)
    (g := fun k' => if decide (k' = .keyword k) = true then a' else b') h ?_
  split
  · exact ha
  · exact hb

/-- Moving on comes to the next lexeme, to the end of the file or to the error. -/
theorem follows_advance (h : s.CutOf bad t) : Follows bad s.rest.length s t advance advance := by
  intro p t' hy
  cases h with
  | @cons l ls f ms g hl hcut =>
    generalize hx : (⟨ls, f⟩ : Scan) = x at hcut
    cases hcut with
    | fault he =>
      cases hx
      exact .fails he
    | eof heof hrefused =>
      cases hx
      exact .spent ⟨heof, rfl, rfl, hrefused⟩
    | short ht ht' hpos heof hrefused =>
      cases hx
      cases hy
      exact .agrees ⟨rfl, .short ht ht' hpos ⟨heof, rfl, rfl, hrefused⟩, Nat.lt_succ_self _⟩
    | cons hne hcut =>
      cases hx
      cases hy
      exact .agrees ⟨rfl, .cons hne hcut, Nat.lt_succ_self _⟩
  | short ht ht' hpos hspent => exact .spent hspent

theorem Follows.discard {f f' : Unit → Parser β}
    (h : Follows bad N s t (p' >>= fun _ => f' ()) (p >>= fun _ => f ())) :
    Follows bad N s t (Functor.discard p' >>= f') (Functor.discard p >>= f) := by
  rw [discard_eq_bind, discard_eq_bind]
  simpa only [bind_assoc, pure_bind] using h

theorem follows_consume {k : TokenKind} (h : s.CutOf bad t) :
    Follows bad s.rest.length s t (consume k) (consume k) := by
  rw [consume]
  refine follows_peek h ?_
  split
  · exact follows_advance h
  · exact follows_refuse _

theorem follows_mark (m : Punct) (h : s.CutOf bad t) :
    Follows bad s.rest.length s t (mark m) (mark m) :=
  follows_consume h

theorem follows_token {f f' : Token → Parser β} (h : s.current.token = t.current.token)
    (hf : Follows bad N s t (f' t.current.token) (f t.current.token)) :
    Follows bad N s t (token >>= f') (token >>= f) := by
  rw [← h] at hf
  intro a t' hy
  rw [yields_token, ← h] at hy
  exact hf a t' hy

theorem run_token {f : Token → Parser β} :
    StateT.run (token >>= f) s = StateT.run (f s.current.token) s := rfl

theorem run_advance_short {f : Position → Parser β} (l e : Lexeme) :
    StateT.run (advance >>= f) ⟨l, [e], none⟩ = StateT.run (f l.pos) ⟨e, [], none⟩ := rfl

theorem follows_ident (h : s.CutOf bad t) : Follows bad s.rest.length s t ident ident := by
  rw [ident]
  obtain hsame | ⟨x, hx⟩ := h.current
  · refine follows_token (congrArg _ hsame) ?_
    split
    · exact (follows_advance h).bind (fun _ => settles_pure _) fun p s₁ t₁ h₁ hlen =>
        follows_pure h₁ hlen _
    · exact follows_refuse _
  · intro a t' hy
    rw [yields_token, hx] at hy
    exact absurd hy not_yields_refuse

theorem follows_semi (h : s.CutOf bad t) : Follows bad (s.rest.length + 1) s t semi semi := by
  rw [semi]
  refine follows_sees h (follows_pure h (Nat.lt_succ_self _) _) ?_
  rw [discard_eq_bind]
  exact (follows_mark .semi h).bind (fun _ => settles_pure _) fun _ s₁ t₁ h₁ hlen =>
    follows_pure h₁ (by omega) _

/-- The end of a statement. -/
theorem follows_end (h : s.CutOf bad t) (hN : s.rest.length < N) (a : α) :
    Follows bad N s t (semi >>= fun _ => pure a) (semi >>= fun _ => pure a) :=
  (follows_semi h).bind (fun _ => settles_pure a) fun _ s₁ t₁ h₁ hlt => follows_pure h₁ (by omega) a

end

end Parser

end Stencil
