import Stencil.Proofs.Syntax.Grammar

/-!
# What a reader reads

Two ways to speak of a run of a reader. `p.Yields s a s'` says that `p` succeeds on the lexemes
`s` with the value `a` and leaves `s'`. `p.Reads s Q` says that whenever `p` succeeds on `s`,
`Q` holds of the value, of the lexemes that were taken and of what is left. For each way to
build a reader there is a lemma of both kinds; that every tree is read rests on the former,
that only trees of the grammar are read on the latter.

`ls ++ s` is the stream that starts with the lexemes `ls` and goes on as `s`.
-/

namespace Stencil

/-! ### Streams -/

namespace TokenStream

/-- The stream with a lexeme put in front. -/
def push (l : Lexeme) (s : TokenStream) : TokenStream := ⟨l, s.current :: s.rest, s.fault⟩

/-- The stream with some lexemes put in front. -/
def prepend (ls : List Lexeme) (s : TokenStream) : TokenStream := ls.foldr push s

instance : HAppend (List Lexeme) TokenStream TokenStream := ⟨prepend⟩

variable {l : Lexeme} {ls ms : List Lexeme} {s : TokenStream}

@[simp] theorem current_push : (s.push l).current = l := rfl

@[simp] theorem fault_push : (s.push l).fault = s.fault := rfl

@[simp] theorem nil_append (s : TokenStream) : ([] : List Lexeme) ++ s = s := rfl

@[simp] theorem cons_append : l :: ls ++ s = (ls ++ s).push l := rfl

theorem current_append : (ls ++ s).current = ls.headD s.current := by
  cases ls <;> rfl

@[simp] theorem fault_append : (ls ++ s).fault = s.fault := by
  induction ls with
  | nil => rfl
  | cons l ls ih => exact ih

@[simp] theorem append_append : (ls ++ ms) ++ s = ls ++ (ms ++ s) :=
  List.foldr_append

/-- The lexemes of a stream. -/
def lexemes (s : TokenStream) : List Lexeme := s.current :: s.rest

theorem lexemes_append : (ls ++ s).lexemes = ls ++ s.lexemes := by
  induction ls with
  | nil => rfl
  | cons l ls ih =>
    change l :: (ls ++ s).lexemes = l :: (ls ++ s.lexemes)
    rw [ih]

/-- Unless it breaks off with an error, the stream ends with the end of the file. -/
def Ended (s : TokenStream) : Prop :=
  s.fault = none → ∃ l, s.lexemes.getLast? = some l ∧ l.token = .eof

theorem ended_append : (ls ++ s).Ended ↔ s.Ended := by
  have hs : s.lexemes ≠ [] := List.cons_ne_nil _ _
  simp only [Ended, lexemes_append, fault_append, List.getLast?_append,
    List.getLast?_eq_some_getLast hs, Option.some_or]

/-- Whether the `$` that closes an island is at hand. -/
def atDollar (s : TokenStream) : Bool := decide (s.current.token.kind = .punct .dollar)

end TokenStream

namespace Parser

open TokenStream

variable {α β : Type} {p : Parser α} {f : α → Parser β} {s s' s₁ : TokenStream} {a : α} {b : β}
variable {l : Lexeme} {ls : List Lexeme}

/-! ### Successful runs -/

/-- The reader succeeds on `s` with the value `a` and leaves `s'`. -/
def Yields (p : Parser α) (s : TokenStream) (a : α) (s' : TokenStream) : Prop :=
  StateT.run p s = .ok (a, s')

theorem run_bind_eq (p : Parser α) (f : α → Parser β) (s : TokenStream) :
    StateT.run (p >>= f) s = (StateT.run p s).bind fun r => StateT.run (f r.1) r.2 := rfl

theorem yields_bind :
    (p >>= f).Yields s b s' ↔ ∃ a s₁, p.Yields s a s₁ ∧ (f a).Yields s₁ b s' := by
  simp only [Yields, run_bind_eq]
  cases StateT.run p s with
  | error e => simp [Except.bind]
  | ok r =>
    obtain ⟨a, s₁⟩ := r
    constructor
    · intro h
      exact ⟨a, s₁, rfl, h⟩
    · rintro ⟨_, _, ⟨rfl, rfl⟩, h⟩
      exact h

theorem Yields.bind (hp : p.Yields s a s₁) (hf : (f a).Yields s₁ b s') : (p >>= f).Yields s b s' :=
  yields_bind.2 ⟨a, s₁, hp, hf⟩

theorem yields_pure : (pure a : Parser α).Yields s a s := rfl

theorem not_yields_refuse {c : SyntaxCause} : ¬ (refuse c : Parser α).Yields s a s' := nofun

theorem yields_discard {f : Unit → Parser β} :
    (discard p >>= f).Yields s b s' ↔ (p >>= fun _ => f ()).Yields s b s' := by
  rw [show discard p = p >>= fun _ => pure () from rfl, bind_assoc]
  simp only [pure_bind]

/-! Looking at the lexeme at hand leaves the stream as it is. -/

@[simp] theorem yields_peek {f : TokenKind → Parser β} :
    (peek >>= f).Yields s b s' ↔ (f s.current.token.kind).Yields s b s' := Iff.rfl

@[simp] theorem yields_token {f : Token → Parser β} :
    (token >>= f).Yields s b s' ↔ (f s.current.token).Yields s b s' := Iff.rfl

@[simp] theorem yields_here {f : Position → Parser β} :
    (here >>= f).Yields s b s' ↔ (f s.current.pos).Yields s b s' := Iff.rfl

@[simp] theorem yields_get {f : TokenStream → Parser β} :
    ((get : Parser TokenStream) >>= f).Yields s b s' ↔ (f s).Yields s b s' := Iff.rfl

@[simp] theorem yields_sees {m : Punct} {f : Bool → Parser β} :
    (sees m >>= f).Yields s b s' ↔
      (f (decide (s.current.token.kind = .punct m))).Yields s b s' := Iff.rfl

@[simp] theorem yields_seesWord {k : Keyword} {f : Bool → Parser β} :
    (seesWord k >>= f).Yields s b s' ↔
      (f (decide (s.current.token.kind = .keyword k))).Yields s b s' := Iff.rfl

/-! Moving past lexemes. -/

theorem yields_advance : advance.Yields (s.push l) l.pos s := rfl

theorem yields_consume {k : TokenKind} (h : l.token.kind = k) :
    (consume k).Yields (s.push l) l.pos s := by
  simp only [consume, yields_peek, TokenStream.current_push, h, if_true]
  exact yields_advance

theorem yields_mark {m : Punct} (h : l.Is m) : (mark m).Yields (s.push l) l.pos s :=
  yields_consume h.kind

theorem yields_ident {n : Bytes} (h : l.Names n) : ident.Yields (s.push l) (l.pos, n) s := by
  simp only [ident, yields_token, TokenStream.current_push, show l.token = _ from h]
  exact yields_advance.bind yields_pure

/-! The same, followed by another reader. -/

theorem Yields.sees {m : Punct} {f : Bool → Parser β} (h : s.current.Is m)
    (hf : (f true).Yields s b s') : (sees m >>= f).Yields s b s' := by
  rwa [yields_sees, decide_eq_true h.kind]

theorem Yields.unseen {m : Punct} {f : Bool → Parser β} (h : ¬ s.current.Is m)
    (hf : (f false).Yields s b s') : (Parser.sees m >>= f).Yields s b s' := by
  rwa [yields_sees, decide_eq_false fun hk => h (Token.kind_eq_punct.1 hk)]

theorem Yields.seesWord {k : Keyword} {f : Bool → Parser β} (h : s.current.IsWord k)
    (hf : (f true).Yields s b s') : (seesWord k >>= f).Yields s b s' := by
  rwa [yields_seesWord, decide_eq_true h.kind]

theorem Yields.unseenWord {k : Keyword} {f : Bool → Parser β} (h : ¬ s.current.IsWord k)
    (hf : (f false).Yields s b s') : (Parser.seesWord k >>= f).Yields s b s' := by
  rwa [yields_seesWord, decide_eq_false fun hk => h (Token.kind_eq_keyword.1 hk)]

theorem Yields.peek {k : TokenKind} {f : TokenKind → Parser β} (h : s.current.token.kind = k)
    (hf : (f k).Yields s b s') : (peek >>= f).Yields s b s' := by
  rwa [yields_peek, h]

theorem Yields.token {t : Token} {f : Token → Parser β} (h : s.current.token = t)
    (hf : (f t).Yields s b s') : (token >>= f).Yields s b s' := by
  rwa [yields_token, h]

theorem Yields.advance {f : Position → Parser β} (hf : (f l.pos).Yields s b s') :
    (advance >>= f).Yields (s.push l) b s' :=
  yields_advance.bind hf

theorem Yields.consume {k : TokenKind} {f : Position → Parser β} (h : l.token.kind = k)
    (hf : (f l.pos).Yields s b s') : (consume k >>= f).Yields (s.push l) b s' :=
  (yields_consume h).bind hf

theorem Yields.mark {m : Punct} {f : Position → Parser β} (h : l.Is m)
    (hf : (f l.pos).Yields s b s') : (mark m >>= f).Yields (s.push l) b s' :=
  (yields_mark h).bind hf

theorem Yields.ident {n : Bytes} {f : Position × Bytes → Parser β} (h : l.Names n)
    (hf : (f (l.pos, n)).Yields s b s') : (ident >>= f).Yields (s.push l) b s' :=
  (yields_ident h).bind hf

theorem Yields.discard {f : Unit → Parser β} (h : (p >>= fun _ => f ()).Yields s b s') :
    (discard p >>= f).Yields s b s' :=
  yields_discard.2 h

theorem yields_semi {last : Bool} (h : IsEnd last ls) (hl : last = true → s.current.Is .dollar) :
    semi.Yields (ls ++ s) () s := by
  rw [semi, yields_sees]
  cases h with
  | @semi l hm =>
    have hd : l.token.kind ≠ .punct .dollar := hm.kind ▸ nofun
    simp only [TokenStream.cons_append, TokenStream.current_push, hd, decide_false,
      Bool.false_eq_true, if_false]
    rw [← bind_pure (discard _), yields_discard]
    exact (yields_mark hm).bind yields_pure
  | missing hm =>
    simp only [TokenStream.nil_append, (hl hm).kind, decide_true, if_true]
    exact yields_pure

/-! ### What a success entails -/

/-- Whenever the reader succeeds on `s`, `Q` holds of the value, of the lexemes that were taken
and of the stream that is left. -/
def Reads (p : Parser α) (s : TokenStream) (Q : α → List Lexeme → TokenStream → Prop) : Prop :=
  s.Ended → ∀ a s', p.Yields s a s' → ∃ ls : List Lexeme, s = ls ++ s' ∧ Q a ls s'

variable {P : α → List Lexeme → TokenStream → Prop} {Q : β → List Lexeme → TokenStream → Prop}

theorem Reads.bind (hp : p.Reads s P)
    (hf : ∀ a ls s₁, P a ls s₁ → (f a).Reads s₁ fun b ms s' => Q b (ls ++ ms) s') :
    (p >>= f).Reads s Q := by
  intro hs b s' h
  obtain ⟨a, s₁, hp', hf'⟩ := yields_bind.1 h
  obtain ⟨ls, rfl, hP⟩ := hp hs a s₁ hp'
  obtain ⟨ms, rfl, hQ⟩ := hf a ls s₁ hP (ended_append.1 hs) b s' hf'
  exact ⟨ls ++ ms, append_append.symm, hQ⟩

theorem reads_pure (h : P a [] s) : (pure a : Parser α).Reads s P := by
  rintro - _ _ ⟨⟩
  exact ⟨[], rfl, h⟩

theorem reads_refuse (c : SyntaxCause) : (refuse c : Parser α).Reads s P :=
  fun _ _ _ h => absurd h not_yields_refuse

theorem reads_refuse_bind (c : SyntaxCause) : ((refuse c : Parser α) >>= f).Reads s Q :=
  (reads_refuse (P := fun _ _ _ => False) c).bind fun _ _ _ h => h.elim

theorem Reads.mono {P' : α → List Lexeme → TokenStream → Prop} (h : p.Reads s P)
    (hP : ∀ a ls s', P a ls s' → P' a ls s') : p.Reads s P' := by
  intro hs a s' hy
  obtain ⟨ls, rfl, hP'⟩ := h hs a s' hy
  exact ⟨ls, rfl, hP _ _ _ hP'⟩

/-- What is left is the part of the stream after the lexemes that were taken. -/
theorem Reads.left {P' : α → List Lexeme → TokenStream → Prop} (h : p.Reads s P)
    (hP : ∀ a ls s', s = ls ++ s' → P a ls s' → P' a ls s') : p.Reads s P' := by
  intro hs a s' hy
  obtain ⟨ls, rfl, hP'⟩ := h hs a s' hy
  exact ⟨ls, rfl, hP _ _ _ rfl hP'⟩

theorem Reads.discard {f : Unit → Parser β} (h : (p >>= fun _ => f ()).Reads s Q) :
    (discard p >>= f).Reads s Q :=
  fun hs b s' hy => h hs b s' (yields_discard.1 hy)

theorem reads_peek {f : TokenKind → Parser β} (h : (f s.current.token.kind).Reads s Q) :
    (peek >>= f).Reads s Q := h

theorem reads_token {f : Token → Parser β} (h : (f s.current.token).Reads s Q) :
    (token >>= f).Reads s Q := h

theorem reads_here {f : Position → Parser β} (h : (f s.current.pos).Reads s Q) :
    (here >>= f).Reads s Q := h

theorem reads_get {f : TokenStream → Parser β} (h : (f s).Reads s Q) :
    ((get : Parser TokenStream) >>= f).Reads s Q := h

/-- Asking for a mark splits into the two answers. -/
theorem reads_sees {m : Punct} {f : Bool → Parser β}
    (ht : s.current.Is m → (f true).Reads s Q) (hf : ¬ s.current.Is m → (f false).Reads s Q) :
    (sees m >>= f).Reads s Q := by
  change (f (decide (s.current.token.kind = .punct m))).Reads s Q
  by_cases h : s.current.token.kind = .punct m
  · simpa only [h, decide_true] using ht (Token.kind_eq_punct.1 h)
  · simpa only [h, decide_false] using hf fun hm => h hm.kind

/-- Asking for a keyword splits into the two answers. -/
theorem reads_seesWord {k : Keyword} {f : Bool → Parser β}
    (ht : s.current.IsWord k → (f true).Reads s Q)
    (hf : ¬ s.current.IsWord k → (f false).Reads s Q) : (seesWord k >>= f).Reads s Q := by
  change (f (decide (s.current.token.kind = .keyword k))).Reads s Q
  by_cases h : s.current.token.kind = .keyword k
  · simpa only [h, decide_true] using ht (Token.kind_eq_keyword.1 h)
  · simpa only [h, decide_false] using hf fun hm => h hm.kind

/-- Before the end of the file, moving on takes the lexeme at hand. -/
theorem reads_advance {f : Position → Parser β} (he : s.current.token.kind ≠ .eof)
    (hf : ∀ s₁, (f s.current.pos).Reads s₁ fun b ms s' => Q b (s.current :: ms) s') :
    (advance >>= f).Reads s Q := by
  suffices h : advance.Reads s fun q ls _ => q = s.current.pos ∧ ls = [s.current] by
    refine h.bind fun q ls s₁ hq => ?_
    obtain ⟨rfl, rfl⟩ := hq
    exact hf s₁
  intro hs q s' h
  obtain ⟨l, rest, fault⟩ := s
  cases rest with
  | cons l' rest =>
    cases h
    exact ⟨[l], rfl, rfl, rfl⟩
  | nil =>
    cases fault with
    | some e => cases h
    | none =>
      obtain ⟨l', hl, heof⟩ := hs rfl
      obtain rfl : l = l' := by simpa [lexemes] using hl
      exact absurd (Token.kind_eq_eof.2 heof) he

theorem reads_consume {k : TokenKind} {f : Position → Parser β} (hk : k ≠ .eof)
    (hf : s.current.token.kind = k → ∀ s₁,
      (f s.current.pos).Reads s₁ fun b ms s' => Q b (s.current :: ms) s') :
    (consume k >>= f).Reads s Q := by
  rw [consume, bind_assoc]
  refine reads_peek ?_
  split
  · rename_i h
    exact reads_advance (h ▸ hk) (hf h)
  · exact reads_refuse_bind _

theorem reads_mark {m : Punct} {f : Position → Parser β}
    (hf : s.current.Is m → ∀ s₁,
      (f s.current.pos).Reads s₁ fun b ms s' => Q b (s.current :: ms) s') :
    (mark m >>= f).Reads s Q :=
  reads_consume (k := .punct m) nofun fun h => hf (Token.kind_eq_punct.1 h)

theorem reads_ident {f : Position × Bytes → Parser β}
    (hf : ∀ n, s.current.Names n → ∀ s₁,
      (f (s.current.pos, n)).Reads s₁ fun b ms s' => Q b (s.current :: ms) s') :
    (ident >>= f).Reads s Q := by
  rw [ident, bind_assoc]
  refine reads_token ?_
  split
  · rename_i n hn
    rw [bind_assoc]
    refine reads_advance (by simp [hn, Token.kind]) fun s₁ => ?_
    rw [pure_bind]
    exact hf n hn s₁
  · exact reads_refuse_bind _

theorem reads_semi {f : Unit → Parser β}
    (hf : ∀ es s₁, IsEnd s₁.atDollar es → (f ()).Reads s₁ fun b ms s' => Q b (es ++ ms) s') :
    (semi >>= f).Reads s Q := by
  rw [semi, bind_assoc]
  refine reads_sees (fun hd => ?_) fun _ => ?_
  · rw [if_pos rfl, pure_bind]
    exact hf [] s (.missing (decide_eq_true hd.kind))
  · rw [if_neg Bool.false_ne_true]
    exact .discard (reads_mark fun hm s₁ => hf [_] s₁ (.semi hm))

end Parser

end Stencil
