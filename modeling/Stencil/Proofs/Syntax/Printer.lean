import Stencil.Proofs.Syntax.Lexemes
import Stencil.Proofs.Syntax.Recognition.Phrases

/-!
# Printing expressions

`Expr.words` writes an expression without templates as the sequence of its tokens, with
parentheses around those operands only that bind less tightly than their place requires, and
`Expr.text` puts a space between each two. The text is read as the same expression up to
positions: `parseExpr_text`.

How tightly an expression binds is its `rank`: that of an assignment is zero, that of a binary
operation the level of its operator, that of a unary operation ten, and that of anything else
eleven. The tokens of an expression are derived in the grammar on the level of its rank; this
is the induction over all trees, and the reader follows from its completeness for the grammar.
-/

namespace Stencil

/-! ### Words -/

/-- A mark. -/
def Word.punct (p : Punct) : Word := ⟨.punct p, Bytes.ofChars p.spelling.toList⟩

/-- A keyword. -/
def Word.keyword (k : Keyword) : Word := ⟨.keyword k, Bytes.ofChars k.spelling.toList⟩

/-- A name. -/
def Word.name (n : Bytes) : Word := ⟨.ident n, n⟩

/-- The token of a literal. -/
def Literal.token : Literal → Token
  | .bool true => .keyword .trueWord
  | .bool false => .keyword .falseWord
  | .int n => .int n
  | .float x => .float x
  | .string s => .string s

/-- A literal with the given spelling. -/
def Word.literal (raw : Bytes) (v : Literal) : Word := ⟨v.token, raw⟩

/-- The mark of a unary operator. -/
def UnaryOp.mark : UnaryOp → Punct
  | .not => .bang
  | .negate => .minus

/-- The mark of a binary operator. -/
def BinaryOp.mark : BinaryOp → Punct
  | .add => .plus
  | .subtract => .minus
  | .multiply => .star
  | .divide => .slash
  | .mod => .percent
  | .logicalAnd => .andAnd
  | .logicalOr => .orOr
  | .xor => .caret
  | .bitAnd => .amp
  | .bitOr => .pipe
  | .equal => .equal
  | .notEqual => .notEqual
  | .greater => .greater
  | .less => .less
  | .greaterEq => .greaterEq
  | .lessEq => .lessEq

@[simp] theorem literal?_token (v : Literal) : Parser.literal? v.token = some v := by
  cases v with
  | bool b => cases b <;> rfl
  | int _ => rfl
  | float _ => rfl
  | string _ => rfl

theorem binaryOp?_mark (op : BinaryOp) : Parser.binaryOp? (.punct op.mark) = some op := by
  cases op <;> rfl

/-! ### Printing -/

namespace Expr

/-- How tightly the expression binds. -/
def rank : Expr → Nat
  | .assign _ _ _ => 0
  | .binary _ _ op _ => op.level
  | .unary _ _ _ => 10
  | _ => 11

/-- The words `ws` of an expression of the given rank, in a place that requires the rank `k`. -/
def within (k rank : Nat) (ws : List Word) : List Word :=
  if rank < k then .punct .lparen :: ws ++ [Word.punct .rparen] else ws

mutual

/-- The words of an expression without templates. -/
def words : Expr → List Word
  | .literal _ raw v => [.literal raw v]
  | .null _ => [.keyword .nullWord]
  | .name _ n => [.name n]
  | .unary _ op x => .punct op.mark :: within 10 x.rank x.words
  | .binary x _ op y =>
    within op.level x.rank x.words ++ .punct op.mark :: within (op.level + 1) y.rank y.words
  | .assign x _ y => within 1 x.rank x.words ++ .punct .assign :: y.words
  | .index x _ xs _ =>
    within 11 x.rank x.words ++ .punct .lbrack :: argWords xs ++ [.punct .rbrack]
  | .member x _ _ n => within 11 x.rank x.words ++ [.punct .dot, .name n]
  | .method x _ _ n _ xs _ =>
    within 11 x.rank x.words ++
      .punct .dot :: .name n :: .punct .lparen :: argWords xs ++ [.punct .rparen]
  | .call _ n _ xs _ => .name n :: .punct .lparen :: argWords xs ++ [.punct .rparen]
  | .new _ t _ xs _ =>
    .keyword .newWord :: t.words ++ .punct .lparen :: argWords xs ++ [.punct .rparen]
  | .list _ xs _ => .punct .lbrack :: argWords xs ++ [.punct .rbrack]
  | .template _ => []

/-- The words of some arguments. -/
def argWords : List Expr → List Word
  | [] => []
  | x :: xs => x.words ++ furtherWords xs

/-- The words of the arguments after the first. -/
def furtherWords : List Expr → List Word
  | [] => []
  | x :: xs => .punct .comma :: x.words ++ furtherWords xs

end

/-- The expression as a text, with a space between each two tokens. -/
def text (x : Expr) : Bytes := spaced x.words

mutual

/-- The expression without its positions. The inside of a template is left as it is. -/
def unplaced : Expr → Expr
  | .literal _ raw v => .literal default raw v
  | .null _ => .null default
  | .name _ n => .name default n
  | .unary _ op x => .unary default op x.unplaced
  | .binary x _ op y => .binary x.unplaced default op y.unplaced
  | .assign x _ y => .assign x.unplaced default y.unplaced
  | .index x _ xs _ => .index x.unplaced default (unplacedAll xs) default
  | .member x _ _ n => .member x.unplaced default default n
  | .method x _ _ n _ xs _ => .method x.unplaced default default n default (unplacedAll xs) default
  | .call _ n _ xs _ => .call default n default (unplacedAll xs) default
  | .new _ t _ xs _ => .new default t.unplaced default (unplacedAll xs) default
  | .list _ xs _ => .list default (unplacedAll xs) default
  | .template b => .template b

/-- Some expressions without their positions. -/
def unplacedAll : List Expr → List Expr
  | [] => []
  | x :: xs => x.unplaced :: unplacedAll xs

end

/-- The expression is a dotted type name. -/
def IsTypePath : Expr → Prop
  | .name _ n => (Word.name n).IsSpelled
  | .member t _ _ n => t.IsTypePath ∧ (Word.name n).IsSpelled
  | _ => False

mutual

/-- The expression has no templates, its names and literals have a spelling, every index holds
an argument, and the types of new values are dotted names. -/
def Printable : Expr → Prop
  | .literal _ raw v => (Word.literal raw v).IsSpelled
  | .null _ => True
  | .name _ n => (Word.name n).IsSpelled
  | .unary _ _ x => x.Printable
  | .binary x _ _ y => x.Printable ∧ y.Printable
  | .assign x _ y => x.Printable ∧ y.Printable
  | .index x _ xs _ => x.Printable ∧ xs ≠ [] ∧ AllPrintable xs
  | .member x _ _ n => x.Printable ∧ (Word.name n).IsSpelled
  | .method x _ _ n _ xs _ => x.Printable ∧ (Word.name n).IsSpelled ∧ AllPrintable xs
  | .call _ n _ xs _ => (Word.name n).IsSpelled ∧ AllPrintable xs
  | .new _ t _ xs _ => t.IsTypePath ∧ AllPrintable xs
  | .list _ xs _ => AllPrintable xs
  | .template _ => False

/-- All of the expressions are printable. -/
def AllPrintable : List Expr → Prop
  | [] => True
  | x :: xs => x.Printable ∧ AllPrintable xs

end

end Expr

/-! ### Every word has a spelling -/

theorem Word.isSpelled_punct {p : Punct} (h : p.IsCode) : (Word.punct p).IsSpelled :=
  ⟨p.spelling.toList, rfl, .punct h⟩

theorem Word.isSpelled_keyword (k : Keyword) : (Word.keyword k).IsSpelled :=
  ⟨k.spelling.toList, rfl, .keyword k⟩

theorem UnaryOp.isCode_mark (op : UnaryOp) : op.mark.IsCode := by
  cases op <;> exact trivial

theorem BinaryOp.isCode_mark (op : BinaryOp) : op.mark.IsCode := by
  cases op <;> exact trivial

/-- All of the words have a spelling. -/
def Spelled (ws : List Word) : Prop := ∀ w ∈ ws, w.IsSpelled

theorem spelled_nil : Spelled [] := fun _ h => absurd h List.not_mem_nil

theorem spelled_cons {w : Word} {ws : List Word} :
    Spelled (w :: ws) ↔ w.IsSpelled ∧ Spelled ws :=
  List.forall_mem_cons

theorem spelled_append {ws vs : List Word} : Spelled (ws ++ vs) ↔ Spelled ws ∧ Spelled vs :=
  List.forall_mem_append

theorem Spelled.punct {p : Punct} {ws : List Word} (h : Spelled ws)
    (hp : p.IsCode := by exact trivial) : Spelled (.punct p :: ws) :=
  spelled_cons.2 ⟨Word.isSpelled_punct hp, h⟩

theorem Spelled.append {ws vs : List Word} (h : Spelled ws) (h' : Spelled vs) :
    Spelled (ws ++ vs) :=
  spelled_append.2 ⟨h, h'⟩

theorem Spelled.close {p : Punct} {ws : List Word} (h : Spelled ws)
    (hp : p.IsCode := by exact trivial) : Spelled (ws ++ [.punct p]) :=
  h.append (spelled_nil.punct hp)

theorem Spelled.within {ws : List Word} (h : Spelled ws) (k rank : Nat) :
    Spelled (Expr.within k rank ws) := by
  unfold Expr.within
  split
  · exact h.punct.close
  · exact h

namespace Expr

theorem spelled_typePath : ∀ {t : Expr}, t.IsTypePath → Spelled t.words
  | .name _ _, h => spelled_cons.2 ⟨h, spelled_nil⟩
  | .member _ _ _ _, h =>
    (spelled_typePath h.1).within _ _ |>.append (spelled_cons.2 ⟨h.2, spelled_nil⟩).punct

mutual

theorem Printable.spelled : ∀ {x : Expr}, x.Printable → Spelled x.words
  | .literal _ _ _, h => spelled_cons.2 ⟨h, spelled_nil⟩
  | .null _, _ => spelled_cons.2 ⟨Word.isSpelled_keyword _, spelled_nil⟩
  | .name _ _, h => spelled_cons.2 ⟨h, spelled_nil⟩
  | .unary _ op x, h => ((Printable.spelled (x := x) h).within _ _).punct op.isCode_mark
  | .binary _ _ op _, h =>
    (h.1.spelled.within _ _).append ((h.2.spelled.within _ _).punct op.isCode_mark)
  | .assign _ _ _, h => (h.1.spelled.within _ _).append h.2.spelled.punct
  | .index _ _ _ _, h => ((h.1.spelled.within _ _).append (spelled_args h.2.2).punct).close
  | .member _ _ _ _, h =>
    (h.1.spelled.within _ _).append (spelled_cons.2 ⟨h.2, spelled_nil⟩).punct
  | .method _ _ _ _ _ _ _, h => by
    refine ((h.1.spelled.within _ _).append ?_).close
    exact (spelled_cons.2 ⟨h.2.1, (spelled_args h.2.2).punct⟩).punct
  | .call _ _ _ _ _, h => (spelled_cons.2 ⟨h.1, (spelled_args h.2).punct⟩).close
  | .new _ _ _ _ _, h =>
    ((spelled_cons.2 ⟨Word.isSpelled_keyword _, spelled_typePath h.1⟩).append
      (spelled_args h.2).punct).close
  | .list _ xs _, h => (spelled_args (show AllPrintable xs from h)).punct.close

theorem spelled_args : ∀ {xs : List Expr}, AllPrintable xs → Spelled (argWords xs)
  | [], _ => spelled_nil
  | _ :: _, h => h.1.spelled.append (spelled_further h.2)

theorem spelled_further : ∀ {xs : List Expr}, AllPrintable xs → Spelled (furtherWords xs)
  | [], _ => spelled_nil
  | _ :: _, h => (h.1.spelled.append (spelled_further h.2)).punct

end

end Expr

/-! ### What is written is derived -/

theorem Lexeme.token_eq {l : Lexeme} {w : Word} (h : l.key = w.key) : l.token = w.token :=
  congrArg Prod.fst h

theorem Lexeme.is_of_key {l : Lexeme} {p : Punct} (h : l.key = (Word.punct p).key) : l.Is p :=
  l.token_eq h

theorem Lexeme.names_of_key {l : Lexeme} {n : Bytes} (h : l.key = (Word.name n).key) :
    l.Names n :=
  l.token_eq h

theorem Lexeme.literal_of_key {l : Lexeme} {raw : Bytes} {v : Literal}
    (h : l.key = (Word.literal raw v).key) :
    Parser.literal? l.token = some v ∧ l.raw = raw := by
  have ht : l.token = v.token := l.token_eq h
  simpa [Lexeme.key, Word.key, Token.key, Word.literal, ht] using h

/-- Lexemes that end with a mark. -/
theorem writes_close {ls : List Lexeme} {ws : List Word} {p : Punct} :
    Writes ls (ws ++ [.punct p]) → ∃ ms l, ls = ms ++ [l] ∧ Writes ms ws ∧ l.Is p := by
  intro h
  obtain ⟨ms, ks, rfl, hms, hks⟩ := writes_append.1 h
  obtain ⟨l, ks, rfl, hl, hks⟩ := writes_cons.1 hks
  obtain rfl := writes_nil.1 hks
  exact ⟨ms, l, rfl, hms, Lexeme.is_of_key hl⟩

/-- Lexemes that start with a mark. -/
theorem writes_punct {ls : List Lexeme} {ws : List Word} {p : Punct} :
    Writes ls (.punct p :: ws) → ∃ l ms, ls = l :: ms ∧ l.Is p ∧ Writes ms ws := by
  intro h
  obtain ⟨l, ms, rfl, hl, hms⟩ := writes_cons.1 h
  exact ⟨l, ms, rfl, Lexeme.is_of_key hl, hms⟩

/-- The lexemes are an expression that binds at least as tightly as the rank `k`. -/
inductive BindsAt : Nat → List Lexeme → Expr → Prop where
  | expr {ls x} : IsExpr .accepted ls x → BindsAt 0 ls x
  | level {k ls x} : 1 ≤ k → k ≤ 9 → IsLevel .accepted k ls x → BindsAt k ls x
  | unary {ls x} : IsUnary .accepted ls x → BindsAt 10 ls x
  | selected {ls x} : IsPostfix .accepted ls x → BindsAt 11 ls x

namespace BindsAt

variable {j k : Nat} {ls : List Lexeme} {x : Expr}

theorem isUnary (h : BindsAt k ls x) (hk : 10 ≤ k) : IsUnary .accepted ls x := by
  cases h with
  | expr _ => omega
  | level _ _ _ => omega
  | unary h => exact h
  | selected h => exact .operand h

theorem isLevel (h : BindsAt j ls x) (hk : 1 ≤ k) (hk' : k ≤ 9) (hj : k ≤ j) :
    IsLevel .accepted k ls x := by
  by_cases h10 : 10 ≤ j
  · exact .weaken (.unary (h.isUnary h10)) (by omega)
  · cases h with
    | expr _ => omega
    | level _ _ h => exact h.weaken hj
    | unary _ => omega
    | selected _ => omega

theorem isExpr (h : BindsAt k ls x) : IsExpr .accepted ls x := by
  by_cases hk : 1 ≤ k
  · exact .level (h.isLevel (Nat.le_refl 1) (by decide) hk)
  · cases h with
    | expr h => exact h
    | level _ _ _ => omega
    | unary _ => omega
    | selected _ => omega

theorem isPostfix (h : BindsAt 11 ls x) : IsPostfix .accepted ls x := by
  cases h with
  | level _ _ _ => omega
  | selected h => exact h

/-- An expression may stand where a lower rank is required. -/
theorem weaken (h : BindsAt j ls x) (hk : k ≤ j) : BindsAt k ls x := by
  have hj : j ≤ 11 := by cases h <;> omega
  obtain rfl | ⟨h1, h9⟩ | rfl | rfl : k = 0 ∨ (1 ≤ k ∧ k ≤ 9) ∨ k = 10 ∨ k = 11 := by omega
  · exact .expr h.isExpr
  · exact .level h1 h9 (h.isLevel h1 h9 hk)
  · exact .unary (h.isUnary hk)
  · obtain rfl : j = 11 := by omega
    exact h

theorem primary (h : IsPrimary .accepted ls x) : BindsAt 11 ls x := .selected (.primary h)

end BindsAt

namespace Expr

/-- Whatever is written as `ws` is derived as the expression, up to positions, on the rank `k`. -/
def Derives (ws : List Word) (k : Nat) (x : Expr) : Prop :=
  ∀ ls, Writes ls ws → ∃ y, BindsAt k ls y ∧ y.unplaced = x.unplaced

variable {ws : List Word} {k : Nat} {x : Expr}

/-- In its place an expression is derived on the rank that the place requires. -/
theorem Derives.within (h : Derives ws x.rank x) (hk : k ≤ 11) :
    Derives (within k x.rank ws) k x := by
  intro ls hls
  unfold Expr.within at hls
  split at hls
  · obtain ⟨ms, rp, rfl, hms, hrp⟩ := writes_close hls
    obtain ⟨lp, ms, rfl, hlp, hms⟩ := writes_punct hms
    obtain ⟨y, hy, hxy⟩ := h ms hms
    exact ⟨y, (BindsAt.primary (.paren hlp hy.isExpr hrp)).weaken hk, hxy⟩
  · obtain ⟨y, hy, hxy⟩ := h ls hls
    exact ⟨y, hy.weaken (by omega), hxy⟩

/-- The base of an index or a selection. -/
theorem Derives.base {ls : List Lexeme} (h : Derives ws x.rank x)
    (hls : Writes ls (Expr.within 11 x.rank ws)) :
    ∃ y, IsPostfix .accepted ls y ∧ y.unplaced = x.unplaced := by
  obtain ⟨y, hy, hxy⟩ := h.within (Nat.le_refl 11) ls hls
  exact ⟨y, hy.isPostfix, hxy⟩

theorem derives_typePath : ∀ {t : Expr}, t.IsTypePath → ∀ {ls}, Writes ls t.words →
    ∃ u, IsTypeName ls u ∧ u.unplaced = t.unplaced
  | .name _ n, _, ks, hks => by
    obtain ⟨l, ms, rfl, hl, hms⟩ := writes_cons.1 hks
    obtain rfl := writes_nil.1 hms
    exact ⟨_, .name (Lexeme.names_of_key hl), by simp [unplaced]⟩
  | .member t _ _ n, h, ks, hks => by
    have hrank : t.rank = 11 := by
      cases t <;> first | rfl | exact h.1.elim
    simp only [words, Expr.within, hrank, Nat.lt_irrefl, if_false] at hks
    obtain ⟨ts, ms, rfl, hts, hms⟩ := writes_append.1 hks
    obtain ⟨dot, ms, rfl, hdot, hms⟩ := writes_punct hms
    obtain ⟨l, ms, rfl, hl, hms⟩ := writes_cons.1 hms
    obtain rfl := writes_nil.1 hms
    obtain ⟨u, hu, hut⟩ := derives_typePath h.1 hts
    exact ⟨_, .member hu hdot (Lexeme.names_of_key hl), by simp [unplaced, hut]⟩

mutual

/-- The words of an expression are derived on the level of its rank. -/
theorem Printable.derives : ∀ {x : Expr}, x.Printable → Derives x.words x.rank x
  | .literal _ raw v, _, ks, hks => by
    obtain ⟨l, ms, rfl, hl, hms⟩ := writes_cons.1 hks
    obtain rfl := writes_nil.1 hms
    obtain ⟨hv, hraw⟩ := Lexeme.literal_of_key hl
    exact ⟨_, .primary (.literal hv), by simp [unplaced, hraw]⟩
  | .null _, _, ks, hks => by
    obtain ⟨l, ms, rfl, hl, hms⟩ := writes_cons.1 hks
    obtain rfl := writes_nil.1 hms
    exact ⟨_, .primary (.null (l.token_eq hl)), by simp [unplaced]⟩
  | .name _ n, _, ks, hks => by
    obtain ⟨l, ms, rfl, hl, hms⟩ := writes_cons.1 hks
    obtain rfl := writes_nil.1 hms
    exact ⟨_, .primary (.name (Lexeme.names_of_key hl)), by simp [unplaced]⟩
  | .unary _ op x, h, ks, hks => by
    obtain ⟨l, ms, rfl, hl, hms⟩ := writes_punct hks
    obtain ⟨y, hy, hxy⟩ := (Printable.derives (x := x) h).within (by decide) ms hms
    have hy := hy.isUnary (Nat.le_refl 10)
    cases op with
    | not => exact ⟨_, .unary (.not hl hy), by simp [unplaced, hxy]⟩
    | negate => exact ⟨_, .unary (.negate hl hy), by simp [unplaced, hxy]⟩
  | .binary x _ op z, h, ks, hks => by
    obtain ⟨hlow, hhigh⟩ := binaryOp_level op
    obtain ⟨ls, ms, rfl, hls, hms⟩ := writes_append.1 hks
    obtain ⟨l, ms, rfl, hl, hms⟩ := writes_punct hms
    obtain ⟨y, hy, hxy⟩ := (Printable.derives h.1).within (by omega) ls hls
    obtain ⟨w, hw, hzw⟩ := (Printable.derives h.2).within (by omega) ms hms
    have hop : l.IsOperator op := by
      rw [Lexeme.IsOperator, hl.kind]
      exact binaryOp?_mark op
    have hright : IsLevel .accepted (op.level + 1) ms w := by
      obtain h9 | h9 : op.level + 1 ≤ 9 ∨ op.level + 1 = 10 := by omega
      · exact hw.isLevel (by omega) h9 (Nat.le_refl _)
      · rw [h9]
        exact .unary (hw.isUnary (by omega))
    exact ⟨_, .level hlow hhigh (.binary (hy.isLevel hlow hhigh (Nat.le_refl _)) hop hright),
      by simp [unplaced, hxy, hzw]⟩
  | .assign x _ z, h, ks, hks => by
    obtain ⟨ls, ms, rfl, hls, hms⟩ := writes_append.1 hks
    obtain ⟨l, ms, rfl, hl, hms⟩ := writes_punct hms
    obtain ⟨y, hy, hxy⟩ := (Printable.derives h.1).within (by decide) ls hls
    obtain ⟨w, hw, hzw⟩ := Printable.derives h.2 ms hms
    exact ⟨_, .expr (.assign (hy.isLevel (Nat.le_refl 1) (by decide) (Nat.le_refl 1)) hl hw.isExpr),
      by simp [unplaced, hxy, hzw]⟩
  | .index x _ xs _, h, ks, hks => by
    obtain ⟨bs, rb, rfl, hbs, hrb⟩ := writes_close hks
    obtain ⟨ls, ms, rfl, hls, hms⟩ := writes_append.1 hbs
    obtain ⟨lb, ms, rfl, hlb, hms⟩ := writes_punct hms
    obtain ⟨y, hy, hxy⟩ := (Printable.derives h.1).base hls
    obtain ⟨ys, hys, hxs⟩ := derives_args h.2.2 hms
    have hne : ys ≠ [] := by
      rintro rfl
      cases xs with
      | nil => exact h.2.1 rfl
      | cons _ _ => cases hxs
    exact ⟨_, .selected (.index hy hlb hys (fun _ => hne) hrb), by simp [unplaced, hxy, hxs]⟩
  | .member x _ _ n, h, ks, hks => by
    obtain ⟨ls, ms, rfl, hls, hms⟩ := writes_append.1 hks
    obtain ⟨dot, ms, rfl, hdot, hms⟩ := writes_punct hms
    obtain ⟨l, ms, rfl, hl, hms⟩ := writes_cons.1 hms
    obtain rfl := writes_nil.1 hms
    obtain ⟨y, hy, hxy⟩ := (Printable.derives h.1).base hls
    exact ⟨_, .selected (.member hy hdot (Lexeme.names_of_key hl)), by simp [unplaced, hxy]⟩
  | .method x _ _ n _ xs _, h, ks, hks => by
    obtain ⟨bs, rp, rfl, hbs, hrp⟩ := writes_close hks
    obtain ⟨ls, ms, rfl, hls, hms⟩ := writes_append.1 hbs
    obtain ⟨dot, ms, rfl, hdot, hms⟩ := writes_punct hms
    obtain ⟨l, ms, rfl, hl, hms⟩ := writes_cons.1 hms
    obtain ⟨lp, ms, rfl, hlp, hms⟩ := writes_punct hms
    obtain ⟨y, hy, hxy⟩ := (Printable.derives h.1).base hls
    obtain ⟨ys, hys, hxs⟩ := derives_args h.2.2 hms
    exact ⟨_, .selected (.method hy hdot (Lexeme.names_of_key hl) hlp hys hrp),
      by simp [unplaced, hxy, hxs]⟩
  | .call _ n _ xs _, h, ks, hks => by
    obtain ⟨bs, rp, rfl, hbs, hrp⟩ := writes_close hks
    obtain ⟨l, ms, rfl, hl, hms⟩ := writes_cons.1 hbs
    obtain ⟨lp, ms, rfl, hlp, hms⟩ := writes_punct hms
    obtain ⟨ys, hys, hxs⟩ := derives_args h.2 hms
    exact ⟨_, .primary (.call (Lexeme.names_of_key hl) hlp hys hrp), by simp [unplaced, hxs]⟩
  | .new _ t _ xs _, h, ks, hks => by
    obtain ⟨bs, rp, rfl, hbs, hrp⟩ := writes_close hks
    obtain ⟨ls, ms, rfl, hls, hms⟩ := writes_append.1 hbs
    obtain ⟨l, ts, rfl, hl, hts⟩ := writes_cons.1 hls
    obtain ⟨lp, ms, rfl, hlp, hms⟩ := writes_punct hms
    obtain ⟨u, hu, htu⟩ := derives_typePath h.1 hts
    obtain ⟨ys, hys, hxs⟩ := derives_args h.2 hms
    exact ⟨_, .primary (.new (l.token_eq hl) hu hlp hys hrp), by simp [unplaced, htu, hxs]⟩
  | .list _ xs _, h, ks, hks => by
    obtain ⟨bs, rb, rfl, hbs, hrb⟩ := writes_close hks
    obtain ⟨lb, ms, rfl, hlb, hms⟩ := writes_punct hbs
    obtain ⟨ys, hys, hxs⟩ := derives_args (show AllPrintable xs from h) hms
    exact ⟨_, .primary (.list hlb hys hrb), by simp [unplaced, hxs]⟩

theorem derives_args : ∀ {xs : List Expr}, AllPrintable xs → ∀ {ls}, Writes ls (argWords xs) →
    ∃ ys, IsArgs .accepted ls ys ∧ unplacedAll ys = unplacedAll xs
  | [], _, ks, hks => by
    obtain rfl := writes_nil.1 hks
    exact ⟨[], .none, rfl⟩
  | x :: xs, h, ks, hks => by
    obtain ⟨ls, ms, rfl, hls, hms⟩ := writes_append.1 hks
    obtain ⟨y, hy, hxy⟩ := Printable.derives h.1 ls hls
    obtain ⟨ys, hys, hxs⟩ := derives_further h.2 hy.isExpr hms
    exact ⟨y :: ys, .some hys, by simp [unplacedAll, hxy, hxs]⟩

theorem derives_further : ∀ {xs : List Expr}, AllPrintable xs → ∀ {ls y},
    IsExpr .accepted ls y → ∀ {ms}, Writes ms (furtherWords xs) →
    ∃ ys, IsExprs .accepted (ls ++ ms) (y :: ys) ∧ unplacedAll ys = unplacedAll xs
  | [], _, ls, y, hy, ks, hks => by
    obtain rfl := writes_nil.1 hks
    rw [List.append_nil]
    exact ⟨[], .one hy, rfl⟩
  | x :: xs, h, ls, y, hy, ks, hks => by
    obtain ⟨ns, ms, rfl, hns, hms⟩ := writes_append.1 hks
    obtain ⟨c, ns, rfl, hc, hns⟩ := writes_punct hns
    obtain ⟨z, hz, hxz⟩ := Printable.derives h.1 ns hns
    obtain ⟨ys, hys, hxs⟩ := derives_further h.2 hz.isExpr hms
    exact ⟨z :: ys, .more hy hc hys, by simp [unplacedAll, hxz, hxs]⟩

end

end Expr

/-! ### What is written is read -/

open TokenStream Stencil.Parser in
/-- A text that consists of an expression is read as that expression. -/
theorem parseExpr_of_isExpr {file src : Bytes} {ls : List Lexeme} {e : Lexeme} {x : Expr}
    (hs : scan file src = ⟨ls ++ [e], none⟩) (he : e.token = .eof) (hx : IsExpr .accepted ls x) :
    parseExpr file src = .ok x := by
  let left : TokenStream := ⟨e, [], none⟩
  have hscan : scan file src = ⟨(ls ++ left).lexemes, (ls ++ left).fault⟩ := by
    rw [hs, lexemes_append, fault_append]
    rfl
  have hkind : left.current.token.kind = .eof := Token.kind_eq_eof.2 he
  have hlen : ls.length = (ls ++ left).rest.length := by
    have h : (ls ++ left).lexemes = ls ++ left.lexemes := lexemes_append
    simpa [TokenStream.lexemes, left] using (congrArg List.length h).symm
  refine run_eq_ok.2 ⟨_, left, hscan, ?_⟩
  refine (expr_yields hx (not_continues (by rw [hkind]; rfl)) (by omega)).bind ?_
  refine .unseen (fun h => ?_) (.peek hkind yields_pure)
  cases he.symm.trans h

/-- Printing is undone by reading: the text of an expression is read as that expression, up to
positions. -/
theorem parseExpr_text (file : Bytes) {x : Expr} (h : x.Printable) :
    ∃ y, parseExpr file x.text = .ok y ∧ y.unplaced = x.unplaced := by
  obtain ⟨ls, e, hs, he, hls⟩ := scan_spaced file h.spelled
  obtain ⟨y, hy, hxy⟩ := h.derives ls hls
  exact ⟨y, parseExpr_of_isExpr hs he hy.isExpr, hxy⟩

/-- A difference whose right operand is a difference, which is in parentheses, and whose left
operand is the negation of a method call. -/
theorem parseExpr_text_difference :
    let x : Expr := .binary
      (.unary default .negate (.method (.name default "a") default default "f" default
        [.list default [.name default "b"] default, .null default] default))
      default .subtract
      (.binary (.name default "b") default .subtract (.literal default "1" (.int 1)))
    x.text = "- a . f ( [ b ] , null ) - ( b - 1 )" ∧
      ∃ y, parseExpr "t" x.text = .ok y ∧ y.unplaced = x.unplaced := by
  intro x
  have name {n : Bytes} (c : Char) (hn : n = Bytes.ofChars [c]) (hc : isNameStart c = true)
      (hk : Keyword.ofChars? [c] = none) : (Word.name n).IsSpelled := by
    subst hn
    exact ⟨[c], rfl, .name (.of_all hc rfl) hk⟩
  have ha : (Word.name "a").IsSpelled := name 'a' (by decide_cbv) (by decide) (by decide)
  have hb : (Word.name "b").IsSpelled := name 'b' (by decide_cbv) (by decide) (by decide)
  have hf : (Word.name "f").IsSpelled := name 'f' (by decide_cbv) (by decide) (by decide)
  have one : (Word.literal "1" (.int 1)).IsSpelled :=
    ⟨['1'], by decide_cbv, .int ⟨List.cons_ne_nil _ _, List.all_eq_true.1 rfl⟩ (by decide)⟩
  refine ⟨by decide_cbv, parseExpr_text "t" ⟨⟨ha, hf, ⟨hb, trivial⟩, trivial, trivial⟩, hb, one⟩⟩

end Stencil
