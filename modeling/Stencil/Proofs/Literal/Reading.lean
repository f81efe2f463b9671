import Mathlib
import Stencil.Proofs.Literal.Plain
import Stencil.Proofs.Source.Templates
import Stencil.Proofs.Syntax.Cut.Readers
import Stencil.Proofs.Text.Quoted

/-!
# Reading a literal form

The literal form of plain data is read as an expression that denotes them, unless the least integer
is among them: its digits stand after a minus sign and are out of range on their own. Then reading
stops at these digits, and the text is refused for them.
-/

namespace Stencil

open Plain

/-! ### How data are written -/

namespace Plain

/-- The integer is part of the tree. -/
inductive Contains (n : Int64) : Plain → Prop where
  | int : Contains n (.int n)
  | list {d ds} : d ∈ ds → Contains n d → Contains n (.list ds)

theorem contains_list {n : Int64} {ds : List Plain} :
    Contains n (.list ds) ↔ ∃ d ∈ ds, Contains n d := by
  constructor
  · intro h
    cases h with
    | list hd hc => exact ⟨_, hd, hc⟩
  · rintro ⟨d, hd, hc⟩
    exact .list hd hc

theorem contains_int {n m : Int64} : Contains n (.int m) ↔ n = m := by
  constructor
  · intro h
    cases h
    rfl
  · rintro rfl
    exact .int

/-- The word for a truth value. -/
def wordOf (b : Bool) : Keyword := if b then .trueWord else .falseWord

mutual

/-- How a tree is spelled. -/
inductive Spelled : Plain → List Char → Prop where
  | null : Spelled .null Keyword.nullWord.spelling.toList
  | bool (b) : Spelled (.bool b) (wordOf b).spelling.toList
  | natural {n : Int64} {m : Nat} : n.toInt = m → Spelled (.int n) (Nat.toDigits 10 m)
  | negative {n : Int64} {m : Nat} : n.toInt = -m → Spelled (.int n) ('-' :: Nat.toDigits 10 m)
  | string {b body} : IsQuotable '"' body → unquoteBody? '"' body = some b →
      Spelled (.string b) ('"' :: body ++ ['"'])
  | list {ds cs} : SpelledAll ds cs → Spelled (.list ds) ('[' :: cs ++ [']'])

/-- How the elements of a list are spelled. -/
inductive SpelledAll : List Plain → List Char → Prop where
  | nil : SpelledAll [] []
  | one {d cs} : Spelled d cs → SpelledAll [d] cs
  | more {d cs ds es} : Spelled d cs → ds ≠ [] → SpelledAll ds es →
      SpelledAll (d :: ds) (cs ++ ',' :: ' ' :: es)

end

theorem ofInt_spelled (n : Int64) : ∃ cs, Bytes.ofInt n.toInt = Bytes.ofChars cs ∧
    Spelled (.int n) cs := by
  unfold Bytes.ofInt
  split
  · refine ⟨_, ?_, .negative (m := n.toInt.natAbs) (by omega)⟩
    rw [ofString_eq_ofChars, ofNat_eq_ofChars, ← ofChars_append]
    rfl
  · exact ⟨_, ofNat_eq_ofChars _, .natural (by omega)⟩

mutual

theorem text_spelled : ∀ d : Plain, ∃ cs, d.text = Bytes.ofChars cs ∧ Spelled d cs
  | .null => ⟨_, ofString_eq_ofChars _, .null⟩
  | .bool true => ⟨_, ofString_eq_ofChars _, .bool true⟩
  | .bool false => ⟨_, ofString_eq_ofChars _, .bool false⟩
  | .int n => ofInt_spelled n
  | .string b => by
    obtain ⟨body, htext, hbody, hb⟩ := quote_eq_ofChars b
    exact ⟨_, htext, .string hbody hb⟩
  | .list ds => by
    obtain ⟨cs, htexts, hcs⟩ := texts_spelled ds
    refine ⟨'[' :: cs ++ [']'], ?_, .list hcs⟩
    rw [text, htexts, ofString_eq_ofChars, ofString_eq_ofChars, ← ofChars_append, ← ofChars_append]
    rfl

theorem texts_spelled : ∀ ds : List Plain,
    ∃ cs, Bytes.join ", " (texts ds) = Bytes.ofChars cs ∧ SpelledAll ds cs
  | [] => ⟨[], rfl, .nil⟩
  | [d] => by
    obtain ⟨cs, htext, hcs⟩ := text_spelled d
    exact ⟨cs, by simpa [texts, Bytes.join] using htext, .one hcs⟩
  | d :: e :: ds => by
    obtain ⟨cs, htext, hcs⟩ := text_spelled d
    obtain ⟨es, htexts, hes⟩ := texts_spelled (e :: ds)
    refine ⟨cs ++ ',' :: ' ' :: es, ?_, .more hcs (List.cons_ne_nil e ds) hes⟩
    have hsep : Bytes.ofString ", " = Bytes.ofChars [',', ' '] := ofString_eq_ofChars _
    have hjoin : Bytes.join ", " (texts (d :: e :: ds)) =
        d.text ++ (Bytes.ofString ", " ++ Bytes.join ", " (texts (e :: ds))) := by
      simp [texts, Bytes.join]
    rw [hjoin, htext, htexts, hsep, ← ofChars_append, ← ofChars_append]
    rfl

end

end Plain

/-! ### What an expression denotes -/

mutual

/-- The expression is one for the tree. -/
inductive Expr.Denotes : Expr → Plain → Prop where
  | null {p} : Expr.Denotes (.null p) .null
  | bool {p raw b} : Expr.Denotes (.literal p raw (.bool b)) (.bool b)
  | int {p raw n} : Expr.Denotes (.literal p raw (.int n)) (.int n)
  | negative {p q raw n} :
      Expr.Denotes (.unary p .negate (.literal q raw (.int n))) (.int (-n))
  | string {p raw b} : Expr.Denotes (.literal p raw (.string b)) (.string b)
  | list {p xs q ds} : DenoteAll xs ds → Expr.Denotes (.list p xs q) (.list ds)

/-- The expressions are those for the trees, one by one. -/
inductive DenoteAll : List Expr → List Plain → Prop where
  | nil : DenoteAll [] []
  | cons {x d xs ds} : Expr.Denotes x d → DenoteAll xs ds → DenoteAll (x :: xs) (d :: ds)

end

/-! ### Tokens of a literal form -/

/-- The lexemes that are read on the way from one place of a text to another. -/
inductive LexRun : ScanPoint → List Lexeme → ScanPoint → Prop where
  | nil {c} : LexRun c [] c
  | cons {c d c' l ls} : c.next = .ok (l, d) → l.token ≠ .eof → LexRun d ls c' →
      LexRun c (l :: ls) c'

namespace LexRun

variable {c d e : ScanPoint} {ls ms : List Lexeme} {s : Scan}

theorem append (h : LexRun c ls d) (h' : LexRun d ms e) : LexRun c (ls ++ ms) e := by
  induction h with
  | nil => exact h'
  | cons hn hne _ ih => exact .cons hn hne (ih h')

theorem lexes (h : LexRun c ls d) (hs : Lexes d s) : Lexes c ⟨ls ++ s.lexemes, s.fault⟩ := by
  induction h with
  | nil => exact hs
  | cons hn hne _ ih => exact .cons hn hne (ih hs)

theorem live (h : LexRun c ls d) : ∀ l ∈ ls, l.token ≠ .eof := by
  induction h with
  | nil =>
    intro l hl
    cases hl
  | cons _ hne _ ih =>
    rintro l (_ | ⟨_, hl⟩)
    · exact hne
    · exact ih l hl

/-- The first lexeme may be read from another place. -/
theorem of_next (h : LexRun c ls d) (hne : ls ≠ []) (hn : e.next = c.next) : LexRun e ls d := by
  cases h with
  | nil => exact absurd rfl hne
  | cons hc hl hrest => exact .cons (hn.trans hc) hl hrest

end LexRun

/-- Lexemes are read until a token is met that is none. -/
def LexFault (c : ScanPoint) (ls : List Lexeme) (e : SyntaxError) : Prop :=
  ∃ d : ScanPoint, LexRun c ls d ∧ d.next = .error e

namespace LexFault

variable {c d : ScanPoint} {ls ms : List Lexeme} {e : SyntaxError}

theorem after (h : LexRun c ls d) (h' : LexFault d ms e) : LexFault c (ls ++ ms) e := by
  obtain ⟨d', hrun, hn⟩ := h'
  exact ⟨d', h.append hrun, hn⟩

theorem of_next (h : LexFault c ls e) (hn : d.next = c.next) : LexFault d ls e := by
  obtain ⟨d', hrun, hd'⟩ := h
  cases hrun with
  | nil => exact ⟨d, .nil, hn.trans hd'⟩
  | cons hc hl hrest => exact ⟨d', .cons (hn.trans hc) hl hrest, hd'⟩

theorem lexes (h : LexFault c ls e) : Lexes c ⟨ls, some e⟩ := by
  obtain ⟨d, hrun, hn⟩ := h
  simpa using hrun.lexes (.fault hn)

end LexFault

/-- A place in code outside of templates. -/
abbrev codePoint (rest : List Glyph) (p : Position) : ScanPoint := ⟨rest, p, [.code]⟩

theorem next_space (rest : List Glyph) (p : Position) :
    (codePoint (.char ' ' :: rest) p).next = (codePoint rest (p.advance (.char ' '))).next := rfl

theorem next_of_skip {gs : List Glyph} {p : Position} (h : skipGap .blanks p gs = .ok (p, gs)) :
    (codePoint gs p).next = scanCode (codePoint gs p) := by
  show (skipGap .blanks p gs >>= _) = _
  rw [h]
  rfl

/-- The marks of a literal form are marks whatever follows them. -/
theorem next_mark {c : Char} {m : Punct}
    (h : (c, m) ∈ [('[', Punct.lbrack), (']', .rbrack), (',', .comma), ('-', .minus)])
    (rest : List Glyph) (p : Position) :
    (codePoint (.char c :: rest) p).next = .ok (⟨.punct m, p, []⟩, codePoint rest (p.right 1)) := by
  have hdouble (d : Char) : doublePunct? c d = none := by
    simp only [List.mem_cons, Prod.mk.injEq, List.not_mem_nil, or_false] at h
    obtain ⟨rfl, -⟩ | ⟨rfl, -⟩ | ⟨rfl, -⟩ | ⟨rfl, -⟩ := h <;> simp [doublePunct?]
  have hlead : leadingPunct? c rest = (singlePunct? c).map fun p => (p, 1) := by
    unfold leadingPunct?
    cases rest with
    | nil => rfl
    | cons g rest =>
      cases g with
      | char d => simp [hdouble]
      | stray b => rfl
  simp only [List.mem_cons, Prod.mk.injEq, List.not_mem_nil, or_false] at h
  obtain ⟨rfl, rfl⟩ | ⟨rfl, rfl⟩ | ⟨rfl, rfl⟩ | ⟨rfl, rfl⟩ := h <;>
    rw [next_of_skip (by simp [skipGap, Glyph.isGap]), scanCode.eq_def] <;>
    simp [hlead, isNameStart, Decimal.isDigit, singlePunct?]

/-- What may follow an element: the end of the text, a comma or a bracket. -/
def EndsElement (rest : List Glyph) : Prop :=
  ∀ g, rest.head? = some g → g = .char ',' ∨ g = .char ']'

namespace EndsElement

variable {rest : List Glyph}

theorem nil : EndsElement [] := by
  intro g hg
  cases hg

theorem comma (rest : List Glyph) : EndsElement (.char ',' :: rest) :=
  fun _ hg => .inl (Option.some.inj hg).symm

theorem bracket (rest : List Glyph) : EndsElement (.char ']' :: rest) :=
  fun _ hg => .inr (Option.some.inj hg).symm

theorem endsNumber (h : EndsElement rest) : EndsNumber rest := by
  intro g hg
  obtain rfl | rfl := h g hg <;> exact ⟨rfl, by simp, by simp, by simp⟩

theorem not_namePart (h : EndsElement rest) (g : Glyph) (hg : rest.head? = some g) :
    g.isNamePart = false := by
  obtain rfl | rfl := h g hg <;> rfl

end EndsElement

section

variable {rest : List Glyph}

theorem next_keyword (hr : EndsElement rest) (k : Keyword) (p : Position) :
    ∃ raw p', (codePoint (k.spelling.toList.map .char ++ rest) p).next =
      .ok (⟨.keyword k, p, raw⟩, codePoint rest p') := by
  have hskip : skipGap .blanks p (k.spelling.toList.map .char ++ rest) =
      .ok (p, k.spelling.toList.map .char ++ rest) := by
    have hword := k.isWord
    generalize k.spelling.toList = cs at hword ⊢
    obtain ⟨hc, _⟩ := hword
    exact skipGap_char hc (by decide) p _
  have hscan := scanCode_word (t := .keyword k) k.isWord (by rw [k.ofChars?_spelling])
    hr.not_namePart p [.code]
  exact ⟨_, _, (next_of_skip hskip).trans hscan⟩

theorem skipGap_toDigits (m : Nat) (p : Position) (rest : List Glyph) :
    skipGap .blanks p ((Nat.toDigits 10 m).map .char ++ rest) =
      .ok (p, (Nat.toDigits 10 m).map .char ++ rest) := by
  obtain ⟨c, cs, hc⟩ := List.exists_cons_of_ne_nil (isDigits_toDigits m).1
  have hdigit := (isDigits_toDigits m).2 c (hc ▸ List.mem_cons_self)
  rw [hc]
  exact skipGap_char hdigit (by decide) p _

/-- The numeral of a number that fits. -/
theorem next_toDigits (hr : EndsElement rest) {m : Nat} (hm : m < 2 ^ 63) (p : Position) :
    ∃ raw p', (codePoint ((Nat.toDigits 10 m).map .char ++ rest) p).next =
      .ok (⟨.int (Int64.ofNat m), p, raw⟩, codePoint rest p') := by
  have hnumber := scanNumber_fits p (isDigits_toDigits m) (by rwa [digitsValue_toDigits])
    hr.endsNumber
  rw [digitsValue_toDigits] at hnumber
  have hscan := scanCode_number (isDigits_toDigits m) hnumber [.code]
  exact ⟨_, _, (next_of_skip (skipGap_toDigits m p rest)).trans hscan⟩

theorem readInt_over {ds : List Char} (h : IsDigits ds) (hn : 2 ^ 63 ≤ Decimal.digitsValue ds) :
    Decimal.readInt ds = .error .outOfRange := by
  obtain ⟨hne, hall⟩ := h
  obtain ⟨c, cs, rfl⟩ := List.exists_cons_of_ne_nil hne
  have hc := hall c List.mem_cons_self
  have hdigits : (c :: cs).all Decimal.isDigit = true := List.all_eq_true.2 hall
  have hpow : Nat.pow 2 63 = 2 ^ 63 := rfl
  have hfits : Decimal.fitsInt64 (Decimal.digitsValue (c :: cs)) = false := by
    simp only [Decimal.fitsInt64, Decimal.minInt64, Decimal.maxInt64, hpow, Bool.and_eq_false_iff,
      decide_eq_false_iff_not]
    omega
  have hminus : c ≠ '-' := ne_of_digit hc rfl
  have hplus : c ≠ '+' := ne_of_digit hc rfl
  simp [Decimal.readInt, hminus, hplus, hdigits, hfits]

/-- The numeral of a number that does not fit is refused. -/
theorem next_toDigits_over (hr : EndsElement rest) {m : Nat} (hm : 2 ^ 63 ≤ m) (p : Position) :
    (codePoint ((Nat.toDigits 10 m).map .char ++ rest) p).next =
      .error ⟨p, .intOutOfRange (Bytes.ofNat m), false⟩ := by
  have hdigits := isDigits_toDigits m
  have hread := readInt_over hdigits (by rwa [digitsValue_toDigits])
  have hnumber : scanNumber p ((Nat.toDigits 10 m).map .char ++ rest) =
      .error ⟨p, .intOutOfRange (Bytes.ofNat m), false⟩ := by
    rw [scanNumber_whole p hdigits hr.endsNumber]
    simp [finishNumber, glyphChars_map, hread, ofGlyphs_map, ofNat_eq_ofChars]
  rw [next_of_skip (skipGap_toDigits m p rest)]
  obtain ⟨c, cs, hc⟩ := List.exists_cons_of_ne_nil hdigits.1
  have hdigit := hdigits.2 c (hc ▸ List.mem_cons_self)
  rw [hc] at hnumber ⊢
  rw [scanCode.eq_def]
  simp only [List.map_cons, List.cons_append] at hnumber ⊢
  simp [not_nameStart_of_digit hdigit, hdigit, hnumber, Except.map]

end

theorem next_string {body : List Char} {b : Bytes} (h : IsQuotable '"' body)
    (hb : unquoteBody? '"' body = some b) (rest : List Glyph) (p : Position) :
    ∃ raw p', (codePoint (('"' :: body ++ ['"']).map .char ++ rest) p).next =
      .ok (⟨.string b, p, raw⟩, codePoint rest p') :=
  ⟨_, _, (next_of_skip rfl).trans (scanCode_string (.inl rfl) h hb p rest [.code])⟩

/-! ### The lexemes of a literal form -/

mutual

/-- The literal form of a tree without the least integer is an expression for the tree. -/
theorem Plain.Spelled.reads {d : Plain} {cs : List Char} (h : Spelled d cs)
    (hmin : ¬ d.Contains Int64.minValue) {rest : List Glyph} (hr : EndsElement rest)
    (p : Position) :
    ∃ ls x p', LexRun (codePoint (cs.map .char ++ rest) p) ls (codePoint rest p') ∧
      IsUnary .accepted ls x ∧ x.Denotes d := by
  have literal {v : Literal} {t : Token} (hv : Parser.literal? t = some v)
      (hne : t ≠ .eof) (hx : ∀ {q raw}, (Expr.literal q raw v).Denotes d)
      (hn : ∃ raw p', (codePoint (cs.map .char ++ rest) p).next =
        .ok (⟨t, p, raw⟩, codePoint rest p')) :
      ∃ ls x p', LexRun (codePoint (cs.map .char ++ rest) p) ls (codePoint rest p') ∧
        IsUnary .accepted ls x ∧ x.Denotes d := by
    obtain ⟨raw, p', hn⟩ := hn
    exact ⟨_, _, p', .cons hn hne .nil, .operand (.primary (.literal hv)), hx⟩
  cases h with
  | null =>
    obtain ⟨raw, p', hn⟩ := next_keyword hr .nullWord p
    exact ⟨_, _, p', .cons hn (by simp) .nil, .operand (.primary (.null rfl)), .null⟩
  | bool b =>
    refine literal (v := .bool b) (t := .keyword (wordOf b)) ?_ (by simp) .bool
      (next_keyword hr _ p)
    cases b <;> rfl
  | @natural n m hn =>
    have hm : m < 2 ^ 63 := by
      have := n.toInt_lt
      omega
    refine literal (t := .int n) rfl (by simp) .int ?_
    have heq : Int64.ofNat m = n := by
      rw [← Int64.toInt_inj, Int64.toInt_ofNat_of_lt hm, hn]
    exact heq ▸ next_toDigits hr hm p
  | @negative n m hn =>
    have hne : n ≠ Int64.minValue := by
      rintro rfl
      exact hmin .int
    have hm : m < 2 ^ 63 := by
      rw [Ne, ← Int64.toInt_inj, Int64.toInt_minValue, hn] at hne
      have := n.le_toInt
      omega
    obtain ⟨raw, p', hdigits⟩ := next_toDigits hr hm (p.right 1)
    have hminus := next_mark (c := '-') (m := .minus) (by simp)
      ((Nat.toDigits 10 m).map .char ++ rest) p
    refine ⟨_, _, p', .cons hminus (by simp) (.cons hdigits (by simp) .nil),
      .negate rfl (.operand (.primary (.literal rfl))), ?_⟩
    have heq : -Int64.ofNat m = n := by
      rw [← Int64.toInt_inj, Int64.toInt_neg_ofNat_of_le hm.le, hn]
    exact heq ▸ .negative
  | string hbody hb => exact literal rfl (by simp) .string (next_string hbody hb rest p)
  | @list ds cs h =>
    have hopen := next_mark (c := '[') (m := .lbrack) (by simp)
      (cs.map .char ++ .char ']' :: rest) p
    have hclose (q : Position) := next_mark (c := ']') (m := .rbrack) (by simp) rest q
    have htext : ('[' :: cs ++ [']']).map Glyph.char ++ rest =
        .char '[' :: (cs.map .char ++ .char ']' :: rest) := by simp
    rw [htext]
    by_cases hds : ds = []
    · subst hds
      cases h with
      | nil =>
        have hlist : IsPrimary .accepted (⟨.punct .lbrack, p, []⟩ :: ([] : List Lexeme) ++
            [⟨.punct .rbrack, p.right 1, []⟩]) (.list p [] (p.right 1)) := .list rfl .none rfl
        exact ⟨_, _, _, .cons hopen (by simp) (.cons (hclose _) (by simp) .nil),
          .operand (.primary hlist), .list .nil⟩
    · obtain ⟨ls, xs, q, hrun, hxs, hden⟩ := h.reads hds (fun d hd hc => hmin (.list hd hc))
        (.bracket rest) (p.right 1)
      exact ⟨_, _, _, .cons hopen (by simp) (hrun.append (.cons (hclose q) (by simp) .nil)),
        .operand (.primary (.list rfl (.some hxs) rfl)), .list hden⟩

/-- The elements of a list that is not empty. -/
theorem Plain.SpelledAll.reads {ds : List Plain} {cs : List Char} (h : SpelledAll ds cs)
    (hne : ds ≠ []) (hmin : ∀ d ∈ ds, ¬ d.Contains Int64.minValue) {rest : List Glyph}
    (hr : EndsElement rest) (p : Position) :
    ∃ ls xs p', LexRun (codePoint (cs.map .char ++ rest) p) ls (codePoint rest p') ∧
      IsExprs .accepted ls xs ∧ DenoteAll xs ds := by
  cases h with
  | nil => exact absurd rfl hne
  | @one d cs h =>
    obtain ⟨ls, x, q, hrun, hx, hden⟩ := h.reads (hmin d List.mem_cons_self) hr p
    exact ⟨ls, [x], q, hrun, .one (BindsAt.unary hx).isExpr, .cons hden .nil⟩
  | @more d cs ds es h hds hs =>
    obtain ⟨ls, x, q, hrun, hx, hden⟩ := h.reads (hmin d List.mem_cons_self)
      (.comma (.char ' ' :: (es.map .char ++ rest))) p
    have hcomma := next_mark (c := ',') (m := .comma) (by simp)
      (.char ' ' :: (es.map .char ++ rest)) q
    obtain ⟨ms, xs, q', hruns, hxs, hdens⟩ := hs.reads hds
      (fun d hd => hmin d (List.mem_cons_of_mem _ hd)) hr ((q.right 1).advance (.char ' '))
    have hspace := hruns.of_next hxs.starts.ne_nil (next_space (es.map .char ++ rest) (q.right 1))
    have htext : (cs ++ ',' :: ' ' :: es).map Glyph.char ++ rest =
        cs.map .char ++ .char ',' :: .char ' ' :: (es.map .char ++ rest) := by simp
    rw [htext]
    exact ⟨_, _, q', hrun.append (.cons hcomma (by simp) hspace),
      .more (BindsAt.unary hx).isExpr rfl hxs, .cons hden hdens⟩

end

/-- The error of a number that is out of range: the digits of the least integer without its
sign. -/
def outOfRangeAt (p : Position) : SyntaxError := ⟨p, .intOutOfRange "9223372036854775808", false⟩

mutual

/-- In the literal form of a tree with the least integer, reading stops within an expression. -/
theorem Plain.Spelled.faults {d : Plain} {cs : List Char} (h : Spelled d cs)
    (hmin : d.Contains Int64.minValue) {rest : List Glyph} (hr : EndsElement rest) (p : Position) :
    ∃ ls more x q, LexFault (codePoint (cs.map .char ++ rest) p) ls (outOfRangeAt q) ∧
      IsUnary .accepted (ls ++ more) x := by
  cases h with
  | null => cases hmin
  | bool b => cases hmin
  | string _ _ => cases hmin
  | @natural _ m hn =>
    cases hmin
    rw [Int64.toInt_minValue] at hn
    omega
  | @negative _ m hn =>
    cases hmin
    obtain rfl : m = 2 ^ 63 := by
      rw [Int64.toInt_minValue] at hn
      omega
    have hminus := next_mark (c := '-') (m := .minus) (by simp)
      ((Nat.toDigits 10 (2 ^ 63)).map .char ++ rest) p
    have hdigits := next_toDigits_over hr (Nat.le_refl (2 ^ 63)) (p.right 1)
    have htext : Bytes.ofNat (2 ^ 63) = Bytes.ofString "9223372036854775808" := by decide_cbv
    rw [htext] at hdigits
    exact ⟨_, [⟨.int 0, default, []⟩], _, p.right 1,
      ⟨_, .cons hminus (by simp) .nil, hdigits⟩, .negate rfl (.operand (.primary (.literal rfl)))⟩
  | @list ds cs h =>
    have hopen := next_mark (c := '[') (m := .lbrack) (by simp)
      (cs.map .char ++ .char ']' :: rest) p
    have htext : ('[' :: cs ++ [']']).map Glyph.char ++ rest =
        .char '[' :: (cs.map .char ++ .char ']' :: rest) := by simp
    rw [htext]
    obtain ⟨ls, more, xs, q, hfault, hxs⟩ :=
      h.faults (contains_list.1 hmin) (.bracket rest) (p.right 1)
    have hlist : IsPrimary .accepted (⟨.punct .lbrack, p, []⟩ :: (ls ++ more) ++
        [⟨.punct .rbrack, default, []⟩]) (.list p xs default) := .list rfl (.some hxs) rfl
    exact ⟨_, more ++ [⟨.punct .rbrack, default, []⟩], .list p xs default, q,
      .after (.cons hopen (by simp) .nil) hfault,
      by simpa using IsUnary.operand (.primary hlist)⟩

theorem Plain.SpelledAll.faults {ds : List Plain} {cs : List Char} (h : SpelledAll ds cs)
    (hmin : ∃ d ∈ ds, d.Contains Int64.minValue) {rest : List Glyph} (hr : EndsElement rest)
    (p : Position) :
    ∃ ls more xs q, LexFault (codePoint (cs.map .char ++ rest) p) ls (outOfRangeAt q) ∧
      IsExprs .accepted (ls ++ more) xs := by
  cases h with
  | nil =>
    obtain ⟨d, hd, -⟩ := hmin
    cases hd
  | @one d cs h =>
    obtain ⟨d', hd', hc⟩ := hmin
    rw [List.mem_singleton.1 hd'] at hc
    obtain ⟨ls, more, x, q, hfault, hx⟩ := h.faults hc hr p
    exact ⟨ls, more, [x], q, hfault, .one (BindsAt.unary hx).isExpr⟩
  | @more d cs ds es h hds hs =>
    have htext : (cs ++ ',' :: ' ' :: es).map Glyph.char ++ rest =
        cs.map .char ++ .char ',' :: .char ' ' :: (es.map .char ++ rest) := by simp
    have hr' := EndsElement.comma (.char ' ' :: (es.map .char ++ rest))
    rw [htext]
    -- what follows the first fault is made up, so one element is enough for a list of them
    by_cases hd : d.Contains Int64.minValue
    · obtain ⟨ls, more, x, q, hfault, hx⟩ := h.faults hd hr' p
      exact ⟨ls, more, [x], q, hfault, .one (BindsAt.unary hx).isExpr⟩
    · obtain ⟨ls, x, q, hrun, hx, -⟩ := h.reads hd hr' p
      have hcomma := next_mark (c := ',') (m := .comma) (by simp)
        (.char ' ' :: (es.map .char ++ rest)) q
      have hmin' : ∃ e ∈ ds, e.Contains Int64.minValue := by
        obtain ⟨e, he, hc⟩ := hmin
        obtain rfl | he := List.mem_cons.1 he
        · exact absurd hc hd
        · exact ⟨e, he, hc⟩
      obtain ⟨ms, more, xs, q', hfault, hxs⟩ := hs.faults hmin' hr ((q.right 1).advance (.char ' '))
      have hspace := hfault.of_next (next_space (es.map .char ++ rest) (q.right 1))
      have hmore := IsExprs.more (c := ⟨.punct .comma, q, []⟩) (BindsAt.unary hx).isExpr rfl hxs
      exact ⟨_, more, x :: xs, q', .after hrun (.after (.cons hcomma (by simp) .nil) hspace),
        by simpa using hmore⟩

end

/-! ### The literal form as a text -/

section

variable {d : Plain} (file : Bytes)

/-- Without the least integer, the literal form is read as an expression for the tree. -/
theorem Plain.parseExpr_literal (hmin : ¬ d.Contains Int64.minValue) :
    ∃ x, parseExpr file d.text = .ok x ∧ x.Denotes d := by
  obtain ⟨cs, htext, hcs⟩ := d.text_spelled
  obtain ⟨ls, x, p', hrun, hx, hden⟩ := hcs.reads hmin .nil (.start file)
  have hend : (codePoint [] p').next = .ok (⟨.eof, p', []⟩, codePoint [] p') := rfl
  have hlexes := hrun.lexes (.eof hend rfl)
  have hscan : scan file d.text = ⟨ls ++ [⟨.eof, p', []⟩], none⟩ := by
    refine (scan_lexes file d.text).unique ?_
    rw [htext, ScanPoint.ofBytes, glyphs_ofChars]
    simpa using hlexes
  exact ⟨x, parseExpr_of_isExpr hscan rfl (BindsAt.unary hx).isExpr, hden⟩

/-- With the least integer, the literal form is refused for its digits. -/
theorem Plain.parseExpr_literal_min (hmin : d.Contains Int64.minValue) :
    ∃ q, (scan file d.text).fault = some (outOfRangeAt q) ∧
      parseExpr file d.text = .error (outOfRangeAt q) := by
  obtain ⟨cs, htext, hcs⟩ := d.text_spelled
  obtain ⟨ls, more, x, q, hfault, hx⟩ := hcs.faults hmin .nil (.start file)
  have hscan : scan file d.text = ⟨ls, some (outOfRangeAt q)⟩ := by
    refine (scan_lexes file d.text).unique ?_
    rw [htext, ScanPoint.ofBytes, glyphs_ofChars]
    simpa using hfault.lexes
  obtain ⟨_, hrun, -⟩ := hfault
  exact ⟨q, by rw [hscan], Parser.parseExpr_of_fault hscan hrun.live rfl (BindsAt.unary hx).isExpr⟩

end

end Stencil
