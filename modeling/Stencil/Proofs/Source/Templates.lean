import Stencil.Proofs.Source.Lexing

/-!
# How a template is read

A run of template text, its dollar signs doubled, is read as one token up to the mark or the
island that follows it, whatever characters it ends with: `ScanPoint.next_text`. A number in an
island is read as its value: `Lexes.number`.
-/

namespace Stencil

/-! ### Numbers -/

/-- The digits of a numeral end before any glyph but these. -/
def EndsNumber (rest : List Glyph) : Prop :=
  ∀ g, rest.head? = some g →
    g.isDigit = false ∧ g ≠ .char '.' ∧ g ≠ .char 'e' ∧ g ≠ .char 'E'

/-- A numeral of digits only is read as a whole number. -/
theorem scanNumber_whole {ds : List Char} {rest : List Glyph} (p : Position) (h : IsDigits ds)
    (hr : EndsNumber rest) :
    scanNumber p (ds.map .char ++ rest) = finishNumber p (ds.map .char) [] [] [] [] rest := by
  obtain ⟨hw, hd⟩ := span_digits h fun g hg => (hr g hg).1
  have hfrac : splitFraction rest = ([], rest) := by
    unfold splitFraction
    split
    · exact absurd rfl (hr _ rfl).2.1
    · rfl
  have hmark : (splitMark rest).1 = [] := by
    unfold splitMark
    split
    · exact absurd rfl (hr _ rfl).2.2.1
    · exact absurd rfl (hr _ rfl).2.2.2
    · rfl
  rw [scanNumber_eq, hw, hd, hfrac, scanExponent_bare p _ _ hmark]

/-- A whole number that fits is read as it is. -/
theorem scanNumber_fits {ds : List Char} {rest : List Glyph} (p : Position) (h : IsDigits ds)
    (hn : Decimal.digitsValue ds < 2 ^ 63) (hr : EndsNumber rest) :
    scanNumber p (ds.map .char ++ rest) =
      .ok ⟨.int (Int64.ofInt (Decimal.digitsValue ds)), ds.map .char, rest⟩ := by
  rw [scanNumber_whole p h hr]
  simp [finishNumber, glyphChars_map, readInt_digits h hn]

/-- The numeral of a number. -/
theorem isDigits_toDigits (n : Nat) : IsDigits (Nat.toDigits 10 n) := by
  refine ⟨Nat.toDigits_ne_nil, fun c hc => ?_⟩
  have h := Nat.isDigit_of_mem_toDigits (by decide) (by decide) hc
  simpa [Char.isDigit, Decimal.isDigit, Char.le_def] using h

theorem digitsValue_toDigits (n : Nat) : Decimal.digitsValue (Nat.toDigits 10 n) = n := by
  have h := Nat.ofDigitChars_ten_toDigits (n := n)
  rwa [Nat.ofDigitChars_eq_foldl] at h

theorem ofNat_eq_ofChars (n : Nat) : Bytes.ofNat n = Bytes.ofChars (Nat.toDigits 10 n) := by
  rw [Bytes.ofNat, ofString_eq_ofChars, Nat.toString_eq_ofList_toDigits, String.toList_ofList]

/-! ### Template text -/

@[simp] theorem doubleDollars_nil : doubleDollars [] = [] := rfl

theorem doubleDollars_cons (c : Char) (cs : List Char) :
    doubleDollars (c :: cs) = (if c = '$' then ['$', '$'] else [c]) ++ doubleDollars cs := rfl

/-- What ends a run of template text: a closing mark, or a dollar sign that is not doubled. -/
inductive StopsText : List Glyph → Prop where
  | close (rest) : StopsText (.char '|' :: .char '>' :: rest)
  | dollar {rest} : rest.head? ≠ some (.char '$') → StopsText (.char '$' :: rest)

/-- The text before a mark does not run into it. -/
theorem StopsText.head_ne {cs : List Char} {rest : List Glyph} (hr : StopsText rest)
    (h : ¬ ['|', '>'] <+: '|' :: cs) :
    ((doubleDollars cs).map Glyph.char ++ rest).head? ≠ some (.char '>') := by
  cases cs with
  | nil => cases hr <;> simp
  | cons d cs =>
    have hd : d ≠ '>' := by
      rintro rfl
      exact h ⟨cs, rfl⟩
    rw [doubleDollars_cons]
    split
    · simp
    · simp [hd]

theorem scanText_stops {rest : List Glyph} (hr : StopsText rest) (p : Position)
    (text raw : List Glyph) : scanText p text raw rest = .ok (text.reverse, raw.reverse, rest) := by
  cases hr with
  | close rest => rfl
  | @dollar rest hd =>
    rw [scanText.eq_def]
    split
    · rename_i heq
      cases heq
    · rename_i heq
      cases heq
      exact absurd rfl hd
    · rename_i heq
      cases heq
    · rename_i heq
      cases heq
    · rename_i heq
      cases heq
      rfl

/-- A run of text is read up to the mark that follows it. -/
theorem scanText_doubleDollars {cs : List Char} {rest : List Glyph} (h : ¬ ['|', '>'] <:+: cs)
    (hr : StopsText rest) (p : Position) (text raw : List Glyph) :
    scanText p text raw ((doubleDollars cs).map .char ++ rest) =
      .ok (text.reverse ++ cs.map .char, raw.reverse ++ (doubleDollars cs).map .char, rest) := by
  induction cs generalizing p text raw with
  | nil => simpa using scanText_stops hr p text raw
  | cons c cs ih =>
    have hcs : ¬ ['|', '>'] <:+: cs := fun hin => h (List.infix_cons_iff.2 (.inr hin))
    have hpre : ¬ ['|', '>'] <+: c :: cs := fun hin => h hin.isInfix
    rw [doubleDollars_cons]
    split
    · rename_i hc
      subst hc
      simp only [List.cons_append, List.nil_append, List.map_cons]
      rw [scanText, ih hcs]
      simp
    · rename_i hc
      simp only [List.cons_append, List.nil_append, List.map_cons]
      have hstep : scanText p text raw (.char c :: ((doubleDollars cs).map .char ++ rest)) =
          scanText (p.advance (.char c)) (.char c :: text) (.char c :: raw)
            ((doubleDollars cs).map .char ++ rest) := by
        rw [scanText.eq_def]
        split
        · rename_i heq
          cases heq
        · rename_i heq
          cases (List.cons.inj heq).1
          exact absurd rfl hc
        · rename_i heq
          obtain ⟨hbar, htail⟩ := List.cons.inj heq
          cases hbar
          exact absurd (by rw [htail]; rfl) (hr.head_ne hpre)
        · rename_i heq
          cases heq
        · rename_i heq
          cases heq
          rw [if_neg hc]
      rw [hstep, ih hcs]
      simp

/-- The lexemes of a run of text: none if it is empty. -/
def textLexemes (p : Position) (cs : List Char) : List Lexeme :=
  if cs = [] then [] else [⟨.text (Bytes.ofChars cs), p, Bytes.ofChars (doubleDollars cs)⟩]

namespace Lexes

variable {cs : List Char} {rest : List Glyph} {p : Position} {modes : List LexMode} {s : Scan}

/-- A run of text is one token, which keeps the text as it is. -/
theorem text (h : ¬ ['|', '>'] <:+: cs) (hr : StopsText rest)
    (hs : Lexes ⟨rest, p.advanceAll ((doubleDollars cs).map .char), .template :: modes⟩ s) :
    Lexes ⟨(doubleDollars cs).map .char ++ rest, p, .template :: modes⟩
      ⟨textLexemes p cs ++ s.lexemes, s.fault⟩ := by
  by_cases hcs : cs = []
  · subst hcs
    exact hs
  · have hnext : ScanPoint.next ⟨(doubleDollars cs).map .char ++ rest, p, .template :: modes⟩ =
        .ok (⟨.text (Bytes.ofChars cs), p, Bytes.ofChars (doubleDollars cs)⟩,
          ⟨rest, p.advanceAll ((doubleDollars cs).map .char), .template :: modes⟩) := by
      show scanTemplate _ = _
      have hne : (cs.map Glyph.char).isEmpty = false := by simpa using hcs
      simp only [scanTemplate, scanText_doubleDollars h hr, bind, Except.bind, List.reverse_nil,
        List.nil_append, hne, ofGlyphs_map]
      rfl
    rw [textLexemes, if_neg hcs]
    exact .cons hnext (by simp) hs

theorem open_ (hs : Lexes ⟨rest, p.right 2, [.template, .code]⟩ s) :
    Lexes ⟨.char '<' :: .char '|' :: rest, p, [.code]⟩
      ⟨⟨.punct .openTemplate, p, []⟩ :: s.lexemes, s.fault⟩ :=
  .cons rfl (by simp) hs

theorem close (hs : Lexes ⟨rest, p.right 2, modes⟩ s) :
    Lexes ⟨.char '|' :: .char '>' :: rest, p, .template :: modes⟩
      ⟨⟨.punct .closeTemplate, p, "|>"⟩ :: s.lexemes, s.fault⟩ :=
  .cons rfl (by simp) hs

/-- A number that is an island of its own. -/
theorem island {n : Nat} (hn : n < 2 ^ 63)
    (hs : Lexes ⟨rest, ((p.right 1).advanceAll ((Nat.toDigits 10 n).map .char)).right 1,
      .template :: modes⟩ s) :
    Lexes ⟨.char '$' :: ((Nat.toDigits 10 n).map .char ++ .char '$' :: rest), p,
        .template :: modes⟩
      ⟨⟨.punct .dollar, p, "$"⟩ :: ⟨.int (Int64.ofInt n), p.right 1, Bytes.ofNat n⟩ ::
        ⟨.punct .dollar, (p.right 1).advanceAll ((Nat.toDigits 10 n).map .char), []⟩ ::
          s.lexemes, s.fault⟩ := by
  have hdigits := isDigits_toDigits n
  obtain ⟨c, ds, hc⟩ := List.exists_cons_of_ne_nil hdigits.1
  have hdigit : Decimal.isDigit c = true := hdigits.2 c (hc ▸ List.mem_cons_self)
  have hends : EndsNumber (.char '$' :: rest) := by
    intro g hg
    obtain rfl := Option.some.inj hg
    exact ⟨rfl, by simp, by simp, by simp⟩
  have hstops : StopsText (.char '$' :: ((Nat.toDigits 10 n).map .char ++ .char '$' :: rest)) := by
    refine .dollar ?_
    rw [hc]
    rintro hdollar
    cases hdollar
    cases hdigit
  have hopen : ScanPoint.next ⟨.char '$' :: ((Nat.toDigits 10 n).map .char ++ .char '$' :: rest), p,
      .template :: modes⟩ = .ok (⟨.punct .dollar, p, "$"⟩,
        ⟨(Nat.toDigits 10 n).map .char ++ .char '$' :: rest, p.right 1,
          .island :: .template :: modes⟩) := by
    show scanTemplate _ = _
    simp only [scanTemplate, scanText_stops hstops]
    rfl
  have hnumber : ScanPoint.next ⟨(Nat.toDigits 10 n).map .char ++ .char '$' :: rest, p.right 1,
      .island :: .template :: modes⟩ = .ok (⟨.int (Int64.ofInt n), p.right 1, Bytes.ofNat n⟩,
        ⟨.char '$' :: rest, (p.right 1).advanceAll ((Nat.toDigits 10 n).map .char),
          .island :: .template :: modes⟩) := by
    have hskip : skipGap .blanks (p.right 1) ((Nat.toDigits 10 n).map .char ++ .char '$' :: rest) =
        .ok (p.right 1, (Nat.toDigits 10 n).map .char ++ .char '$' :: rest) := by
      rw [hc, List.map_cons, List.cons_append]
      exact skipGap_char hdigit (by decide) _ _
    have hscan := scanNumber_fits (p.right 1) hdigits (by rwa [digitsValue_toDigits]) hends
    rw [digitsValue_toDigits] at hscan
    have hcode := scanCode_number hdigits hscan (.island :: .template :: modes)
    rw [ofNat_eq_ofChars, ← hcode]
    show (skipGap .blanks _ _ >>= _) = _
    rw [hskip]
    rfl
  exact .cons hopen (by simp) (.cons hnumber (by simp) (.cons rfl (by simp) hs))

end Lexes

end Stencil
