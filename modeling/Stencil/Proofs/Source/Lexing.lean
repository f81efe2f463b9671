import Stencil.Proofs.Text.Utf8
import Stencil.Proofs.Syntax.Spelling

/-!
# What a token takes

Reading a token takes a gap and then the characters of the token from the front of the text, and
moves the position over them. `ScanPoint.next_takes` says which characters these are, for every
mode. Since only the end of the file takes none, a text has no more tokens than glyphs, and
`scan_lexes` describes its lexemes without a bound.
-/

namespace Stencil

/-! ### Characters -/

/-- The glyphs are characters. -/
def AllChars (gs : List Glyph) : Prop := ∃ cs : List Char, gs = cs.map .char

namespace AllChars

variable {gs hs : List Glyph}

theorem map (cs : List Char) : AllChars (cs.map .char) := ⟨cs, rfl⟩

theorem nil : AllChars [] := map []

theorem cons (c : Char) (h : AllChars gs) : AllChars (.char c :: gs) := by
  obtain ⟨cs, rfl⟩ := h
  exact map (c :: cs)

theorem append (hg : AllChars gs) (hh : AllChars hs) : AllChars (gs ++ hs) := by
  obtain ⟨cs, rfl⟩ := hg
  obtain ⟨ds, rfl⟩ := hh
  exact ⟨cs ++ ds, List.map_append.symm⟩

/-- A run of glyphs of a class of characters. -/
theorem takeWhile {P : Glyph → Bool} (hP : ∀ b, P (.stray b) = false) (gs : List Glyph) :
    AllChars (gs.takeWhile P) := by
  induction gs with
  | nil => exact nil
  | cons g gs ih =>
    rw [List.takeWhile_cons]
    split
    · rename_i hg
      cases g with
      | char c => exact ih.cons c
      | stray b => rw [hP] at hg; cases hg
    · exact nil

end AllChars

theorem advanceAll_two (p : Position) {c d : Char} (hc : c ≠ '\n') (hd : d ≠ '\n') :
    p.advanceAll [.char c, .char d] = p.right 2 :=
  Position.advanceAll_of_not_mem (by simp [hc.symm, hd.symm]) p

/-! ### Gaps -/

/-- White space and comments. A comment to the end of the line is followed by the line end or by
nothing; a bracketed comment ends with the first mark that closes it. -/
inductive IsGapText : List Char → Prop where
  | nil : IsGapText []
  | blank {c cs} : (Glyph.char c).isGap = true → IsGapText cs → IsGapText (c :: cs)
  | line {body cs} : '\n' ∉ body → (∀ c, cs.head? = some c → c = '\n') → IsGapText cs →
      IsGapText ('/' :: '/' :: (body ++ cs))
  | bracketed {body cs} : ¬ ['*', '/'] <:+: body → IsGapText cs →
      IsGapText ('/' :: '*' :: (body ++ '*' :: '/' :: cs))

/-- What is left of a gap in one of its parts. -/
def GapPart.Text : GapPart → List Char → Prop
  | .blanks, cs => IsGapText cs
  | .line, cs => ∃ body rest, cs = body ++ rest ∧ '\n' ∉ body ∧
      (∀ c, rest.head? = some c → c = '\n') ∧ IsGapText rest
  | .bracketed _, cs => ∃ body rest, cs = body ++ '*' :: '/' :: rest ∧ ¬ ['*', '/'] <:+: body ∧
      IsGapText rest

/-- The characters that are skipped, and the position after them. -/
theorem skipGap_takes {part : GapPart} {p p' : Position} {gs rest : List Glyph}
    (h : skipGap part p gs = .ok (p', rest)) :
    ∃ cs, gs = cs.map .char ++ rest ∧ part.Text cs ∧ p' = p.advanceAll (cs.map .char) := by
  fun_induction skipGap part p gs with
  | case1 p gs ih =>
    obtain ⟨cs, rfl, ⟨body, tail, rfl, hbody, hhead, htail⟩, rfl⟩ := ih h
    refine ⟨'/' :: '/' :: (body ++ tail), rfl, .line hbody hhead htail, ?_⟩
    rw [← advanceAll_two p (c := '/') (d := '/') (by decide) (by decide),
      ← Position.advanceAll_append]
    rfl
  | case2 p gs ih =>
    obtain ⟨cs, rfl, ⟨body, tail, rfl, hbody, htail⟩, rfl⟩ := ih h
    refine ⟨'/' :: '*' :: (body ++ '*' :: '/' :: tail), rfl, .bracketed hbody htail, ?_⟩
    rw [← advanceAll_two p (c := '/') (d := '*') (by decide) (by decide),
      ← Position.advanceAll_append]
    rfl
  | case3 p g gs _ _ hg ih =>
    obtain ⟨cs, rfl, htext, rfl⟩ := ih h
    cases g with
    | char c => exact ⟨c :: cs, rfl, .blank hg htext, rfl⟩
    | stray b => cases hg
  | case4 =>
    cases h
    exact ⟨[], rfl, .nil, rfl⟩
  | case5 =>
    cases h
    exact ⟨[], rfl, .nil, rfl⟩
  | case6 =>
    cases h
    exact ⟨[], rfl, ⟨[], [], rfl, List.not_mem_nil, by simp, .nil⟩, rfl⟩
  | case7 => cases h
  | case8 p c gs ih =>
    obtain ⟨cs, rfl, htext, rfl⟩ := ih h
    refine ⟨c :: cs, rfl, ?_, rfl⟩
    split at htext
    · rename_i hc
      subst hc
      exact ⟨[], '\n' :: cs, rfl, List.not_mem_nil, fun c hc => (Option.some.inj hc).symm,
        .blank rfl htext⟩
    · rename_i hc
      obtain ⟨body, tail, rfl, hbody, hhead, htail⟩ := htext
      refine ⟨c :: body, tail, rfl, fun hmem => ?_, hhead, htail⟩
      rcases List.mem_cons.1 hmem with h' | h'
      · exact hc h'.symm
      · exact hbody h'
  | case9 => cases h
  | case10 start p gs ih =>
    obtain ⟨cs, rfl, htext, rfl⟩ := ih h
    refine ⟨'*' :: '/' :: cs, rfl, ⟨[], cs, rfl, by simp, htext⟩, ?_⟩
    rw [← advanceAll_two p (c := '*') (d := '/') (by decide) (by decide),
      ← Position.advanceAll_append]
    rfl
  | case11 => cases h
  | case12 start p c gs hclose ih =>
    obtain ⟨cs, rfl, ⟨body, tail, rfl, hbody, htail⟩, rfl⟩ := ih h
    refine ⟨c :: (body ++ '*' :: '/' :: tail), rfl, ⟨c :: body, tail, rfl, fun hmem => ?_, htail⟩, rfl⟩
    -- a closing mark that starts with `c` would have been seen
    rcases List.infix_cons_iff.1 hmem with hpre | hin
    · obtain ⟨rest, hrest⟩ := hpre
      cases body with
      | nil => simp at hrest
      | cons d body =>
        simp only [List.cons_append, List.nil_append, List.cons.injEq] at hrest
        obtain ⟨rfl, rfl, -⟩ := hrest
        exact hclose _ rfl rfl
    · exact hbody hin

/-! ### Literals -/

theorem allChars_digits (gs : List Glyph) : AllChars (gs.takeWhile Glyph.isDigit) :=
  .takeWhile (fun _ => rfl) gs

theorem splitFraction_takes (gs : List Glyph) :
    gs = (splitFraction gs).1 ++ (splitFraction gs).2 ∧ AllChars (splitFraction gs).1 := by
  unfold splitFraction
  split
  · split
    · refine ⟨?_, (allChars_digits _).cons '.'⟩
      rw [List.cons_append, List.takeWhile_append_dropWhile]
    · exact ⟨rfl, .nil⟩
  · exact ⟨rfl, .nil⟩

/-- The token of a number is a number. -/
inductive Token.IsNumber : Token → Prop where
  | int (n) : IsNumber (.int n)
  | float (x) : IsNumber (.float x)

/-- The letter of an exponent at the front of the text, and what follows it. -/
def splitMark (gs : List Glyph) : List Glyph × List Glyph :=
  match gs with
  | .char 'e' :: more => ([.char 'e'], more)
  | .char 'E' :: more => ([.char 'E'], more)
  | _ => ([], gs)

/-- The sign at the front of the text, and what follows it. -/
def splitSign (gs : List Glyph) : List Glyph × List Glyph :=
  match gs with
  | .char '+' :: more => ([.char '+'], more)
  | .char '-' :: more => ([.char '-'], more)
  | _ => ([], gs)

theorem splitMark_takes (gs : List Glyph) :
    gs = (splitMark gs).1 ++ (splitMark gs).2 ∧ AllChars (splitMark gs).1 := by
  unfold splitMark
  split
  · exact ⟨rfl, .map ['e']⟩
  · exact ⟨rfl, .map ['E']⟩
  · exact ⟨rfl, .nil⟩

theorem splitSign_takes (gs : List Glyph) :
    gs = (splitSign gs).1 ++ (splitSign gs).2 ∧ AllChars (splitSign gs).1 := by
  unfold splitSign
  split
  · exact ⟨rfl, .map ['+']⟩
  · exact ⟨rfl, .map ['-']⟩
  · exact ⟨rfl, .nil⟩

/-- The number with the given digits, fraction, exponent mark, sign and exponent. -/
def finishNumber (p : Position) (whole frac mark sign exp rest : List Glyph) :
    Except SyntaxError Scanned :=
  let raw := whole ++ frac ++ mark ++ sign ++ exp
  if !mark.isEmpty && exp.isEmpty then
    .error ⟨p.right raw.length, .invalidFloat, false⟩
  else if frac.isEmpty && mark.isEmpty then
    match Decimal.readInt (glyphChars raw) with
    | .ok n => .ok ⟨.int (Int64.ofInt n), raw, rest⟩
    | .error _ => .error ⟨p, .intOutOfRange (Bytes.ofGlyphs raw), false⟩
  else
    match Decimal.readFloat (glyphChars raw) with
    | .ok x => .ok ⟨.float x, raw, rest⟩
    | .error _ => .error ⟨p, .invalidFloat, false⟩

theorem finishNumber_takes {p : Position} {whole frac mark sign exp rest : List Glyph}
    {s : Scanned} (h : finishNumber p whole frac mark sign exp rest = .ok s) :
    s.token.IsNumber ∧ s.raw = whole ++ frac ++ mark ++ sign ++ exp ∧ s.rest = rest := by
  unfold finishNumber at h
  dsimp only at h
  split at h
  · cases h
  · split at h
    · split at h
      · cases h
        exact ⟨.int _, rfl, rfl⟩
      · cases h
    · split at h
      · cases h
        exact ⟨.float _, rfl, rfl⟩
      · cases h

/-- Without a mark there is no exponent. -/
theorem scanExponent_bare (p : Position) (whole frac : List Glyph) {rest : List Glyph}
    (h : (splitMark rest).1 = []) :
    scanExponent p whole frac rest = finishNumber p whole frac [] [] [] rest := by
  change finishNumber p whole frac (splitMark rest).1
    (if (splitMark rest).1.isEmpty then ([], rest) else splitSign (splitMark rest).2).1
    (if (splitMark rest).1.isEmpty then [] else _)
    (if (splitMark rest).1.isEmpty then rest else _) = _
  simp only [h, List.isEmpty_nil, if_true]

/-- After the mark come the sign and the digits of the exponent. -/
theorem scanExponent_marked (p : Position) (whole frac : List Glyph) {rest : List Glyph}
    (h : (splitMark rest).1 ≠ []) :
    scanExponent p whole frac rest = finishNumber p whole frac (splitMark rest).1
      (splitSign (splitMark rest).2).1
      ((splitSign (splitMark rest).2).2.takeWhile Glyph.isDigit)
      ((splitSign (splitMark rest).2).2.dropWhile Glyph.isDigit) := by
  have hmark : (splitMark rest).1.isEmpty = false :=
    Bool.eq_false_iff.2 fun hempty => h (List.isEmpty_iff.1 hempty)
  change finishNumber p whole frac (splitMark rest).1
    (if (splitMark rest).1.isEmpty then ([], rest) else splitSign (splitMark rest).2).1
    (if (splitMark rest).1.isEmpty then [] else
      (if (splitMark rest).1.isEmpty then ([], rest)
        else splitSign (splitMark rest).2).2.takeWhile Glyph.isDigit)
    (if (splitMark rest).1.isEmpty then rest else
      (if (splitMark rest).1.isEmpty then ([], rest)
        else splitSign (splitMark rest).2).2.dropWhile Glyph.isDigit) = _
  simp only [hmark, Bool.false_eq_true, if_false]

theorem scanExponent_takes {p : Position} {whole frac rest : List Glyph} {s : Scanned}
    (h : scanExponent p whole frac rest = .ok s) :
    s.token.IsNumber ∧ ∃ exp, s.raw = whole ++ frac ++ exp ∧ rest = exp ++ s.rest ∧
      AllChars exp := by
  by_cases hbare : (splitMark rest).1 = []
  · rw [scanExponent_bare p whole frac hbare] at h
    obtain ⟨hnumber, hraw, rfl⟩ := finishNumber_takes h
    exact ⟨hnumber, [], by simpa using hraw, rfl, .nil⟩
  · rw [scanExponent_marked p whole frac hbare] at h
    obtain ⟨hnumber, hraw, hrest⟩ := finishNumber_takes h
    obtain ⟨hmark, hallMark⟩ := splitMark_takes rest
    obtain ⟨hsign, hallSign⟩ := splitSign_takes (splitMark rest).2
    refine ⟨hnumber, (splitMark rest).1 ++ (splitSign (splitMark rest).2).1 ++
      (splitSign (splitMark rest).2).2.takeWhile Glyph.isDigit, ?_, ?_,
      (hallMark.append hallSign).append (allChars_digits _)⟩
    · simp only [hraw, List.append_assoc]
    · rw [hrest, List.append_assoc, List.takeWhile_append_dropWhile, List.append_assoc, ← hsign,
        ← hmark]

theorem scanNumber_takes {p : Position} {gs : List Glyph} {s : Scanned}
    (h : scanNumber p gs = .ok s) :
    s.token.IsNumber ∧ gs = s.raw ++ s.rest ∧ AllChars s.raw ∧
      gs.takeWhile Glyph.isDigit <+: s.raw := by
  rw [scanNumber_eq] at h
  obtain ⟨hnumber, exp, hraw, hrest, hexp⟩ := scanExponent_takes h
  obtain ⟨hsplit, hfrac⟩ := splitFraction_takes (gs.dropWhile Glyph.isDigit)
  refine ⟨hnumber, ?_, hraw ▸ ((allChars_digits gs).append hfrac).append hexp, ?_⟩
  · rw [hraw, List.append_assoc, ← hrest, List.append_assoc, ← hsplit,
      List.takeWhile_append_dropWhile]
  · rw [hraw, List.append_assoc]
    exact List.prefix_append _ _

theorem scanStringBody_takes {q : Char} {start p : Position} {seen gs body rest : List Glyph}
    (h : scanStringBody q start p seen gs = .ok (body, rest)) :
    ∃ cs : List Char, gs = cs.map .char ++ rest ∧ body = seen.reverse ++ cs.map .char := by
  fun_induction scanStringBody q start p seen gs with
  | case1 => cases h
  | case2 => cases h
  | case3 p seen rest =>
    cases h
    exact ⟨[q], rfl, by simp⟩
  | case4 => cases h
  | case5 => cases h
  | case6 => cases h
  | case7 =>
    rename_i ih
    obtain ⟨cs, rfl, rfl⟩ := ih h
    exact ⟨_ :: _ :: cs, rfl, by simp⟩
  | case8 =>
    rename_i ih
    obtain ⟨cs, rfl, rfl⟩ := ih h
    exact ⟨_ :: cs, rfl, by simp⟩

theorem scanString_takes {q : Char} {p : Position} {more : List Glyph} {s : Scanned}
    (h : scanString q p more = .ok s) :
    (∃ t, s.token = .string t) ∧ .char q :: more = s.raw ++ s.rest ∧ AllChars s.raw ∧
      s.raw ≠ [] := by
  unfold scanString at h
  cases hb : scanStringBody q p (p.right 1) [] more with
  | error e =>
    rw [hb] at h
    cases h
  | ok r =>
    obtain ⟨body, rest⟩ := r
    obtain ⟨cs, rfl, rfl⟩ := scanStringBody_takes hb
    simp only [hb, bind, Except.bind] at h
    split at h
    · cases h
      exact ⟨⟨_, rfl⟩, rfl, .cons q (.map cs), List.cons_ne_nil _ _⟩
    · cases h

/-! ### Marks -/

theorem singlePunct?_spelling {c : Char} {m : Punct} (h : singlePunct? c = some m) :
    m.spelling.toList = [c] ∧ m ≠ .openTemplate ∧ m ≠ .closeTemplate ∧ m ≠ .dollar := by
  unfold singlePunct? at h
  split at h <;> cases h <;> decide

theorem doublePunct?_spelling {c d : Char} {m : Punct} (h : doublePunct? c d = some m) :
    m.spelling.toList = [c, d] ∧ m ≠ .closeTemplate ∧ m ≠ .dollar := by
  unfold doublePunct? at h
  split at h <;> cases h <;> decide

theorem leadingPunct?_takes {c : Char} {more : List Glyph} {m : Punct} {n : Nat}
    (h : leadingPunct? c more = some (m, n)) :
    .char c :: more = m.spelling.toList.map .char ++ (Glyph.char c :: more).drop n ∧
      m.spelling.toList.length = n ∧ m ≠ .closeTemplate ∧ m ≠ .dollar := by
  unfold leadingPunct? at h
  dsimp only at h
  split at h
  · rename_i m' hdouble
    cases h
    split at hdouble
    · obtain ⟨hsp, hclose, hdollar⟩ := doublePunct?_spelling hdouble
      rw [hsp]
      exact ⟨rfl, rfl, hclose, hdollar⟩
    · cases hdouble
  · obtain ⟨m', hsingle, hm⟩ := Option.map_eq_some_iff.1 h
    cases hm
    obtain ⟨hsp, -, hclose, hdollar⟩ := singlePunct?_spelling hsingle
    rw [hsp]
    exact ⟨rfl, rfl, hclose, hdollar⟩

/-- No line end is part of a mark. -/
theorem Punct.newline_not_mem (m : Punct) : Glyph.char '\n' ∉ m.spelling.toList.map .char := by
  cases m <;> decide

/-! ### Template text -/

/-- The text with its dollar signs doubled, as a template spells it. -/
def doubleDollars (cs : List Char) : List Char :=
  cs.flatMap fun c => if c = '$' then ['$', '$'] else [c]

/-- Where a run of template text ends: with the text, before a closing mark or before a `$`. -/
inductive EndsText : List Glyph → Prop where
  | nil : EndsText []
  | close (rest) : EndsText (.char '|' :: .char '>' :: rest)
  | dollar (rest) : EndsText (.char '$' :: rest)

theorem scanText_takes {p : Position} {seen seenRaw gs text raw rest : List Glyph}
    (h : scanText p seen seenRaw gs = .ok (text, raw, rest)) :
    ∃ cs : List Char, text = seen.reverse ++ cs.map .char ∧
      raw = seenRaw.reverse ++ (doubleDollars cs).map .char ∧
      gs = (doubleDollars cs).map .char ++ rest ∧ EndsText rest := by
  fun_induction scanText p seen seenRaw gs with
  | case1 =>
    cases h
    exact ⟨[], by simp, by simp [doubleDollars], rfl, .nil⟩
  | case2 =>
    rename_i ih
    obtain ⟨cs, rfl, rfl, rfl, hend⟩ := ih h
    exact ⟨'$' :: cs, by simp, by simp [doubleDollars], rfl, hend⟩
  | case3 =>
    cases h
    exact ⟨[], by simp, by simp [doubleDollars], rfl, .close _⟩
  | case4 => cases h
  | case5 =>
    cases h
    exact ⟨[], by simp, by simp [doubleDollars], rfl, .dollar _⟩
  | case6 p seen seenRaw c gs _ _ hc ih =>
    obtain ⟨cs, rfl, rfl, rfl, hend⟩ := ih h
    exact ⟨c :: cs, by simp, by simp [doubleDollars, hc], by simp [doubleDollars, hc], hend⟩

/-! ### Tokens -/

/-- The token of a lexeme takes the given characters of the text; they are what is recorded as
its spelling, if anything is. -/
inductive Lexeme.Spans : Lexeme → List Char → Prop where
  | eof (p) : Spans ⟨.eof, p, []⟩ []
  | mark (m p) : Spans ⟨.punct m, p, []⟩ m.spelling.toList
  | templateMark (m p) : Spans ⟨.punct m, p, Bytes.ofChars m.spelling.toList⟩ m.spelling.toList
  | keyword (k p) : Spans ⟨.keyword k, p, Bytes.ofChars k.spelling.toList⟩ k.spelling.toList
  | name {cs} (p) : cs ≠ [] → Spans ⟨.ident (Bytes.ofChars cs), p, Bytes.ofChars cs⟩ cs
  | number {t cs} (p) : t.IsNumber → cs ≠ [] → Spans ⟨t, p, Bytes.ofChars cs⟩ cs
  | string {cs} (s p) : cs ≠ [] → Spans ⟨.string s, p, Bytes.ofChars cs⟩ cs
  | text {cs} (p) : cs ≠ [] →
      Spans ⟨.text (Bytes.ofChars cs), p, Bytes.ofChars (doubleDollars cs)⟩ (doubleDollars cs)

/-- The modes after a token. -/
def Token.modesAfter (t : Token) (modes : List LexMode) : List LexMode :=
  match t with
  | .punct .openTemplate => .template :: modes
  | .punct .closeTemplate => modes.tail
  | .punct .dollar =>
    match modes with
    | .template :: _ => .island :: modes
    | _ => modes.tail
  | _ => modes

/-- What may stand before a token. -/
def LexMode.Gap : LexMode → List Char → Prop
  | .template, gap => gap = []
  | _, gap => IsGapText gap

/-- The lexeme `l` is read from the front of the text at `c`, after a gap, and leaves the
reader at `d`. -/
structure ScanPoint.Takes (c : ScanPoint) (gap word : List Char) (l : Lexeme) (d : ScanPoint) :
    Prop where
  text : c.rest = gap.map .char ++ (word.map .char ++ d.rest)
  skips : c.mode.Gap gap
  start : l.pos = c.pos.advanceAll (gap.map .char)
  spans : l.Spans word
  pos : d.pos = l.pos.advanceAll (word.map .char)
  modes : d.modes = l.token.modesAfter c.modes
  ended : l.token = .eof → d.rest = []

theorem Token.IsNumber.modesAfter {t : Token} (h : t.IsNumber) (modes : List LexMode) :
    t.modesAfter modes = modes := by
  cases h <;> rfl

theorem Token.IsNumber.ne_eof {t : Token} (h : t.IsNumber) : t ≠ .eof := by
  rintro rfl
  cases h

theorem Punct.modesAfter {m : Punct} (hclose : m ≠ .closeTemplate) (hdollar : m ≠ .dollar)
    (modes : List LexMode) :
    (Token.punct m).modesAfter modes = if m = .openTemplate then .template :: modes else modes := by
  cases m <;> first | rfl | exact absurd rfl hclose | exact absurd rfl hdollar

theorem scanCode_takes {c d : ScanPoint} {l : Lexeme} (h : scanCode c = .ok (l, d))
    (hmode : c.mode ≠ .template) : ∃ word, c.rest = word.map .char ++ d.rest ∧ l.pos = c.pos ∧
      l.Spans word ∧ d.pos = l.pos.advanceAll (word.map .char) ∧
      d.modes = l.token.modesAfter c.modes ∧ (l.token = .eof → d.rest = []) := by
  obtain ⟨rest, p, modes⟩ := c
  unfold scanCode at h
  dsimp only at h
  split at h
  · cases h
    exact ⟨[], rfl, rfl, .eof p, rfl, rfl, fun _ => rfl⟩
  · cases h
  rename_i ch more
  split at h
  · -- a name or a keyword
    rename_i hstart
    obtain ⟨cs, hcs⟩ := AllChars.takeWhile (P := Glyph.isNamePart) (fun _ => rfl) (.char ch :: more)
    have hsplit := List.takeWhile_append_dropWhile (p := Glyph.isNamePart) (l := .char ch :: more)
    have hne : cs ≠ [] := by
      rintro rfl
      rw [List.takeWhile_cons, if_pos (by simp [Glyph.isNamePart, hstart])] at hcs
      cases hcs
    rw [hcs] at h hsplit
    rw [glyphChars_map, ofGlyphs_map] at h
    cases h
    refine ⟨cs, hsplit.symm, rfl, ?_, rfl, ?_, ?_⟩
    · cases hk : Keyword.ofChars? cs with
      | none => exact .name p hne
      | some k =>
        have hspelling := List.find?_some hk
        rw [decide_eq_true_eq] at hspelling
        subst hspelling
        exact .keyword k p
    · cases hk : Keyword.ofChars? cs <;> rfl
    · intro heof
      cases hk : Keyword.ofChars? cs <;> simp [hk] at heof
  split at h
  · -- a number
    rename_i hdigit
    cases hs : scanNumber p (.char ch :: more) with
    | error e =>
      rw [hs] at h
      cases h
    | ok s =>
      rw [hs] at h
      cases h
      obtain ⟨hnumber, hsplit, ⟨cs, hcs⟩, hpre⟩ := scanNumber_takes hs
      have hne : cs ≠ [] := by
        rintro rfl
        rw [hcs, List.takeWhile_cons, if_pos (by exact hdigit)] at hpre
        exact absurd (List.prefix_nil.1 hpre) (List.cons_ne_nil _ _)
      rw [hcs] at hsplit
      refine ⟨cs, hsplit, rfl, ?_, by rw [hcs], (hnumber.modesAfter modes).symm,
        fun heof => absurd heof hnumber.ne_eof⟩
      rw [hcs, ofGlyphs_map]
      exact .number p hnumber hne
  split at h
  · -- a string
    cases hs : scanString ch p more with
    | error e =>
      rw [hs] at h
      cases h
    | ok s =>
      rw [hs] at h
      cases h
      obtain ⟨⟨t, ht⟩, hsplit, ⟨cs, hcs⟩, hne⟩ := scanString_takes hs
      rw [hcs] at hsplit hne
      refine ⟨cs, hsplit, rfl, ?_, by rw [hcs], by rw [ht]; rfl, fun heof => by simp [ht] at heof⟩
      rw [hcs, ofGlyphs_map, ht]
      exact .string t p fun hnil => hne (hnil ▸ rfl)
  split at h
  · -- the `$` that closes an island
    rename_i hdollar
    subst hdollar
    split at h
    · cases h
      exact ⟨['$'], rfl, rfl, .mark .dollar p, rfl, rfl, by simp⟩
    · cases h
  split at h
  · rename_i m n hm
    cases h
    obtain ⟨hsplit, hlen, hclose, hdollar⟩ := leadingPunct?_takes hm
    refine ⟨m.spelling.toList, hsplit, rfl, .mark m p, ?_, (Punct.modesAfter hclose hdollar _).symm,
      by simp⟩
    rw [Position.advanceAll_of_not_mem m.newline_not_mem, List.length_map, hlen]
  · cases h

theorem scanTemplate_takes {c d : ScanPoint} {l : Lexeme} (h : scanTemplate c = .ok (l, d))
    (hmode : c.mode = .template) : ∃ word, c.Takes [] word l d := by
  obtain ⟨gs, p, modes⟩ := c
  have hgap : (ScanPoint.mode ⟨gs, p, modes⟩).Gap [] := by
    rw [hmode]
    rfl
  unfold scanTemplate at h
  cases hs : scanText p [] [] gs with
  | error e =>
    rw [hs] at h
    cases h
  | ok r =>
    obtain ⟨text, raw, rest⟩ := r
    obtain ⟨cs, rfl, rfl, rfl, hend⟩ := scanText_takes hs
    simp only [hs, bind, Except.bind, List.reverse_nil, List.nil_append, ofGlyphs_map] at h
    split at h
    · rename_i hne
      cases h
      have hne : cs ≠ [] := by
        rintro rfl
        cases hne
      exact ⟨doubleDollars cs, ⟨rfl, hgap, rfl, .text p hne, rfl, rfl, by simp⟩⟩
    · rename_i hempty
      obtain rfl : cs = [] := by
        cases cs with
        | nil => rfl
        | cons c cs => exact absurd rfl hempty
      cases hend with
      | nil =>
        cases h
        exact ⟨[], ⟨rfl, hgap, rfl, .eof p, rfl, rfl, fun _ => rfl⟩⟩
      | close rest =>
        cases h
        rw [ofString_eq_ofChars]
        exact ⟨_, ⟨rfl, hgap, rfl, .templateMark .closeTemplate p, rfl, rfl, by simp⟩⟩
      | dollar rest =>
        cases h
        obtain ⟨more, hmodes⟩ : ∃ more, modes = .template :: more := by
          cases modes with
          | nil => cases hmode
          | cons m more =>
            obtain rfl : m = .template := hmode
            exact ⟨more, rfl⟩
        subst hmodes
        rw [ofString_eq_ofChars]
        exact ⟨_, ⟨rfl, hgap, rfl, .templateMark .dollar p, rfl, rfl, by simp⟩⟩

/-- **What reading one token takes**: a gap and the characters of the token. -/
theorem ScanPoint.next_takes {c d : ScanPoint} {l : Lexeme} (h : c.next = .ok (l, d)) :
    ∃ gap word, c.Takes gap word l d := by
  unfold ScanPoint.next at h
  split at h
  · rename_i hmode
    exact ⟨[], scanTemplate_takes h hmode⟩
  · rename_i hmode
    cases hs : skipGap .blanks c.pos c.rest with
    | error e =>
      rw [hs] at h
      cases h
    | ok r =>
      obtain ⟨p, rest⟩ := r
      obtain ⟨gap, hrest, hgap, rfl⟩ := skipGap_takes hs
      rw [hs] at h
      obtain ⟨word, hword, hstart, hspans, hpos, hmodes, hended⟩ :=
        scanCode_takes (c := ⟨rest, c.pos.advanceAll (gap.map .char), c.modes⟩) h hmode
      refine ⟨gap, word, ⟨hrest.trans (congrArg _ hword), ?_, hstart, hspans, hpos, hmodes, hended⟩⟩
      unfold LexMode.Gap
      split
      · exact absurd ‹_› hmode
      · exact hgap

/-! ### Whole texts -/

/-- Only the end of the text takes nothing. -/
theorem Lexeme.Spans.ne_nil {l : Lexeme} {word : List Char} (h : l.Spans word)
    (ht : l.token ≠ .eof) : word ≠ [] := by
  cases h with
  | eof => exact absurd rfl ht
  | mark m | templateMark m => cases m <;> exact List.cons_ne_nil _ _
  | keyword k => cases k <;> exact List.cons_ne_nil _ _
  | name _ hne | number _ _ hne | string _ _ hne => exact hne
  | @text cs _ hne =>
    cases cs with
    | nil => exact absurd rfl hne
    | cons c cs =>
      simp only [doubleDollars, List.flatMap_cons]
      split <;> exact List.cons_ne_nil _ _

/-- Every token but the last leaves less of the text. -/
theorem ScanPoint.Takes.shorter {c d : ScanPoint} {gap word : List Char} {l : Lexeme}
    (h : c.Takes gap word l d) (ht : l.token ≠ .eof) : d.rest.length < c.rest.length := by
  have hword := List.length_pos_iff.2 (h.spans.ne_nil ht)
  rw [h.text]
  simp only [List.length_append, List.length_map]
  omega

/-- The lexemes of what is left of a text, and the error at which reading stops. -/
inductive Lexes : ScanPoint → Scan → Prop where
  | fault {c e} : c.next = .error e → Lexes c ⟨[], some e⟩
  | eof {c l d} : c.next = .ok (l, d) → l.token = .eof → Lexes c ⟨[l], none⟩
  | cons {c l d s} : c.next = .ok (l, d) → l.token ≠ .eof → Lexes d s →
      Lexes c ⟨l :: s.lexemes, s.fault⟩

theorem scanAll_lexes (fuel : Nat) (seen : List Lexeme) (c : ScanPoint)
    (h : c.rest.length < fuel) :
    ∃ s, Lexes c s ∧ scanAll fuel seen c = ⟨seen.reverse ++ s.lexemes, s.fault⟩ := by
  induction fuel generalizing seen c with
  | zero => exact absurd h (Nat.not_lt_zero _)
  | succ fuel ih =>
    rw [scanAll]
    cases hn : c.next with
    | error e => exact ⟨_, .fault hn, by simp⟩
    | ok r =>
      obtain ⟨l, d⟩ := r
      obtain ⟨gap, word, htakes⟩ := ScanPoint.next_takes hn
      dsimp only
      split
      · rename_i heof
        exact ⟨_, .eof hn heof, by simp⟩
      · rename_i hne
        have hlt := htakes.shorter hne
        obtain ⟨s, hs, hall⟩ := ih (l :: seen) d (by omega)
        exact ⟨_, .cons hn hne hs, by simp [hall]⟩

/-- The lexemes of a source text are those read one after the other to its end. -/
theorem scan_lexes (file src : Bytes) : Lexes (.ofBytes file src) (scan file src) := by
  obtain ⟨s, hs, hall⟩ := scanAll_lexes ((ScanPoint.ofBytes file src).rest.length + 1) []
    (.ofBytes file src) (Nat.lt_succ_self _)
  rw [scan, hall]
  exact hs

/-- There is only one way to read a text. -/
theorem Lexes.unique {c : ScanPoint} {s s' : Scan} (h : Lexes c s) (h' : Lexes c s') : s = s' := by
  induction h generalizing s' with
  | fault hn =>
    cases h' with
    | fault hn' =>
      rw [hn] at hn'
      cases hn'
      rfl
    | eof hn' | cons hn' => simp [hn] at hn'
  | eof hn heof =>
    cases h' with
    | fault hn' => simp [hn] at hn'
    | eof hn' =>
      rw [hn] at hn'
      cases hn'
      rfl
    | cons hn' hne =>
      rw [hn] at hn'
      cases hn'
      exact absurd heof hne
  | cons hn hne _ ih =>
    cases h' with
    | fault hn' => simp [hn] at hn'
    | eof hn' heof =>
      rw [hn] at hn'
      cases hn'
      exact absurd heof hne
    | cons hn' _ hs =>
      rw [hn] at hn'
      cases hn'
      rw [ih hs]

end Stencil
