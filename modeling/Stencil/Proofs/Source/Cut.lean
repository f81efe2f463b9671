import Stencil.Proofs.Source.Lexing

/-!
# Texts cut at a line end

No token of code goes on over a line end, except for a string in which it is escaped. So the
part of a text up to a line end is read as the text is, token by token, until reading stops:
with the end of the file, in a comment or a string that is not closed, or after a piece of
template text that has been cut short (`scan_cut`).
-/

namespace Stencil

/-- The last glyph is a line end. -/
def EndsLine (gs : List Glyph) : Prop := ∃ hs, gs = hs ++ [.char '\n']

namespace EndsLine

variable {g : Glyph} {gs post rest : List Glyph}

theorem ne_nil (h : EndsLine gs) : gs ≠ [] := by
  obtain ⟨hs, rfl⟩ := h
  simp

theorem tail (h : EndsLine (g :: gs)) : gs = [] ∧ g = .char '\n' ∨ EndsLine gs := by
  obtain ⟨_ | ⟨g', hs⟩, heq⟩ := h
  · obtain ⟨rfl, rfl⟩ := List.cons.inj heq
    exact .inl ⟨rfl, rfl⟩
  · exact .inr ⟨hs, (List.cons.inj heq).2⟩

/-- A glyph that is no line end is not the last one. -/
theorem tail_of_ne (h : EndsLine (g :: gs)) (hg : g ≠ .char '\n') : EndsLine gs :=
  h.tail.resolve_left fun hn => hg hn.2

/-- What has no line end does not reach to the end. -/
theorem of_append {hs : List Glyph} (h : EndsLine (hs ++ gs)) (hn : Glyph.char '\n' ∉ hs) :
    EndsLine gs := by
  induction hs with
  | nil => exact h
  | cons g hs ih =>
    simp only [List.mem_cons, not_or] at hn
    exact ih (h.tail_of_ne (Ne.symm hn.1)) hn.2

/-- The first glyph stands before the cut. -/
theorem exists_cons (h : EndsLine gs) (hpost : gs ++ post = g :: rest) :
    ∃ hs, gs = g :: hs ∧ rest = hs ++ post := by
  cases gs with
  | nil => exact absurd rfl h.ne_nil
  | cons g' hs =>
    obtain ⟨rfl, rfl⟩ := List.cons.inj hpost
    exact ⟨hs, rfl, rfl⟩

/-- A run of a class without line ends stops before the cut. -/
theorem span {P : Glyph → Bool} (hP : P (.char '\n') = false) (h : EndsLine gs)
    (post : List Glyph) : (gs ++ post).takeWhile P = gs.takeWhile P ∧
      (gs ++ post).dropWhile P = gs.dropWhile P ++ post ∧ EndsLine (gs.dropWhile P) := by
  induction gs with
  | nil => exact absurd rfl h.ne_nil
  | cons g gs ih =>
    by_cases hg : P g
    · have hgs := h.tail_of_ne fun hn => by simp [hn, hP] at hg
      simpa [hg] using ih hgs
    · simpa [hg] using h

end EndsLine

/-- What reading a part of the text gives on the text before a cut, if it succeeds on the whole
text with the value `a` and the glyphs `rest` left: the same if it ends before the cut. -/
inductive CutResult {α : Type} (post : List Glyph) (a : α) (rest : List Glyph) (stopped : α → Prop) :
    Except SyntaxError (α × List Glyph) → Prop where
  | same {hs : List Glyph} : rest = hs ++ post → EndsLine hs → CutResult post a rest stopped (.ok (a, hs))
  | stopped {b} : stopped b → CutResult post a rest stopped (.ok (b, []))
  | unclosed {e} : e.atEnd = true → CutResult post a rest stopped (.error e)

variable {post rest gs : List Glyph}

theorem skipGap_cut {part : GapPart} {p p' : Position}
    (h : skipGap part p (gs ++ post) = .ok (p', rest)) (hg : EndsLine gs) :
    CutResult post p' rest (fun _ => True) (skipGap part p gs) := by
  fun_induction skipGap part p gs with
  | case1 p gs ih =>
    simp only [List.cons_append, skipGap] at h
    exact ih h ((hg.tail_of_ne (by simp)).tail_of_ne (by simp))
  | case2 p gs ih =>
    simp only [List.cons_append, skipGap] at h
    exact ih h ((hg.tail_of_ne (by simp)).tail_of_ne (by simp))
  | case3 p g gs hline hblock hgap ih =>
    obtain ⟨rfl, rfl⟩ | hgs := hg.tail
    · rw [skipGap]
      exact .stopped trivial
    · rw [List.cons_append, skipGap, if_pos hgap] at h
      · exact ih h hgs
      · intro rest hslash hrest
        obtain ⟨hs, heq, -⟩ := hgs.exists_cons hrest
        exact hline hs hslash heq
      · intro rest hslash hrest
        obtain ⟨hs, heq, -⟩ := hgs.exists_cons hrest
        exact hblock hs hslash heq
  | case4 p g gs hline hblock hgap =>
    have hgs : EndsLine gs := hg.tail_of_ne fun hn => hgap (hn ▸ rfl)
    rw [List.cons_append, skipGap, if_neg hgap] at h
    · cases h
      exact .same rfl hg
    · intro rest hslash hrest
      obtain ⟨hs, heq, -⟩ := hgs.exists_cons hrest
      exact hline hs hslash heq
    · intro rest hslash hrest
      obtain ⟨hs, heq, -⟩ := hgs.exists_cons hrest
      exact hblock hs hslash heq
  | case5 => exact absurd rfl hg.ne_nil
  | case6 => exact absurd rfl hg.ne_nil
  | case7 => simp [skipGap] at h
  | case8 p c gs ih =>
    simp only [List.cons_append, skipGap] at h
    obtain ⟨rfl, hc⟩ | hgs := hg.tail
    · rw [if_pos (Glyph.char.inj hc), skipGap]
      exact .stopped trivial
    · exact ih h hgs
  | case9 => exact absurd rfl hg.ne_nil
  | case10 start p gs ih =>
    simp only [List.cons_append, skipGap] at h
    exact ih h ((hg.tail_of_ne (by simp)).tail_of_ne (by simp))
  | case11 => simp [skipGap] at h
  | case12 start p c gs hclose ih =>
    obtain ⟨rfl, -⟩ | hgs := hg.tail
    · rw [skipGap]
      exact .unclosed rfl
    · rw [List.cons_append, skipGap] at h
      · exact ih h hgs
      · intro rest hstar hrest
        obtain ⟨hs, heq, -⟩ := hgs.exists_cons hstar
        exact hclose hs heq hrest

/-! ### Tokens of code -/

/-- The scanned token with other glyphs after it. -/
def Scanned.before (s : Scanned) (gs : List Glyph) : Scanned := { s with rest := gs }

/-- Reading a literal on the text before a cut, if it gives `s` on the whole text. -/
inductive CutScanned (post : List Glyph) (s : Scanned) : Except SyntaxError Scanned → Prop where
  | same {hs : List Glyph} : s.rest = hs ++ post → EndsLine hs → CutScanned post s (.ok (s.before hs))
  | unclosed {e : SyntaxError} : e.atEnd = true → CutScanned post s (.error e)

theorem splitFraction_cut (h : EndsLine gs) (post : List Glyph) :
    ∃ hs, splitFraction gs = ((splitFraction (gs ++ post)).1, hs) ∧
      (splitFraction (gs ++ post)).2 = hs ++ post ∧ EndsLine hs := by
  obtain ⟨g, gs, rfl⟩ := List.exists_cons_of_ne_nil h.ne_nil
  by_cases hg : g = .char '.'
  · subst hg
    have hgs := h.tail_of_ne (by simp)
    obtain ⟨d, gs, rfl⟩ := List.exists_cons_of_ne_nil hgs.ne_nil
    obtain ⟨htake, hdrop, hend⟩ := hgs.span (P := Glyph.isDigit) rfl post
    simp only [List.cons_append] at htake hdrop
    simp only [splitFraction, List.cons_append]
    by_cases hd : d.isDigit
    · simp only [if_pos hd, htake, hdrop]
      exact ⟨_, rfl, rfl, hend⟩
    · simp only [if_neg hd]
      exact ⟨_, rfl, rfl, h⟩
  · have hno (more : List Glyph) : splitFraction (g :: more) = ([], g :: more) := by
      unfold splitFraction
      split
      · rename_i heq
        exact absurd (List.cons.inj heq).1 hg
      · rfl
    rw [List.cons_append, hno, hno]
    exact ⟨_, rfl, rfl, h⟩

theorem splitMark_cons (g : Glyph) (gs : List Glyph) : splitMark (g :: gs) =
    if g = .char 'e' ∨ g = .char 'E' then ([g], gs) else ([], g :: gs) := by
  unfold splitMark
  split <;> simp_all

theorem splitSign_cons (g : Glyph) (gs : List Glyph) : splitSign (g :: gs) =
    if g = .char '+' ∨ g = .char '-' then ([g], gs) else ([], g :: gs) := by
  unfold splitSign
  split <;> simp_all

theorem splitMark_cut (h : EndsLine gs) (post : List Glyph) :
    ∃ hs, splitMark gs = ((splitMark (gs ++ post)).1, hs) ∧
      (splitMark (gs ++ post)).2 = hs ++ post ∧ EndsLine hs := by
  obtain ⟨g, gs, rfl⟩ := List.exists_cons_of_ne_nil h.ne_nil
  rw [List.cons_append, splitMark_cons, splitMark_cons]
  split
  · rename_i hg
    exact ⟨gs, rfl, rfl, h.tail_of_ne (by rintro rfl; simp at hg)⟩
  · exact ⟨g :: gs, rfl, rfl, h⟩

theorem splitSign_cut (h : EndsLine gs) (post : List Glyph) :
    ∃ hs, splitSign gs = ((splitSign (gs ++ post)).1, hs) ∧
      (splitSign (gs ++ post)).2 = hs ++ post ∧ EndsLine hs := by
  obtain ⟨g, gs, rfl⟩ := List.exists_cons_of_ne_nil h.ne_nil
  rw [List.cons_append, splitSign_cons, splitSign_cons]
  split
  · rename_i hg
    exact ⟨gs, rfl, rfl, h.tail_of_ne (by rintro rfl; simp at hg)⟩
  · exact ⟨g :: gs, rfl, rfl, h⟩

/-- What comes after a number does not matter. -/
theorem finishNumber_rest {p : Position} {whole frac mark sign exp rest : List Glyph} {s : Scanned}
    (h : finishNumber p whole frac mark sign exp rest = .ok s) (rest' : List Glyph) :
    finishNumber p whole frac mark sign exp rest' = .ok (s.before rest') := by
  unfold finishNumber at h ⊢
  dsimp only at h ⊢
  split at h
  · cases h
  · rename_i hmark
    rw [if_neg hmark]
    split at h
    · rename_i hint
      rw [if_pos hint]
      split at h
      · rename_i n hread
        cases h
        rfl
      · cases h
    · rename_i hint
      rw [if_neg hint]
      split at h
      · rename_i x hread
        cases h
        rfl
      · cases h

theorem scanExponent_cut {p : Position} {whole frac : List Glyph} {s : Scanned}
    (h : scanExponent p whole frac (gs ++ post) = .ok s) (hg : EndsLine gs) :
    CutScanned post s (scanExponent p whole frac gs) := by
  obtain ⟨hs, hmark, hrest, hend⟩ := splitMark_cut hg post
  by_cases hbare : (splitMark (gs ++ post)).1 = []
  · rw [scanExponent_bare p whole frac hbare] at h
    rw [scanExponent_bare p whole frac (by rw [hmark, hbare]), finishNumber_rest h]
    exact .same (finishNumber_takes h).2.2 hg
  · rw [scanExponent_marked p whole frac hbare, hrest] at h
    rw [scanExponent_marked p whole frac (by rw [hmark]; exact hbare), hmark]
    obtain ⟨ts, hsign, hrest', hend'⟩ := splitSign_cut hend post
    obtain ⟨htake, hdrop, hend''⟩ := hend'.span (P := Glyph.isDigit) rfl post
    rw [hrest', htake, hdrop] at h
    rw [hsign, finishNumber_rest h]
    exact .same (finishNumber_takes h).2.2 hend''

theorem scanNumber_cut {p : Position} {s : Scanned} (h : scanNumber p (gs ++ post) = .ok s)
    (hg : EndsLine gs) : CutScanned post s (scanNumber p gs) := by
  obtain ⟨htake, hdrop, hend⟩ := hg.span (P := Glyph.isDigit) rfl post
  obtain ⟨hs, hfrac, hrest, hend'⟩ := splitFraction_cut hend post
  rw [scanNumber_eq, htake, hdrop, hrest] at h
  rw [scanNumber_eq, hfrac]
  exact scanExponent_cut h hend'

/-- A string that is not closed before the cut is not closed at all. -/
theorem scanStringBody_cut {q : Char} {start p : Position} {seen body : List Glyph}
    (hq : q ≠ '\n') (h : scanStringBody q start p seen (gs ++ post) = .ok (body, rest))
    (hg : EndsLine gs) :
    CutResult post body rest (fun _ => False) (scanStringBody q start p seen gs) := by
  fun_induction scanStringBody q start p seen gs with
  | case1 => exact absurd rfl hg.ne_nil
  | case2 => simp [scanStringBody] at h
  | case3 p seen gs =>
    rw [List.cons_append, scanStringBody.eq_def] at h
    dsimp only at h
    rw [if_pos rfl] at h
    cases h
    exact .same rfl (hg.tail_of_ne (by simpa using hq))
  | case4 p seen gs hne =>
    rw [List.cons_append, scanStringBody.eq_def] at h
    dsimp only at h
    rw [if_neg hne, if_pos rfl] at h
    cases h
  | case5 => exact .unclosed rfl
  | case6 p seen b gs hne _ =>
    rw [List.cons_append, scanStringBody.eq_def] at h
    simp [hne] at h
  | case7 p seen d gs hne _ ih =>
    rw [List.cons_append, scanStringBody.eq_def] at h
    dsimp only [List.cons_append] at h
    rw [if_neg hne, if_neg (by decide), if_pos rfl] at h
    obtain ⟨rfl, -⟩ | hgs := (hg.tail_of_ne (by simp)).tail
    · rw [scanStringBody]
      exact .unclosed rfl
    · exact ih h hgs
  | case8 p seen c gs hne hline hslash ih =>
    rw [List.cons_append, scanStringBody.eq_def] at h
    dsimp only at h
    rw [if_neg hne, if_neg hline, if_neg hslash] at h
    exact ih h (hg.tail_of_ne (by simpa using hline))

theorem scanString_cut {q : Char} {p : Position} {s : Scanned} (hq : q ≠ '\n')
    (h : scanString q p (gs ++ post) = .ok s) (hg : EndsLine gs) :
    CutScanned post s (scanString q p gs) := by
  unfold scanString at h ⊢
  cases hb : scanStringBody q p (p.right 1) [] (gs ++ post) with
  | error e =>
    rw [hb] at h
    cases h
  | ok r =>
    obtain ⟨body, rest⟩ := r
    have hcut := scanStringBody_cut hq hb hg
    simp only [hb, bind, Except.bind] at h
    generalize scanStringBody q p (p.right 1) [] gs = x at hcut
    cases hcut with
    | same hrest hend =>
      simp only [bind, Except.bind]
      split at h
      · cases h
        exact .same hrest hend
      · cases h
    | stopped hstop => cases hstop
    | unclosed he => exact .unclosed he

theorem leadingPunct?_newline (gs : List Glyph) : leadingPunct? '\n' gs = none := by
  have hdouble (d : Char) : doublePunct? '\n' d = none := by
    unfold doublePunct?
    split <;> simp_all
  unfold leadingPunct?
  split <;> simp_all [singlePunct?]

theorem leadingPunct?_cut {c : Char} {m : Punct} {n : Nat}
    (h : leadingPunct? c (gs ++ post) = some (m, n)) (hg : EndsLine (.char c :: gs)) :
    leadingPunct? c gs = some (m, n) ∧ EndsLine ((Glyph.char c :: gs).drop n) ∧
      (Glyph.char c :: (gs ++ post)).drop n = (Glyph.char c :: gs).drop n ++ post := by
  have hgs : EndsLine gs := hg.tail_of_ne fun hc => by
    rw [Glyph.char.inj hc, leadingPunct?_newline] at h
    cases h
  obtain ⟨g, gs, rfl⟩ := List.exists_cons_of_ne_nil hgs.ne_nil
  have heq : leadingPunct? c (g :: gs) = some (m, n) := by
    rw [← h]
    cases g <;> rfl
  obtain ⟨hsplit, hlen, -, -⟩ := leadingPunct?_takes heq
  have hle : n ≤ (Glyph.char c :: g :: gs).length := by
    rw [hsplit, List.length_append, List.length_map, hlen]
    exact Nat.le_add_right _ _
  exact ⟨heq, (hsplit ▸ hg).of_append m.newline_not_mem,
    List.drop_append_of_le_length hle⟩

/-! ### Whole tokens -/

/-- The reader at the same place of the text before a cut. -/
def ScanPoint.before (c : ScanPoint) (gs : List Glyph) : ScanPoint := { c with rest := gs }

theorem scanCode_cut {c d : ScanPoint} {l : Lexeme} (h : scanCode (c.before (gs ++ post)) = .ok (l, d))
    (hg : EndsLine gs) :
    (∃ hs, d.rest = hs ++ post ∧ EndsLine hs ∧ scanCode (c.before gs) = .ok (l, d.before hs)) ∨
      ∃ e, scanCode (c.before gs) = .error e ∧ e.atEnd = true := by
  obtain ⟨g, gs, rfl⟩ := List.exists_cons_of_ne_nil hg.ne_nil
  cases g with
  | stray b => cases h
  | char ch =>
  unfold scanCode ScanPoint.before at h ⊢
  dsimp only [List.cons_append] at h ⊢
  split at h
  · rename_i hstart
    rw [if_pos hstart]
    obtain ⟨htake, hdrop, hend⟩ := hg.span (P := Glyph.isNamePart) (by decide) post
    rw [List.cons_append] at htake hdrop
    rw [htake, hdrop] at h
    cases h
    exact .inl ⟨_, rfl, hend, rfl⟩
  rename_i hstart
  rw [if_neg hstart]
  split at h
  · rename_i hdigit
    rw [if_pos hdigit]
    cases hs : scanNumber c.pos (.char ch :: (gs ++ post)) with
    | error e =>
      rw [hs] at h
      cases h
    | ok s =>
      rw [hs] at h
      cases h
      have hcut : CutScanned post s (scanNumber c.pos (.char ch :: gs)) := scanNumber_cut hs hg
      generalize scanNumber c.pos (.char ch :: gs) = x at hcut
      cases hcut with
      | same hrest hend => exact .inl ⟨_, hrest, hend, rfl⟩
      | unclosed he => exact .inr ⟨_, rfl, he⟩
  rename_i hdigit
  rw [if_neg hdigit]
  split at h
  · rename_i hquote
    rw [if_pos hquote]
    have hne : ch ≠ '\n' := by
      rintro rfl
      simp at hquote
    cases hs : scanString ch c.pos (gs ++ post) with
    | error e =>
      rw [hs] at h
      cases h
    | ok s =>
      rw [hs] at h
      cases h
      have hcut := scanString_cut hne hs (hg.tail_of_ne (by simpa using hne))
      generalize scanString ch c.pos gs = x at hcut
      cases hcut with
      | same hrest hend => exact .inl ⟨_, hrest, hend, rfl⟩
      | unclosed he => exact .inr ⟨_, rfl, he⟩
  rename_i hquote
  rw [if_neg hquote]
  split at h
  · rename_i hdollar
    rw [if_pos hdollar]
    subst hdollar
    split at h
    · cases h
      rename_i hmodes
      exact .inl ⟨gs, rfl, hg.tail_of_ne (by simp), rfl⟩
    · cases h
  rename_i hdollar
  rw [if_neg hdollar]
  split at h
  · rename_i m n hm
    obtain ⟨hm', hend, hdrop⟩ := leadingPunct?_cut hm hg
    rw [hm']
    cases h
    exact .inl ⟨_, hdrop, hend, rfl⟩
  · cases h

/-- Template text goes on over line ends; at the cut it is cut short. -/
theorem scanText_cut {p : Position} {seen seenRaw text raw : List Glyph}
    (h : scanText p seen seenRaw (gs ++ post) = .ok (text, raw, rest)) (hg : EndsLine gs) :
    (∃ hs, rest = hs ++ post ∧ EndsLine hs ∧ scanText p seen seenRaw gs = .ok (text, raw, hs)) ∨
      ∃ text' raw', scanText p seen seenRaw gs = .ok (text', raw', []) ∧ text' ≠ [] ∧ text ≠ [] := by
  fun_induction scanText p seen seenRaw gs with
  | case1 => exact absurd rfl hg.ne_nil
  | case2 p seen seenRaw gs ih =>
    simp only [List.cons_append, scanText] at h
    exact ih h ((hg.tail_of_ne (by simp)).tail_of_ne (by simp))
  | case3 p seen seenRaw gs =>
    simp only [List.cons_append, scanText] at h
    cases h
    exact .inl ⟨_, rfl, hg, rfl⟩
  | case4 => simp [scanText] at h
  | case5 p seen seenRaw gs hdollars hclose =>
    have hgs : EndsLine gs := hg.tail_of_ne (by simp)
    rw [List.cons_append, scanText, if_pos rfl] at h
    · cases h
      exact .inl ⟨_, rfl, hg, rfl⟩
    · intro rest hrest _
      obtain ⟨hs, heq, -⟩ := hgs.exists_cons hrest
      exact hdollars hs heq rfl
    · intro rest _ hbar
      simp at hbar
  | case6 p seen seenRaw c gs hdollars hclose hc ih =>
    obtain ⟨rfl, hline⟩ | hgs := hg.tail
    · obtain rfl : c = '\n' := Glyph.char.inj hline
      have htext : scanText p seen seenRaw (.char '\n' :: post) =
          scanText (p.advance (.char '\n')) (.char '\n' :: seen) (.char '\n' :: seenRaw) post := by
        rw [scanText, if_neg hc] <;> simp
      rw [List.singleton_append, htext] at h
      obtain ⟨cs, rfl, -⟩ := scanText_takes h
      exact .inr ⟨_, _, rfl, by simp, by simp⟩
    · rw [List.cons_append, scanText, if_neg hc] at h
      · exact ih h hgs
      · intro rest hrest hdollar
        obtain ⟨hs, heq, -⟩ := hgs.exists_cons hrest
        exact hdollars hs heq hdollar
      · intro rest hrest hbar
        obtain ⟨hs, heq, -⟩ := hgs.exists_cons hrest
        exact hclose hs heq hbar

/-- What reading a token before the cut gives, if it gives `l` on the whole text and leaves the
reader at `d`. -/
inductive CutToken (post : List Glyph) (l : Lexeme) (d : ScanPoint) :
    Except SyntaxError (Lexeme × ScanPoint) → Prop where
  | same {hs} : d.rest = hs ++ post → EndsLine hs → CutToken post l d (.ok (l, d.before hs))
  | ended {e c} : e.token = .eof → CutToken post l d (.ok (e, c))
  | unclosed {e} : e.atEnd = true → CutToken post l d (.error e)
  /-- Template text that is cut short; then the text ends. -/
  | short {l' c e c' t t'} : l.token = .text t → l'.token = .text t' → l'.pos = l.pos →
      c.next = .ok (e, c') → e.token = .eof → CutToken post l d (.ok (l', c))

theorem ScanPoint.next_ended {c : ScanPoint} (hmode : c.mode = .template) (hrest : c.rest = []) :
    c.next = .ok (⟨.eof, c.pos, []⟩, c) := by
  rw [ScanPoint.next, hmode]
  dsimp only
  rw [scanTemplate, hrest]
  rfl

theorem scanTemplate_cut {c d : ScanPoint} {l : Lexeme}
    (h : scanTemplate (c.before (gs ++ post)) = .ok (l, d)) (hg : EndsLine gs)
    (hmode : c.mode = .template) : CutToken post l d (scanTemplate (c.before gs)) := by
  unfold scanTemplate ScanPoint.before at h ⊢
  dsimp only at h ⊢
  cases hs : scanText c.pos [] [] (gs ++ post) with
  | error e =>
    rw [hs] at h
    cases h
  | ok r =>
    obtain ⟨text, raw, rest⟩ := r
    simp only [hs, bind, Except.bind] at h ⊢
    obtain ⟨_, _, _, _, hstop⟩ := scanText_takes hs
    obtain ⟨hs', hrest, hend, hcut⟩ | ⟨text', raw', hcut, hne', hne⟩ := scanText_cut hs hg
    · simp only [hcut]
      split at h
      · rename_i htext
        rw [if_pos htext]
        cases h
        exact .same hrest hend
      · rename_i htext
        rw [if_neg htext]
        cases hstop with
        | nil => exact absurd (List.append_eq_nil_iff.1 hrest.symm).1 hend.ne_nil
        | close rest =>
          obtain ⟨hs, rfl, hrest'⟩ := hend.exists_cons hrest.symm
          have hend' := hend.tail_of_ne (by simp)
          obtain ⟨hs, rfl, rfl⟩ := hend'.exists_cons hrest'.symm
          cases h
          exact .same rfl (hend'.tail_of_ne (by simp))
        | dollar rest =>
          obtain ⟨hs, rfl, rfl⟩ := hend.exists_cons hrest.symm
          cases h
          exact .same rfl (hend.tail_of_ne (by simp))
    · simp only [hcut]
      rw [if_pos (by simpa using hne)] at h
      rw [if_pos (by simpa using hne')]
      cases h
      exact .short rfl rfl rfl (ScanPoint.next_ended hmode rfl) rfl

/-- **Reading a token of a text cut at a line end** gives the same token or stops. -/
theorem ScanPoint.next_cut {c d : ScanPoint} {l : Lexeme}
    (h : (c.before (gs ++ post)).next = .ok (l, d)) (hg : EndsLine gs) :
    CutToken post l d (c.before gs).next := by
  by_cases hmode : c.mode = .template
  · have hnext (hs : List Glyph) : (c.before hs).next = scanTemplate (c.before hs) := by
      rw [ScanPoint.next, show (c.before hs).mode = .template from hmode]
    rw [hnext] at h ⊢
    exact scanTemplate_cut h hg hmode
  · have hnext (hs : List Glyph) : (c.before hs).next =
        (skipGap .blanks c.pos hs).bind fun r => scanCode ⟨r.2, r.1, c.modes⟩ := by
      unfold ScanPoint.next
      split
      · exact absurd ‹_› hmode
      · rfl
    rw [hnext] at h ⊢
    cases hs : skipGap .blanks c.pos (gs ++ post) with
    | error e =>
      rw [hs] at h
      cases h
    | ok r =>
      obtain ⟨p, rest⟩ := r
      rw [hs] at h
      have hcut := skipGap_cut hs hg
      generalize skipGap .blanks c.pos gs = x at hcut
      cases hcut with
      | same hrest hend =>
        change CutToken post l d (scanCode (ScanPoint.before ⟨[], p, c.modes⟩ _))
        obtain ⟨hs', hrest', hend', hcode⟩ | ⟨e, hcode, he⟩ :=
          scanCode_cut (c := ⟨[], p, c.modes⟩) (hrest ▸ h) hend
        · rw [hcode]
          exact .same hrest' hend'
        · rw [hcode]
          exact .unclosed he
      | stopped => exact .ended (c := ⟨[], _, c.modes⟩) rfl
      | unclosed he => exact .unclosed he

/-! ### Whole texts -/

/-- The lexemes of the text before a cut, and the error at which reading stops, beside those of
the whole text. Where they come to an end, `bad` holds of the error or of whatever is found wrong
with the end of the file. -/
inductive CutScan (bad : SyntaxError → Prop) : Scan → List Lexeme → Prop where
  | fault {e ls} : bad e → CutScan bad ⟨[], some e⟩ ls
  | eof {e ls} : e.token = .eof → (∀ cause, bad ⟨e.pos, cause, true⟩) → CutScan bad ⟨[e], none⟩ ls
  | short {l l' e t t' ls} : l.token = .text t → l'.token = .text t' → l'.pos = l.pos →
      e.token = .eof → (∀ cause, bad ⟨e.pos, cause, true⟩) → CutScan bad ⟨[l', e], none⟩ (l :: ls)
  | cons {l s ls} : l.token ≠ .eof → CutScan bad s ls →
      CutScan bad ⟨l :: s.lexemes, s.fault⟩ (l :: ls)

theorem Lexes.cut {c : ScanPoint} {s : Scan} (h : Lexes c s) (hf : s.fault = none) :
    ∀ {c' : ScanPoint} {gs : List Glyph} {s' : Scan}, c = c'.before (gs ++ post) → EndsLine gs →
      Lexes (c'.before gs) s' → CutScan (·.atEnd = true) s' s.lexemes := by
  induction h with
  | fault => cases hf
  | eof hn heof =>
    intro c' gs s' hc hg hs'
    subst hc
    have hcut := ScanPoint.next_cut hn hg
    cases hs' with
    | fault hn' =>
      rw [hn'] at hcut
      cases hcut with
      | unclosed he => exact .fault he
    | eof hn' heof' => exact .eof heof' fun _ => rfl
    | cons hn' hne' hs'' =>
      rw [hn'] at hcut
      cases hcut with
      | same => exact absurd heof hne'
      | ended heof' => exact absurd heof' hne'
      | short ht => simp [ht] at heof
  | @cons c l d s hn hne hs ih =>
    intro c' gs s' hc hg hs'
    subst hc
    have hcut := ScanPoint.next_cut hn hg
    cases hs' with
    | fault hn' =>
      rw [hn'] at hcut
      cases hcut with
      | unclosed he => exact .fault he
    | eof hn' heof' => exact .eof heof' fun _ => rfl
    | cons hn' hne' hs'' =>
      rw [hn'] at hcut
      cases hcut with
      | @same rest hrest hend =>
        have hd : d = d.before (rest ++ post) := by rw [← hrest]; rfl
        exact .cons hne (ih hf hd hend hs'')
      | ended heof' => exact absurd heof' hne'
      | short ht ht' hpos hn'' heof' =>
        rw [hs''.unique (.eof hn'' heof')]
        exact .short ht ht' hpos heof' fun _ => rfl

/-- **A text cut at a line end** is read as the whole text is, until reading stops at the cut. -/
theorem scan_cut (file pre post : Bytes) (hf : (scan file (pre ++ 10 :: post)).fault = none) :
    CutScan (·.atEnd = true) (scan file (pre ++ [10])) (scan file (pre ++ 10 :: post)).lexemes := by
  have hpre : (ScanPoint.ofBytes file (pre ++ [10])) =
      (ScanPoint.ofBytes file []).before (pre.glyphs ++ [.char '\n']) := by
    rw [ScanPoint.ofBytes, glyphs_append_newline]
    rfl
  have hall : (ScanPoint.ofBytes file (pre ++ 10 :: post)) =
      (ScanPoint.ofBytes file []).before ((pre.glyphs ++ [.char '\n']) ++ post.glyphs) := by
    rw [ScanPoint.ofBytes, glyphs_append_newline, List.append_assoc]
    rfl
  exact (scan_lexes file _).cut hf hall ⟨_, rfl⟩ (hpre ▸ scan_lexes file _)

end Stencil
