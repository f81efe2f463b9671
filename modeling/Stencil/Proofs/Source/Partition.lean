import Stencil.Proofs.Source.Lexing

/-!
# A text is cut into gaps and tokens

A source text read without error is the concatenation of its segments, each of them a gap and the
characters of a token (`scan_partition`). A segment tells where its token stands in two ways: by the
counters after the glyphs passed on the way there, and by `Counters.add`, which counts the line ends
among the bytes before it and the glyphs after the last of them. Both wrap around in 32 bits, and
they agree on texts of any length. The counters of a text of fewer than 2 ^ 31 bytes do not wrap
before its last token, so that the tokens stand one after the other. At the end of a line of
2 ^ 31 - 1 bytes they do: the column of the end of the file is one past the largest word.
-/

namespace Stencil

/-! ### Counters -/

namespace Counters

/-- The counters at the start of a file. -/
def start : Counters := ⟨1, 1⟩

/-- The counters after one glyph. -/
def advance (p : Counters) (g : Glyph) : Counters :=
  if g = .char '\n' then ⟨p.line + 1, 1⟩ else ⟨p.line, p.col + 1⟩

/-- The counters after a sequence of glyphs, one by one. -/
def advanceAll (p : Counters) (gs : List Glyph) : Counters := gs.foldl advance p

/-- The counters at the end of a text that starts at `p`, from the number of its line ends and that
of the glyphs after the last of them. -/
def add (p : Counters) (b : Bytes) : Counters :=
  ⟨p.line + Int32.ofNat (b.count 10),
    (if 10 ∈ b then 1 else p.col) + Int32.ofNat b.lastLine.glyphs.length⟩

end Counters

namespace Position

variable {p q r : Position}

theorem counters_start (file : Bytes) : (start file).counters = Counters.start := rfl

theorem counters_advance (p : Position) (g : Glyph) :
    (p.advance g).counters = p.counters.advance g := by
  unfold advance Counters.advance
  split
  · simp only [counters, Int32.ofNat_add]
    rfl
  · simp only [counters, Int32.ofNat_add]
    rfl

/-- What is kept of a position is counted in words from the start. -/
theorem counters_advanceAll (p : Position) (gs : List Glyph) :
    (p.advanceAll gs).counters = p.counters.advanceAll gs := by
  induction gs generalizing p with
  | nil => rfl
  | cons g gs ih => rw [advanceAll_cons, ih, counters_advance]; rfl

theorem counters_add (p : Position) (b : Bytes) : (p.add b).counters = p.counters.add b := by
  rw [add_eq_count, Counters.add]
  simp only [counters, Int32.ofNat_add]
  split
  · rfl
  · rfl

/-- Line and column fit into words. -/
def Fits (p : Position) : Prop := p.line < 2 ^ 31 ∧ p.col < 2 ^ 31

theorem Fits.toInt_line (h : p.Fits) : p.counters.line.toInt = p.line :=
  Int32.toInt_ofNat_of_lt h.1

theorem Fits.toInt_col (h : p.Fits) : p.counters.col.toInt = p.col :=
  Int32.toInt_ofNat_of_lt h.2

/-! ### The order of positions -/

/-- Whether `p` lies before `q`, counted without bound. -/
def Precedes (p q : Position) : Prop := p.line < q.line ∨ p.line = q.line ∧ p.col < q.col

theorem Precedes.trans (hpq : p.Precedes q) (hqr : q.Precedes r) : p.Precedes r := by
  unfold Precedes at *
  omega

/-- Words that do not wrap keep the order. -/
theorem Precedes.isBefore (h : p.Precedes q) (hp : p.Fits) (hq : q.Fits) :
    p.isBefore q = true := by
  have hline : p.counters.line = q.counters.line ↔ p.line = q.line := by
    rw [← Int32.toInt_inj, hp.toInt_line, hq.toInt_line, Nat.cast_inj]
  rw [Position.isBefore, Counters.isBefore]
  split
  · rename_i heq
    have := hline.1 heq
    rw [decide_eq_true_iff, Int32.lt_iff_toInt_lt, hp.toInt_col, hq.toInt_col]
    unfold Precedes at h
    omega
  · rename_i hne
    have := mt hline.2 hne
    rw [decide_eq_true_iff, Int32.lt_iff_toInt_lt, hp.toInt_line, hq.toInt_line]
    unfold Precedes at h
    omega

/-- Passing over characters is adding their bytes. -/
theorem add_ofChars (p : Position) (cs : List Char) :
    p.add (Bytes.ofChars cs) = p.advanceAll (cs.map .char) := by
  rw [add, glyphs_ofChars]

end Position

/-- A token with the bytes it takes and the gap before them. -/
structure Segment where
  gap : Bytes
  word : Bytes
  lexeme : Lexeme

/-- The bytes of a segment. -/
def Segment.bytes (p : Segment) : Bytes := p.gap ++ p.word

/-- A segment follows the text `before` where the innermost mode is that of `modes`: its gap is one
of the mode, its bytes are those of its token, and the token stands where the text before it ends,
whether its glyphs are passed one by one or its line ends are counted. -/
structure Segment.Follows (file before : Bytes) (modes : List LexMode) (p : Segment) : Prop where
  skips : ∃ cs, p.gap = Bytes.ofChars cs ∧ (modes.headD .code).Gap cs
  spans : ∃ cs, p.word = Bytes.ofChars cs ∧ p.lexeme.Spans cs
  raw : p.lexeme.raw ≠ [] → p.lexeme.raw = p.word
  pos : p.lexeme.pos = (Position.start file).add (before ++ p.gap)
  passed : p.lexeme.pos.counters = Counters.start.advanceAll (before ++ p.gap).glyphs
  counted : p.lexeme.pos.counters = Counters.start.add (before ++ p.gap)

theorem Lexeme.Spans.raw_eq {l : Lexeme} {word : List Char} (h : l.Spans word)
    (hraw : l.raw ≠ []) : l.raw = Bytes.ofChars word := by
  cases h with
  | eof | mark => exact absurd rfl hraw
  | _ => rfl

/-- The segment that is read where the characters `before` have been passed. -/
theorem ScanPoint.Takes.follows {c d : ScanPoint} {gap word : List Char} {l : Lexeme}
    (h : c.Takes gap word l d) {file : Bytes} {before : List Char}
    (hpos : c.pos = (Position.start file).advanceAll (before.map .char)) :
    Segment.Follows file (Bytes.ofChars before) c.modes
      ⟨Bytes.ofChars gap, Bytes.ofChars word, l⟩ := by
  have hadd : l.pos = (Position.start file).add (Bytes.ofChars before ++ Bytes.ofChars gap) := by
    rw [← ofChars_append, Position.add_ofChars, List.map_append, Position.advanceAll_append, ← hpos]
    exact h.start
  refine ⟨⟨gap, rfl, h.skips⟩, ⟨word, rfl, h.spans⟩, h.spans.raw_eq, hadd, ?_, ?_⟩
  · rw [hadd, Position.add, Position.counters_advanceAll, Position.counters_start]
  · rw [hadd, Position.counters_add, Position.counters_start]

end Stencil
