import Stencil.Text.Bytes

/-!
# Positions

A position names a file, a line and a column. Lines and columns count from one,
columns in characters; a stray byte counts as one character. Zero stands for an
unknown line or column. Both are kept in words of 32 bits, which is what positions
are compared and shown by.
-/

namespace Stencil

/-- Line and column in words of 32 bits. -/
structure Counters where
  line : Int32
  col : Int32
  deriving DecidableEq, Repr, Inhabited

/-- Whether `p` stands before `q`. -/
def Counters.isBefore (p q : Counters) : Bool :=
  if p.line = q.line then p.col < q.col else p.line < q.line

/-- A place in a source file, its line and column counted without bound. -/
structure Position where
  file : Option Bytes
  line : Nat
  col : Nat
  deriving DecidableEq, Repr, Inhabited

namespace Position

/-- The first position of a file. -/
def start (file : Bytes) : Position := ⟨some file, 1, 1⟩

/-- The position that stands for no place at all. -/
def unknown : Position := ⟨none, 0, 0⟩

/-- What is kept of line and column: past the largest word they wrap around. -/
def counters (p : Position) : Counters := ⟨Int32.ofNat p.line, Int32.ofNat p.col⟩

/-- Whether the position names a file and a line. -/
def isValid (p : Position) : Bool := p.file.isSome && 0 < p.line

/-- The name of the file. -/
def filename (p : Position) : Bytes := p.file.getD (Bytes.ofString "<invalid>")

/-- The position after one glyph. -/
def advance (p : Position) (g : Glyph) : Position :=
  if g = .char '\n' then { p with line := p.line + 1, col := 1 } else { p with col := p.col + 1 }

/-- The position after a sequence of glyphs. -/
def advanceAll (p : Position) (gs : List Glyph) : Position := gs.foldl advance p

/-- The position at the end of a text that starts at `p`. -/
def add (p : Position) (b : Bytes) : Position := p.advanceAll b.glyphs

/-- The position `n` columns further on the same line. -/
def right (p : Position) (n : Nat) : Position := { p with col := p.col + n }

/-- Line and column. -/
def lineCol (p : Position) : Bytes :=
  Bytes.ofInt p.counters.line.toInt ++ Bytes.ofString ":" ++ Bytes.ofInt p.counters.col.toInt

/-- File, line and column, as far as they are known. -/
def text (p : Position) : Bytes :=
  if p.counters.line ≤ 0 then p.filename
  else if p.counters.col ≤ 0 then p.filename ++ ":" ++ Bytes.ofInt p.counters.line.toInt
  else p.filename ++ ":" ++ p.lineCol

/-- Whether `p` lies before `q` in the same file. -/
def isBefore (p q : Position) : Bool := p.counters.isBefore q.counters

end Position

/-- The extent of a piece of source: where it starts and where it ends. -/
structure Span where
  first : Position
  last : Position
  deriving DecidableEq, Repr, Inhabited

/-- A span as two pairs of line and column. -/
def Span.text (s : Span) : Bytes := s.first.lineCol ++ "-" ++ s.last.lineCol

end Stencil
