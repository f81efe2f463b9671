import Stencil.Source.Token
import Stencil.Decimal.Numeral

/-!
# From text to lexemes

A source text is read in one of three modes, kept on a stack. In code mode it is
cut into the usual tokens. After `<|` the reader is in template mode, where
everything up to `$` or `|>` is a single piece of text; `$$` stands for a
dollar sign. A `$` in a template opens an island of code, which the next `$`
closes; an island may hold templates of its own.

`Source.scan` gives the lexemes of a whole text. They end with the end-of-file
token, or with the error at which reading stopped.
-/

namespace Stencil

/-- What the characters at hand are: code, template text, or code inside a template. -/
inductive LexMode where
  | code | template | island
  deriving DecidableEq, Repr, Inhabited

/-- The state of the reader: what is left of the text, where it is, and the stack
of modes with the innermost first. -/
structure ScanPoint where
  rest : List Glyph
  pos : Position
  modes : List LexMode
  deriving Repr, Inhabited

namespace ScanPoint

/-- The reader at the start of a text. -/
def ofBytes (file : Bytes) (src : Bytes) : ScanPoint := ⟨src.glyphs, .start file, [.code]⟩

/-- The innermost mode. -/
def mode (c : ScanPoint) : LexMode := c.modes.headD .code

end ScanPoint

/-! ### Character classes -/

/-- Whether a glyph is a decimal digit. -/
def Glyph.isDigit : Glyph → Bool
  | .char c => Decimal.isDigit c
  | .stray _ => false

/-- Whether a name may start with this character. -/
def isNameStart (c : Char) : Bool :=
  if c.toNat < 0x80 then c.isAlpha || c == '_' else isLetter c

/-- Whether a name may contain this glyph. -/
def Glyph.isNamePart : Glyph → Bool
  | .char c => Decimal.isDigit c || isNameStart c
  | .stray _ => false

/-- Whether a glyph separates tokens. -/
def Glyph.isGap : Glyph → Bool
  | .char c => c == ' ' || c == '\t' || c == '\r' || c == '\n'
  | .stray _ => false

/-! ### Gaps -/

/-- The part of a gap being read: blanks, a comment to the end of the line, or a
bracketed comment that began at a position. -/
inductive GapPart where
  | blanks
  | line
  | bracketed (start : Position)

/-- Skip white space and comments. -/
def skipGap : GapPart → Position → List Glyph → Except SyntaxError (Position × List Glyph)
  | .blanks, p, .char '/' :: .char '/' :: rest => skipGap .line (p.right 2) rest
  | .blanks, p, .char '/' :: .char '*' :: rest => skipGap (.bracketed p) (p.right 2) rest
  | .blanks, p, g :: rest =>
    if g.isGap then skipGap .blanks (p.advance g) rest else .ok (p, g :: rest)
  | .blanks, p, [] => .ok (p, [])
  | .line, p, [] => .ok (p, [])
  | .line, p, .stray _ :: _ => .error ⟨p, .invalidEncoding, false⟩
  | .line, p, .char c :: rest =>
    skipGap (if c = '\n' then .blanks else .line) (p.advance (.char c)) rest
  | .bracketed start, _, [] => .error ⟨start, .unterminatedComment, true⟩
  | .bracketed _, p, .char '*' :: .char '/' :: rest => skipGap .blanks (p.right 2) rest
  | .bracketed _, p, .stray _ :: _ => .error ⟨p, .invalidEncoding, false⟩
  | .bracketed start, p, .char c :: rest =>
    skipGap (.bracketed start) (p.advance (.char c)) rest

/-! ### Literals -/

/-- The characters of a run of glyphs known to be characters. -/
def glyphChars (gs : List Glyph) : List Char := gs.map Glyph.toChar

/-- A token with its spelling and the rest of the text. -/
structure Scanned where
  token : Token
  raw : List Glyph
  rest : List Glyph

/-- Read a number that starts at `p`. -/
def scanNumber (p : Position) (gs : List Glyph) : Except SyntaxError Scanned :=
  let whole := gs.takeWhile Glyph.isDigit
  let rest := gs.dropWhile Glyph.isDigit
  let (frac, rest) : List Glyph × List Glyph := match rest with
    | .char '.' :: d :: more =>
      if d.isDigit then
        (.char '.' :: (d :: more).takeWhile Glyph.isDigit, (d :: more).dropWhile Glyph.isDigit)
      else ([], rest)
    | _ => ([], rest)
  let (mark, afterMark) : List Glyph × List Glyph := match rest with
    | .char 'e' :: more => ([.char 'e'], more)
    | .char 'E' :: more => ([.char 'E'], more)
    | _ => ([], rest)
  let (sign, afterSign) : List Glyph × List Glyph :=
    if mark.isEmpty then ([], rest)
    else match afterMark with
      | .char '+' :: more => ([.char '+'], more)
      | .char '-' :: more => ([.char '-'], more)
      | _ => ([], afterMark)
  let exp := if mark.isEmpty then [] else afterSign.takeWhile Glyph.isDigit
  let rest := if mark.isEmpty then rest else afterSign.dropWhile Glyph.isDigit
  let raw := whole ++ frac ++ mark ++ sign ++ exp
  if !mark.isEmpty && exp.isEmpty then
    .error ⟨p.right raw.length, .invalidFloat, false⟩
  else if frac.isEmpty && mark.isEmpty then
    match Decimal.readInt (glyphChars raw) with
    | .ok n => .ok ⟨.int (Int64.ofInt n), raw, rest⟩
    | .error _ => .error ⟨p, .intOutOfRange (Bytes.ofGlyphs raw), false⟩
  else
    match Decimal.readFloat (glyphChars raw) with
    | .ok x => .ok ⟨.float x, raw, rest⟩
    | .error _ => .error ⟨p, .invalidFloat, false⟩

/-- Read the inside of a string up to its closing quote `q`. `start` is where the
string began, `p` the position at hand and `seen` what was read, last first. -/
def scanStringBody (q : Char) (start : Position) :
    Position → List Glyph → List Glyph → Except SyntaxError (List Glyph × List Glyph)
  | _, _, [] => .error ⟨start, .endInString, true⟩
  | p, _, .stray _ :: _ => .error ⟨p, .invalidEncoding, false⟩
  | p, seen, .char c :: rest =>
    if c = q then .ok ((.char c :: seen).reverse, rest)
    else if c = '\n' then .error ⟨start, .newlineInString, false⟩
    else if c = '\\' then
      match rest with
      | [] => .error ⟨start, .endInString, true⟩
      | .stray _ :: _ => .error ⟨p.right 1, .invalidEncoding, false⟩
      | .char d :: rest =>
        scanStringBody q start ((p.right 1).advance (.char d)) (.char d :: .char c :: seen) rest
    else scanStringBody q start (p.advance (.char c)) (.char c :: seen) rest

/-- An escape of the language beside the usual ones: a dollar sign. -/
def dollarEscape? : List Char → Option (Char × List Char)
  | '\\' :: '$' :: rest => some ('$', rest)
  | _ => none

/-- The text denoted by a string literal with quotes `q`, given what stands between them. -/
def unquoteBody? (q : Char) (body : List Char) : Option Bytes :=
  if body.contains '\\' then unescapeAll q dollarEscape? body.length body
  else some (Bytes.ofChars body)

/-- Read a string literal with quotes `q` that starts at `p`; `rest` follows the
opening quote. -/
def scanString (q : Char) (p : Position) (rest : List Glyph) : Except SyntaxError Scanned := do
  let (body, rest) ← scanStringBody q p (p.right 1) [] rest
  let raw := .char q :: body
  match unquoteBody? q (glyphChars body.dropLast) with
  | some s => .ok ⟨.string s, raw, rest⟩
  | none => .error ⟨p, .invalidEscape (Bytes.ofGlyphs raw), false⟩

/-! ### Code -/

/-- The marks of one character. -/
def singlePunct? (c : Char) : Option Punct :=
  match c with
  | '+' => some .plus
  | '-' => some .minus
  | '*' => some .star
  | '/' => some .slash
  | '%' => some .percent
  | '^' => some .caret
  | '.' => some .dot
  | ',' => some .comma
  | ';' => some .semi
  | ':' => some .colon
  | '(' => some .lparen
  | ')' => some .rparen
  | '[' => some .lbrack
  | ']' => some .rbrack
  | '\x7b' => some .lbrace
  | '\x7d' => some .rbrace
  | '<' => some .less
  | '>' => some .greater
  | '=' => some .assign
  | '!' => some .bang
  | '&' => some .amp
  | '|' => some .pipe
  | _ => none

/-- The marks of two characters. -/
def doublePunct? (c d : Char) : Option Punct :=
  match c, d with
  | '<', '|' => some .openTemplate
  | '<', '=' => some .lessEq
  | '>', '=' => some .greaterEq
  | '=', '=' => some .equal
  | '!', '=' => some .notEqual
  | '&', '&' => some .andAnd
  | '|', '|' => some .orOr
  | _, _ => none

/-- The longest mark at the front of the text, and the number of its characters. -/
def leadingPunct? (c : Char) (rest : List Glyph) : Option (Punct × Nat) :=
  let double := match rest with
    | .char d :: _ => doublePunct? c d
    | _ => none
  match double with
  | some p => some (p, 2)
  | none => (singlePunct? c).map fun p => (p, 1)

/-- Read a token of code; gaps have been skipped. -/
def scanCode (c : ScanPoint) : Except SyntaxError (Lexeme × ScanPoint) :=
  match c.rest with
  | [] => .ok (⟨.eof, c.pos, []⟩, c)
  | .stray _ :: _ => .error ⟨c.pos, .invalidEncoding, false⟩
  | .char ch :: more =>
    let finish (s : Scanned) : Lexeme × ScanPoint :=
      (⟨s.token, c.pos, Bytes.ofGlyphs s.raw⟩,
        { c with rest := s.rest, pos := c.pos.advanceAll s.raw })
    if isNameStart ch then
      let raw := c.rest.takeWhile Glyph.isNamePart
      let token := match Keyword.ofChars? (glyphChars raw) with
        | some k => .keyword k
        | none => .ident (Bytes.ofGlyphs raw)
      .ok (finish ⟨token, raw, c.rest.dropWhile Glyph.isNamePart⟩)
    else if Decimal.isDigit ch then
      (scanNumber c.pos c.rest).map finish
    else if ch = '"' ∨ ch = '\'' then
      (scanString ch c.pos more).map finish
    else if ch = '$' then
      match c.modes with
      | .island :: modes =>
        .ok (⟨.punct .dollar, c.pos, []⟩, ⟨more, c.pos.right 1, modes⟩)
      | _ => .error ⟨c.pos, .dollarOutsideTemplate, false⟩
    else
      match leadingPunct? ch more with
      | some (p, n) =>
        let modes := if p = .openTemplate then .template :: c.modes else c.modes
        .ok (⟨.punct p, c.pos, []⟩, ⟨c.rest.drop n, c.pos.right n, modes⟩)
      | none => .error ⟨c.pos, .unexpectedChar ch, false⟩

/-! ### Templates -/

/-- Read template text: `p` is the position at hand, `text` the text read and `raw`
its spelling, both last first. -/
def scanText : Position → (text raw : List Glyph) → List Glyph →
    Except SyntaxError (List Glyph × List Glyph × List Glyph)
  | _, text, raw, [] => .ok (text.reverse, raw.reverse, [])
  | p, text, raw, .char '$' :: .char '$' :: rest =>
    scanText (p.right 2) (.char '$' :: text) (.char '$' :: .char '$' :: raw) rest
  | _, text, raw, .char '|' :: .char '>' :: rest =>
    .ok (text.reverse, raw.reverse, .char '|' :: .char '>' :: rest)
  | p, _, _, .stray _ :: _ => .error ⟨p, .invalidEncoding, false⟩
  | p, text, raw, .char c :: rest =>
    if c = '$' then .ok (text.reverse, raw.reverse, .char c :: rest)
    else scanText (p.advance (.char c)) (.char c :: text) (.char c :: raw) rest

/-- Read a token of a template: a run of text, the `$` that opens an island, or the
closing mark. -/
def scanTemplate (c : ScanPoint) : Except SyntaxError (Lexeme × ScanPoint) := do
  let (text, raw, rest) ← scanText c.pos [] [] c.rest
  if !text.isEmpty then
    return (⟨.text (Bytes.ofGlyphs text), c.pos, Bytes.ofGlyphs raw⟩,
      { c with rest := rest, pos := c.pos.advanceAll raw })
  match rest with
  | .char '|' :: .char '>' :: rest =>
    return (⟨.punct .closeTemplate, c.pos, Bytes.ofString "|>"⟩,
      ⟨rest, c.pos.right 2, c.modes.tail⟩)
  | .char '$' :: rest =>
    return (⟨.punct .dollar, c.pos, Bytes.ofString "$"⟩,
      ⟨rest, c.pos.right 1, .island :: c.modes⟩)
  | _ => return (⟨.eof, c.pos, []⟩, c)

/-! ### Whole texts -/

/-- Read the next token. -/
def ScanPoint.next (c : ScanPoint) : Except SyntaxError (Lexeme × ScanPoint) :=
  match c.mode with
  | .template => scanTemplate c
  | _ => do
    let (p, rest) ← skipGap .blanks c.pos c.rest
    scanCode { c with rest := rest, pos := p }

/-- The lexemes of a text, and the error at which reading stopped, if it did. A text
read without error ends with the end-of-file token. -/
structure Scan where
  lexemes : List Lexeme
  fault : Option SyntaxError := none
  deriving Repr, Inhabited

/-- Read tokens until the text ends; `seen` are those read so far, last first. -/
def scanAll : Nat → List Lexeme → ScanPoint → Scan
  | 0, seen, c => ⟨(⟨.eof, c.pos, []⟩ :: seen).reverse, none⟩
  | fuel + 1, seen, c =>
    match c.next with
    | .error e => ⟨seen.reverse, some e⟩
    | .ok (l, c') =>
      match l.token with
      | .eof => ⟨(l :: seen).reverse, none⟩
      | _ => scanAll fuel (l :: seen) c'

/-- The lexemes of a source text. -/
def scan (file src : Bytes) : Scan :=
  let c := ScanPoint.ofBytes file src
  -- every token but the last takes at least one glyph
  scanAll (c.rest.length + 1) [] c

end Stencil
