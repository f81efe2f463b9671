import Stencil.Text.Bytes

/-!
# Tokens of structured settings

Settings are written as a tree of mappings, sequences and scalars, by indentation or
with brackets. The text is first divided into tokens. Indentation becomes tokens that
open and close collections, and a key without a mark of its own is recognised when its
colon is found.
-/

namespace Stencil.Yaml

/-- A place in the text; lines and columns count from zero. -/
structure Mark where
  index : Nat := 0
  line : Nat := 0
  column : Nat := 0
  deriving DecidableEq, Repr, Inhabited

/-- How a scalar is written. -/
inductive ScalarStyle where
  | plain | quoted
  deriving DecidableEq, Repr, Inhabited

/-- The kinds of tokens. -/
inductive TokenKind where
  | streamStart | streamEnd | directive | documentStart | documentEnd
  | blockSequence | blockMapping | blockEnd
  | flowSequence | flowSequenceEnd | flowMapping | flowMappingEnd
  | blockEntry | flowEntry | key | value
  | alias (name : Bytes)
  | anchor (name : Bytes)
  | tag (handle suffix : Bytes)
  | scalar (style : ScalarStyle) (text : Bytes)
  deriving DecidableEq, Repr, Inhabited

/-- A token and where it starts. -/
structure Token where
  kind : TokenKind
  mark : Mark
  deriving DecidableEq, Repr, Inhabited

/-- What is wrong with a text. -/
inductive Problem where
  | badToken | tabIndent | noMappingValue | noBlockEntry | noMappingKey | noColon
  | noName | unexpectedEnd | documentMark | badEscape | badHex | badCode
  | zeroIndent | noLineEnd | tabInBlock | noTagEnd | noTagText | noTagBracket
  | noDocument | noContent | noEntry | noKey | noSequenceEnd | noMappingEnd | badHandle
  deriving DecidableEq, Repr, Inhabited

/-- The wording of a problem. -/
def Problem.text : Problem → String
  | .badToken => "found character that cannot start any token"
  | .tabIndent => "found a tab character that violates indentation"
  | .noMappingValue => "mapping values are not allowed in this context"
  | .noBlockEntry => "block sequence entries are not allowed in this context"
  | .noMappingKey => "mapping keys are not allowed in this context"
  | .noColon => "could not find expected ':'"
  | .noName => "did not find expected alphabetic or numeric character"
  | .unexpectedEnd => "found unexpected end of stream"
  | .documentMark => "found unexpected document indicator"
  | .badEscape => "found unknown escape character"
  | .badHex => "did not find expected hexdecimal number"
  | .badCode => "found invalid Unicode character escape code"
  | .zeroIndent => "found an indentation indicator equal to 0"
  | .noLineEnd => "did not find expected comment or line break"
  | .tabInBlock => "found a tab character where an indentation space is expected"
  | .noTagEnd => "did not find expected whitespace or line break"
  | .noTagText => "did not find expected tag URI"
  | .noTagBracket => "did not find the expected '>'"
  | .noDocument => "did not find expected <document start>"
  | .noContent => "did not find expected node content"
  | .noEntry => "did not find expected '-' indicator"
  | .noKey => "did not find expected key"
  | .noSequenceEnd => "did not find expected ',' or ']'"
  | .noMappingEnd => "did not find expected ',' or '\x7d'"
  | .badHandle => "found undefined tag handle"

/-- Why a text cannot be read. -/
inductive Fault where
  /-- A problem found among the characters; `context` is where the construct starts. -/
  | scanning (p : Problem) (context at_ : Mark)
  /-- A problem found among the tokens. -/
  | parsing (p : Problem) (context at_ : Mark)
  /-- Any other problem, which has no place. -/
  | other (msg : Bytes)
  deriving DecidableEq, Repr, Inhabited

/-- The line that is named in the wording of a fault, if any. -/
def Fault.line? : Fault → Option Nat
  | .scanning _ context place =>
    if context.line ≠ 0 then some (context.line + 1)
    else if place.line ≠ 0 then some (place.line + 1) else none
  | .parsing _ context place =>
    if context.line ≠ 0 then some context.line
    else if place.line ≠ 0 then some place.line else none
  | .other _ => none

/-- The wording of a fault. -/
def Fault.message (f : Fault) : Bytes :=
  let place : Bytes := match f.line? with
    | some n => Bytes.ofString "line " ++ Bytes.ofNat n ++ ": "
    | none => []
  let what : Bytes := match f with
    | .scanning p _ _ | .parsing p _ _ => Bytes.ofString p.text
    | .other msg => msg
  Bytes.ofString "yaml: " ++ place ++ what

/-! ### Characters -/

/-- Whether a character ends the text. -/
def isEnd (c : Char) : Bool := c = '\x00'

/-- Whether a character is a space or a tab. -/
def isBlank (c : Char) : Bool := c = ' ' || c = '\t'

/-- Whether a character ends a line. -/
def isBreak (c : Char) : Bool :=
  c = '\r' || c = '\n' || c = '\u0085' || c = '\u2028' || c = '\u2029'

/-- Whether a character ends a line or the text. -/
def isBreakOrEnd (c : Char) : Bool := isBreak c || isEnd c

/-- Whether a character is blank, ends a line or ends the text. -/
def isGap (c : Char) : Bool := isBlank c || isBreakOrEnd c

/-- Whether a character may occur in the name of an anchor. -/
def isNameChar (c : Char) : Bool := c.isAlphanum || c = '_' || c = '-'

/-- Whether a character may occur in a text at all. -/
def isAllowed (c : Char) : Bool :=
  let n := c.toNat
  n = 9 || n = 10 || n = 13 || (32 ≤ n && n ≤ 126) || n = 0x85 || (0xA0 ≤ n && n ≤ 0xD7FF) ||
    (0xE000 ≤ n && n ≤ 0xFFFD) || 0x10000 ≤ n

/-- What is wrong with bytes that are not a character. -/
def strayProblem (b : UInt8) (rest : Bytes) : Bytes :=
  let width := if b < 0x80 then 1 else if b &&& 0xE0 = 0xC0 then 2 else if b &&& 0xF0 = 0xE0 then 3
    else if b &&& 0xF8 = 0xF0 then 4 else 0
  if width = 0 then "invalid leading UTF-8 octet"
  else if rest.length + 1 < width then "incomplete UTF-8 octet sequence"
  else if (rest.take (width - 1)).any fun x => x &&& 0xC0 ≠ 0x80 then "invalid trailing UTF-8 octet"
  else
    let code := (rest.take (width - 1)).foldl (fun n x => n * 64 + (x &&& 0x3F).toNat)
      (b &&& (if width = 2 then 0x1F else if width = 3 then 0x0F else 0x07)).toNat
    if code < (if width = 2 then 0x80 else if width = 3 then 0x800 else 0x10000) then
      "invalid length of a UTF-8 sequence"
    else "invalid Unicode character"

/-- The characters of a text; `done` are those read, the last one first. -/
def readCharsAux : (fuel : Nat) → (done : List Char) → Bytes → Except Fault (List Char)
  | 0, done, _ => .ok done.reverse
  | _, done, [] => .ok done.reverse
  | fuel + 1, done, b :: rest =>
    match headGlyph b rest with
    | (.char c, n) =>
      if isAllowed c then readCharsAux fuel (c :: done) ((b :: rest).drop n)
      else .error (.other "control characters are not allowed")
    | (.stray _, _) => .error (.other (strayProblem b rest))

/-- The characters of a text, without a mark of the byte order. -/
def readChars (text : Bytes) : Except Fault (List Char) :=
  let text := (Bytes.dropLeading? [0xEF, 0xBB, 0xBF] text).getD text
  readCharsAux text.length [] text

/-!
## Dividing settings into tokens

The scanner holds the tokens found so far and makes more on demand. A token that may
turn out to be a key is not handed out before that is settled.
-/

/-- A token that may turn out to be a key. -/
structure PossibleKey where
  /-- Whether anything but a key is an error here. -/
  required : Bool
  /-- The position of the token among all tokens. -/
  token : Nat
  mark : Mark
  deriving DecidableEq, Repr, Inhabited

/-- The state of the scanner. -/
structure Scanner where
  text : Array Char
  mark : Mark := {}
  /-- All tokens found so far. -/
  tokens : Array Token := #[]
  /-- The number of tokens handed out. -/
  taken : Nat := 0
  /-- The possible key of each open bracket, the innermost first, and of the text around
  them. -/
  keys : List (Option PossibleKey) := [none]
  keyAllowed : Bool := true
  /-- The column of the innermost collection made by indentation. -/
  indent : Int := -1
  /-- The columns of the collections around it. -/
  indents : List Int := []
  deriving Inhabited

/-- Computations on a scanner. -/
abbrev Scan := StateT Scanner (Except Fault)

namespace Scanner

/-- The character `i` places ahead. -/
def ahead (s : Scanner) (i : Nat) : Char := s.text.getD (s.mark.index + i) '\x00'

/-- The next character. -/
def next (s : Scanner) : Char := s.ahead 0

/-- Whether a bracket is open. -/
def inFlow (s : Scanner) : Bool := s.keys.length > 1

/-- Pass over one character. -/
def skip (s : Scanner) : Scanner :=
  { s with mark := { s.mark with index := s.mark.index + 1, column := s.mark.column + 1 } }

/-- Pass over several characters. -/
def skips (s : Scanner) (n : Nat) : Scanner :=
  { s with mark := { s.mark with index := s.mark.index + n, column := s.mark.column + n } }

/-- Pass over the end of a line. -/
def skipLine (s : Scanner) : Scanner :=
  let n := if s.next = '\r' && s.ahead 1 = '\n' then 2 else 1
  { s with mark := ⟨s.mark.index + n, s.mark.line + 1, 0⟩ }

/-- What the end of a line stands for. -/
def lineEnd (s : Scanner) : List Char :=
  if s.next = '\u2028' || s.next = '\u2029' then [s.next] else ['\n']

/-- Add a token at the end. -/
def push (s : Scanner) (kind : TokenKind) (mark : Mark) : Scanner :=
  { s with tokens := s.tokens.push ⟨kind, mark⟩ }

/-- Add a token in front of the one at a position. -/
def insert (s : Scanner) (i : Nat) (kind : TokenKind) (mark : Mark) : Scanner :=
  { s with tokens := (s.tokens.toList.insertIdx i { kind, mark }).toArray }

/-- Whether a line with a mark between documents starts here. -/
def atDocumentMark (s : Scanner) : Bool :=
  s.mark.column = 0 && isGap (s.ahead 3) &&
    ((s.next = '-' && s.ahead 1 = '-' && s.ahead 2 = '-') ||
     (s.next = '.' && s.ahead 1 = '.' && s.ahead 2 = '.'))

end Scanner

open Scanner

/-- Fail at the current place, within a construct that starts at `context`. -/
def failAt {α : Type} (p : Problem) (context : Mark) : Scan α := do
  throw (.scanning p context (← get).mark)

/-! ### Possible keys -/

/-- Give up the possible key of the current level. -/
def removeKey : Scan Unit := do
  let s ← get
  match s.keys with
  | some k :: rest =>
    if k.required then failAt .noColon k.mark
    set { s with keys := none :: rest }
  | _ => return

/-- Note that a key may start here. -/
def saveKey : Scan Unit := do
  let s ← get
  if s.keyAllowed then
    removeKey
    let key : PossibleKey :=
      { required := !s.inFlow && s.indent = (s.mark.column : Int)
        token := s.tokens.size, mark := s.mark }
    modify fun s => { s with keys := some key :: s.keys.drop 1 }

/-- Whether a possible key can still be one: it stands on this line and is not far away. -/
def keyIsOpen (k : PossibleKey) : Scan Bool := do
  let s ← get
  if k.mark.line < s.mark.line || k.mark.index + 1024 < s.mark.index then
    if k.required then failAt .noColon k.mark
    return false
  return true

/-! ### Indentation -/

/-- Open a collection at a column further to the right; its token is put at `place`, or
at the end. -/
def rollIndent (column : Nat) (place : Option Nat) (kind : TokenKind) (mark : Mark) : Scan Unit :=
  modify fun s =>
    if s.inFlow || s.indent ≥ (column : Int) then s
    else
      let s := { s with indents := s.indent :: s.indents, indent := column }
      match place with
      | some i => s.insert i kind mark
      | none => s.push kind mark

/-- Close the collections to the right of a column. -/
def unrollTo (column : Int) (mark : Mark) : (indents : List Int) → Scanner → Scanner
  | [], s => s
  | outer :: rest, s =>
    if s.indent > column then
      unrollTo column mark rest { s.push .blockEnd mark with indent := outer, indents := rest }
    else s

/-- Close the collections to the right of a column, unless a bracket is open. -/
def unrollIndent (column : Int) (mark : Mark) : Scan Unit :=
  modify fun s => if s.inFlow then s else unrollTo column mark s.indents s

/-! ### Blanks and comments -/

/-- Pass over the characters that satisfy a condition. -/
def skipWhile (p : Char → Bool) : (fuel : Nat) → Scanner → Scanner
  | 0, s => s
  | fuel + 1, s => if p s.next then skipWhile p fuel s.skip else s

/-- Pass over blanks, comments and line ends. Tabs are passed over where no key may
start. -/
def skipToToken : (fuel : Nat) → Scanner → Scanner
  | 0, s => s
  | fuel + 1, s =>
    let tabs := s.inFlow || !s.keyAllowed
    let s := skipWhile (fun c => c = ' ' || (tabs && c = '\t')) fuel s
    let s := if s.next = '#' then skipWhile (fun c => !isBreakOrEnd c) fuel s else s
    if isBreak s.next then
      let s := s.skipLine
      skipToToken fuel (if s.inFlow then s else { s with keyAllowed := true })
    else s

/-! ### Scalars -/

/-- Text that goes on after a line end: the blanks since the last character, or the line
ends. -/
structure Gap where
  blanks : List Char := []
  /-- The first line end. -/
  first : List Char := []
  others : List Char := []
  /-- Whether there is a line end. -/
  broken : Bool := false
  deriving Inhabited

/-- What a gap stands for: one line end is a space, of several the first is left out. -/
def Gap.text (g : Gap) : List Char :=
  if !g.broken then g.blanks
  else if g.first.head? = some '\n' then if g.others.isEmpty then [' '] else g.others
  else g.first ++ g.others

/-- Pass over blanks and line ends. -/
def takeGap (check : Scanner → Gap → Except Fault Unit) : (fuel : Nat) → Gap → Scanner →
    Except Fault (Gap × Scanner)
  | 0, g, s => .ok (g, s)
  | fuel + 1, g, s =>
    if isBlank s.next then do
      check s g
      let g := if g.broken then g else { g with blanks := g.blanks ++ [s.next] }
      takeGap check fuel g s.skip
    else if isBreak s.next then
      let g := if g.broken then { g with others := g.others ++ s.lineEnd }
        else { g with blanks := [], first := s.lineEnd, broken := true }
      takeGap check fuel g s.skipLine
    else .ok (g, s)

/-- Whether a plain scalar ends in front of this character. -/
def endsPlain (s : Scanner) : Bool :=
  let c := s.next
  (c = ':' && isGap (s.ahead 1)) ||
    (s.inFlow && (c = ',' || c = '?' || c = '[' || c = ']' || c = '\x7b' || c = '\x7d'))

/-- Read characters of a plain scalar up to a gap or to its end. -/
def takePlain : (fuel : Nat) → (done : List Char) → Scanner → List Char × Scanner
  | 0, done, s => (done, s)
  | fuel + 1, done, s =>
    if isGap s.next || endsPlain s then (done, s) else takePlain fuel (s.next :: done) s.skip

/-- Read a plain scalar; `done` is what was read, the last character first, and `gap` what
came after it. -/
def scanPlain (start : Mark) (indent : Int) : (fuel : Nat) → (done : List Char) → (gap : Gap) →
    Scanner → Except Fault (List Char × Scanner)
  | 0, done, _, s => .ok (done, s)
  | fuel + 1, done, gap, s =>
    let finish (gap : Gap) (s : Scanner) : List Char × Scanner :=
      (done, if gap.broken then { s with keyAllowed := true } else s)
    if s.atDocumentMark || s.next = '#' then .ok (finish gap s)
    else
      let (more, s') := takePlain fuel [] s
      let (done, gap) := if more.isEmpty then (done, gap) else (more ++ gap.text.reverse ++ done, {})
      let close (gap : Gap) (s : Scanner) : List Char × Scanner :=
        (done, if gap.broken then { s with keyAllowed := true } else s)
      if !(isBlank s'.next || isBreak s'.next) then .ok (close gap s')
      else do
        let check (s : Scanner) (g : Gap) : Except Fault Unit :=
          if g.broken && (s.mark.column : Int) < indent && s.next = '\t' then
            .error (.scanning .tabIndent start s.mark)
          else .ok ()
        let (gap, s') ← takeGap check fuel gap s'
        if !s'.inFlow && (s'.mark.column : Int) < indent then .ok (close gap s')
        else scanPlain start indent fuel done gap s'

/-- The character of an escape that stands for a fixed one. -/
def fixedEscape? (c : Char) : Option Char :=
  match c with
  | '0' => some '\x00'
  | 'a' => some '\x07'
  | 'b' => some '\x08'
  | 't' | '\t' => some '\t'
  | 'n' => some '\n'
  | 'v' => some '\x0b'
  | 'f' => some '\x0c'
  | 'r' => some '\r'
  | 'e' => some '\x1b'
  | ' ' => some ' '
  | '"' => some '"'
  | '\'' => some '\''
  | '\\' => some '\\'
  | 'N' => some '\u0085'
  | '_' => some '\u00a0'
  | 'L' => some '\u2028'
  | 'P' => some '\u2029'
  | _ => none

/-- The number of digits of an escape for a code. -/
def codeWidth? (c : Char) : Option Nat :=
  match c with
  | 'x' => some 2
  | 'u' => some 4
  | 'U' => some 8
  | _ => none

/-- Read an escape. -/
def scanEscape (start : Mark) (s : Scanner) : Except Fault (Char × Scanner) :=
  match fixedEscape? (s.ahead 1), codeWidth? (s.ahead 1) with
  | some c, _ => .ok (c, s.skips 2)
  | none, none => .error (.scanning .badEscape start s.mark)
  | none, some width =>
    let s := s.skips 2
    match ((List.range width).map s.ahead).mapM hexValue? with
    | none => .error (.scanning .badHex start s.mark)
    | some ds =>
      let code := ds.foldl (fun n d => n * 16 + d) 0
      if code.isValidChar then .ok (Char.ofNat code, s.skips width)
      else .error (.scanning .badCode start s.mark)

/-- Read characters of a quoted scalar up to a gap or to the quote. The flag tells whether
the last thing read is a line end that is left out. -/
def takeQuoted (start : Mark) (q : Char) : (fuel : Nat) → (done : List Char) → Scanner →
    Except Fault (List Char × Bool × Scanner)
  | 0, done, s => .ok (done, false, s)
  | fuel + 1, done, s =>
    if isGap s.next then .ok (done, false, s)
    else if q = '\'' && s.next = q && s.ahead 1 = q then takeQuoted start q fuel (q :: done) (s.skips 2)
    else if s.next = q then .ok (done, false, s)
    else if q = '"' && s.next = '\\' then
      if isBreak (s.ahead 1) then .ok (done, true, s.skip.skipLine)
      else do
        let (c, s) ← scanEscape start s
        takeQuoted start q fuel (c :: done) s
    else takeQuoted start q fuel (s.next :: done) s.skip

/-- Read a quoted scalar after its first quote. -/
def scanQuoted (start : Mark) (q : Char) : (fuel : Nat) → (done : List Char) → Scanner →
    Except Fault (List Char × Scanner)
  | 0, done, s => .ok (done, s)
  | fuel + 1, done, s =>
    if s.atDocumentMark then .error (.scanning .documentMark start s.mark)
    else if isEnd s.next then .error (.scanning .unexpectedEnd start s.mark)
    else do
      let (done, joined, s) ← takeQuoted start q fuel done s
      if s.next = q && !joined then return (done, s.skip)
      let (gap, s) ← takeGap (fun _ _ => .ok ()) fuel { broken := joined } s
      let text := if joined && gap.first.isEmpty then gap.others else gap.text
      scanQuoted start q fuel (text.reverse ++ done) s

/-- What becomes of the line ends after a block of text. -/
inductive Chomping where
  | strip | clip | keep
  deriving DecidableEq, Repr

/-- The signs after the mark of a block of text: what becomes of its last line ends, and
its indentation. -/
def takeHeader (start : Mark) (s : Scanner) : Except Fault (Chomping × Nat × Scanner) := do
  let (chomp, s) := sign .clip s
  let (width, s) ← digit s
  let (chomp, s) := if chomp = .clip then sign .clip s else (chomp, s)
  return (chomp, width, s)
where
  /-- A sign for the last line ends. -/
  sign (dflt : Chomping) (s : Scanner) : Chomping × Scanner :=
    if s.next = '+' then (.keep, s.skip) else if s.next = '-' then (.strip, s.skip) else (dflt, s)
  /-- A digit for the indentation. -/
  digit (s : Scanner) : Except Fault (Nat × Scanner) :=
    if s.next = '0' then .error (.scanning .zeroIndent start s.mark)
    else if s.next.isDigit then .ok (s.next.toNat - 48, s.skip)
    else .ok (0, s)

/-- Pass over indentation and empty lines in a block of text. An indentation of zero is
not yet known. -/
def takeEmptyLines (start : Mark) (indent : Nat) : (fuel : Nat) → (most : Nat) →
    (breaks : List Char) → Scanner → Except Fault (List Char × Nat × Scanner)
  | 0, most, breaks, s => .ok (breaks, most, s)
  | fuel + 1, most, breaks, s =>
    let inside (s : Scanner) : Bool := indent = 0 || s.mark.column < indent
    let width := if indent = 0 then fuel else indent - s.mark.column
    let s := skipWhile (· = ' ') width s
    let most := max most s.mark.column
    if inside s && s.next = '\t' then .error (.scanning .tabInBlock start s.mark)
    else if isBreak s.next then
      takeEmptyLines start indent fuel most (breaks ++ s.lineEnd) s.skipLine
    else .ok (breaks, most, s)

/-- Read the rest of a line. -/
def takeLine : (fuel : Nat) → (done : List Char) → Scanner → List Char × Scanner
  | 0, done, s => (done, s)
  | fuel + 1, done, s =>
    if isBreakOrEnd s.next then (done, s) else takeLine fuel (s.next :: done) s.skip

/-- Read the lines of a block of text. `pending` is the end of the line before, `breaks`
are those of empty lines, and `indented` tells whether the line before starts with a
blank. -/
def takeBlock (literal : Bool) (start : Mark) (indent : Nat) : (fuel : Nat) → (done : List Char) →
    (pending breaks : List Char) → (indented : Bool) → Scanner →
    Except Fault (List Char × List Char × List Char × Scanner)
  | 0, done, pending, breaks, _, s => .ok (done, pending, breaks, s)
  | fuel + 1, done, pending, breaks, indented, s =>
    if s.mark.column ≠ indent || isEnd s.next then .ok (done, pending, breaks, s)
    else do
      let blank := isBlank s.next
      let folded := !literal && !indented && !blank && pending.head? = some '\n'
      let joint := if folded then if breaks.isEmpty then [' '] else [] else pending
      let done := breaks.reverse ++ joint.reverse ++ done
      let (done, s) := takeLine fuel done s
      let pending := if isBreak s.next then s.lineEnd else []
      let s := if isBreak s.next then s.skipLine else s
      let (breaks, _, s) ← takeEmptyLines start indent fuel 0 [] s
      takeBlock literal start indent fuel done pending breaks blank s

/-- Read a block of text after its mark. -/
def scanBlock (literal : Bool) (start : Mark) (fuel : Nat) (s : Scanner) :
    Except Fault (List Char × Scanner) := do
  let (chomp, width, s) ← takeHeader start s
  let s := skipWhile isBlank fuel s
  let s := if s.next = '#' then skipWhile (fun c => !isBreakOrEnd c) fuel s else s
  if !isBreakOrEnd s.next then throw (.scanning .noLineEnd start s.mark)
  let s := if isBreak s.next then s.skipLine else s
  let known := if width = 0 then 0 else if s.indent ≥ 0 then s.indent.toNat + width else width
  let (breaks, most, s) ← takeEmptyLines start known fuel 0 [] s
  let indent := if known ≠ 0 then known else max (max most (s.indent + 1).toNat) 1
  let (done, pending, breaks, s) ← takeBlock literal start indent fuel [] [] breaks false s
  let done := if chomp = .strip then done else pending.reverse ++ done
  return (if chomp = .keep then breaks.reverse ++ done else done, s)

/-! ### Tokens -/

/-- Make a token of the characters that `read` takes. -/
def scalarToken (style : ScalarStyle)
    (read : Nat → Scanner → Except Fault (List Char × Scanner)) : Scan Unit := do
  let s ← get
  let (done, s') ← read (s.text.size + 1) s
  set (s'.push (.scalar style (Bytes.ofChars done.reverse)) s.mark)

/-- A token of `n` characters. -/
def markToken (kind : TokenKind) (n : Nat := 1) : Scan Unit :=
  modify fun s => (s.skips n).push kind s.mark

/-- The name of an anchor or of a reference to one. -/
def fetchAnchor (make : Bytes → TokenKind) : Scan Unit := do
  saveKey
  modify fun s => { s with keyAllowed := false }
  let s ← get
  let after := skipWhile isNameChar s.text.size s.skip
  let name := ((s.text.extract (s.mark.index + 1) after.mark.index).toList)
  let c := after.next
  set after
  if name.isEmpty || !(isGap c || "?:,]%@`".contains c || c = '\x7d') then
    failAt .noName s.mark
  set (after.push (make (Bytes.ofChars name)) s.mark)

/-- Whether a character may occur in a tag. -/
def isTagChar (c : Char) : Bool := isNameChar c || ";/?:@&=+$.,!~*'()[]%".contains c

/-- The name of a type. -/
def fetchTag : Scan Unit := do
  saveKey
  modify fun s => { s with keyAllowed := false }
  let s ← get
  let slice (i j : Nat) : Bytes := Bytes.ofChars (s.text.extract i j).toList
  let i := s.mark.index
  if s.ahead 1 = '<' then
    let after := skipWhile isTagChar s.text.size (s.skips 2)
    set after
    if after.mark.index = i + 2 then failAt .noTagText s.mark
    if after.next ≠ '>' then failAt .noTagBracket s.mark
    set (after.skip.push (.tag [] (slice (i + 2) after.mark.index)) s.mark)
  else
    let word := skipWhile isNameChar s.text.size s.skip
    let (handle, bare) : Bytes × Scanner :=
      if word.next = '!' then (slice i (word.mark.index + 1), word.skip) else ("!", s.skip)
    let after := skipWhile (fun c => isTagChar c && c ≠ '!' && c ≠ ',' && c ≠ '[' && c ≠ ']')
      s.text.size bare
    let suffix := slice bare.mark.index after.mark.index
    set after
    if suffix.isEmpty && handle ≠ Bytes.ofString "!" then failAt .noTagText s.mark
    set (after.push (if suffix.isEmpty then .tag [] "!" else .tag handle suffix) s.mark)
  let s' ← get
  if !(isGap s'.next || (s'.inFlow && s'.next = ',')) then failAt .noTagEnd s.mark

/-- The start of a collection in brackets. -/
def fetchOpening (kind : TokenKind) : Scan Unit := do
  saveKey
  modify fun s => { s with keys := none :: s.keys, keyAllowed := true }
  markToken kind

/-- The end of a collection in brackets. -/
def fetchClosing (kind : TokenKind) : Scan Unit := do
  removeKey
  modify fun s =>
    { s with keys := if s.inFlow then s.keys.drop 1 else s.keys, keyAllowed := false }
  markToken kind

/-- The mark of an element of a sequence. -/
def fetchEntry : Scan Unit := do
  let s ← get
  if !s.inFlow then
    if !s.keyAllowed then failAt .noBlockEntry s.mark
    rollIndent s.mark.column none .blockSequence s.mark
  removeKey
  modify fun s => { s with keyAllowed := true }
  markToken .blockEntry

/-- The mark of a key. -/
def fetchKey : Scan Unit := do
  let s ← get
  if !s.inFlow then
    if !s.keyAllowed then failAt .noMappingKey s.mark
    rollIndent s.mark.column none .blockMapping s.mark
  removeKey
  modify fun s => { s with keyAllowed := !s.inFlow }
  markToken .key

/-- The mark of a value: what was a possible key is one. -/
def fetchValue : Scan Unit := do
  let s ← get
  let open? ← match s.keys with
    | some k :: rest => do
      if ← keyIsOpen k then pure (some k)
      else
        set { s with keys := none :: rest }
        pure none
    | _ => pure none
  match open? with
  | some k =>
    modify fun s => (s.insert k.token .key k.mark)
    rollIndent k.mark.column (some k.token) .blockMapping k.mark
    modify fun s => { s with keys := none :: s.keys.drop 1, keyAllowed := false }
  | none =>
    if !s.inFlow then
      if !s.keyAllowed then failAt .noMappingValue s.mark
      rollIndent s.mark.column none .blockMapping s.mark
    modify fun s => { s with keyAllowed := !s.inFlow }
  markToken .value

/-- A token that ends all collections made by indentation. -/
def fetchBoundary (kind : TokenKind) (n : Nat) : Scan Unit := do
  unrollIndent (-1) (← get).mark
  removeKey
  modify fun s => { s with keyAllowed := false }
  markToken kind n

/-- The end of the text, which is on a line of its own. -/
def fetchEnd : Scan Unit := do
  modify fun s =>
    if s.mark.column = 0 then s else { s with mark := { s.mark with line := s.mark.line + 1, column := 0 } }
  fetchBoundary .streamEnd 0

/-- A line that gives directions to the reader. -/
def fetchDirective : Scan Unit := do
  fetchBoundary .directive 0
  modify fun s => skipWhile (fun c => !isBreakOrEnd c) s.text.size s

/-- Whether a plain scalar starts here. -/
def startsPlain (s : Scanner) : Bool :=
  let c := s.next
  !(isGap c || "-?:,[]#&*!|>'\"%@`".contains c || c = '\x7b' || c = '\x7d') ||
    (c = '-' && !isBlank (s.ahead 1)) ||
    (!s.inFlow && (c = '?' || c = ':') && !isGap (s.ahead 1))

/-- A scalar that may be a key. -/
def fetchScalar (style : ScalarStyle)
    (read : Nat → Scanner → Except Fault (List Char × Scanner)) : Scan Unit := do
  saveKey
  modify fun s => { s with keyAllowed := false }
  scalarToken style read

/-- A block of text. -/
def fetchBlock (literal : Bool) : Scan Unit := do
  removeKey
  modify fun s => { s with keyAllowed := true }
  scalarToken .quoted fun fuel s => scanBlock literal s.mark fuel s.skip

/-- Make the next token. -/
def fetch : Scan Unit := do
  let before := (← get).mark
  modify fun s => skipToToken (s.text.size + 1) s
  let s ← get
  unrollIndent s.mark.column before
  let s ← get
  let c := s.next
  if isEnd c then fetchEnd
  else if s.mark.column = 0 && c = '%' then fetchDirective
  else if s.atDocumentMark then
    fetchBoundary (if c = '-' then .documentStart else .documentEnd) 3
  else if c = '[' then fetchOpening .flowSequence
  else if c = '\x7b' then fetchOpening .flowMapping
  else if c = ']' then fetchClosing .flowSequenceEnd
  else if c = '\x7d' then fetchClosing .flowMappingEnd
  else if c = ',' then do
    removeKey
    modify fun s => { s with keyAllowed := true }
    markToken .flowEntry
  else if c = '-' && isGap (s.ahead 1) then fetchEntry
  else if c = '?' && (s.inFlow || isGap (s.ahead 1)) then fetchKey
  else if c = ':' && (s.inFlow || isGap (s.ahead 1)) then fetchValue
  else if c = '*' then fetchAnchor .alias
  else if c = '&' then fetchAnchor .anchor
  else if c = '!' then fetchTag
  else if c = '|' && !s.inFlow then fetchBlock true
  else if c = '>' && !s.inFlow then fetchBlock false
  else if c = '\'' || c = '"' then
    fetchScalar .quoted fun fuel s => scanQuoted s.mark c fuel [] s.skip
  else if startsPlain s then
    fetchScalar .plain fun fuel s => scanPlain s.mark (s.indent + 1) fuel [] {} s
  else failAt .badToken s.mark

/-- Make tokens until there are three more, and until it is settled whether the first of
them is a key. -/
def fetchMore : (fuel : Nat) → Scan Unit
  | 0 => return
  | fuel + 1 => do
    let s ← get
    if s.taken + 2 < s.tokens.size then
      match s.keys.find? fun k => k.any (·.token = s.taken) with
      | some (some k) => if !(← keyIsOpen k) then return
      | _ => return
    fetch
    fetchMore fuel

/-- The next token. -/
def peek : Scan Token := do
  let s ← get
  fetchMore (8 * s.text.size + 64)
  let s ← get
  return s.tokens.getD s.taken ⟨.streamEnd, s.mark⟩

/-- Take the next token. -/
def advance : Scan Unit := modify fun s => { s with taken := s.taken + 1 }

/-- A scanner at the start of a text. -/
def Scanner.ofBytes (text : Bytes) : Except Fault Scanner := do
  return { text := (← readChars text).toArray, tokens := #[⟨.streamStart, {}⟩], taken := 1 }

end Stencil.Yaml
