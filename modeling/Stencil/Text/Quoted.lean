import Stencil.Text.Bytes
import Stencil.Text.Category

/-!
# Quoted text

Text between quotes, in which characters that would not show are written as
escapes. `quote` is the readable form of a string; `unescape?` reads one
character of quoted text and `unquote?` a whole string literal.
-/

namespace Stencil

/-- The letter of the escape of a control character that has one. -/
def escapeLetter? (c : Char) : Option Char :=
  match c.toNat with
  | 7 => some 'a'
  | 8 => some 'b'
  | 12 => some 'f'
  | 10 => some 'n'
  | 13 => some 'r'
  | 9 => some 't'
  | 11 => some 'v'
  | _ => none

/-- The control character written with an escape letter. -/
def escapedControl? (c : Char) : Option Char :=
  match c with
  | 'a' => some (Char.ofNat 7)
  | 'b' => some (Char.ofNat 8)
  | 'f' => some (Char.ofNat 12)
  | 'n' => some (Char.ofNat 10)
  | 'r' => some (Char.ofNat 13)
  | 't' => some (Char.ofNat 9)
  | 'v' => some (Char.ofNat 11)
  | _ => none

/-- One glyph as it stands between two quotes `q`. -/
def quoteGlyph (q : Char) : Glyph → Bytes
  | .stray b => Bytes.ofString "\\x" ++ hexNat 2 b.toNat
  | .char c =>
    if c = q ∨ c = '\\' then Bytes.ofChars ['\\', c]
    else if isPrintable c then Bytes.ofChar c
    else
      match escapeLetter? c with
      | some l => Bytes.ofChars ['\\', l]
      | none =>
        if c.toNat < 0x20 ∨ c.toNat = 0x7F then Bytes.ofString "\\x" ++ hexNat 2 c.toNat
        else if c.toNat < 0x10000 then Bytes.ofString "\\u" ++ hexNat 4 c.toNat
        else Bytes.ofString "\\U" ++ hexNat 8 c.toNat

/-- A byte string between double quotes. -/
def Bytes.quote (b : Bytes) : Bytes :=
  Bytes.ofString "\"" ++ b.glyphs.flatMap (quoteGlyph '"') ++ Bytes.ofString "\""

/-- A character between single quotes. -/
def quoteChar (c : Char) : Bytes :=
  Bytes.ofString "'" ++ quoteGlyph '\'' (.char c) ++ Bytes.ofString "'"

/-- A character read from quoted text: a code point, or the value of a single byte. -/
inductive Escaped where
  | char (c : Char)
  | byte (b : UInt8)
  deriving DecidableEq, Repr

/-- The bytes an escape stands for. -/
def Escaped.bytes : Escaped → Bytes
  | .char c => Bytes.ofChar c
  | .byte b => [b]

/-- Exactly `n` digits of the given base, and what follows them. -/
def takeDigits? (base : Nat) : Nat → Nat → List Char → Option (Nat × List Char)
  | 0, acc, cs => some (acc, cs)
  | _ + 1, _, [] => none
  | n + 1, acc, c :: cs =>
    match hexValue? c with
    | some d => if d < base then takeDigits? base n (base * acc + d) cs else none
    | none => none

/-- The character with a code, if the code is one of a character. -/
def charOfCode? (n : Nat) : Option Char :=
  if n.isValidChar then some (Char.ofNat n) else none

/-- Read one character of text between quotes `q`: itself or an escape. -/
def unescape? (q : Char) : List Char → Option (Escaped × List Char)
  | [] => none
  | '\\' :: rest =>
    match rest with
    | [] => none
    | c :: rest =>
      match escapedControl? c with
      | some k => some (.char k, rest)
      | none =>
        if c = 'x' then
          (takeDigits? 16 2 0 rest).map fun (n, r) => (.byte n.toUInt8, r)
        else if c = 'u' then do
          let (n, r) ← takeDigits? 16 4 0 rest
          let k ← charOfCode? n
          some (.char k, r)
        else if c = 'U' then do
          let (n, r) ← takeDigits? 16 8 0 rest
          let k ← charOfCode? n
          some (.char k, r)
        else if '0' ≤ c ∧ c ≤ '7' then do
          let (n, r) ← takeDigits? 8 3 0 (c :: rest)
          if n > 255 then none else some (.byte n.toUInt8, r)
        else if c = '\\' then some (.char '\\', rest)
        else if c = '\'' ∨ c = '"' then
          if c = q then some (.char c, rest) else none
        else none
  | c :: rest => if c = q then none else some (.char c, rest)

/-- Read text between quotes to its end, a whole literal at a time; `lenient` also
accepts an escape the reader does not know. -/
def unescapeAll (q : Char) (lenient : List Char → Option (Char × List Char)) :
    Nat → List Char → Option Bytes
  | _, [] => some []
  | 0, _ :: _ => none
  | fuel + 1, cs =>
    match unescape? q cs with
    | some (e, rest) => (unescapeAll q lenient fuel rest).map (e.bytes ++ ·)
    | none =>
      match lenient cs with
      | some (c, rest) => (unescapeAll q lenient fuel rest).map (Bytes.ofChar c ++ ·)
      | none => none

/-- The text that a quoted literal stands for. Between back quotes every byte but the
carriage return stands for itself; single quotes hold one character. -/
def unquote? (literal : Bytes) : Option Bytes :=
  match literal with
  | [] => none
  | q :: rest =>
    if rest.getLast? ≠ some q then none
    else
      let body : Bytes := rest.dropLast
      let cs := body.chars
      if q = 96 then if body.any (· = 96) then none else some (body.filter (· ≠ 13))
      else if body.any (· = 10) then none
      else if q = 34 then unescapeAll '"' (fun _ => none) cs.length cs
      else if q = 39 then
        match unescape? '\'' cs with
        | some (e, []) => some e.bytes
        | _ => none
      else none

end Stencil
