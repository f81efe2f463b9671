import Stencil.Text.Quoted

/-!
# The words of JSON text

Strings, numbers and literals, each read from the start of a text. A string that is
not UTF-8 reads with replacement characters in the place of what is malformed.
-/

namespace Stencil.Json

/-! ### Faults -/

/-- Where a character does not belong. -/
inductive Place where
  | startOfValue | startOfName | afterName | afterElement | afterMember | afterText
  | inNumber | inString
  | inLiteral (text : String)
  deriving DecidableEq, Repr, Inhabited

/-- How a place is called. -/
def Place.text : Place → String
  | .startOfValue => "looking for beginning of value"
  | .startOfName => "looking for beginning of object key string"
  | .afterName => "after object key"
  | .afterElement => "after array element"
  | .afterMember => "after object key:value pair"
  | .afterText => "after top-level value"
  | .inNumber => "in numeric literal"
  | .inString => "in string"
  | .inLiteral text => "in literal " ++ text

/-- Why a text is not JSON. -/
inductive Fault where
  /-- There is nothing where a value starts. -/
  | missing
  /-- The text ends within a word, a number or a string. -/
  | cut
  /-- The text ends within an array or an object. -/
  | unfinished
  /-- The text goes on with a character that does not belong there. -/
  | unexpected (rest : Bytes) (place : Place)
  | badEscape (text : Bytes)
  | nameNotString
  | missingValue
  | tooDeep
  | badNumber (text : Bytes)
  /-- There is more after the value. -/
  | trailing
  deriving DecidableEq, Repr, Inhabited

/-- The first character of a text in quotes. -/
def quoteFirst : Bytes → Bytes
  | [] => "''"
  | b :: rest =>
    match headGlyph b rest with
    | (.char c, _) => quoteChar c
    | (.stray b, _) => Bytes.ofString "'\\x" ++ hexNat 1 b.toNat ++ "'"

/-- An escape in quotes: plain ones if it can be printed. -/
def quoteEscape (text : Bytes) : Bytes :=
  let odd := text.chars.any fun c => c = (Char.ofNat 96) || c = replacementChar || isBlank c ||
    !isPrintable c
  if odd then text.quote else [96] ++ text ++ [96]

/-- The wording of a fault. -/
def Fault.message : Fault → Bytes
  | .missing => "EOF"
  | .cut => "unexpected EOF"
  | .unfinished => "unexpected end of JSON input"
  | .unexpected rest place =>
    Bytes.ofString "invalid character " ++ quoteFirst rest ++ " " ++ place.text
  | .badEscape text => Bytes.ofString "invalid escape sequence " ++ quoteEscape text ++ " in string"
  | .nameNotString => "object member name must be a string"
  | .missingValue => "missing value after object key"
  | .tooDeep => "exceeded max depth"
  | .badNumber text => Bytes.ofString "invalid number " ++ text
  | .trailing => "unexpected text after value"

/-! ### Bytes -/

/-- The byte of an ASCII character. -/
def code (c : Char) : UInt8 := c.toNat.toUInt8

/-- Whether a byte is white space between words. -/
def isSpace (b : UInt8) : Bool := b = 32 || b = 9 || b = 10 || b = 13

/-- The text after leading white space. -/
def skipSpace (text : Bytes) : Bytes := text.dropWhile isSpace

/-- Whether a byte is a decimal digit. -/
def isDigit (b : UInt8) : Bool := 48 ≤ b && b ≤ 57

/-! ### Strings -/

/-- The greatest number of bytes a character with the given first byte has, and the range
of its second byte. -/
def charShape? (b : UInt8) : Option (Nat × UInt8 × UInt8) :=
  if 0xC2 ≤ b && b ≤ 0xDF then some (2, 0x80, 0xBF)
  else if b = 0xE0 then some (3, 0xA0, 0xBF)
  else if b = 0xED then some (3, 0x80, 0x9F)
  else if 0xE1 ≤ b && b ≤ 0xEF then some (3, 0x80, 0xBF)
  else if b = 0xF0 then some (4, 0x90, 0xBF)
  else if b = 0xF4 then some (4, 0x80, 0x8F)
  else if 0xF1 ≤ b && b ≤ 0xF3 then some (4, 0x80, 0xBF)
  else none

/-- Whether a text is the beginning of a character that goes on after its end. -/
def isCutChar : Bytes → Bool
  | [] => true
  | b :: rest =>
    match charShape? b with
    | none => false
    | some (n, lo, hi) =>
      rest.length + 1 < n &&
        (match rest with
          | [] => true
          | c :: more => lo ≤ c && c ≤ hi && more.all fun d => 0x80 ≤ d && d ≤ 0xBF)

/-- The number four hexadecimal digits stand for. -/
def hexFour? (ds : Bytes) : Option Nat :=
  if ds.length = 4 then
    ds.foldlM (fun n d => (hexValue? (Char.ofNat d.toNat)).map (16 * n + ·)) 0
  else none

/-- Whether a text is the beginning of an escape that goes on after its end. -/
def isCutEscape (text : Bytes) : Bool :=
  (text.drop 2).all fun d => (hexValue? (Char.ofNat d.toNat)).isSome

/-- The character an escape of one letter stands for. -/
def shortEscape? (b : UInt8) : Option UInt8 :=
  match Char.ofNat b.toNat with
  | '"' | '\\' | '/' => some b
  | 'b' => some 8
  | 'f' => some 12
  | 'n' => some 10
  | 'r' => some 13
  | 't' => some 9
  | _ => none

/-- Whether a code is one half of a pair of codes for a character. -/
def isSurrogate (n : Nat) : Bool := 0xD800 ≤ n && n < 0xE000

/-- The character a pair of codes stands for. -/
def pairChar? (high low : Nat) : Option Char :=
  if 0xD800 ≤ high && high < 0xDC00 && 0xDC00 ≤ low && low < 0xE000 then
    some (Char.ofNat (0x10000 + (high - 0xD800) * 0x400 + (low - 0xDC00)))
  else none

/-- The character an escape by number stands for, and the number of bytes it takes. The
text starts at the backslash and holds six bytes at least. Half a pair stands for the
replacement character. -/
def numberEscape? (text : Bytes) : Option (Char × Nat) := do
  let n ← hexFour? ((text.drop 2).take 4)
  if !isSurrogate n then return (Char.ofNat n, 6)
  let second := text.drop 6
  let low := if Bytes.startsWith second "\\u" then hexFour? ((second.drop 2).take 4) else none
  match low.bind (pairChar? n) with
  | some c => return (c, 12)
  | none => return (replacementChar, 6)

/-- Read the rest of a string after its quote; `done` is what was read, the last byte
first. -/
def readString : (fuel : Nat) → (done : Bytes) → Bytes → Except Fault (Bytes × Bytes)
  | 0, _, _ => .error .cut
  | _, _, [] => .error .cut
  | fuel + 1, done, b :: rest =>
    if b = 34 then .ok (done.reverse, rest)
    else if b = 92 then
      match rest with
      | [] => .error .cut
      | e :: after =>
        match shortEscape? e with
        | some c => readString fuel (c :: done) after
        | none =>
          if e ≠ code 'u' then .error (.badEscape [b, e])
          else if rest.length < 5 then
            .error (if isCutEscape (b :: rest) then .cut else .badEscape (b :: rest))
          else
            match numberEscape? (b :: rest) with
            | some (c, n) =>
              readString fuel ((Bytes.ofChar c).reverse ++ done) ((b :: rest).drop n)
            | none => .error (.badEscape ((b :: rest).take 6))
    else if b < 32 then .error (.unexpected (b :: rest) .inString)
    else if b < 128 then readString fuel (b :: done) rest
    else
      match leadingChar? (b :: rest) with
      | some (c, n) => readString fuel ((Bytes.ofChar c).reverse ++ done) ((b :: rest).drop n)
      | none =>
        if isCutChar (b :: rest) then .error .cut
        else readString fuel ((Bytes.ofChar replacementChar).reverse ++ done) rest

/-- Read a string from its opening quote on. -/
def takeString (text : Bytes) : Except Fault (Bytes × Bytes) :=
  readString text.length [] (text.drop 1)

/-! ### Numbers and literals -/

/-- Read digits, at least one. -/
def takeDigits (text : Bytes) : Except Fault (Bytes × Bytes) :=
  match text with
  | [] => .error .cut
  | b :: _ =>
    if isDigit b then .ok (text.span isDigit) else .error (.unexpected text .inNumber)

/-- Read a leading byte that belongs to a set, if there is one. -/
def takeOptional (set : List Char) : Bytes → Bytes × Bytes
  | [] => ([], [])
  | b :: rest => if set.any (code · = b) then ([b], rest) else ([], b :: rest)

/-- Read a number. -/
def takeNumber (text : Bytes) : Except Fault (Bytes × Bytes) := do
  let (sign, text) := takeOptional ['-'] text
  let (whole, text) ← match text with
    | 48 :: rest => .ok ([48], rest)
    | text => takeDigits text
  let (point, text) := takeOptional ['.'] text
  let (fraction, text) ← if point.isEmpty then .ok ([], text) else takeDigits text
  let (mark, text) := takeOptional ['e', 'E'] text
  if mark.isEmpty then return (sign ++ whole ++ point ++ fraction, text)
  let (expSign, text) := takeOptional ['+', '-'] text
  let (exp, text) ← takeDigits text
  return (sign ++ whole ++ point ++ fraction ++ mark ++ expSign ++ exp, text)

/-- Read the rest of a literal. -/
def takeLiteralFrom (literal : String) : Bytes → Bytes → Except Fault Bytes
  | [], text => .ok text
  | _ :: _, [] => .error .cut
  | l :: ls, b :: rest =>
    if b = l then takeLiteralFrom literal ls rest
    else .error (.unexpected (b :: rest) (.inLiteral literal))

/-- Read a literal. -/
def takeLiteral (literal : String) (text : Bytes) : Except Fault Bytes :=
  takeLiteralFrom literal (Bytes.ofString literal) text

/-- A word that is not a string. -/
inductive Word where
  | null
  | bool (b : Bool)
  | number (text : Bytes)
  deriving DecidableEq, Repr, Inhabited

/-- Read a literal or a number. -/
def takeWord (text : Bytes) : Except Fault (Word × Bytes) :=
  match text with
  | [] => .error .cut
  | b :: _ =>
    if b = code 'n' then return (.null, ← takeLiteral "null" text)
    else if b = code 't' then return (.bool true, ← takeLiteral "true" text)
    else if b = code 'f' then return (.bool false, ← takeLiteral "false" text)
    else if b = code '-' || isDigit b then do
      let (n, rest) ← takeNumber text
      return (.number n, rest)
    else .error (.unexpected text .startOfValue)

/-- The greatest number of arrays and objects around a value. -/
def maxDepth : Nat := 10000

/-! ### Writing -/

/-- A character of a string in JSON text; `isSpecial` tells which others are escaped. -/
def quoteGlyph (isSpecial : Char → Bool) (g : Glyph) : Bytes :=
  let c := g.toChar
  let letter : Option Char := match c.toNat with
    | 8 => some 'b'
    | 9 => some 't'
    | 10 => some 'n'
    | 12 => some 'f'
    | 13 => some 'r'
    | 34 => some '"'
    | 92 => some '\\'
    | _ => none
  match letter with
  | some l => [92, code l]
  | none =>
    if c.toNat < 32 || isSpecial c then Bytes.ofString "\\u" ++ hexNat 4 c.toNat
    else Bytes.ofChar c

/-- A string in JSON text. -/
def quoteString (isSpecial : Char → Bool) (s : Bytes) : Bytes :=
  [34] ++ s.glyphs.flatMap (quoteGlyph isSpecial) ++ [34]

/-- Whether a character is escaped so that the text can stand inside a web page. -/
def isPageSpecial (c : Char) : Bool :=
  c = '<' || c = '>' || c = '&' || c.toNat = 0x2028 || c.toNat = 0x2029

end Stencil.Json
