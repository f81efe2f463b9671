import Stencil.Message.TextForm
import Stencil.Decimal.Numeral

/-!
# Tokens of messages in text form

What may come next depends on the token before and on the innermost open bracket.
Commas and semicolons between fields, white space and comments are passed over.
-/

namespace Stencil

/-- Why a text is not the text form of a message. -/
inductive TextFault where
  /-- The text ends too early. -/
  | cut
  /-- The text is malformed at a place. -/
  | malformed (offset : Nat) (msg : Bytes)
  /-- The text does not fit the message at a place. -/
  | misfit (offset : Nat) (msg : Bytes)
  | content (e : MessageFault)
  deriving DecidableEq, Repr, Inhabited

/-- The line and the column of a place in a text, counted from one. -/
def lineAndColumn (text : Bytes) (offset : Nat) : Bytes :=
  let before := text.take offset
  let line := (before.filter (· = 10)).length + 1
  let current : Bytes := (before.reverse.takeWhile (· ≠ 10)).reverse
  let column := current.glyphs.length + 1
  Bytes.ofString "(line " ++ Bytes.ofNat line ++ ":" ++ Bytes.ofNat column ++ "): "

/-- The wording of a fault in a text. -/
def TextFault.message (text : Bytes) : TextFault → Bytes
  | .cut => "proto: unexpected EOF"
  | .malformed offset msg => Bytes.ofString "proto: syntax error " ++ lineAndColumn text offset ++ msg
  | .misfit offset msg => Bytes.ofString "proto: " ++ lineAndColumn text offset ++ msg
  | .content e => e.message

/-- How a field is named. -/
inductive TextName where
  | ident | typeName | number
  deriving DecidableEq, Repr, Inhabited

/-- A basic value as it is written. -/
inductive TextScalar where
  | literal
  | string (s : Bytes)
  /-- A number with its sign; its magnitude if it is whole; and its decimal text. -/
  | number (negative : Bool) (magnitude : Option Nat) (text : Bytes)
  deriving Repr, Inhabited

/-- A token. -/
inductive TextPart where
  /-- The beginning of the text. -/
  | start
  | name (form : TextName) (separated : Bool)
  | scalar (s : TextScalar)
  | open_ | close | listOpen | listClose | separator
  | finish
  deriving Repr, Inhabited

/-- A token with its place and how it is written. -/
structure TextToken where
  part : TextPart
  offset : Nat
  raw : Bytes
  deriving Repr, Inhabited

/-- How far a text has been read. -/
structure TextCursor where
  /-- The length of the whole text. -/
  size : Nat
  rest : Bytes
  last : TextPart := .start
  /-- The brackets that are open, the innermost first. -/
  opened : List UInt8 := []

namespace TextCursor

/-- Pass over white space and comments. -/
def skipBlanks : (fuel : Nat) → Bytes → Bytes
  | 0, b => b
  | fuel + 1, b =>
    match b with
    | [] => []
    | c :: rest =>
      if c = 32 || c = 10 || c = 13 || c = 9 then skipBlanks fuel rest
      else if c = 35 then skipBlanks fuel ((rest.dropWhile (· ≠ 10)).drop 1)
      else c :: rest

/-- The text after white space and comments. -/
def blanksAfter (b : Bytes) : Bytes := skipBlanks b.length b

/-- A cursor at the beginning of a text. -/
def ofBytes (b : Bytes) : TextCursor := { size := b.length, rest := b }

/-- The place of a cursor. -/
def offset (c : TextCursor) : Nat := c.size - c.rest.length

/-- A malformed text at the place of a cursor. -/
def fail {α : Type} (c : TextCursor) (msg : Bytes) : Except TextFault α :=
  .error (.malformed c.offset msg)

/-- Take a token of a number of bytes. -/
def take (c : TextCursor) (part : TextPart) (n : Nat) : TextToken × TextCursor :=
  (⟨part, c.offset, c.rest.take n⟩,
    { c with rest := blanksAfter (c.rest.drop n), last := part })

end TextCursor

/-! ### Words -/

/-- Whether a byte is an ASCII letter or an underscore. -/
def isLetterByte (b : UInt8) : Bool :=
  b = 95 || (97 ≤ b && b ≤ 122) || (65 ≤ b && b ≤ 90)

/-- Whether a byte can go on a word, so that the word before it is not complete. -/
def isWordByte (b : UInt8) : Bool :=
  b = 45 || b = 43 || b = 46 || isLetterByte b || isDigitByte b

/-- Whether a word ends before a text. -/
def endsWord : Bytes → Bool
  | [] => true
  | b :: _ => !isWordByte b

/-- The length of an identifier at the start of a text, or zero. -/
def identLength (s : Bytes) : Nat :=
  match s with
  | [] => 0
  | b :: rest =>
    if isLetterByte b then
      let n := (rest.takeWhile fun c => isLetterByte c || isDigitByte c).length
      if endsWord (rest.drop n) then n + 1 else 0
    else 0

/-- The length of an identifier that may have a minus sign in front, or zero. -/
def literalLength (s : Bytes) : Nat :=
  match s with
  | 45 :: rest => if identLength rest = 0 then 0 else identLength rest + 1
  | s => identLength s

/-- A number at the start of a text. -/
structure TextNumber where
  length : Nat
  negative : Bool
  /-- The magnitude of a whole number. -/
  magnitude : Option Nat
  isDecimal : Bool
  deriving Repr, Inhabited

/-- The value of digits in a base. -/
def valueIn (base : Nat) (ds : Bytes) : Nat :=
  ds.foldl (fun n d => n * base + (hexValue? (Char.ofNat d.toNat)).getD 0) 0

/-- Whether a byte is a hexadecimal digit. -/
def isHexByte (b : UInt8) : Bool := (hexValue? (Char.ofNat b.toNat)).isSome

/-- Whether a byte is an octal digit. -/
def isOctalByte (b : UInt8) : Bool := 48 ≤ b && b ≤ 55

/-- The digits after a point, an exponent and a suffix for floats: the rest of the text, and
whether there were any. -/
def floatTail? (pointNeeded : Bool) (s : Bytes) : Option (Bytes × Bool) := do
  let (s, isFloat) ← match s with
    | 46 :: rest =>
      if rest.isEmpty && pointNeeded then none else some (rest.dropWhile isDigitByte, true)
    | s => some (s, pointNeeded)
  let (s, isFloat) ← match s with
    | e :: c :: rest =>
      if e = 101 || e = 69 then
        if c = 43 || c = 45 then
          if rest.isEmpty then none else some (rest.dropWhile isDigitByte, true)
        else some ((c :: rest).dropWhile isDigitByte, true)
      else some (s, isFloat)
    | s => some (s, isFloat)
  match s with
  | 102 :: rest | 70 :: rest => return (rest, true)
  | s => return (s, isFloat)

/-- The number at the start of a text. -/
def numberAt? (text : Bytes) : Option TextNumber := do
  let negative := text.head? = some 45
  let s := if negative then text.drop 1 else text
  let finish (rest : Bytes) (magnitude : Option Nat) (isDecimal : Bool) : Option TextNumber :=
    if endsWord rest then
      some { length := text.length - rest.length, negative, magnitude, isDecimal }
    else none
  match s with
  | 48 :: x :: rest =>
    if x = 120 || x = 88 then
      let ds := rest.takeWhile isHexByte
      if ds.isEmpty then none
      else finish (rest.drop ds.length) (some (valueIn 16 ds)) false
    else if isOctalByte x then
      let ds := (x :: rest).takeWhile isOctalByte
      finish ((x :: rest).drop ds.length) (some (valueIn 8 ds)) false
    else
      let (rest, isFloat) ← floatTail? false (x :: rest)
      finish rest (if isFloat then none else some 0) (!isFloat)
  | b :: _ =>
    if isDigitByte b then
      let ds := s.takeWhile isDigitByte
      let (rest, isFloat) ← floatTail? false (s.drop ds.length)
      finish rest (if isFloat then none else some (valueIn 10 ds)) (!isFloat)
    else if b = 46 then
      let (rest, _) ← floatTail? true s
      finish rest none false
    else none
  | [] => none

/-- The word at the start of a text that is not understood. -/
def oddWord (s : Bytes) : Bytes :=
  let word := s.takeWhile fun b => isWordByte b || b = 47
  if word.isEmpty then
    match s with
    | [] => []
    | b :: rest => s.take (headGlyph b rest).2
  else word

/-! ### Strings -/

/-- The value of an escape of one letter. -/
def letterEscape? (b : UInt8) : Option UInt8 :=
  match Char.ofNat b.toNat with
  | '"' | '\'' | '\\' | '?' => some b
  | 'a' => some 7
  | 'b' => some 8
  | 'f' => some 12
  | 'n' => some 10
  | 'r' => some 13
  | 't' => some 9
  | 'v' => some 11
  | _ => none

/-- The character of an escape with `n` hexadecimal digits, and the text after it; half a
pair of codes needs the other half. -/
def unicodeEscape (c : TextCursor) (n : Nat) (s : Bytes) : Except TextFault (Char × Bytes) :=
  let bad {α : Type} (s : Bytes) : Except TextFault α :=
    c.fail (Bytes.ofString "invalid Unicode escape code " ++ s.quote ++ " in string")
  let hex? (ds : Bytes) : Option Nat := if ds.all isHexByte then some (valueIn 16 ds) else none
  if s.length < n + 2 then .error .cut
  else
    match hex? ((s.drop 2).take n) with
    | none => bad (s.take (n + 2))
    | some v =>
      if 0x10FFFF < v then bad (s.take (n + 2))
      else if 0xD800 ≤ v && v < 0xE000 then
        let s := s.drop (n + 2)
        if s.length < 6 then .error .cut
        else
          let low := if Bytes.startsWith s "\\u" then hex? ((s.drop 2).take 4) else none
          match low with
          | some l =>
            if v < 0xDC00 && 0xDC00 ≤ l && l < 0xE000 then
              .ok (Char.ofNat (0x10000 + (v - 0xD800) * 0x400 + (l - 0xDC00)), s.drop 6)
            else bad (s.take 6)
          | none => bad (s.take 6)
      else .ok (Char.ofNat v, s.drop (n + 2))

/-- Read an escape: the bytes it stands for and the text after it. -/
def takeEscape (c : TextCursor) (s : Bytes) : Except TextFault (Bytes × Bytes) :=
  match s with
  | back :: e :: rest =>
    match letterEscape? e with
    | some b => .ok ([b], rest)
    | none =>
      if isOctalByte e then
        let ds := ((e :: rest).takeWhile isOctalByte).take 3
        if valueIn 8 ds < 256 then
          .ok ([(valueIn 8 ds).toUInt8], (e :: rest).drop ds.length)
        else
          c.fail (Bytes.ofString "invalid octal escape code " ++ Bytes.quote (back :: ds) ++ " in string")
      else if e = 120 then
        let ds := (rest.takeWhile isHexByte).take 2
        if ds.isEmpty then
          c.fail (Bytes.ofString "invalid hex escape code " ++ Bytes.quote [back, e] ++ " in string")
        else .ok ([(valueIn 16 ds).toUInt8], rest.drop ds.length)
      else if e = 117 || e = 85 then
        (unicodeEscape c (if e = 117 then 4 else 8) s).map fun (ch, rest) =>
          (Bytes.ofChar ch, rest)
      else c.fail (Bytes.ofString "invalid escape code " ++ Bytes.quote [back, e] ++ " in string")
  | _ => .error .cut

/-- Read the rest of a string up to its quote; `done` is what was read, the last byte
first. -/
def takeTextString (c : TextCursor) (q : UInt8) :
    (fuel : Nat) → (done : Bytes) → Bytes → Except TextFault (Bytes × Bytes)
  | 0, _, _ => .error .cut
  | _, _, [] => .error .cut
  | fuel + 1, done, b :: rest => do
    if b = q then return (done.reverse, rest)
    else if b = 92 then
      let (x, rest) ← takeEscape c (b :: rest)
      takeTextString c q fuel (x.reverse ++ done) rest
    else if b = 0 || b = 10 then
      c.fail (Bytes.ofString "invalid character " ++ quoteChar (Char.ofNat b.toNat) ++ " in string")
    else
      match headGlyph b rest with
      | (.stray _, _) => c.fail "invalid UTF-8 detected"
      | (.char _, n) =>
        takeTextString c q fuel (((b :: rest).take n).reverse ++ done) ((b :: rest).drop n)

/-- Read strings that stand next to one another as one. -/
def takeStrings : (fuel : Nat) → (done : Bytes) → TextCursor → Except TextFault (Bytes × TextCursor)
  | 0, done, c => .ok (done, c)
  | fuel + 1, done, c =>
    match c.rest with
    | [] => .ok (done, c)
    | q :: rest =>
      if q = 34 || q = 39 then do
        let (s, rest) ← takeTextString c q rest.length [] rest
        takeStrings fuel (done ++ s) { c with rest := TextCursor.blanksAfter rest }
      else .ok (done, c)

/-! ### Tokens -/

/-- Read a basic value. -/
def takeScalar (c : TextCursor) : Except TextFault (TextToken × TextCursor) :=
  match c.rest with
  | [] => .error .cut
  | b :: _ =>
    if b = 34 || b = 39 then do
      let (s, after) ← takeStrings (c.rest.length + 1) [] c
      let raw := c.rest.take (c.rest.length - after.rest.length)
      return (⟨.scalar (.string s), c.offset, raw⟩, { after with last := .scalar (.string s) })
    else if 0 < literalLength c.rest then .ok (c.take (.scalar .literal) (literalLength c.rest))
    else
      match numberAt? c.rest with
      | some n =>
        let raw := c.rest.take n.length
        let text := match raw.getLast? with
          | some 102 | some 70 => if n.magnitude.isNone then raw.dropLast else raw
          | _ => raw
        .ok (c.take (.scalar (.number n.negative n.magnitude text)) n.length)
      | none => c.fail (Bytes.ofString "invalid scalar value: " ++ oddWord c.rest)

/-- Take a colon after a name. -/
def withColon (form : TextName) (c : TextCursor) (n : Nat) : TextToken × TextCursor :=
  let (t, after) := c.take (.name form false) n
  match after.rest with
  | 58 :: rest =>
    let part := TextPart.name form true
    ({ t with part }, { after with rest := TextCursor.blanksAfter rest, last := part })
  | _ => (t, after)

/-- Whether a byte can be part of a name in brackets. -/
def isTypeNameByte (b : UInt8) : Bool := b = 45 || isLetterByte b || isDigitByte b

/-- Read the rest of a name in brackets; `name` is what was read. -/
def takeTypeName (c : TextCursor) : (fuel : Nat) → (name : Bytes) → Bytes →
    Except TextFault (Bytes × Bytes)
  | 0, _, _ => .error .cut
  | _, _, [] => .error .cut
  | fuel + 1, name, b :: rest =>
    let bad (n : Nat) : Except TextFault (Bytes × Bytes) :=
      c.fail (Bytes.ofString "invalid type URL/extension field name: " ++ c.rest.take n)
    let seen := c.rest.length - rest.length
    if b = 93 then
      let last := name.getLast?
      if name.isEmpty || name.head? = some 46 || last = some 46 || last = some 47 then bad seen
      else .ok (name, rest)
    else if b = 47 || b = 46 then
      if name.getLast? = some 47 || name.getLast? = some 46 then bad seen
      else
        let s := TextCursor.blanksAfter rest
        let word := s.takeWhile isTypeNameByte
        takeTypeName c fuel (name ++ [b] ++ word) (TextCursor.blanksAfter (s.drop word.length))
    else bad seen

/-- Read the name of a field. -/
def takeFieldName (c : TextCursor) : Except TextFault (TextToken × TextCursor) :=
  match c.rest with
  | 91 :: rest => do
    let s := TextCursor.blanksAfter rest
    if s.isEmpty then .error .cut
    else
      let word := s.takeWhile isTypeNameByte
      let (_, after) ← takeTypeName c c.rest.length word (TextCursor.blanksAfter (s.drop word.length))
      return withColon .typeName c (c.rest.length - after.length)
  | s =>
    if 0 < identLength s then .ok (withColon .ident c (identLength s))
    else
      match numberAt? s with
      | some n =>
        if !n.negative && n.isDecimal && n.magnitude.any (· < Nat.pow 2 31) then
          .ok (withColon .number c n.length)
        else c.fail (Bytes.ofString "invalid field number: " ++ s.take n.length)
      | none => c.fail (Bytes.ofString "invalid field name: " ++ oddWord s)

/-- Open a bracket. -/
def openBracket (c : TextCursor) (b : UInt8) : TextToken × TextCursor :=
  let (t, after) := c.take (if b = 91 then .listOpen else .open_) 1
  (t, { after with opened := b :: c.opened })

/-- Close the innermost bracket. -/
def closeBracket (c : TextCursor) : TextToken × TextCursor :=
  let (t, after) := c.take (if c.opened.head? = some 91 then .listClose else .close) 1
  (t, { after with opened := c.opened.drop 1 })

/-- Read a value after a name, or an element of a list. -/
def takeValue (c : TextCursor) (inList : Bool) : Except TextFault (TextToken × TextCursor) :=
  match c.rest with
  | [] => .error .cut
  | b :: _ =>
    if b = 123 || b = 60 || (b = 91 && !inList) then .ok (openBracket c b) else takeScalar c

/-- Whether a field or an element is complete after a token. -/
def TextPart.isComplete : TextPart → Bool
  | .scalar _ | .close | .listClose => true
  | _ => false

/-- Read a token inside a list. -/
def takeInList (c : TextCursor) : Except TextFault (TextToken × TextCursor) :=
  match c.rest, c.last with
  | [], _ => .error .cut
  | b :: _, .listOpen => if b = 93 then .ok (closeBracket c) else takeValue c true
  | b :: _, last =>
    if last.isComplete then
      if b = 93 then .ok (closeBracket c)
      else if b = 44 then .ok (c.take .separator 1)
      else c.fail (Bytes.ofString "unexpected character " ++ quoteChar (Char.ofNat b.toNat))
    else takeValue c true

/-- Read a token between the fields of a message; `closing` is its bracket, if it has one. -/
def takeInMessage (c : TextCursor) (closing : Option UInt8) :
    Except TextFault (TextToken × TextCursor) :=
  match c.rest with
  | [] => if closing.isNone then .ok (c.take .finish 0) else .error .cut
  | b :: _ =>
    if closing = some b then .ok (closeBracket c)
    else if (closing = some 125 && b = 62) || (closing = some 62 && b = 125) then
      c.fail (Bytes.ofString "mismatched close character " ++ quoteChar (Char.ofNat b.toNat))
    else if c.last.isComplete && (b = 44 || b = 59) then .ok (c.take .separator 1)
    else takeFieldName c

/-- Read the next token, separators among them. -/
def takeToken (c : TextCursor) : Except TextFault (TextToken × TextCursor) :=
  let c := { c with rest := TextCursor.blanksAfter c.rest }
  match c.last with
  | .finish => .ok (c.take .finish 0)
  | .name _ _ => takeValue c false
  | _ =>
    match c.opened with
    | [] => takeInMessage c none
    | 91 :: _ => takeInList c
    | 60 :: _ => takeInMessage c (some 62)
    | _ => takeInMessage c (some 125)

/-- Read the next token that is not a separator. -/
def nextToken (c : TextCursor) : Except TextFault (TextToken × TextCursor) := do
  let (t, after) ← takeToken c
  match t.part with
  | .separator => takeToken after
  | _ => return (t, after)

end Stencil
