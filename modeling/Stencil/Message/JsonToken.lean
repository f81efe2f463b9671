import Stencil.Message.TextToken

/-!
# Tokens of messages in JSON form

The tokens of JSON text with their places, so that a fault can be located. Whether a
token may stand where it does follows from the token before and the innermost open
bracket.
-/

namespace Stencil

/-- A token of JSON text. -/
inductive JsonPart where
  /-- The beginning of the text. -/
  | start
  | null
  | bool (b : Bool)
  | number
  | string (s : Bytes)
  | name (s : Bytes)
  | objectOpen | objectClose | arrayOpen | arrayClose | comma
  | finish
  deriving DecidableEq, Repr, Inhabited

/-- A token with its place and how it is written. -/
structure JsonToken where
  part : JsonPart
  offset : Nat
  raw : Bytes
  deriving Repr, Inhabited

/-- How far a text has been read. -/
structure JsonCursor where
  /-- The length of the whole text. -/
  size : Nat
  rest : Bytes
  last : JsonPart := .start
  /-- The brackets that are open, the innermost first. -/
  opened : List JsonPart := []

namespace JsonCursor

/-- The text after white space. -/
def blanksAfter (b : Bytes) : Bytes := b.dropWhile fun c => c = 32 || c = 10 || c = 13 || c = 9

/-- A cursor at the beginning of a text. -/
def ofBytes (b : Bytes) : JsonCursor := { size := b.length, rest := b }

/-- The place of a cursor. -/
def offset (c : JsonCursor) : Nat := c.size - c.rest.length

/-- Take a token of a number of bytes. -/
def take (c : JsonCursor) (part : JsonPart) (n : Nat) : JsonToken × JsonCursor :=
  (⟨part, c.offset, c.rest.take n⟩, { c with rest := blanksAfter (c.rest.drop n) })

/-- A malformed text at the place of a cursor. -/
def fail {α : Type} (c : JsonCursor) (msg : Bytes) : Except TextFault α :=
  .error (.malformed c.offset msg)

end JsonCursor

/-- The length of a number at the start of a text. -/
def jsonNumberLength? (text : Bytes) : Option Nat := do
  let s := if text.head? = some 45 then text.drop 1 else text
  let s ← match s with
    | 48 :: rest => some rest
    | b :: _ => if isDigitByte b then some (s.dropWhile isDigitByte) else none
    | [] => none
  let s := match s with
    | 46 :: d :: rest => if isDigitByte d then rest.dropWhile isDigitByte else s
    | s => s
  let s ← match s with
    | e :: c :: rest =>
      if e = 101 || e = 69 then
        if c = 43 || c = 45 then
          if rest.isEmpty then none else some (rest.dropWhile isDigitByte)
        else some ((c :: rest).dropWhile isDigitByte)
      else some s
    | s => some s
  if endsWord s then some (text.length - s.length) else none

/-- Read the rest of a string up to its quote; `done` is what was read, the last byte
first. -/
def takeJsonString (c : JsonCursor) :
    (fuel : Nat) → (done : Bytes) → Bytes → Except TextFault (Bytes × Bytes)
  | 0, _, _ => .error .cut
  | _, _, [] => .error .cut
  | fuel + 1, done, b :: rest => do
    let bad (s : Bytes) : Except TextFault (Bytes × Bytes) :=
      c.fail (Bytes.ofString "invalid escape code " ++ s.quote ++ " in string")
    let hex? (ds : Bytes) : Option Nat :=
      if ds.all isHexByte then some (valueIn 16 ds) else none
    if b = 34 then return (done.reverse, rest)
    else if b = 92 then
      match rest with
      | [] => .error .cut
      | e :: after =>
        let letter : Option UInt8 := match Char.ofNat e.toNat with
          | '"' | '\\' | '/' => some e
          | 'b' => some 8
          | 'f' => some 12
          | 'n' => some 10
          | 'r' => some 13
          | 't' => some 9
          | _ => none
        match letter with
        | some x => takeJsonString c fuel (x :: done) after
        | none =>
          if e ≠ 117 then bad [b, e]
          else if after.length < 4 then .error .cut
          else
            match hex? (after.take 4) with
            | none => bad (b :: e :: after.take 4)
            | some v =>
              let after := after.drop 4
              if 0xD800 ≤ v && v < 0xE000 then
                if after.length < 6 then .error .cut
                else
                  let low := if Bytes.startsWith after "\\u" then hex? ((after.drop 2).take 4) else none
                  match low with
                  | some l =>
                    if v < 0xDC00 && 0xDC00 ≤ l && l < 0xE000 then
                      let ch := Char.ofNat (0x10000 + (v - 0xD800) * 0x400 + (l - 0xDC00))
                      takeJsonString c fuel ((Bytes.ofChar ch).reverse ++ done) (after.drop 6)
                    else bad (after.take 6)
                  | none => bad (after.take 6)
              else takeJsonString c fuel ((Bytes.ofChar (Char.ofNat v)).reverse ++ done) after
    else if b < 32 then
      c.fail (Bytes.ofString "invalid character " ++ quoteChar (Char.ofNat b.toNat) ++ " in string")
    else
      match headGlyph b rest with
      | (.stray _, _) => c.fail "invalid UTF-8 in string"
      | (.char _, n) =>
        takeJsonString c fuel (((b :: rest).take n).reverse ++ done) ((b :: rest).drop n)

/-- The word at the start of a text that is not a token. -/
def oddJsonWord (s : Bytes) : Bytes :=
  let word := (s.takeWhile isWordByte).take 32
  if word.isEmpty then
    match s with
    | [] => []
    | b :: rest => s.take (headGlyph b rest).2
  else word

/-- Read a token without regard to the one before. -/
def takeJsonPart (c : JsonCursor) : Except TextFault (JsonToken × JsonCursor) :=
  let c := { c with rest := JsonCursor.blanksAfter c.rest }
  let bad := c.fail (Bytes.ofString "invalid value " ++ oddJsonWord c.rest)
  let word (text : String) (part : JsonPart) : Except TextFault (JsonToken × JsonCursor) :=
    match Bytes.dropLeading? (Bytes.ofString text) c.rest with
    | some rest => if endsWord rest then .ok (c.take part text.length) else bad
    | none => bad
  match c.rest with
  | [] => .ok (c.take .finish 0)
  | b :: rest =>
    match Char.ofNat b.toNat with
    | 'n' => word "null" .null
    | 't' => word "true" (.bool true)
    | 'f' => word "false" (.bool false)
    | '"' => do
      let (s, after) ← takeJsonString c rest.length [] rest
      return c.take (.string s) (c.rest.length - after.length)
    | '\x7b' => .ok (c.take .objectOpen 1)
    | '\x7d' => .ok (c.take .objectClose 1)
    | '[' => .ok (c.take .arrayOpen 1)
    | ']' => .ok (c.take .arrayClose 1)
    | ',' => .ok (c.take .comma 1)
    | _ =>
      match jsonNumberLength? c.rest with
      | some n => .ok (c.take .number n)
      | none => bad

/-- Whether a value may come next. -/
def JsonCursor.expectsValue (c : JsonCursor) : Bool :=
  match c.opened, c.last with
  | [], .start => true
  | .objectOpen :: _, .name _ => true
  | .arrayOpen :: _, .arrayOpen | .arrayOpen :: _, .comma => true
  | _, _ => false

/-- Whether a value is complete after a token. -/
def JsonPart.isComplete : JsonPart → Bool
  | .null | .bool _ | .number | .string _ | .objectClose | .arrayClose => true
  | _ => false

/-- Read a token, commas among them. -/
def takeJsonToken (c : JsonCursor) : Except TextFault (JsonToken × JsonCursor) := do
  let (t, after) ← takeJsonPart c
  let unexpected : Except TextFault (JsonToken × JsonCursor) :=
    .error (.malformed t.offset (Bytes.ofString "unexpected token " ++ t.raw))
  let accept : Except TextFault (JsonToken × JsonCursor) := .ok (t, { after with last := t.part })
  match t.part with
  | .finish => if c.opened.isEmpty then accept else .error .cut
  | .string s =>
    if c.expectsValue then accept
    else if c.last ≠ .objectOpen && c.last ≠ .comma then unexpected
    else
      match after.rest with
      | [] => .error .cut
      | 58 :: rest =>
        let part := JsonPart.name s
        return ({ t with part }, { after with rest := JsonCursor.blanksAfter rest, last := part })
      | b :: _ =>
        after.fail (Bytes.ofString "unexpected character " ++ Bytes.ofChar (Char.ofNat b.toNat) ++
          ", missing \":\" after field name")
  | .objectOpen | .arrayOpen =>
    if c.expectsValue then
      return (t, { after with last := t.part, opened := t.part :: c.opened })
    else unexpected
  | .objectClose =>
    if c.last = .comma || c.opened.head? ≠ some .objectOpen then unexpected
    else return (t, { after with last := t.part, opened := c.opened.drop 1 })
  | .arrayClose =>
    if c.last = .comma || c.opened.head? ≠ some .arrayOpen then unexpected
    else return (t, { after with last := t.part, opened := c.opened.drop 1 })
  | .comma => if c.opened.isEmpty || !c.last.isComplete then unexpected else accept
  | _ => if c.expectsValue then accept else unexpected

/-- Read the next token that is not a comma. -/
def nextJsonToken (c : JsonCursor) : Except TextFault (JsonToken × JsonCursor) := do
  let (t, after) ← takeJsonToken c
  match t.part with
  | .comma => takeJsonToken after
  | _ => return (t, after)

end Stencil
