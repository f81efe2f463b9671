import Stencil.Decimal.Numeral
import Stencil.Json.Lexeme

/-!
# Laying out and reading JSON text

The elements of arrays and the members of objects are put on lines of their own,
indented by their depth. Words stay as they are written, and so does the white space
at the end.
-/

namespace Stencil.Json

/-- A new line with the indentation of a depth. -/
def newLine (indent : Bytes) (depth : Nat) : Bytes := [10] ++ indent.times depth

/-- The first byte after white space. -/
def nextByte (text : Bytes) : Except Fault (UInt8 × Bytes) :=
  match skipSpace text with
  | [] => .error .unfinished
  | b :: rest => .ok (b, b :: rest)

/-- What a word is replaced by: itself. A word that is cut off leaves the text unfinished. -/
def verbatim {α : Type} (text : Bytes) (taken : Except Fault (α × Bytes)) :
    Except Fault (Bytes × Bytes) :=
  match taken with
  | .ok (_, rest) => .ok (text.take (text.length - rest.length), rest)
  | .error .cut => .error .unfinished
  | .error e => .error e

mutual

/-- Lay out a value that starts the text. -/
def layValue (indent : Bytes) : (fuel depth : Nat) → Bytes → Except Fault (Bytes × Bytes)
  | 0, _, _ => .error .tooDeep
  | fuel + 1, depth, text => do
    let (b, text) ← nextByte text
    if b = 34 then verbatim text (takeString text)
    else if b = code '[' then
      if depth = maxDepth then .error .tooDeep
      else
        let (c, rest) ← nextByte (text.drop 1)
        if c = code ']' then return (Bytes.ofString "[]", rest.drop 1)
        let (out, rest) ← layElements indent fuel (depth + 1) rest
        return (Bytes.ofString "[" ++ out ++ newLine indent depth ++ "]", rest)
    else if b = code '\x7b' then
      if depth = maxDepth then .error .tooDeep
      else
        let (c, rest) ← nextByte (text.drop 1)
        if c = code '\x7d' then return (Bytes.ofString "\x7b\x7d", rest.drop 1)
        let (out, rest) ← layMembers indent fuel (depth + 1) rest
        return (Bytes.ofString "\x7b" ++ out ++ newLine indent depth ++ "\x7d", rest)
    else verbatim text (takeWord text)

/-- Lay out the elements of an array up to its bracket. -/
def layElements (indent : Bytes) : (fuel depth : Nat) → Bytes → Except Fault (Bytes × Bytes)
  | 0, _, _ => .error .tooDeep
  | fuel + 1, depth, text => do
    let (out, rest) ← layValue indent fuel depth text
    let out := newLine indent depth ++ out
    let (b, rest) ← nextByte rest
    if b = code ',' then
      let (more, rest) ← layElements indent fuel depth (rest.drop 1)
      return (out ++ "," ++ more, rest)
    else if b = code ']' then return (out, rest.drop 1)
    else .error (.unexpected rest .afterElement)

/-- Lay out the members of an object up to its bracket. -/
def layMembers (indent : Bytes) : (fuel depth : Nat) → Bytes → Except Fault (Bytes × Bytes)
  | 0, _, _ => .error .tooDeep
  | fuel + 1, depth, text => do
    let (b, text) ← nextByte text
    if b ≠ 34 then .error (.unexpected text .startOfName)
    else
      let (name, rest) ← verbatim text (takeString text)
      let (b, rest) ← nextByte rest
      if b ≠ code ':' then .error (.unexpected rest .afterName)
      else
        let (out, rest) ← layValue indent fuel depth (rest.drop 1)
        let out := newLine indent depth ++ name ++ ": " ++ out
        let (b, rest) ← nextByte rest
        if b = code ',' then
          let (more, rest) ← layMembers indent fuel depth (rest.drop 1)
          return (out ++ "," ++ more, rest)
        else if b = code '\x7d' then return (out, rest.drop 1)
        else .error (.unexpected rest .afterMember)

end

/-- The white space at the end of a text. -/
def trailingSpace (text : Bytes) : Bytes := (text.reverse.takeWhile isSpace).reverse

/-- Lay out a text that is one value. -/
def layOut (indent text : Bytes) : Except Fault Bytes := do
  let (out, rest) ← layValue indent (2 * text.length + 2) 0 text
  let rest := skipSpace rest
  if rest.isEmpty then return out ++ trailingSpace text
  else .error (.unexpected rest .afterText)

end Stencil.Json

/-!
## Reading JSON text

A text is read from left to right. Whether an array or object goes on is decided by
the next character alone; a bracket of the wrong kind ends it like the right one, and
is then found after the value. At the end of the text it is the decoder that decides: it may
take the end for an error, or for the end of the array or object, whose bracket nobody misses.
-/

namespace Stencil

/-- A value of JSON text. A number is an int if it is written like one and fits. -/
inductive JsonValue where
  | null
  | bool (b : Bool)
  | int (n : Int64)
  | float (x : Float)
  | string (s : Bytes)
  | array (items : List JsonValue)
  | object (members : List (Bytes × JsonValue))
  deriving Inhabited

namespace Json

/-- What comes next in a text. -/
inductive Ahead where
  | value
  | element (isFirst : Bool)
  | name (isFirst : Bool)
  | memberValue
  deriving DecidableEq, Repr, Inhabited

/-- The delimiter that has to stand before a word with the given first byte. -/
def Ahead.delimiter? (a : Ahead) (next : UInt8) : Option UInt8 :=
  match a with
  | .memberValue => some (code ':')
  | .element false | .name false =>
    if next = code ']' || next = code '\x7d' then none else some (code ',')
  | _ => none

/-- The place of a delimiter that is missing or wrong. -/
def Ahead.place (a : Ahead) (next : UInt8) : Place :=
  match a, a.delimiter? next with
  | _, none => .startOfValue
  | .memberValue, _ => .afterName
  | .name _, _ => .afterMember
  | _, _ => .afterElement

/-- What a text that ends here lacks. -/
def Ahead.lack : Ahead → Fault
  | .value | .memberValue => .missing
  | _ => .unfinished

/-- The text from the next word on, after its delimiter; the first byte of the word. -/
def peek (a : Ahead) (text : Bytes) : Except Fault (UInt8 × Bytes) :=
  match skipSpace text with
  | [] => .error a.lack
  | b :: rest =>
    let delim := if b = code ':' || b = code ',' then some b else none
    match if delim.isSome then skipSpace rest else b :: rest with
    | [] =>
      if a.delimiter? 34 = delim then .error a.lack
      else .error (.unexpected (b :: rest) (a.place 34))
    | c :: more =>
      if a.delimiter? c = delim then .ok (c, c :: more)
      else .error (.unexpected (b :: rest) (a.place c))

/-- The fault of a closing bracket in the place of a value. -/
def Ahead.closing (a : Ahead) (text : Bytes) : Fault :=
  match a with
  | .memberValue =>
    if text.head? = some (code '\x7d') then .missingValue else .unexpected text .afterMember
  | _ => .unexpected text .startOfValue

/-- The value of a number. -/
def numberValue (text : Bytes) : Except Fault JsonValue :=
  let cs := text.map fun b => Char.ofNat b.toNat
  match Decimal.readInt cs with
  | .ok n => .ok (.int (Int64.ofInt n))
  | .error _ =>
    match Decimal.readFloat cs with
    | .ok x => .ok (.float x)
    | .error _ => .error (.badNumber text)

/-- The value of a literal or number. -/
def Word.value : Word → Except Fault JsonValue
  | .null => .ok .null
  | .bool b => .ok (.bool b)
  | .number text => numberValue text

/-- Replace the member of a name, or add one. -/
def setMember (name : Bytes) (v : JsonValue) : List (Bytes × JsonValue) → List (Bytes × JsonValue)
  | [] => [(name, v)]
  | (n, w) :: rest => if n = name then (n, v) :: rest else (n, w) :: setMember name v rest

/-- Nothing but white space is left, and the decoder lets what is open end there. -/
def isOver (endsOpen : Bool) (text : Bytes) : Bool := endsOpen && (skipSpace text).isEmpty

mutual

/-- Read a value with `depth` arrays and objects around it. -/
def readValue (endsOpen : Bool) : (fuel depth : Nat) → Ahead → Bytes → Except Fault (JsonValue × Bytes)
  | 0, _, _, _ => .error .tooDeep
  | fuel + 1, depth, a, text => do
    let (b, text) ← peek a text
    if b = 34 then
      let (s, rest) ← takeString text
      return (.string s, rest)
    else if b = code '[' then
      if depth = maxDepth then .error .tooDeep
      else
        let (items, rest) ← readElements endsOpen fuel (depth + 1) true (text.drop 1)
        return (.array items, rest)
    else if b = code '\x7b' then
      if depth = maxDepth then .error .tooDeep
      else
        let (members, rest) ← readMembers endsOpen fuel (depth + 1) true [] (text.drop 1)
        return (.object members, rest)
    else if b = code ']' || b = code '\x7d' then .error (a.closing text)
    else
      let (w, rest) ← takeWord text
      return (← w.value, rest)

/-- Read the elements of an array up to its bracket. -/
def readElements (endsOpen : Bool) : (fuel depth : Nat) → (isFirst : Bool) → Bytes →
    Except Fault (List JsonValue × Bytes)
  | 0, _, _, _ => .error .tooDeep
  | fuel + 1, depth, isFirst, text =>
    if isOver endsOpen text then return ([], [])
    else do
      let (b, rest) ← peek (.element isFirst) text
      if b = code ']' then return ([], rest.drop 1)
      else if b = code '\x7d' then .error .trailing
      else
        let (v, rest) ← readValue endsOpen fuel depth (.element isFirst) text
        let (vs, rest) ← readElements endsOpen fuel depth false rest
        return (v :: vs, rest)

/-- Read the members of an object up to its bracket. The last of several members with one
name counts, in the place of the first. -/
def readMembers (endsOpen : Bool) : (fuel depth : Nat) → (isFirst : Bool) →
    List (Bytes × JsonValue) → Bytes → Except Fault (List (Bytes × JsonValue) × Bytes)
  | 0, _, _, _, _ => .error .tooDeep
  | fuel + 1, depth, isFirst, members, text =>
    if isOver endsOpen text then return (members, [])
    else do
      let (b, rest) ← peek (.name isFirst) text
      if b = code '\x7d' then return (members, rest.drop 1)
      else if b = code ']' then .error .trailing
      else if b = 34 then
        let (name, rest) ← takeString rest
        let (v, rest) ← readValue endsOpen fuel depth .memberValue rest
        readMembers endsOpen fuel depth false (setMember name v members) rest
      else if b = code '[' || b = code '\x7b' then .error .nameNotString
      else
        let _ ← takeWord rest
        .error .nameNotString

end

/-- Read a text that is one value. -/
def parse (endsOpen : Bool) (text : Bytes) : Except Fault JsonValue := do
  let (v, rest) ← readValue endsOpen (2 * text.length + 2) 0 .value text
  if (skipSpace rest).isEmpty then return v else .error .trailing

end Json

end Stencil
