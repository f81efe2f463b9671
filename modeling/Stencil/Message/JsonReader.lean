import Stencil.Message.JsonForm
import Stencil.Message.JsonToken
import Stencil.Message.TextReader
import Stencil.Time.Reading

/-!
# Reading messages in JSON form

Fields are found by their names in JSON text or by their own names. Numbers may be
given as strings, and a member that is null counts as not given.
-/

namespace Stencil

/-- The fault of a token that does not belong where it stands. -/
def JsonToken.unexpected {α : Type} (t : JsonToken) : Except TextFault α :=
  .error (.malformed t.offset (Bytes.ofString "unexpected token " ++ t.raw))

/-- The fault of a token that does not fit the message. -/
def JsonToken.misfit {α : Type} (t : JsonToken) (msg : Bytes) : Except TextFault α :=
  .error (.misfit t.offset msg)

/-- The field a name in JSON text stands for. -/
def MessageDesc.jsonField? (desc : MessageDesc) (name : Bytes) : Option FieldDesc :=
  (desc.fields.find? (·.jsonName = name)).or (desc.textField? name)

/-! ### Basic values -/

/-- The integer a number stands for, if it is whole. -/
def wholeNumber? (raw : Bytes) : Option Int := do
  let x ← Decimal.readFraction? (raw.map fun b => Char.ofNat b.toNat)
  let n ←
    if x.digits = 0 then some 0
    else if 0 ≤ x.exp then if 40 < x.exp then none else some (x.digits * Nat.pow 10 x.exp.toNat)
    else
      let d := Nat.pow 10 (min (-x.exp).toNat (raw.length + 1))
      if x.digits % d = 0 then some (x.digits / d) else none
  return if x.negative then -(n : Int) else n

/-- The number a token stands for: a number, or a string that holds one. -/
def numberText? (t : JsonToken) : Option Bytes :=
  match t.part with
  | .number => some t.raw
  | .string s =>
    match s with
    | [] => none
    | b :: _ =>
      if isBlank (Char.ofNat b.toNat) || s.getLast?.any (fun c => isBlank (Char.ofNat c.toNat)) then
        none
      else
        match takeJsonToken (.ofBytes s) with
        | .ok (u, _) => if u.part = .number then some u.raw else none
        | .error _ => none
  | _ => none

/-- The float a token stands for. -/
def floatOfJson? (single : Bool) (t : JsonToken) : Option Float :=
  let special : Option Float := match t.part with
    | .string s =>
      if s = Bytes.ofString "NaN" then some Decimal.notANumber
      else if s = Bytes.ofString "Infinity" then some (Decimal.infinity false)
      else if s = Bytes.ofString "-Infinity" then some (Decimal.infinity true)
      else none
    | _ => none
  special.or do
    let raw ← numberText? t
    let x ← Decimal.readFraction? (raw.map fun b => Char.ofNat b.toNat)
    let format := if single then Decimal.single else Decimal.double
    let (m, e) ← Decimal.ofScientific format x.digits x.exp
    return Decimal.floatOf x.negative m e

/-- The basic value of a field that a token stands for. -/
def scalarOfJson? (p : Pool) (k : FieldKind) (t : JsonToken) : Option Scalar :=
  let int? (k : IntKind) : Option Scalar := do
    let n ← wholeNumber? (← numberText? t)
    if k.holds n then some (.int n) else none
  match k, t.part with
  | .bool, .bool b => some (.bool b)
  | .float, _ => (floatOfJson? true t).map .float
  | .double, _ => (floatOfJson? false t).map .float
  | .string, .string s => some (.string s)
  | .bytes, .string s => (Base64.decode? s).map .string
  | .enum name, .string s => (((p.enum? name).getD default).values.lookup s).map .int
  | .enum _, .number => int? .int32
  | k, _ =>
    match k.intKind? with
    | some i => int? i
    | none => none

/-- Read a basic value of a field. -/
def readJsonScalar (p : Pool) (f : FieldDesc) (c : JsonCursor) :
    Except TextFault (FieldTree × JsonCursor) := do
  let (t, c) ← nextJsonToken c
  match scalarOfJson? p f.kind t with
  | some x => return (.scalar x, c)
  | none =>
    t.misfit (Bytes.ofString "invalid value for " ++ f.kind.label ++ " type: " ++ t.raw)

/-- The key of a map that the name of a member stands for. -/
def keyOfJson? (k : FieldKind) (name : Bytes) : Option Scalar :=
  match k with
  | .string => some (.string name)
  | .bool =>
    if name = Bytes.ofString "true" then some (.bool true)
    else if name = Bytes.ofString "false" then some (.bool false)
    else none
  | k => do
    let i ← k.intKind?
    let cs := name.map fun b => Char.ofNat b.toNat
    let ds := if i.isSigned && (cs.head? = some '-' || cs.head? = some '+') then cs.drop 1 else cs
    if ds.isEmpty || !ds.all Decimal.isDigit then none
    else
      let n : Int := Decimal.digitsValue ds
      let n := if cs.head? = some '-' then -n else n
      if i.holds n then some (.int n) else none

/-! ### Durations and timestamps -/

/-- Read a duration: seconds and nanoseconds. -/
def durationOfText? (s : Bytes) : Option (Int × Int) := do
  guard (2 ≤ s.length && s.getLast? = some 115)
  let b := s.dropLast
  let negative := b.head? = some 45
  let b := if negative || b.head? = some 43 then b.drop 1 else b
  guard (!b.isEmpty)
  let (whole, b) :=
    if b.head? = some 48 then ([], b.drop 1) else (b.takeWhile isDigitByte, b.dropWhile isDigitByte)
  let places ← match b with
    | [] => some []
    | 46 :: ds => if ds.all isDigitByte && ds.length ≤ 9 then some ds else none
    | _ => none
  let secs : Int := valueIn 10 whole
  guard (secs < Nat.pow 2 63)
  let nanos : Int := valueIn 10 (places ++ List.replicate (9 - places.length) 48)
  return if negative then (-secs, -nanos) else (secs, nanos)

/-- A message with seconds and nanoseconds. -/
def secondsTree (secs nanos : Int) : MessageTree :=
  MessageTree.empty.set 1 (.scalar (.int secs)) |>.set 2 (.scalar (.int nanos))

/-- The duration or timestamp a token stands for. -/
def readTimed (name : Bytes) (t : JsonToken) : Except TextFault MessageTree :=
  let invalid : Except TextFault MessageTree :=
    t.misfit (Bytes.ofString "invalid " ++ name ++ " value " ++ t.raw)
  let outOfRange : Except TextFault MessageTree :=
    t.misfit (name ++ " value out of range: " ++ t.raw)
  match t.part with
  | .string s =>
    if name = durationName then
      match durationOfText? s with
      | none => invalid
      | some (secs, nanos) =>
        if maxDurationSeconds < secs.natAbs then outOfRange else .ok (secondsTree secs nanos)
    else
      match readMoment "2006-01-02T15:04:05.999999999Z07:00" s 0 with
      | .error _ => invalid
      | .ok m =>
        if m.sec < minTimestampSeconds || maxTimestampSeconds < m.sec then outOfRange
        else .ok (secondsTree m.sec m.nsec)
  | _ => t.unexpected

/-! ### Messages -/

/-- Whether a field may be given once more. -/
def SeenFields.admitJson (seen : SeenFields) (f : FieldDesc) (t : JsonToken) :
    Except TextFault SeenFields :=
  if seen.numbers.contains f.number then t.misfit (Bytes.ofString "duplicate field " ++ t.raw)
  else .ok { seen with numbers := f.number :: seen.numbers }

/-- Whether a field of a group may be given. -/
def SeenFields.admitGroup (seen : SeenFields) (desc : MessageDesc) (f : FieldDesc) (t : JsonToken) :
    Except TextFault SeenFields :=
  match f.oneof with
  | none => .ok seen
  | some g =>
    if seen.groups.contains g then
      t.misfit (Bytes.ofString "error parsing " ++ t.raw ++ ", oneof " ++ desc.fullName ++ "." ++ g ++
        " is already set")
    else .ok { seen with groups := g :: seen.groups }

/-- The cursor after a null, if that comes next. -/
def skipNull? (c : JsonCursor) : Option JsonCursor :=
  match nextJsonToken c with
  | .ok (t, after) => if t.part = .null then some after else none
  | .error _ => none

mutual

/-- Read a message. -/
def readJsonMessage (p : Pool) : (fuel : Nat) → (name : Bytes) → JsonCursor →
    Except TextFault (MessageTree × JsonCursor)
  | 0, _, _ => .error .cut
  | fuel + 1, name, c => do
    let (t, c) ← nextJsonToken c
    if name = durationName || name = timestampName then return (← readTimed name t, c)
    else if t.part ≠ .objectOpen then t.unexpected
    else
      let desc := (p.message? name).getD { fullName := name, fields := [] }
      readJsonFields p fuel desc .empty {} c

/-- Read the fields of a message up to its bracket. -/
def readJsonFields (p : Pool) : (fuel : Nat) → (desc : MessageDesc) → MessageTree → SeenFields →
    JsonCursor → Except TextFault (MessageTree × JsonCursor)
  | 0, _, _, _, _ => .error .cut
  | fuel + 1, desc, m, seen, c => do
    let (t, c) ← nextJsonToken c
    match t.part with
    | .objectClose => return (m, c)
    | .name name =>
      let isExtension := name.startsWith "[" && name.endsWith "]"
      match if isExtension then none else desc.jsonField? name with
      | none => t.misfit (Bytes.ofString "unknown field " ++ t.raw)
      | some f =>
        let seen ← seen.admitJson f t
        match skipNull? c with
        | some c => readJsonFields p fuel desc m seen c
        | none =>
          if p.isMap f then
            let (u, c) ← nextJsonToken c
            if u.part ≠ .objectOpen then u.unexpected
            else
              let (m, c) ← readJsonEntries p fuel f m c
              readJsonFields p fuel desc m seen c
          else if f.cardinality = .repeated then
            let (u, c) ← nextJsonToken c
            if u.part ≠ .arrayOpen then u.unexpected
            else
              let (m, c) ← readJsonItems p fuel f m c
              readJsonFields p fuel desc m seen c
          else
            let seen ← seen.admitGroup desc f t
            let (x, c) ← readJsonValue p fuel f c
            readJsonFields p fuel desc (m.put desc f x) seen c
    | _ => t.unexpected

/-- Read a value of a field. -/
def readJsonValue (p : Pool) : (fuel : Nat) → FieldDesc → JsonCursor →
    Except TextFault (FieldTree × JsonCursor)
  | 0, _, _ => .error .cut
  | fuel + 1, f, c =>
    match f.kind.messageName? with
    | none => readJsonScalar p f c
    | some name => do
      let (m, c) ← readJsonMessage p fuel name c
      return (.message m, c)

/-- Read the elements of a list up to its bracket. -/
def readJsonItems (p : Pool) : (fuel : Nat) → FieldDesc → MessageTree → JsonCursor →
    Except TextFault (MessageTree × JsonCursor)
  | 0, _, _, _ => .error .cut
  | fuel + 1, f, m, c => do
    let (t, after) ← nextJsonToken c
    match t.part with
    | .arrayClose => return (m, after)
    | _ =>
      let (x, c) ← readJsonValue p fuel f c
      readJsonItems p fuel f (m.append f.number x) c

/-- Read the entries of a map up to its bracket. -/
def readJsonEntries (p : Pool) : (fuel : Nat) → FieldDesc → MessageTree → JsonCursor →
    Except TextFault (MessageTree × JsonCursor)
  | 0, _, _, _ => .error .cut
  | fuel + 1, f, m, c => do
    let entry := (p.message? (f.kind.messageName?.getD [])).getD default
    let key := (entry.fieldNumber? 1).getD default
    let value := (entry.fieldNumber? 2).getD default
    let (t, c) ← nextJsonToken c
    match t.part with
    | .objectClose => return (m, c)
    | .name name =>
      match keyOfJson? key.kind name with
      | none => t.misfit (Bytes.ofString "invalid value for " ++ key.kind.label ++ " key: " ++ t.raw)
      | some k =>
        if (m.entries f.number).any fun (j, _) => j.same k then
          t.misfit (Bytes.ofString "duplicate map key " ++ t.raw)
        else
          let (x, c) ← readJsonValue p fuel value c
          let m := m.set f.number (.map (setTreeEntry k x (m.entries f.number)))
          readJsonEntries p fuel f m c
    | _ => t.unexpected

end

/-- Read a message in JSON form. -/
def readJson (p : Pool) (name text : Bytes) : Except TextFault MessageTree := do
  let (m, c) ← readJsonMessage p (2 * text.length + 4) name (.ofBytes text)
  let (t, _) ← nextJsonToken c
  if t.part ≠ .finish then t.unexpected
  else
    match checkComplete p name m with
    | .ok _ => return m
    | .error e => .error (.content e)

end Stencil
