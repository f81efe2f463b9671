import Stencil.Message.TextToken

/-!
# Reading messages in text form

Fields are found by their names. A field that is not repeated may be given once, and
of a group of which at most one is set only one may be given.
-/

namespace Stencil

/-- The fault of a token that does not belong where it stands. -/
def TextToken.unexpected {α : Type} (t : TextToken) : Except TextFault α :=
  .error (.malformed t.offset (Bytes.ofString "unexpected token: " ++ t.raw))

/-- The fault of a token that does not fit the message. -/
def TextToken.misfit {α : Type} (t : TextToken) (msg : Bytes) : Except TextFault α :=
  .error (.misfit t.offset msg)

/-- The name of a kind of field in messages. -/
def FieldKind.label : FieldKind → Bytes
  | .enum _ => "enum"
  | .message _ => "message"
  | .group _ => "group"
  | k => k.text

/-- The field a name in text form stands for. -/
def MessageDesc.textField? (desc : MessageDesc) (name : Bytes) : Option FieldDesc :=
  match desc.field? name with
  | some f =>
    match f.kind with
    | .group _ => if f.textName = name then some f else none
    | _ => some f
  | none =>
    match desc.field? name.lower with
    | some f =>
      match f.kind with
      | .group _ => if f.textName = name then some f else none
      | _ => none
    | none => none

/-- The float a literal or number stands for; one out of range is infinite. -/
def floatOfText? (raw : Bytes) (s : TextScalar) : Option Float :=
  match s with
  | .literal =>
    let name := raw.lower
    if name = Bytes.ofString "nan" then some Decimal.notANumber
    else if name = Bytes.ofString "inf" || name = Bytes.ofString "infinity" then
      some (Decimal.infinity false)
    else if name = Bytes.ofString "-inf" || name = Bytes.ofString "-infinity" then
      some (Decimal.infinity true)
    else none
  | .number negative _ text =>
    match Decimal.readFloat (text.map fun b => Char.ofNat b.toNat) with
    | .ok x => some x
    | .error .outOfRange => some (Decimal.infinity negative)
    | .error .malformed => none
  | .string _ => none

/-- The int a number stands for, if a type of integers holds it. -/
def intOfText? (k : IntKind) : TextScalar → Option Int
  | .number negative (some n) _ =>
    let v : Int := if negative then -(n : Int) else n
    if k.holds v && (k.isSigned || !negative) then some v else none
  | _ => none

/-- The truth value a literal or number stands for. -/
def boolOfText? (raw : Bytes) : TextScalar → Option Bool
  | .literal =>
    if ["t", "true", "True"].any fun s => Bytes.ofString s = raw then some true
    else if ["f", "false", "False"].any fun s => Bytes.ofString s = raw then some false
    else none
  | .number false (some 0) _ => some false
  | .number false (some 1) _ => some true
  | _ => none

/-- The basic value of a field that a token stands for. -/
def scalarOfText? (p : Pool) (k : FieldKind) (raw : Bytes) (s : TextScalar) : Option Scalar :=
  match k with
  | .bool => (boolOfText? raw s).map .bool
  | .float => (floatOfText? raw s).map fun x => .float x.toFloat32.toFloat
  | .double => (floatOfText? raw s).map .float
  | .string | .bytes =>
    match s with
    | .string b => some (.string b)
    | _ => none
  | .enum name =>
    let named := match s with
      | .literal => ((p.enum? name).getD default).values.lookup raw
      | _ => none
    (named.or (intOfText? .int32 s)).map .int
  | k =>
    match k.intKind? with
    | some i => (intOfText? i s).map .int
    | none => none

/-- Read a basic value of a field. -/
def readTextScalar (p : Pool) (checks : Bool) (f : FieldDesc) (c : TextCursor) :
    Except TextFault (FieldTree × TextCursor) := do
  let (t, c) ← nextToken c
  match t.part with
  | .scalar s =>
    match scalarOfText? p f.kind t.raw s with
    | some x =>
      match textFault? checks [] f x with
      | some _ => t.misfit "contains invalid UTF-8"
      | none => return (.scalar x, c)
    | none =>
      t.misfit (Bytes.ofString "invalid value for " ++ f.kind.label ++ " type: " ++ t.raw)
  | _ => t.unexpected

/-- What was seen of a message: the numbers of its fields and its groups. -/
structure SeenFields where
  numbers : List Nat := []
  groups : List Bytes := []

/-- Whether a field that is not repeated may be given. -/
def SeenFields.admit (seen : SeenFields) (desc : MessageDesc) (f : FieldDesc) (t : TextToken) :
    Except TextFault SeenFields :=
  match f.oneof with
  | some g =>
    if seen.groups.contains g then
      t.misfit (Bytes.ofString "error parsing " ++ t.raw.quote ++ ", oneof " ++ desc.fullName ++ "." ++
        g ++ " is already set")
    else .ok { numbers := f.number :: seen.numbers, groups := g :: seen.groups }
  | none =>
    if seen.numbers.contains f.number then
      t.misfit (Bytes.ofString "non-repeated field " ++ t.raw.quote ++ " is repeated")
    else .ok { seen with numbers := f.number :: seen.numbers }

/-- The fault of a name that no field of the message has. -/
def unknownField {α : Type} (desc : MessageDesc) (t : TextToken) : Except TextFault α :=
  match t.part with
  | .name .number _ =>
    let n := valueIn 10 t.raw
    if n = 0 || Nat.pow 2 29 ≤ n then
      t.misfit (Bytes.ofString "invalid field number: " ++ Bytes.ofNat n)
    else if (desc.fieldNumber? n).isSome then
      t.misfit (Bytes.ofString "cannot specify field by number: " ++ t.raw)
    else t.misfit (Bytes.ofString "unknown field: " ++ t.raw)
  | _ => t.misfit (Bytes.ofString "unknown field: " ++ t.raw)

/-- The key and the value of an entry of a map, as far as they were given. -/
structure PartialEntry where
  key : Option Scalar := none
  value : Option FieldTree := none

mutual

/-- Read the fields of a message up to its bracket, if it has one, or the end. -/
def readTextFields (p : Pool) : (fuel : Nat) → (desc : MessageDesc) → (bracketed : Bool) →
    MessageTree → SeenFields → TextCursor → Except TextFault (MessageTree × TextCursor)
  | 0, _, _, _, _, _ => .error .cut
  | fuel + 1, desc, bracketed, m, seen, c => do
    let (t, c) ← nextToken c
    match t.part with
    | .finish => if bracketed then .error .cut else return (m, c)
    | .close => if bracketed then return (m, c) else t.unexpected
    | .name form separated =>
      let known := match form with
        | .ident => desc.textField? t.raw
        | _ => none
      match known with
      | none => unknownField desc t
      | some f =>
        if p.isMap f then
          let (m, c) ← readTextMap p fuel f m c
          readTextFields p fuel desc bracketed m seen c
        else if !separated && f.kind.messageName?.isNone then
          .error (.malformed t.offset "missing field separator :")
        else if f.cardinality = .repeated then
          let (m, c) ← readTextList p fuel desc f m c
          readTextFields p fuel desc bracketed m seen c
        else
          let seen ← seen.admit desc f t
          let (x, c) ← readTextValue p fuel desc f c
          readTextFields p fuel desc bracketed (m.put desc f x) seen c
    | _ => t.unexpected

/-- Read a value of a field: a basic value or a message in brackets. -/
def readTextValue (p : Pool) : (fuel : Nat) → (desc : MessageDesc) → FieldDesc → TextCursor →
    Except TextFault (FieldTree × TextCursor)
  | 0, _, _, _ => .error .cut
  | fuel + 1, desc, f, c =>
    match f.kind.messageName? with
    | none => readTextScalar p (p.checksText desc.fullName) f c
    | some name => do
      let (t, c) ← nextToken c
      match t.part with
      | .open_ =>
        let inner := (p.message? name).getD { fullName := name, fields := [] }
        let (m, c) ← readTextFields p fuel inner true .empty {} c
        return (.message m, c)
      | _ => t.unexpected

/-- Read a value of a repeated field, or several in square brackets. -/
def readTextList (p : Pool) : (fuel : Nat) → (desc : MessageDesc) → FieldDesc → MessageTree →
    TextCursor → Except TextFault (MessageTree × TextCursor)
  | 0, _, _, _, _ => .error .cut
  | fuel + 1, desc, f, m, c => do
    let (t, after) ← nextToken c
    match t.part with
    | .listOpen => readTextItems p fuel desc f m after
    | _ =>
      let (x, c) ← readTextValue p fuel desc f c
      return (m.append f.number x, c)

/-- Read the values of a repeated field up to the square bracket. -/
def readTextItems (p : Pool) : (fuel : Nat) → (desc : MessageDesc) → FieldDesc → MessageTree →
    TextCursor → Except TextFault (MessageTree × TextCursor)
  | 0, _, _, _, _ => .error .cut
  | fuel + 1, desc, f, m, c => do
    let (t, after) ← nextToken c
    match t.part with
    | .listClose => return (m, after)
    | _ =>
      let (x, c) ← readTextValue p fuel desc f c
      readTextItems p fuel desc f (m.append f.number x) c

/-- Read an entry of a map, or several in square brackets. -/
def readTextMap (p : Pool) : (fuel : Nat) → FieldDesc → MessageTree → TextCursor →
    Except TextFault (MessageTree × TextCursor)
  | 0, _, _, _ => .error .cut
  | fuel + 1, f, m, c => do
    let (t, c) ← nextToken c
    match t.part with
    | .open_ => readTextEntry p fuel f {} m c
    | .listOpen => readTextEntries p fuel f m c
    | _ => t.unexpected

/-- Read the entries of a map up to the square bracket. -/
def readTextEntries (p : Pool) : (fuel : Nat) → FieldDesc → MessageTree → TextCursor →
    Except TextFault (MessageTree × TextCursor)
  | 0, _, _, _ => .error .cut
  | fuel + 1, f, m, c => do
    let (t, c) ← nextToken c
    match t.part with
    | .listClose => return (m, c)
    | .open_ =>
      let (m, c) ← readTextEntry p fuel f {} m c
      readTextEntries p fuel f m c
    | _ => t.unexpected

/-- Read the rest of an entry of a map up to its bracket. -/
def readTextEntry (p : Pool) : (fuel : Nat) → FieldDesc → PartialEntry → MessageTree →
    TextCursor → Except TextFault (MessageTree × TextCursor)
  | 0, _, _, _, _ => .error .cut
  | fuel + 1, f, e, m, c => do
    let entry := (p.message? (f.kind.messageName?.getD [])).getD default
    let key := (entry.fieldNumber? 1).getD default
    let value := (entry.fieldNumber? 2).getD default
    let (t, c) ← nextToken c
    let noSeparator : Except TextFault (MessageTree × TextCursor) :=
      .error (.malformed t.offset "missing field separator :")
    match t.part with
    | .close =>
      let k := e.key.getD (p.default key)
      let x := e.value.getD <| match value.kind.messageName? with
        | some _ => .message .empty
        | none => .scalar (p.default value)
      return (m.set f.number (.map (setTreeEntry k x (m.entries f.number))), c)
    | .name .ident separated =>
      if t.raw = Bytes.ofString "key" then
        if !separated then noSeparator
        else if e.key.isSome then t.misfit "map entry \"key\" cannot be repeated"
        else
          let (x, c) ← readTextScalar p (p.checksText entry.fullName) key c
          match x with
          | .scalar s => readTextEntry p fuel f { e with key := some s } m c
          | _ => t.unexpected
      else if t.raw = Bytes.ofString "value" then
        if !separated && value.kind.messageName?.isNone then noSeparator
        else if e.value.isSome then t.misfit "map entry \"value\" cannot be repeated"
        else
          let (x, c) ← readTextValue p fuel entry value c
          readTextEntry p fuel f { e with value := some x } m c
      else t.misfit (Bytes.ofString "unknown map entry field " ++ t.raw.quote)
    | .name _ _ => t.misfit (Bytes.ofString "unknown map entry field " ++ t.raw.quote)
    | _ => t.unexpected

end

/-- Read a message in text form. -/
def readText (p : Pool) (name text : Bytes) : Except TextFault MessageTree := do
  let desc := (p.message? name).getD { fullName := name, fields := [] }
  let (m, _) ← readTextFields p (2 * text.length + 4) desc false .empty {} (.ofBytes text)
  match checkComplete p name m with
  | .ok _ => return m
  | .error e => .error (.content e)

end Stencil
