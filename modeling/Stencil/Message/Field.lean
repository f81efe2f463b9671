import Stencil.Host.Convert

/-!
# The fields of messages

The fields of a message are its members. Basic fields convert to and from the
basic values of the language; a field that is a message refers to that message; a
repeated field is a sequence that shares the elements of the field; a map with
strings for keys reads as a copy in an object.

Reading a repeated field of a message creates its list. When such a field is
cleared, the sequences read from it earlier keep the list if the message is of a
linked type, and lose it otherwise.
-/

namespace Stencil

namespace Job

/-- A new message without any fields set. -/
def newMessage (t : MessageType) : Job Nat := do
  let s ← get
  set { s with messages := s.messages.push { type := t } }
  return s.messages.size

/-- The content of a message. -/
def message (id : Nat) : Job MessageCell := do return (← get).messages.getD id default

/-- Change the content of a message. -/
def modifyMessage (id : Nat) (f : MessageCell → MessageCell) : Job Unit :=
  Job.modify fun s => { s with messages := s.messages.modify id f }

/-- A new list of elements of a repeated field. -/
def newFieldList (items : Array FieldValue := #[]) : Job Nat := do
  let s ← get
  set { s with fieldLists := s.fieldLists.push items }
  return s.fieldLists.size

/-- Change the elements of a repeated field. -/
def modifyFieldList (id : Nat) (f : Array FieldValue → Array FieldValue) : Job Unit :=
  Job.modify fun s => { s with fieldLists := s.fieldLists.modify id f }

end Job

/-- Replace the value of a number, or add it. -/
def setNumber (number : Nat) (v : FieldValue) (fields : List (Nat × FieldValue)) :
    List (Nat × FieldValue) :=
  (number, v) :: fields.filter (·.1 ≠ number)

/-- The message type of a value, if it is a message. -/
def Value.messageType? (s : Heap) : Value → Option MessageType
  | .message id => some (s.messages.getD id default).type
  | .noMessage t => some t
  | _ => none

/-- Whether a field of a message is set. -/
def hasField (s : Heap) (m : MessageCell) (f : FieldDesc) : Bool :=
  match m.fields.lookup f.number with
  | some v => s.isPopulated f v
  | none => false

/-- The list of a repeated field, created if there is none. -/
def mutableList (id : Nat) (f : FieldDesc) : Job Nat := do
  match (← Job.message id).fields.lookup f.number with
  | some (.list l) => return l
  | _ =>
    let l ← Job.newFieldList
    Job.modifyMessage id fun m => { m with fields := setNumber f.number (.list l) m.fields }
    return l

/-- Clear a field. -/
def clearField (id : Nat) (f : FieldDesc) : Job Unit := do
  let s ← get
  let m ← Job.message id
  match m.fields.lookup f.number, (s.pool m.type).linked with
  | some (.list l), true => Job.modifyFieldList l fun _ => #[]
  | _, _ =>
    Job.modifyMessage id fun m => { m with fields := m.fields.filter (·.1 ≠ f.number) }

/-- The other fields of the group of which at most one is set. -/
def rivals (m : MessageDesc) (f : FieldDesc) : List Nat :=
  match f.oneof with
  | none => []
  | some group =>
    (m.fields.filter fun g => g.oneof = some group && g.number ≠ f.number).map (·.number)

/-- Set a field, clearing the others of its group. -/
def putField (id : Nat) (f : FieldDesc) (v : FieldValue) : Job Unit := do
  let m ← Job.message id
  let rivals := rivals ((← get).describe m.type) f
  Job.modifyMessage id fun m =>
    { m with fields := setNumber f.number v (m.fields.filter fun (n, _) => !rivals.contains n) }

/-- The entries of a map in an object, in the order of the keys. -/
def mapObject (f : FieldDesc) (key : FieldDesc) (entries : List (Scalar × FieldValue)) :
    Job Value := do
  match key.kind with
  | .string =>
    let named := entries.filterMap fun (k, x) => match k with
      | .string k => some (k, x.value)
      | _ => none
    return .object (← Job.newObject (named.mergeSort fun a b => Bytes.le a.1 b.1))
  | _ => Job.error (Bytes.ofString "map field " ++ f.name ++ " has non-string keys")

/-- The description of a field of a message. -/
def fieldOf (t : MessageType) (name : Bytes) : Job FieldDesc := do
  match ((← get).describe t).field? name with
  | some f => return f
  | none => throw (.missing (t.name ++ " has no field " ++ name))

/-- What a field that is not set reads as. A message is a new one that belongs to no
other. -/
def unsetField (t : MessageType) (f : FieldDesc) : Job Value := do
  match f.kind.messageName? with
  | some name => return .message (← Job.newMessage ⟨t.pool, name⟩)
  | none => return (((← get).pool t).default f).value

/-- Read a field of a message. -/
def getMessageField (v : Value) (name : Bytes) : Job Value := do
  let s ← get
  match v with
  | .noMessage t =>
    let f ← fieldOf t name
    let pool := s.pool t
    if pool.isList f then return .repeated t f.number none (← Job.freshStamp)
    match pool.entryFields? f with
    | some (key, _) => mapObject f key []
    | none => unsetField t f
  | .message id =>
    let m ← Job.message id
    let f ← fieldOf m.type name
    let pool := s.pool m.type
    if pool.isList f then
      let l ← mutableList id f
      return .repeated m.type f.number (some l) (← Job.freshStamp)
    match pool.entryFields? f with
    | some (key, _) =>
      match m.fields.lookup f.number with
      | some (.map entries) => mapObject f key entries
      | _ => mapObject f key []
    | none =>
      match m.fields.lookup f.number with
      | some x => if s.isPopulated f x then return x.value else unsetField m.type f
      | none => unsetField m.type f
  | _ => return .null

/-- The failure of a value that does not fit a field. -/
def misfit [Host] (f : FieldDesc) (v : Value) : Job FieldValue := do
  Job.error (Bytes.ofString "got " ++ v.typeName (← get) ++ ", want " ++ f.kind.text)

/-- The single-precision number nearest to an int. -/
def singleOfInt (n : Int) : Float :=
  match Decimal.roundQuotient Decimal.single n.natAbs 1 with
  | some (m, e) =>
    let whole : Int := if 0 ≤ e then m * Nat.pow 2 e.toNat else m / Nat.pow 2 (-e).toNat
    Decimal.floatOfInt (if n < 0 then -whole else whole)
  | none => Decimal.infinity (n < 0)

/-- The value of an enumeration with a number of 32 bits. -/
def enumByNumber? (e : EnumDesc) (n : Int) : Option Int :=
  (e.values.find? fun (_, m) => m = n.bmod (Nat.pow 2 32)).map (·.2)

/-- Convert a basic value for a field. -/
def toScalar [Host] (pool : Pool) (f : FieldDesc) (v : Value) : Job FieldValue := do
  match f.kind, v with
  | .bool, .bool b => return .scalar (.bool b)
  | .string, .string s => return .scalar (.string s)
  | .bytes, .string s => return .scalar (.string s)
  | .bytes, .host t d =>
    if t == .bytes then
      let bytes := (d.items (← get)).map fun x => match x with
        | .int n => n.toNat.toUInt8
        | _ => 0
      return .scalar (.string bytes)
    else misfit f v
  | .double, .float x => return .scalar (.float x)
  | .double, .int n => return .scalar (.float (intToFloat n))
  | .float, .float x => return .scalar (.float x.toFloat32.toFloat)
  | .float, .int n => return .scalar (.float (singleOfInt n.toInt))
  | .enum name, .int n =>
    let e := (pool.enum? name).getD { fullName := name, values := [] }
    match enumByNumber? e n.toInt with
    | some m => return .scalar (.int m)
    | none =>
      Job.error (Bytes.ofString "invalid number " ++ Bytes.ofInt n.toInt ++ " for " ++ e.fullName)
  | .enum name, .string s =>
    let e := (pool.enum? name).getD { fullName := name, values := [] }
    match e.values.lookup s with
    | some m => return .scalar (.int m)
    | none => Job.error (Bytes.ofString "invalid name " ++ s.quote ++ " for " ++ e.fullName)
  | kind, .int n =>
    match kind.intKind? with
    | some k =>
      if k.holds n.toInt then return .scalar (.int n.toInt)
      else
        Job.error (Bytes.ofString "invalid " ++ kind.text ++ ": " ++ Bytes.ofInt n.toInt)
    | none => misfit f v
  | _, v => misfit f v

/-- Set the elements of a list one after the other; `i` counts those done. -/
def fillList (convert : Value → Job FieldValue) (next : Job (Option Value)) (l : Nat) :
    Nat → Nat → Job Unit
  | 0, _ => throw .exhausted
  | fuel + 1, i => do
    match ← next with
    | none => return
    | some x =>
      let y ← Job.explaining (Bytes.ofString "index " ++ Bytes.ofNat i ++ ": ") (convert x)
      Job.modifyFieldList l (·.push y)
      fillList convert next l fuel (i + 1)

/-- Replace the entry of a key, or add one. -/
def setMapEntry (key : Scalar) (x : FieldValue) :
    List (Scalar × FieldValue) → List (Scalar × FieldValue)
  | [] => [(key, x)]
  | (k, y) :: rest => if k.same key then (k, x) :: rest else (k, y) :: setMapEntry key x rest

/-- Set the entries of a map one after the other. -/
def fillMap (convert : Value → Job FieldValue) (id : Nat) (f : FieldDesc) :
    List (Bytes × Value) → Job Unit
  | [] => return
  | (k, x) :: rest => do
    let y ← Job.explaining
      (Bytes.ofString "in map field " ++ f.name ++ ", at key " ++ k ++ ": ") (convert x)
    Job.modifyMessage id fun m =>
      let entries := match m.fields.lookup f.number with
        | some (.map es) => es
        | _ => []
      { m with fields := setNumber f.number (.map (setMapEntry (.string k) y entries)) m.fields }
    fillMap convert id f rest

mutual

/-- Convert a value for a field or one of its elements. Messages made from objects may
be nested up to `depth` deep. -/
def toField [Host] (fuel : Nat) :
    (depth : Nat) → MessageType → FieldDesc → Value → Job FieldValue
  | 0, _, _, _ => throw .exhausted
  | depth + 1, owner, f, v => do
    let s ← get
    match f.kind.messageName? with
    | none => toScalar (s.pool owner) f v
    | some name =>
      match v with
      | .object o =>
        let id ← Job.newMessage ⟨owner.pool, name⟩
        setFields fuel depth id (s.object o)
        return .message id
      | v =>
        match v.messageType? s with
        | none => misfit f v
        | some t =>
          if t.name ≠ name then Job.error (Bytes.ofString "got " ++ t.name ++ ", want " ++ name)
          else
            match v with
            | .message id => return .message id
            | _ => return .message (← Job.newMessage t)

/-- Set several fields of a message. -/
def setFields [Host] (fuel : Nat) :
    (depth : Nat) → Nat → List (Bytes × Value) → Job Unit
  | 0, _, _ => throw .exhausted
  | _ + 1, _, [] => return
  | depth + 1, id, (name, x) :: rest => do
    setMessageField fuel depth (.message id) name x
    setFields fuel depth id rest

/-- Set a field of a message. Null clears it; a repeated field takes the elements of a
sequence, and a map those of an object. -/
def setMessageField [Host] (fuel : Nat) :
    (depth : Nat) → Value → Bytes → Value → Job Unit
  | 0, _, _, _ => throw .exhausted
  | depth + 1, target, name, v => do
    let s ← get
    match target with
    | .noMessage t =>
      let f ← fieldOf t name
      Job.error (Bytes.ofString "cannot set field " ++ f.name ++ " of read-only " ++ t.name ++
        " message")
    | .message id =>
      let m ← Job.message id
      let f ← fieldOf m.type name
      let pool := s.pool m.type
      if v.isNull then clearField id f
      else if pool.isList f then
        match ← Job.attempt (iterate v) with
        | .error _ =>
          Job.error (Bytes.ofString "got " ++ v.typeName s ++ " for field " ++ name ++
            ", want iterable")
        | .ok cursor =>
          let l ← mutableList id f
          Job.modifyFieldList l fun _ => #[]
          let outcome ← Job.attempt
            (fillList (toField fuel depth m.type f) (advance fuel cursor) l fuel 0)
          finish cursor
          match outcome with
          | .ok _ => return
          | .error e => throw e
      else
        match pool.entryFields? f, v with
        | some (key, value), v =>
          match key.kind, v with
          | .string, .object o =>
            fillMap (toField fuel depth m.type value) id f (s.object o)
          | _, v =>
            Job.error (Bytes.ofString "got " ++ v.typeName s ++ " for map field " ++ name ++
              ", want object")
        | none, v =>
          let x ← Job.explaining (Bytes.ofString "in field " ++ name ++ ": ")
            (toField fuel depth m.type f v)
          putField id f x
    | _ => return

end

/-- The description of the field a sequence was read from. -/
def repeatedField (owner : MessageType) (number : Nat) : Job FieldDesc := do
  return (((← get).describe owner).fieldNumber? number).getD default

/-- Add an element to a repeated field. -/
def appendRepeated [Host] (fuel : Nat) (v x : Value) : Job Unit := do
  match v with
  | .repeated owner number (some l) _ =>
    let f ← repeatedField owner number
    let y ← Job.explaining "appending to repeated field: " (toField fuel fuel owner f x)
    Job.modifyFieldList l (·.push y)
  | _ => Job.error "cannot append to read-only repeated field"

/-- Replace an element of a repeated field. -/
def setRepeated [Host] (fuel : Nat) (v : Value) (i : Nat) (x : Value) :
    Job Unit := do
  match v with
  | .repeated owner number (some l) _ =>
    let f ← repeatedField owner number
    let y ← Job.explaining "setting element of repeated field: "
      (toField fuel fuel owner f x)
    Job.modifyFieldList l fun a => a.setIfInBounds i y
  | _ => return

mutual

/-- A copy of a message that shares nothing with it. -/
def copyMessage : (depth : Nat) → Nat → Job Nat
  | 0, _ => throw .exhausted
  | depth + 1, id => do
    let m ← Job.message id
    let fresh ← Job.newMessage m.type
    let fields ← copyFields depth m.fields
    Job.modifyMessage fresh fun c => { c with fields, unknown := m.unknown }
    return fresh

/-- Copies of the fields of a message. -/
def copyFields : (depth : Nat) → List (Nat × FieldValue) → Job (List (Nat × FieldValue))
  | 0, _ => throw .exhausted
  | _ + 1, [] => return []
  | depth + 1, (n, x) :: rest => do
    let y ← copyField depth x
    return (n, y) :: (← copyFields depth rest)

/-- A copy of what a field holds. -/
def copyField : (depth : Nat) → FieldValue → Job FieldValue
  | 0, _ => throw .exhausted
  | depth + 1, x => do
    match x with
    | .scalar s => return .scalar s
    | .message id => return .message (← copyMessage depth id)
    | .list l =>
      let items := ((← get).fieldLists.getD l #[]).toList
      return .list (← Job.newFieldList (← copyItems depth items).toArray)
    | .map entries =>
      let values ← copyItems depth (entries.map (·.2))
      return .map ((entries.map (·.1)).zip values)

/-- Copies of several elements. -/
def copyItems : (depth : Nat) → List FieldValue → Job (List FieldValue)
  | 0, _ => throw .exhausted
  | _ + 1, [] => return []
  | depth + 1, x :: rest => do
    let y ← copyField depth x
    return y :: (← copyItems depth rest)

end

/-- The host name of a value's type, as it is given when no value of it was expected. -/
def Value.hostTypeText (s : Heap) (v : Value) : Bytes :=
  ((v.hostType? s).map (·.text)).getD "<nil>"

/-- A new message of a type. A single message of the same type is copied. -/
def constructMessage (fuel : Nat) (t : MessageType) (args : List Value) : Job Value := do
  let s ← get
  match args with
  | [] => return .message (← Job.newMessage t)
  | [x] =>
    if (x.messageType? s).map (·.name) = some t.name then
      match x with
      | .message id => return .message (← copyMessage fuel id)
      | _ => return .message (← Job.newMessage t)
    else
      Job.error (t.name ++ ": cannot construct from " ++ x.hostTypeText s)
  | args =>
    Job.error (t.name ++ ": constructor takes at most 1 argument (" ++
      Bytes.ofNat args.length ++ " given)")

end Stencil
