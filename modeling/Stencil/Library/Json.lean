import Stencil.Host.Interchange
import Stencil.Json.Reader
import Stencil.Machine.Universe
import Stencil.Message.JsonReader

/-!
# Messages and JSON text in programs

Messages are written and read in binary, text and JSON form, and their fields can be
tested and cleared.
-/

namespace Stencil

/-- The message and the field that are the arguments of a function. -/
def unpackField [Host] (fn : Bytes) (args : List Value) : Job (Value × FieldDesc) := do
  let xs ← unpack fn args 2 [.value, .string]
  let x := xs.headD .null
  let name := (xs.getD 1 .null).bytes
  let s ← get
  match x.messageType? s with
  | none => Job.error (fn ++ ": got " ++ x.typeName s ++ ", want proto.Message")
  | some t =>
    match (s.describe t).field? name with
    | some f => return (x, f)
    | none => Job.error (fn ++ ": " ++ t.name ++ " has no field " ++ name)

/-- Write a message in a form. -/
def MessageForm.write (form : MessageForm) (p : Pool) (name : Bytes) (m : MessageTree) :
    Except Bytes Bytes :=
  let complete (b : Bytes) : Except Bytes Bytes :=
    match checkComplete p name m with
    | .ok _ => .ok b
    | .error e => .error e.message
  match form with
  | .wire =>
    match m.encode p name with
    | .ok b => complete b
    | .error e => .error e.message
  | .text =>
    match m.toText p name with
    | .ok b => complete b
    | .error e => .error e.message
  | .json => (m.toJson p name).mapError JsonFormFault.message

/-- Read a message in a form. -/
def MessageForm.read (form : MessageForm) (p : Pool) (name text : Bytes) :
    Except Bytes MessageTree :=
  match form with
  | .wire => (decodeMessage p name text).mapError WireFault.message
  | .text => (readText p name text).mapError (TextFault.message text)
  | .json => (readJson p name text).mapError (TextFault.message text)

/-- Call a function for messages. -/
def MessageFn.run [Host] (fuel : Nat) (f : MessageFn) (args : List Value) : Job Value := do
  let fn := (Native.message f).name
  match f with
  | .has =>
    let (x, field) ← unpackField fn args
    match x with
    | .message id => return .bool (hasField (← get) (← Job.message id) field)
    | _ => return .bool false
  | .clear =>
    let (x, field) ← unpackField fn args
    match x with
    | .message id =>
      clearField id field
      return .null
    | _ => Job.error (fn ++ ": cannot clear field of read-only message")
  | .marshal form =>
    let x ← unpackOne fn args
    let s ← get
    match x.messageType? s with
    | none => Job.error (fn ++ ": got " ++ x.typeName s ++ ", want proto.Message")
    | some t =>
      match form.write (s.pool t) t.name (← messageTree fuel x) with
      | .ok b => return .string b
      | .error msg => Job.error (fn ++ ": " ++ msg)
  | .unmarshal form =>
    let xs ← unpack fn args 2 [.value, .string]
    let x := xs.headD .null
    let s ← get
    let t ← match x, x.messageType? s with
      | .type (.message t), _ => pure t
      | _, some t => pure t
      | x, none => Job.error (fn ++ ": got " ++ x.typeName s ++ ", want message type")
    match form.read (s.pool t) t.name (xs.getD 1 .null).bytes with
    | .ok m => return .message (← plant fuel t m)
    | .error msg => Job.error (fn ++ ": " ++ msg)

/-!
## JSON text in programs

Values are written as JSON text and read from it. Lists are arrays, and objects keep
the order of their fields. What nests too deeply is refused, which also ends the
writing of values that contain themselves.
-/

/-- The greatest number of lists and objects around a value that is written. -/
def maxJsonDepth : Nat := 100

/-- A value in JSON text; `room` more lists and objects may be around its parts. -/
def encodeJson [Host] (s : Heap) (fuel : Nat) : (room : Nat) → Value → Except Bytes Bytes
  | 0, _ => .error "nesting too deep (cycle?)"
  | room + 1, v =>
    match v with
    | .null => .ok "null"
    | .bool b => .ok (if b then "true" else "false")
    | .int n => .ok (Bytes.ofInt n.toInt)
    | .float x =>
      if Decimal.isFinite x then .ok (v.text s)
      else .error (Bytes.ofString "cannot encode non-finite float " ++ Decimal.plain.float x)
    | .string b => .ok (Interchange.string b)
    | v =>
      match v.length? s with
      | some n => do
        let items ← (List.range n).mapM fun i => encodeJson s fuel room (v.item s i)
        return Interchange.array items
      | none =>
        let members (fields : List (Bytes × Value)) : Except Bytes Bytes := do
          let ms ← fields.mapM fun (name, x) => do return (name, ← encodeJson s fuel room x)
          return Interchange.object ms
        match v with
        | .object id => members (s.object id)
        | .module id =>
          let m := s.modules.getD id default
          members (m.names.map fun n => (n, (m.members.lookup n).getD .null))
        | .pattern _ =>
          members (PatternMethod.all.map fun m =>
            (Bytes.ofString m.name, .builtin (.pattern m) v 0))
        | .function .. | .builtin .. =>
          .error (Bytes.ofString "cannot encode " ++ v.typeName s ++ " as JSON")
        | v =>
          match v.messageType? s with
          | some t =>
            let tree := match v with
              | .message id => s.tree? fuel id
              | _ => some .empty
            match tree with
            | some m => (m.toJson (s.pool t) t.name).mapError JsonFormFault.message
            | none => .error "nesting too deep (cycle?)"
          | none =>
            (Interchange.value s 1000 v).mapError fun e =>
              Bytes.ofString "cannot encode " ++ v.typeName s ++ " as JSON: " ++ e.message

mutual

/-- A value read from JSON text. -/
def JsonValue.toValue : JsonValue → Job Value
  | .null => return .null
  | .bool b => return .bool b
  | .int n => return .int n
  | .float x => return .float x
  | .string s => return .string s
  | .array items => do Job.newList (← valuesOf items).toArray
  | .object members => do return .object (← Job.newObject (← fieldsOf members))

/-- The values of the elements of an array. -/
def valuesOf : List JsonValue → Job (List Value)
  | [] => return []
  | x :: rest => do
    let v ← x.toValue
    return v :: (← valuesOf rest)

/-- The values of the members of an object. -/
def fieldsOf : List (Bytes × JsonValue) → Job (List (Bytes × Value))
  | [] => return []
  | (name, x) :: rest => do
    let v ← x.toValue
    return (name, v) :: (← fieldsOf rest)

end

/-- Call a function for JSON text. -/
def JsonFn.run [Host] (fuel : Nat) (f : JsonFn) (args : List Value) : Job Value := do
  let fn := (Native.json f).name
  match f with
  | .encode =>
    let x ← unpackOne fn args
    match encodeJson (← get) fuel (maxJsonDepth + 1) x with
    | .ok b => return .string b
    | .error msg => Job.error (fn ++ ": " ++ msg)
  | .decode =>
    match Json.parse Host.endsOpen (← unpackText fn args) with
    | .ok v => v.toValue
    | .error e => Job.error (fn ++ ": " ++ e.message)
  | .indent =>
    let xs ← unpack fn args 1 [.string, .string]
    match Json.layOut (xs.getD 1 (.string [9])).bytes (xs.headD .null).bytes with
    | .ok b => return .string b
    | .error e => Job.error (fn ++ ": " ++ e.message)

end Stencil
