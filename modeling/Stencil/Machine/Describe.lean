import Stencil.Host.OwnTypes
import Stencil.Value.Basic
import Stencil.Time.Calendar

/-!
# Types, truth and text of values

The name of a value's type, its truth and its written form. The written form of a
list or object that contains itself is cut where it repeats.
-/

namespace Stencil

/-! ### Messages -/

/-- The number a field of an unsigned type shows: 64 bits are read as signed. -/
def signed64 (n : Int) : Int64 := Int64.ofInt n

/-- A basic value of a message as a value of the language. -/
def Scalar.value : Scalar → Value
  | .bool b => .bool b
  | .int n => .int (signed64 n)
  | .float x => .float x
  | .string s => .string s

/-- An element of a message as a value of the language. -/
def FieldValue.value : FieldValue → Value
  | .scalar s => s.value
  | .message id => .message id
  | .list _ | .map _ => .null

/-- Whether a basic value differs from zero. -/
def Scalar.isSet : Scalar → Bool
  | .bool b => b
  | .int n => n ≠ 0
  | .float x => x.toBits ≠ 0
  | .string s => !s.isEmpty

/-- Whether what a field holds counts as set. -/
def Heap.isPopulated (s : Heap) (f : FieldDesc) : FieldValue → Bool
  | .scalar x => f.hasPresence || x.isSet
  | .message _ => true
  | .list id => 0 < (s.fieldLists.getD id #[]).size
  | .map entries => !entries.isEmpty

/-- The fields of a message that are set, in the order of their numbers. -/
def Heap.populated (s : Heap) (m : MessageCell) : List (FieldDesc × FieldValue) :=
  let fields := (s.describe m.type).fields.mergeSort fun f g => f.number ≤ g.number
  fields.filterMap fun f => do
    let v ← m.fields.lookup f.number
    if s.isPopulated f v then some (f, v) else none

/-! ### Sequences -/

/-- The length of a sequence with positions. -/
def Value.length? [Host] (s : Heap) : Value → Option Nat
  | .list id => some (s.list id).size
  | .repeated _ _ items _ => some ((items.map fun id => (s.fieldLists.getD id #[]).size).getD 0)
  | .host t d => if Host.isSequence t then some (Host.length s t d) else none
  | _ => none

/-- The element of such a sequence. -/
def Value.item [Host] (s : Heap) (i : Nat) : Value → Value
  | .list id => (s.list id).getD i .null
  | .repeated _ _ items _ =>
    match items with
    | some id => (((s.fieldLists.getD id #[])[i]?).map FieldValue.value).getD .null
    | none => .null
  | .host t d => Host.item s t d i
  | _ => .null

/-- The length of the data of a sequence or map of the host. -/
def Datum.length (s : Heap) : Datum → Nat
  | .slice _ n => n
  | .array items => items.length
  | .map id => (s.maps.getD id []).length
  | _ => 0

/-! ### Types -/

/-- The type of a method bound to a receiver. -/
def boundType [Host] (s : Heap) (recv : Value) (method : Bytes) : HostType :=
  match (recv.hostType? s).bind (methodOfType? · method) with
  | some m => m.type
  | none => .any

/-- The name of a value's type. -/
def Value.typeName [Host] (s : Heap) : Value → Bytes
  | .null => "null"
  | .bool _ => "bool"
  | .int _ => "int"
  | .float _ => "float"
  | .string _ => "string"
  | .list _ => "list"
  | .object _ => "object"
  | .function .. => "function"
  | .builtin _ recv _ => if recv.isNull then "builtin_function" else "builtin_method"
  | .module _ => "module"
  | .nspace _ => "namespace"
  | .type _ => "type"
  | .message id =>
    Bytes.ofString "proto.Message<" ++ (s.messages.getD id default).type.name ++ ">"
  | .noMessage t => Bytes.ofString "proto.Message<" ++ t.name ++ ">"
  | .repeated owner number _ _ =>
    let kind := (((s.describe owner).fieldNumber? number).map (·.kind)).getD .bool
    Bytes.ofString "proto.repeated<" ++ kind.text ++ ">"
  | .pattern _ => "regexp"
  | .bound recv method =>
    Bytes.ofString "go.func<" ++ (boundType s recv method).text ++ ">"
  | .host t _ => (Host.typeName? t).getD (Bytes.ofString "go." ++ t.text)
  | v => Bytes.ofString "go." ++ ((v.hostType? s).getD .any).text

/-- Null, false, zero, and empty strings, sequences and maps are false, and so are the
missing references of a host. Everything else is true. -/
def Value.truth [Host] (s : Heap) (v : Value) : Bool :=
  match v with
  | .null => false
  | .bool b => b
  | .int n => n ≠ 0
  | .float x => x != 0
  | .string t => !t.isEmpty
  | .noMessage _ => false
  | v =>
    match v.length? s with
    | some n => 0 < n
    | none =>
      match v with
      | .host t d =>
        match t.base, d with
        | .slice _, d | .map _ _, d | .array _ _, d => 0 < d.length s
        | t, .nil => !t.isNilable
        | _, _ => true
      | _ => true

/-! ### Text -/

/-- A list or object that may contain itself. -/
inductive Container where
  | list (id : Nat)
  | object (id : Nat)
  deriving DecidableEq, Repr

/-- The order in which the entries of a host map are shown. -/
def Datum.keyLe : Datum → Datum → Bool
  | .int m, .int n => m ≤ n
  | .float x, .float y => x <= y
  | .string a, .string b => Bytes.le a b
  | .bool a, .bool b => !a || b
  | _, _ => true

/-- A bound on how deeply values can nest without repeating. -/
def Heap.depthBound (s : Heap) : Nat :=
  2 * (s.lists.size + s.objects.size + s.messages.size + s.cells.size + s.arrays.size +
    s.maps.size) + 100

/-- The name of a host function in messages. -/
def Value.functionName [Host] (s : Heap) : Value → Bytes
  | .bound recv method => (boundType s recv method).text
  | .host t (.function name) => if name.isEmpty then t.text else name
  | .host t _ => t.text
  | _ => []

mutual

/-- The literal form of a value inside the containers of `path`. -/
def Value.literal [Host] (s : Heap) : Nat → List Container → Value → Bytes
  | 0, _, _ => []
  | fuel + 1, path, v =>
    match v with
    | .null => "null"
    | .string b => b.quote
    | .list id =>
      if path.contains (.list id) then "[...]" else
        let items := (s.list id).toList.map (Value.literal s fuel (.list id :: path))
        Bytes.ofString "[" ++ Bytes.join ", " items ++ "]"
    | .object id =>
      if path.contains (.object id) then "\x7b...\x7d" else
        let items := (s.object id).map fun (name, x) =>
          name ++ ": " ++ Value.literal s fuel (.object id :: path) x
        Bytes.ofString "\x7b" ++ Bytes.join ", " items ++ "\x7d"
    | .message id => messageText s fuel (s.messages.getD id default)
    | .noMessage t => t.name ++ "()"
    | .function _ f => Bytes.ofString "<function " ++ f.name ++ ">"
    | .builtin fn recv _ =>
      if recv.isNull then Bytes.ofString "<built-in function " ++ fn.name ++ ">"
      else Bytes.ofString "<built-in method " ++ fn.name ++ " of " ++ recv.typeName s ++ " value>"
    | .module id => Bytes.ofString "<module " ++ (s.modules.getD id default).name.quote ++ ">"
    | .nspace ns => ns.text
    | .type t => t.text
    | .repeated _ _ items _ => fieldListText s fuel (items.getD s.fieldLists.size)
    | .enumerator _ => "<enumerator>"
    | .filtered id =>
      Bytes.ofString "<where " ++ (s.filtered.getD id default).source.typeName s ++ ">"
    | .pattern id => s.patterns.getD id []
    | .moment t => t.text
    | .location z => z.name
    | .bound .. => Bytes.ofString "<go function " ++ v.functionName s ++ ">"
    | .host t d => (Host.text? s t d).getD (datumText s fuel true t d)
    | v => v.basicText?.getD (v.typeName s)

/-- The elements of a repeated field. -/
def fieldListText [Host] (s : Heap) : Nat → Nat → Bytes
  | 0, _ => []
  | fuel + 1, id =>
    let items := (s.fieldLists.getD id #[]).toList.map fun x => Value.literal s fuel [] x.value
    Bytes.ofString "[" ++ Bytes.join ", " items ++ "]"

/-- The fields of a message that are set. -/
def messageText [Host] (s : Heap) : Nat → MessageCell → Bytes
  | 0, _ => []
  | fuel + 1, m =>
    let fields := (s.populated m).map fun (f, v) =>
      f.name ++ "=" ++ match v with
        | .list id => fieldListText s fuel id
        | .map entries =>
          match (s.pool m.type).entryFields? f with
          | some ({ kind := .string, .. }, _) =>
            let shown := entries.filterMap fun (k, x) => match k with
              | .string k => some (k, Value.literal s fuel [] x.value)
              | _ => none
            let sorted := shown.mergeSort fun a b => Bytes.le a.1 b.1
            Bytes.ofString "\x7b" ++ Bytes.join ", " (sorted.map fun (k, x) => k ++ ": " ++ x) ++
              "\x7d"
          | _ => "\x7b...\x7d"
        | x => Value.literal s fuel [] x.value
    m.type.name ++ "(" ++ Bytes.join ", " fields ++ ")"

/-- The plain form of host data; `top` tells that it is not part of other data. -/
def datumText [Host] (s : Heap) : Nat → Bool → HostType → Datum → Bytes
  | 0, _, _, _ => []
  | fuel + 1, top, t, d =>
    let part (t : HostType) (d : Datum) : Bytes :=
      (Host.text? s t d).getD (datumText s fuel false t d)
    match d with
    | .bool b => if b then "true" else "false"
    | .int n => Bytes.ofInt n
    | .float x =>
      match t.base with
      | .float32 => Decimal.plain.float32 x.toFloat32
      | _ => Decimal.plain.float x
    | .string b => b
    | .nil =>
      match t.base with
      | .map _ _ => "map[]"
      | .slice _ => "[]"
      | _ => "<nil>"
    | .cell id =>
      match t.base with
      | .pointer u =>
        match top, u.base with
        | true, .record _ | true, .array _ _ | true, .slice _ | true, .map _ _ =>
          Bytes.ofString "&" ++ part u (s.cells.getD id .nil)
        | _, _ => "0xc000000000"
      | _ => "0xc000000000"
    | .slice base n =>
      let elem := match t.base with
        | .slice u => u
        | _ => .any
      let items := match base with
        | .array id => (s.arrays.getD id #[]).toList.take n
        | .list id => ((s.list id).toList.take n).map .any
      Bytes.ofString "[" ++ Bytes.join " " (items.map (part elem)) ++ "]"
    | .array items =>
      let elem := match t.base with
        | .array _ u => u
        | _ => .any
      Bytes.ofString "[" ++ Bytes.join " " (items.map (part elem)) ++ "]"
    | .map id =>
      match t.base with
      | .map k u =>
        let entries := (s.maps.getD id []).mergeSort fun a b => a.1.keyLe b.1
        let shown := entries.map fun (a, b) => part k a ++ ":" ++ part u b
        Bytes.ofString "map[" ++ Bytes.join " " shown ++ "]"
      | _ => "map[]"
    | .record ds =>
      let fields := match t.base with
        | .record name => fieldsOfRecord name
        | _ => []
      let shown := (fields.zip ds).map fun (f, x) => part f.type x
      Bytes.ofString "\x7b" ++ Bytes.join " " shown ++ "\x7d"
    | .function _ | .adapted _ => "0xc000000000"
    | .any v =>
      match v with
      | .null => "<nil>"
      | .bool b => if b then "true" else "false"
      | .int n => Bytes.ofInt n.toInt
      | .float x => Decimal.plain.float x
      | .string b => b
      | .host u x => part u x
      | v => Value.literal s fuel [] v

end

/-- The literal form of a value, in which strings are quoted. -/
def Value.repr [Host] (s : Heap) (v : Value) : Bytes := v.literal s s.depthBound []

/-- The output form of a value: null is empty and strings stand for themselves. -/
def Value.text [Host] (s : Heap) (v : Value) : Bytes := v.basicText?.getD (v.repr s)

/-- The written form of named values. -/
def dictionaryText [Host] (s : Heap) (entries : List (Bytes × Value)) : Bytes :=
  Bytes.ofString "\x7b" ++
    Bytes.join ", " (entries.map fun (name, v) => name ++ ": " ++ v.repr s) ++ "\x7d"

/-- How a value that is not basic is written in code: data of the host that have no text of
their own are only named by type. -/
def Value.constantText [Host] (s : Heap) : Value → Bytes
  | .host t d => (Host.text? s t d).getD (Bytes.ofString "<" ++ t.text ++ ">")
  | v => v.repr s

end Stencil
