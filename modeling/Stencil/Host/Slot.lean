import Stencil.Dispatch.InlineCache
import Stencil.Machine.Equality
import Stencil.Text.Category
import Stencil.Text.Case

/-!
# Host data as values

Between the typed slots of a host and the values of the language: what a slot
holds as a value, a value put into a slot, and the normal form of host data, in
which numbers, strings and booleans of any host type are those of the language and
missing references are null.
-/

namespace Stencil

/-- What a slot of the given type holds. -/
def Value.ofSlot (t : HostType) (d : Datum) : Value :=
  match t, d with
  | .any, .any v | .iface _, .any v => v
  | .any, _ | .iface _, _ => .null
  | .bool, .bool b => .bool b
  | .int .int64, .int n => .int (Int64.ofInt n)
  | .float64, .float x => .float x
  | .string, .string s => .string s
  | _, .any v => v
  | t, d => .host t d

/-- What a slot of the given type holds after a value is put into it. -/
def Value.toSlot (t : HostType) (v : Value) : Datum :=
  if t.isInterface then
    match v with
    | .null => .nil
    | v => .any v
  else
    match v with
    | .host _ d => d
    | .bool b => .bool b
    | .int n => .int n.toInt
    | .float x => .float x
    | .string s => .string s
    | v => .any v

/-- The normal form of a value that comes from the host. -/
def Value.normalize (v : Value) : Value :=
  match v with
  | .noMessage _ => .null
  | .host t d =>
    match t.base, d with
    | .bool, .bool b => .bool b
    | .int _, .int n => .int (Int64.ofInt n)
    | .float32, .float x | .float64, .float x => .float x
    | .string, .string s => .string s
    | u, .nil => if u.isNilable then .null else v
    | _, _ => v
  | v => v

/-- The normal form of what a slot holds. -/
def Value.fromSlot (t : HostType) (d : Datum) : Value := (Value.ofSlot t d).normalize

/-- The empty content of a slot. -/
def HostType.zero [Host] : Nat → HostType → Datum
  | 0, _ => .nil
  | fuel + 1, t =>
    match t.base with
    | .bool => .bool false
    | .int _ => .int 0
    | .float32 | .float64 => .float 0
    | .string => .string []
    | .array n u => .array (List.replicate n (u.zero fuel))
    | .record name => .record ((fieldsOfRecord name).map fun f => f.type.zero fuel)
    | _ => .nil

/-- A float with the precision of a type. -/
def HostType.roundFloat (t : HostType) (x : Float) : Float :=
  match t.base with
  | .float32 => x.toFloat32.toFloat
  | _ => x

/-! ### Sequences and maps -/

/-- The elements of a sequence of the host. -/
def Datum.items (s : Heap) : Datum → List Datum
  | .slice (.array id) n => (s.arrays.getD id #[]).toList.take n
  | .slice (.list id) n => ((s.list id).toList.take n).map .any
  | .array ds => ds
  | _ => []

/-- The type of the elements of a sequence or the values of a map. -/
def HostType.elem (t : HostType) : HostType :=
  match t.base with
  | .slice u | .array _ u | .map _ u | .pointer u => u
  | _ => .any

/-- The type of the keys of a map. -/
def HostType.key (t : HostType) : HostType :=
  match t.base with
  | .map k _ => k
  | _ => .any

/-- Whether values of the type are maps with keys that are strings. -/
def HostType.isStringMap (t : HostType) : Bool :=
  match t.base with
  | .map k _ => match k.base with
    | .string => true
    | _ => false
  | _ => false

/-- The entries of a map of the host. -/
def Datum.entries (s : Heap) : Datum → List (Datum × Datum)
  | .map id => s.maps.getD id []
  | _ => []

/-- The value a map of the host has for a key. -/
def Datum.find? [Host] (s : Heap) (d key : Datum) : Option Datum :=
  ((d.entries s).find? fun (k, _) => k.same key).map (·.2)

/-- Replace the entry of a key, or add one. -/
def setEntry [Host] (key x : Datum) : List (Datum × Datum) → List (Datum × Datum)
  | [] => [(key, x)]
  | (k, y) :: rest => if k.same key then (k, x) :: rest else (k, y) :: setEntry key x rest

/-- The order of keys in an iteration over a map of the host. -/
def iterationLe [Host] (s : Heap) (t : HostType) (a b : Datum) : Bool :=
  match a, b with
  | .int m, .int n => m ≤ n
  | .float x, .float y => !(y < x)
  | .string x, .string y => Bytes.le x y
  | a, b => Bytes.le (datumText s s.depthBound true t a) (datumText s s.depthBound true t b)

/-- The keys of a map in the order of an iteration, from the order they are met in. -/
def sortKeys [Host] (s : Heap) (t : HostType) (keys : List Datum) : List Datum :=
  keys.mergeSort (iterationLe s t)

/-- The keys of a map of the host in the order of an iteration. -/
def Datum.sortedKeys [Host] (s : Heap) (t : HostType) (d : Datum) : List Datum :=
  sortKeys s t.key (Host.enumerate s ((d.entries s).map (·.1)))

namespace Job

/-- A new array of the host. -/
def newArray (items : Array Datum) : Job Datum := do
  let s ← get
  set { s with arrays := s.arrays.push items }
  return .slice (.array s.arrays.size) items.size

/-- A new map of the host. -/
def newMap (entries : List (Datum × Datum)) : Job Datum := do
  let s ← get
  set { s with maps := s.maps.push entries }
  return .map s.maps.size

/-- A new cell of the host. -/
def newCell (d : Datum) : Job Nat := do
  let s ← get
  set { s with cells := s.cells.push d }
  return s.cells.size

/-- Change an element of a sequence of the host. -/
def setItem (d : Datum) (i : Nat) (x : Datum) : Job Unit :=
  match d with
  | .slice (.array id) _ =>
    Job.modify fun s => { s with arrays := s.arrays.modify id fun a => a.setIfInBounds i x }
  | .slice (.list id) _ =>
    match x with
    | .any v => modifyList id fun a => a.setIfInBounds i v
    | _ => modifyList id fun a => a.setIfInBounds i .null
  | _ => return

end Job

/-! ### Members -/

/-- The names under which a member is looked for: a name that starts with a lower-case
letter also matches the capitalised one. -/
def memberNames (name : Bytes) : List Bytes :=
  match name.glyphs with
  | .char c :: rest =>
    if Category.lowerLetter.contains c.toNat then
      [name, Bytes.ofChar (upperChar c) ++ Bytes.ofGlyphs rest]
    else [name]
  | _ => [name]

/-- The record a type stands for or points to, and whether it points to it. -/
def HostType.recordOf? : HostType → Option (Bytes × Bool)
  | .record n => some (n, false)
  | .pointer (.record n) => some (n, true)
  | _ => none

/-- The positions that lead to a field of a record. Fields of the record itself come
before those of embedded records. -/
def fieldPath? [Host] (name : Bytes) : Nat → Bytes → Option (List Nat × HostField)
  | 0, _ => none
  | fuel + 1, record =>
    let fields := (fieldsOfRecord record).zipIdx
    match fields.find? fun (f, _) => f.name = name with
    | some (f, i) => some ([i], f)
    | none =>
      fields.findSome? fun (f, i) =>
        if f.isEmbedded then do
          let (inner, _) ← f.type.recordOf?
          let (path, g) ← fieldPath? name fuel inner
          return (i :: path, g)
        else none

/-- Find a member of a type by its exact name. -/
def exactMember? [Host] (t : HostType) (name : Bytes) : Option MemberPath :=
  match methodOfType? t name with
  | some m => some (.method m.name)
  | none => do
    let (record, deref) ← t.recordOf?
    let (path, f) ← fieldPath? name 10 record
    if f.isExported then some (.field path deref) else none

/-- Find a member of a type. -/
def member? [Host] (t : HostType) (name : Bytes) : Option MemberPath :=
  (memberNames name).findSome? (exactMember? t)

/-- The names of the methods and fields of a type, sorted. -/
def memberNamesOf [Host] (t : HostType) : List Bytes :=
  let fields := match t.recordOf? with
    | some (record, _) => ((fieldsOfRecord record).filter (·.isExported)).map (·.name)
    | none => []
  Bytes.sort ((methodsOfType t).map (·.name) ++ fields)

/-- The type of a field reached by positions. -/
def fieldType [Host] : Bytes → List Nat → HostType
  | _, [] => .any
  | record, [i] => (((fieldsOfRecord record)[i]?).map (·.type)).getD .any
  | record, i :: path =>
    match ((fieldsOfRecord record)[i]?).bind (·.type.recordOf?) with
    | some (inner, _) => fieldType inner path
    | none => .any

/-- The failure of following a pointer that is missing. -/
def nilPointer {α : Type} : Job α := Job.error "nil pointer dereference"

/-- The failure of looking for a field in an embedded record that is missing. -/
def nilEmbedded (record : Bytes) : Failure :=
  .plain (Bytes.ofString "reflect: indirection through nil pointer to embedded struct field " ++
    ((segments record).getLast?.getD record)) false

/-- The record that the embedded field at a position of a record is of. -/
def embeddedRecord [Host] (record : Bytes) (i : Nat) : Bytes :=
  ((((fieldsOfRecord record).getD i default).type.recordOf?).map (·.1)).getD []

/-- Read a field reached by positions from the data of a record. -/
def readField [Host] : Bytes → List Nat → Datum → Job Datum
  | _, [], d => return d
  | record, i :: path, d => do
    let x := match d with
      | .record ds => ds.getD i .nil
      | _ => .nil
    if path.isEmpty then return x
    let inner := embeddedRecord record i
    match x with
    | .cell id => readField inner path ((← get).cells.getD id .nil)
    | .nil => throw (nilEmbedded inner)
    | x => readField inner path x

/-- What is at a place inside of a datum. -/
def Datum.at? : List Nat → Datum → Option Datum
  | [], d => some d
  | i :: path, .record ds => (ds[i]?).bind (Datum.at? path)
  | _ :: _, _ => none

/-- Put something at a place inside of a datum. -/
def Datum.setAt (x : Datum) : List Nat → Datum → Datum
  | [], _ => x
  | i :: path, .record ds => .record (ds.modify i (Datum.setAt x path))
  | _ :: _, d => d

/-- The place of a field reached by positions from a place of a cell that holds a record: the cell
that has the field, and where in it. -/
def fieldPlace [Host] (s : Heap) : (record : Bytes) → (path : List Nat) → (id : Nat) →
    (inside : List Nat) → Except Failure (Nat × List Nat)
  | _, [], id, inside => .ok (id, inside)
  | record, i :: path, id, inside =>
    match (s.cells[id]?).bind (Datum.at? (inside ++ [i])) with
    | none => .error (.panic "reflect: Field index out of range" false)
    | some x =>
      if path.isEmpty then .ok (id, inside ++ [i])
      else
        match x with
        | .cell id => fieldPlace s (embeddedRecord record i) path id []
        | .record _ => fieldPlace s (embeddedRecord record i) path id (inside ++ [i])
        | _ => .error (nilEmbedded (embeddedRecord record i))

/-- The place of a field of the record that a pointer points to. -/
def placeOf [Host] (record : Bytes) (path : List Nat) (d : Datum) : Job (Nat × List Nat) := do
  match d with
  | .cell id =>
    match fieldPlace (← get) record path id [] with
    | .ok place => return place
    | .error e => throw e
  | _ => nilPointer

/-- Read a member of a value. A method is bound to the value. -/
def getMember [Host] (m : MemberPath) (x : Value) : Job Value := do
  match m with
  | .method name => return .bound x name
  | .field path deref =>
    match x with
    | .host t d =>
      let record := ((t.recordOf?).map (·.1)).getD []
      if deref then
        let (id, inside) ← placeOf record path d
        let x := (((← get).cells[id]?).bind (Datum.at? inside)).getD .nil
        return Value.fromSlot (fieldType record path) x
      else return Value.fromSlot (fieldType record path) (← readField record path d)
    | _ => return .null

end Stencil
