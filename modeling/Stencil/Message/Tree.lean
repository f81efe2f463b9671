import Stencil.Message.Field

/-!
# Messages as trees

A message in the store refers to other messages. To write it, or to read one, it is
taken as a tree: the fields that are set, by number, and the fields that are not
known, as they were read.
-/

namespace Stencil

mutual

/-- A message. -/
inductive MessageTree where
  | mk (fields : List (Nat × FieldTree)) (unknown : Bytes)

/-- What a field of a message holds. -/
inductive FieldTree where
  | scalar (s : Scalar)
  | message (m : MessageTree)
  | list (items : List FieldTree)
  | map (entries : List (Scalar × FieldTree))

end

instance : Inhabited MessageTree := ⟨.mk [] []⟩
instance : Inhabited FieldTree := ⟨.list []⟩

namespace MessageTree

/-- A message without any fields set. -/
def empty : MessageTree := .mk [] []

/-- The fields that are set, by number. -/
def fields : MessageTree → List (Nat × FieldTree)
  | .mk fields _ => fields

/-- The fields that are not known, as they were read. -/
def unknown : MessageTree → Bytes
  | .mk _ unknown => unknown

/-- What a field holds. -/
def get? (m : MessageTree) (number : Nat) : Option FieldTree := m.fields.lookup number

/-- Replace what a field holds. -/
def set (m : MessageTree) (number : Nat) (x : FieldTree) : MessageTree :=
  .mk ((number, x) :: m.fields.filter (·.1 ≠ number)) m.unknown

/-- Set a field, clearing the others of its group. -/
def put (m : MessageTree) (desc : MessageDesc) (f : FieldDesc) (x : FieldTree) : MessageTree :=
  let rivals := rivals desc f
  .mk ((f.number, x) :: m.fields.filter fun (n, _) => n ≠ f.number && !rivals.contains n) m.unknown

/-- Add an element to a repeated field. -/
def append (m : MessageTree) (number : Nat) (x : FieldTree) : MessageTree :=
  match m.get? number with
  | some (.list xs) => m.set number (.list (xs ++ [x]))
  | _ => m.set number (.list [x])

/-- The entries of a map field. -/
def entries (m : MessageTree) (number : Nat) : List (Scalar × FieldTree) :=
  match m.get? number with
  | some (.map es) => es
  | _ => []

/-- The message of a field that holds one, or an empty one. -/
def child (m : MessageTree) (number : Nat) : MessageTree :=
  match m.get? number with
  | some (.message c) => c
  | _ => .empty

/-- Add fields that are not known. -/
def addUnknown (m : MessageTree) (b : Bytes) : MessageTree := .mk m.fields (m.unknown ++ b)

end MessageTree

/-- Replace the entry of a key, or add one. -/
def setTreeEntry (key : Scalar) (x : FieldTree) :
    List (Scalar × FieldTree) → List (Scalar × FieldTree)
  | [] => [(key, x)]
  | (k, y) :: rest => if k.same key then (k, x) :: rest else (k, y) :: setTreeEntry key x rest

/-- Whether what a field holds counts as set. -/
def FieldTree.isPopulated (f : FieldDesc) : FieldTree → Bool
  | .scalar s => f.hasPresence || s.isSet
  | .message _ => true
  | .list xs => !xs.isEmpty
  | .map es => !es.isEmpty

/-! ### Between the store and trees -/

mutual

/-- The tree of a message; messages may be nested up to `depth` deep. -/
def Heap.tree? (s : Heap) : (depth : Nat) → Nat → Option MessageTree
  | 0, _ => none
  | depth + 1, id => do
    let m := s.messages.getD id default
    let fields ← m.fields.mapM fun (n, x) => do return (n, ← s.fieldTree? depth x)
    return .mk fields m.unknown

/-- The tree of what a field holds. -/
def Heap.fieldTree? (s : Heap) : (depth : Nat) → FieldValue → Option FieldTree
  | 0, _ => none
  | depth + 1, x =>
    match x with
    | .scalar c => some (.scalar c)
    | .message id => (s.tree? depth id).map .message
    | .list l => ((s.fieldLists.getD l #[]).toList.mapM (s.fieldTree? depth)).map .list
    | .map es =>
      (es.mapM fun (e : Scalar × FieldValue) => do
        return (e.1, ← s.fieldTree? depth e.2)).map .map

end

/-- The tree of a message. A missing message is empty. -/
def messageTree (fuel : Nat) (v : Value) : Job MessageTree := do
  match v with
  | .message id =>
    match (← get).tree? fuel id with
    | some t => return t
    | none => throw .exhausted
  | _ => return .empty

mutual

/-- A new message with the content of a tree. -/
def plant : (fuel : Nat) → MessageType → MessageTree → Job Nat
  | 0, _, _ => throw .exhausted
  | fuel + 1, t, m => do
    let id ← Job.newMessage t
    let desc := (← get).describe t
    let fields ← m.fields.mapM fun (n, x) => do
      let f := (desc.fieldNumber? n).getD default
      return (n, ← plantField fuel t f.kind x)
    Job.modifyMessage id fun c => { c with fields, unknown := m.unknown }
    return id

/-- What a field of a new message holds. -/
def plantField : (fuel : Nat) → MessageType → FieldKind → FieldTree → Job FieldValue
  | 0, _, _, _ => throw .exhausted
  | fuel + 1, owner, kind, x => do
    match x with
    | .scalar c => return .scalar c
    | .message m =>
      return .message (← plant fuel ⟨owner.pool, kind.messageName?.getD []⟩ m)
    | .list xs =>
      let items ← xs.mapM (plantField fuel owner kind)
      return .list (← Job.newFieldList items.toArray)
    | .map es =>
      let entry := (← get).describe ⟨owner.pool, kind.messageName?.getD []⟩
      let value := ((entry.fieldNumber? 2).getD default).kind
      return .map (← es.mapM fun (k, y) => do return (k, ← plantField fuel owner value y))

end

/-! ### Order of fields -/

/-- Where a field stands when a message is written: fields of a group of which at most one
is set stand where the first of the group is declared. -/
def MessageDesc.declaredRank (desc : MessageDesc) (f : FieldDesc) : Nat :=
  (desc.fields.findIdx? fun g =>
    g.number = f.number || (f.oneof.isSome && g.oneof = f.oneof)).getD desc.fields.length

/-- Where a field stands in binary form: by number, and those of groups after the others. -/
def MessageDesc.wireRank (desc : MessageDesc) (f : FieldDesc) : Nat × Nat :=
  (if f.oneof.isSome then desc.declaredRank f + 1 else 0, f.number)

/-- Sort what is written of fields by their ranks. -/
def arrange {α : Type} (rank : FieldDesc → Nat × Nat) (pieces : List (FieldDesc × α)) : List α :=
  (pieces.mergeSort fun (f, _) (g, _) =>
    let a := rank f
    let b := rank g
    a.1 < b.1 || (a.1 = b.1 && a.2 ≤ b.2)).map (·.2)

/-- Whether one key of a map comes before another. -/
def Scalar.le : Scalar → Scalar → Bool
  | .bool a, .bool b => !a || b
  | .int m, .int n => m ≤ n
  | .string a, .string b => Bytes.le a b
  | _, _ => true

/-- Sort what is written of the entries of a map by their keys. -/
def sortByKey {α : Type} (pieces : List (Scalar × α)) : List (Scalar × α) :=
  pieces.mergeSort fun (j, _) (k, _) => j.le k

/-! ### Faults -/

/-- Why a message cannot be written or read, whatever its form. -/
inductive MessageFault where
  | notText (field : Bytes)
  | notSet (field : Bytes)
  deriving DecidableEq, Repr, Inhabited

/-- The wording of a fault. -/
def MessageFault.message : MessageFault → Bytes
  | .notText field => Bytes.ofString "proto: field " ++ field ++ " contains invalid UTF-8"
  | .notSet field => Bytes.ofString "proto: required field " ++ field ++ " not set"

/-- Whether the texts of a message have to be UTF-8. -/
def Pool.checksText (p : Pool) (message : Bytes) : Bool :=
  match p.fileOf? message with
  | some f => f.edition = .proto3
  | none => false

/-- The full name of a field. -/
def MessageDesc.fieldName (desc : MessageDesc) (f : FieldDesc) : Bytes :=
  desc.fullName ++ "." ++ f.name

mutual

/-- The first required field that is not set, in a message or those it holds. -/
def missingField (p : Pool) (message : Bytes) : MessageTree → Option Bytes
  | .mk fields _ =>
    let desc := (p.message? message).getD { fullName := message, fields := [] }
    let own := desc.fields.find? fun f =>
      f.cardinality = .required && (fields.lookup f.number).isNone
    match own with
    | some f => some (desc.fieldName f)
    | none => missingInFields p desc fields

/-- The first required field that is not set in the messages of fields. -/
def missingInFields (p : Pool) (desc : MessageDesc) : List (Nat × FieldTree) → Option Bytes
  | [] => none
  | (n, x) :: rest =>
    let f := (desc.fieldNumber? n).getD default
    (missingInFields p desc rest).or (missingInField p (f.kind.messageName?.getD []) x)

/-- The first required field that is not set in what a field holds. -/
def missingInField (p : Pool) (message : Bytes) : FieldTree → Option Bytes
  | .scalar _ => none
  | .message m => missingField p message m
  | .list xs => missingInItems p message xs
  | .map es =>
    let entry := (p.message? message).getD default
    let value := ((entry.fieldNumber? 2).getD default).kind.messageName?.getD []
    missingInEntries p value es

/-- The first required field that is not set in the elements of a list. -/
def missingInItems (p : Pool) (message : Bytes) : List FieldTree → Option Bytes
  | [] => none
  | x :: rest => (missingInField p message x).or (missingInItems p message rest)

/-- The first required field that is not set in the entries of a map. -/
def missingInEntries (p : Pool) (message : Bytes) : List (Scalar × FieldTree) → Option Bytes
  | [] => none
  | (_, x) :: rest => (missingInField p message x).or (missingInEntries p message rest)

end

/-- Fail if a required field is not set. -/
def checkComplete (p : Pool) (message : Bytes) (m : MessageTree) : Except MessageFault Unit :=
  match missingField p message m with
  | some field => .error (.notSet field)
  | none => .ok ()

end Stencil
