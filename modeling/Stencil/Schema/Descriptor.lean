import Stencil.Value.Basic

/-!
# Descriptions of messages

A message is a record of numbered fields. Its description lists the fields with
their types; descriptions are collected in files, and files in pools. Types refer
to one another by full name within their pool.

A pool is either built from descriptions at run time or made of types the host
application is linked with. The types of a linked pool have names in the host.
-/

namespace Stencil

/-- The type of a field or of its elements. -/
inductive FieldKind where
  | bool | int32 | sint32 | uint32 | int64 | sint64 | uint64 | sfixed32 | fixed32 | float
  | sfixed64 | fixed64 | double | string | bytes
  | enum (name : Bytes)
  | message (name : Bytes)
  | group (name : Bytes)
  deriving DecidableEq, Repr, Inhabited

/-- Whether a field may be missing, must be there, or holds any number of elements. -/
inductive Cardinality where
  | optional | required | repeated
  deriving DecidableEq, Repr, Inhabited

/-- A value that is not a message. -/
inductive Scalar where
  | bool (b : Bool)
  | int (n : Int)
  | float (x : Float)
  | string (s : Bytes)
  deriving Repr, Inhabited

/-- The description of a field. -/
structure FieldDesc where
  name : Bytes
  number : Nat
  kind : FieldKind
  cardinality : Cardinality := .optional
  jsonName : Bytes
  dflt : Option Scalar := none
  packed : Bool := false
  /-- The group of fields of which at most one is set. -/
  oneof : Option Bytes := none
  /-- Whether a field that is set to its default differs from one that is not set. -/
  hasPresence : Bool := true
  deriving Repr, Inhabited

/-- The description of a message. -/
structure MessageDesc where
  fullName : Bytes
  fields : List FieldDesc
  /-- Whether the message stands for one entry of a map. -/
  isMapEntry : Bool := false
  /-- Whether the message is not part of another message. -/
  isTop : Bool := true
  deriving Repr, Inhabited

/-- The description of an enumeration. -/
structure EnumDesc where
  fullName : Bytes
  values : List (Bytes × Int)
  deriving Repr, Inhabited

/-- The edition of the rules a file follows. -/
inductive SchemaEdition where
  | proto2 | proto3
  deriving DecidableEq, Repr, Inhabited

/-- The description of a file. Messages and enumerations defined inside messages are
listed with the others. -/
structure FileDesc where
  path : Bytes := []
  package : Bytes := []
  edition : SchemaEdition := .proto2
  messages : List MessageDesc := []
  enums : List EnumDesc := []
  /-- The host's package for the types of a linked file. -/
  hostPackage : Bytes := []
  deriving Repr, Inhabited

/-- A collection of files. -/
structure Pool where
  files : List FileDesc := []
  /-- Whether the host application is linked with the types. -/
  linked : Bool := false
  deriving Repr, Inhabited

namespace Pool

/-- The description of a message. -/
def message? (p : Pool) (name : Bytes) : Option MessageDesc :=
  p.files.findSome? fun f => f.messages.find? (·.fullName = name)

/-- The description of an enumeration. -/
def enum? (p : Pool) (name : Bytes) : Option EnumDesc :=
  p.files.findSome? fun f => f.enums.find? (·.fullName = name)

/-- The file that defines a message. -/
def fileOf? (p : Pool) (name : Bytes) : Option FileDesc :=
  p.files.find? fun f => f.messages.any (·.fullName = name)

/-- The type of the host that a message type is represented by. -/
def hostType (p : Pool) (name : Bytes) : HostType :=
  if p.linked then
    let f := (p.fileOf? name).getD {}
    let path := (Bytes.dropLeading? (f.package ++ ".") name).getD name
    .pointer (.message (f.hostPackage ++ "." ++ path.replace "." "_"))
  else .pointer (.message "dynamicpb.Message")

/-- The full names of the messages that are not part of another message. -/
def topMessages (p : Pool) : List Bytes :=
  p.files.flatMap fun f => (f.messages.filter (·.isTop)).map (·.fullName)

end Pool

/-- The field with the given name. -/
def MessageDesc.field? (m : MessageDesc) (name : Bytes) : Option FieldDesc :=
  m.fields.find? (·.name = name)

/-- The field with the given number. -/
def MessageDesc.fieldNumber? (m : MessageDesc) (number : Nat) : Option FieldDesc :=
  m.fields.find? (·.number = number)

namespace FieldKind

/-- The message a field refers to. -/
def messageName? : FieldKind → Option Bytes
  | .message n | .group n => some n
  | _ => none

/-- The name of a type in messages. -/
def text : FieldKind → Bytes
  | .bool => "bool"
  | .int32 => "int32"
  | .sint32 => "sint32"
  | .uint32 => "uint32"
  | .int64 => "int64"
  | .sint64 => "sint64"
  | .uint64 => "uint64"
  | .sfixed32 => "sfixed32"
  | .fixed32 => "fixed32"
  | .float => "float"
  | .sfixed64 => "sfixed64"
  | .fixed64 => "fixed64"
  | .double => "double"
  | .string => "string"
  | .bytes => "bytes"
  | .enum n | .message n | .group n => n

/-- The integers a field of this type can hold. -/
def intKind? : FieldKind → Option IntKind
  | .int32 | .sint32 | .sfixed32 => some .int32
  | .uint32 | .fixed32 => some .uint32
  | .int64 | .sint64 | .sfixed64 => some .int64
  | .uint64 | .fixed64 => some .uint64
  | _ => none

end FieldKind

/-- The type of the entries of a map field. -/
def Pool.entryFields? (p : Pool) (f : FieldDesc) : Option (FieldDesc × FieldDesc) := do
  guard (f.cardinality = .repeated)
  let m ← p.message? (← f.kind.messageName?)
  guard m.isMapEntry
  return (← m.fieldNumber? 1, ← m.fieldNumber? 2)

/-- Whether a field is a map. -/
def Pool.isMap (p : Pool) (f : FieldDesc) : Bool := (p.entryFields? f).isSome

/-- Whether a field is a list. -/
def Pool.isList (p : Pool) (f : FieldDesc) : Bool :=
  f.cardinality = .repeated && !p.isMap f

/-- The value of a field that is not set. -/
def Pool.default (p : Pool) (f : FieldDesc) : Scalar :=
  f.dflt.getD <| match f.kind with
    | .bool => .bool false
    | .float | .double => .float 0
    | .string | .bytes | .message _ | .group _ => .string []
    | .enum n => .int ((((p.enum? n).bind (·.values.head?)).map (·.2)).getD 0)
    | _ => .int 0

/-- The name of a field in JSON text: the letters after underscores are capitals and the
underscores are left out. -/
def camelName (name : Bytes) : Bytes :=
  (go false (name.map fun b => Char.ofNat b.toNat)).map fun c => c.toNat.toUInt8
where
  /-- Drop underscores and raise the letter after each. -/
  go (up : Bool) : List Char → List Char
    | [] => []
    | '_' :: cs => go true cs
    | c :: cs => (if up then c.toUpper else c) :: go false cs

end Stencil
