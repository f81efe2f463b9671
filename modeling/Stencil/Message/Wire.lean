import Stencil.Message.Tree

/-!
# Messages in binary form

A message is the sequence of its fields, each with a tag that gives the number of the
field and how its value is written. Integers are written in groups of seven bits, the
low ones first; texts and messages have their length in front.

What is written depends on the content of the message alone. What is read may hold
fields in any order and fields that are not known; the latter are kept.
-/

namespace Stencil

/-- How a value is written in binary form. -/
inductive WireType where
  | varint | fixed64 | bytes | groupStart | groupEnd | fixed32
  deriving DecidableEq, Repr, Inhabited

namespace WireType

/-- The number of a way of writing. -/
def number : WireType → Nat
  | .varint => 0
  | .fixed64 => 1
  | .bytes => 2
  | .groupStart => 3
  | .groupEnd => 4
  | .fixed32 => 5

/-- The way of writing with a number. -/
def ofNumber? : Nat → Option WireType
  | 0 => some .varint
  | 1 => some .fixed64
  | 2 => some .bytes
  | 3 => some .groupStart
  | 4 => some .groupEnd
  | 5 => some .fixed32
  | _ => none

end WireType

/-- How the values of a field are written. -/
def FieldKind.wireType : FieldKind → WireType
  | .bool | .int32 | .sint32 | .uint32 | .int64 | .sint64 | .uint64 | .enum _ => .varint
  | .sfixed32 | .fixed32 | .float => .fixed32
  | .sfixed64 | .fixed64 | .double => .fixed64
  | .string | .bytes | .message _ => .bytes
  | .group _ => .groupStart

/-! ### Writing -/

/-- A number in at most `size` groups of seven bits. -/
def varintOf : (size : Nat) → Nat → Bytes
  | 0, _ => []
  | size + 1, n =>
    if n < 128 then [n.toUInt8] else (n % 128 + 128).toUInt8 :: varintOf size (n / 128)

/-- A number of 64 bits in groups of seven bits. -/
def varint (n : Nat) : Bytes := varintOf 10 n

/-- A number in `size` bytes, the low one first. -/
def littleEndian (size n : Nat) : Bytes :=
  (List.range size).map fun i => (n / Nat.pow 256 i % 256).toUInt8

/-- The tag of a field. -/
def wireTag (number : Nat) (t : WireType) : Bytes := varint (8 * number + t.number)

/-- Bytes with their length in front. -/
def withLength (b : Bytes) : Bytes := varint b.length ++ b

/-- A signed number as one that is not negative; small ones stay small. -/
def zigzag (n : Int) : Nat := if n < 0 then (-2 * n - 1).toNat else (2 * n).toNat

/-- The binary form of a basic value of a field. -/
def FieldKind.encode (k : FieldKind) (s : Scalar) : Bytes :=
  match k, s with
  | _, .bool b => [if b then 1 else 0]
  | .sint32, .int n | .sint64, .int n => varint (zigzag n)
  | .sfixed32, .int n | .fixed32, .int n => littleEndian 4 (n % Nat.pow 2 32).toNat
  | .sfixed64, .int n | .fixed64, .int n => littleEndian 8 (n % Nat.pow 2 64).toNat
  | _, .int n => varint (n % Nat.pow 2 64).toNat
  | .float, .float x => littleEndian 4 x.toFloat32.toBits.toNat
  | _, .float x => littleEndian 8 x.toBits.toNat
  | _, .string b => withLength b

/-- Whether a text may be written to a field. -/
def textFault? (checks : Bool) (name : Bytes) (f : FieldDesc) (s : Scalar) :
    Option MessageFault :=
  match f.kind, s with
  | .string, .string b => if checks && !b.isValid then some (.notText name) else none
  | _, _ => none

/-- The binary form of a field that holds a basic value. -/
def encodeBasic (p : Pool) (desc : MessageDesc) (f : FieldDesc) (s : Scalar) :
    Except MessageFault Bytes :=
  match textFault? (p.checksText desc.fullName) (desc.fieldName f) f s with
  | some e => .error e
  | none => .ok (wireTag f.number f.kind.wireType ++ f.kind.encode s)

/-- The basic values of a list without tags. -/
def packedItems (k : FieldKind) (xs : List FieldTree) : Bytes :=
  xs.flatMap fun x => match x with
    | .scalar s => k.encode s
    | _ => []

mutual

/-- The binary form of a message. -/
def MessageTree.encode (p : Pool) (name : Bytes) : MessageTree → Except MessageFault Bytes
  | .mk fields unknown => do
    let desc := (p.message? name).getD { fullName := name, fields := [] }
    let pieces := arrange desc.wireRank (encodeFields p desc fields)
    return (← pieces.mapM id).flatten ++ unknown

/-- The binary forms of fields that are set. -/
def encodeFields (p : Pool) (desc : MessageDesc) :
    List (Nat × FieldTree) → List (FieldDesc × Except MessageFault Bytes)
  | [] => []
  | (n, x) :: rest =>
    let f := (desc.fieldNumber? n).getD default
    let others := encodeFields p desc rest
    if x.isPopulated f then (f, encodeField p desc f x) :: others else others

/-- The binary form of a field with its tags. -/
def encodeField (p : Pool) (desc : MessageDesc) (f : FieldDesc) :
    FieldTree → Except MessageFault Bytes
  | .scalar s => encodeBasic p desc f s
  | .message m => do
    let b ← m.encode p (f.kind.messageName?.getD [])
    match f.kind with
    | .group _ =>
      return wireTag f.number .groupStart ++ b ++ wireTag f.number .groupEnd
    | _ => return wireTag f.number .bytes ++ withLength b
  | .list xs =>
    if f.packed then .ok (wireTag f.number .bytes ++ withLength (packedItems f.kind xs))
    else encodeItems p desc f xs
  | .map es => do
    let entry := (p.message? (f.kind.messageName?.getD [])).getD default
    let key := (entry.fieldNumber? 1).getD default
    let value := (entry.fieldNumber? 2).getD default
    let pieces ← (sortByKey (encodeEntries p entry value es)).mapM fun (k, x) => do
      let b := (← encodeBasic p entry key k) ++ (← x)
      return wireTag f.number .bytes ++ withLength b
    return pieces.flatten

/-- The binary forms of the elements of a list. -/
def encodeItems (p : Pool) (desc : MessageDesc) (f : FieldDesc) :
    List FieldTree → Except MessageFault Bytes
  | [] => .ok []
  | x :: rest => do
    let b ← encodeField p desc f x
    return b ++ (← encodeItems p desc f rest)

/-- The binary forms of the values of a map, with their keys. -/
def encodeEntries (p : Pool) (entry : MessageDesc) (value : FieldDesc) :
    List (Scalar × FieldTree) → List (Scalar × Except MessageFault Bytes)
  | [] => []
  | (k, x) :: rest => (k, encodeField p entry value x) :: encodeEntries p entry value rest

end

/-! ### Reading -/

/-- Why bytes are not the binary form of a message. -/
inductive WireFault where
  | truncated | fieldNumber | overflow | reserved | endGroup
  | content (e : MessageFault)
  deriving DecidableEq, Repr, Inhabited

/-- The wording of a fault. -/
def WireFault.message : WireFault → Bytes
  | .truncated => "unexpected EOF"
  | .fieldNumber => "proto: invalid field number"
  | .overflow => "proto: variable length integer overflow"
  | .reserved => "proto: cannot parse reserved wire type"
  | .endGroup => "proto: mismatching end group marker"
  | .content e => e.message

/-- Read a number in groups of seven bits; `i` groups were read before. -/
def takeVarintFrom : (i value : Nat) → Bytes → Except WireFault (Nat × Bytes)
  | _, _, [] => .error .truncated
  | i, value, b :: rest =>
    if i = 9 then
      if b < 2 then .ok (value + b.toNat * Nat.pow 2 63, rest) else .error .overflow
    else if b < 128 then .ok (value + b.toNat * Nat.pow 2 (7 * i), rest)
    else takeVarintFrom (i + 1) (value + (b.toNat - 128) * Nat.pow 2 (7 * i)) rest

/-- Read a number of 64 bits in groups of seven bits. -/
def takeVarint (b : Bytes) : Except WireFault (Nat × Bytes) := takeVarintFrom 0 0 b

/-- Read a number in `size` bytes, the low one first. -/
def takeFixed (size : Nat) (b : Bytes) : Except WireFault (Nat × Bytes) :=
  if b.length < size then .error .truncated
  else .ok ((b.take size).foldr (fun d n => d.toNat + 256 * n) 0, b.drop size)

/-- Read bytes with their length in front. -/
def takeLengthed (b : Bytes) : Except WireFault (Bytes × Bytes) := do
  let (n, rest) ← takeVarint b
  if rest.length < n then .error .truncated else .ok (rest.take n, rest.drop n)

/-- Read a tag: the number of a field and how its value is written. -/
def takeTag (b : Bytes) : Except WireFault (Nat × Option WireType × Bytes) := do
  let (v, rest) ← takeVarint b
  let number := v / 8
  if number = 0 || Nat.pow 2 29 ≤ number then .error .fieldNumber
  else .ok (number, WireType.ofNumber? (v % 8), rest)

mutual

/-- The bytes after the value of a field that is not known. -/
def skipValue : (fuel : Nat) → (number : Nat) → Option WireType → Bytes → Except WireFault Bytes
  | 0, _, _, _ => .error .truncated
  | fuel + 1, number, t, b =>
    match t with
    | some .varint => (takeVarint b).map (·.2)
    | some .fixed32 => (takeFixed 4 b).map (·.2)
    | some .fixed64 => (takeFixed 8 b).map (·.2)
    | some .bytes => (takeLengthed b).map (·.2)
    | some .groupStart => skipGroup fuel number b
    | some .groupEnd => .error .endGroup
    | none => .error .reserved

/-- The bytes after the end of a group. -/
def skipGroup : (fuel : Nat) → (number : Nat) → Bytes → Except WireFault Bytes
  | 0, _, _ => .error .truncated
  | fuel + 1, number, b => do
    let (n, t, rest) ← takeTag b
    if t = some .groupEnd then
      if n = number then return rest else .error .endGroup
    else
      let rest ← skipValue fuel n t rest
      skipGroup fuel number rest

end

/-- The length of the last tag of some bytes that end with one for a number. -/
def lastTagLength (number : Nat) (b : Bytes) : Nat :=
  let padding := (b.reverse.takeWhile fun d => d % 128 = 0).length
  padding + (varint (8 * number)).length

/-- Read the content of a group and its end. -/
def takeGroup (number : Nat) (b : Bytes) : Except WireFault (Bytes × Bytes) := do
  let rest ← skipGroup (2 * b.length + 2) number b
  let whole := b.take (b.length - rest.length)
  return (whole.take (whole.length - lastTagLength number whole), rest)

/-- The basic value a number of 64 bits stands for in a field. -/
def FieldKind.ofVarint (k : FieldKind) (n : Nat) : Scalar :=
  let unzigzag (n : Nat) : Int := if n % 2 = 0 then (n / 2 : Nat) else -((n / 2 : Nat) : Int) - 1
  match k with
  | .bool => .bool (n ≠ 0)
  | .int32 | .enum _ => .int ((n : Int).bmod (Nat.pow 2 32))
  | .uint32 => .int (n % Nat.pow 2 32 : Nat)
  | .sint32 => .int (unzigzag (n % Nat.pow 2 32))
  | .int64 => .int ((n : Int).bmod (Nat.pow 2 64))
  | .sint64 => .int (unzigzag n)
  | _ => .int n

/-- The basic value a number of fixed size stands for in a field. -/
def FieldKind.ofFixed (k : FieldKind) (n : Nat) : Scalar :=
  match k with
  | .float => .float (Float32.ofBits n.toUInt32).toFloat
  | .double => .float (Float.ofBits n.toUInt64)
  | .sfixed32 => .int ((n : Int).bmod (Nat.pow 2 32))
  | .sfixed64 => .int ((n : Int).bmod (Nat.pow 2 64))
  | _ => .int n

/-- The content of a field: a basic value, or the bytes of a message. -/
inductive WireContent where
  | scalar (s : Scalar)
  | nested (b : Bytes)

/-- Read the value of a field. There is none if it is not written as the field has it. -/
def takeContent (checks : Bool) (name : Bytes) (f : FieldDesc) (t : Option WireType) (b : Bytes) :
    Except WireFault (Option (WireContent × Bytes)) := do
  if t ≠ some f.kind.wireType then return none
  match f.kind with
  | .message _ =>
    let (x, rest) ← takeLengthed b
    return some (.nested x, rest)
  | .group _ =>
    let (x, rest) ← takeGroup f.number b
    return some (.nested x, rest)
  | k =>
    match k.wireType with
    | .varint =>
      let (n, rest) ← takeVarint b
      return some (.scalar (k.ofVarint n), rest)
    | .fixed32 =>
      let (n, rest) ← takeFixed 4 b
      return some (.scalar (k.ofFixed n), rest)
    | .fixed64 =>
      let (n, rest) ← takeFixed 8 b
      return some (.scalar (k.ofFixed n), rest)
    | _ =>
      let (x, rest) ← takeLengthed b
      match textFault? checks name f (.string x) with
      | some e => .error (.content e)
      | none => return some (.scalar (.string x), rest)

/-- Read values written one after the other without tags. -/
def takePacked (k : FieldKind) : (fuel : Nat) → Bytes → Except WireFault (List FieldTree)
  | 0, _ => .error .truncated
  | _, [] => .ok []
  | fuel + 1, b => do
    let (s, rest) ← match k.wireType with
      | .fixed32 => (takeFixed 4 b).map fun (n, rest) => (k.ofFixed n, rest)
      | .fixed64 => (takeFixed 8 b).map fun (n, rest) => (k.ofFixed n, rest)
      | _ => (takeVarint b).map fun (n, rest) => (k.ofVarint n, rest)
    return .scalar s :: (← takePacked k fuel rest)

/-- Whether the values of a field can be written without tags. -/
def FieldKind.isPackable (k : FieldKind) : Bool :=
  match k.wireType with
  | .varint | .fixed32 | .fixed64 => true
  | _ => false

mutual

/-- Read fields and add them to a message. -/
def decodeInto (p : Pool) : (fuel : Nat) → (desc : MessageDesc) → MessageTree → Bytes →
    Except WireFault MessageTree
  | 0, _, _, _ => .error .truncated
  | _, _, m, [] => .ok m
  | fuel + 1, desc, m, b => do
    let (number, t, after) ← takeTag b
    let known ← match desc.fieldNumber? number with
      | none => .ok none
      | some f =>
        if p.isMap f then
          if t = some .bytes then do
            let (entry, rest) ← takeLengthed after
            let (k, x) ← decodeEntry p fuel f entry
            .ok (some (m.set f.number (.map (setTreeEntry k x (m.entries f.number))), rest))
          else .ok none
        else if f.cardinality = .repeated && t = some .bytes && f.kind.isPackable then do
          let (packed, rest) ← takeLengthed after
          let xs ← takePacked f.kind (packed.length + 1) packed
          .ok (some (xs.foldl (fun m x => m.append f.number x) m, rest))
        else do
          match ← takeContent (p.checksText desc.fullName) (desc.fieldName f) f t after with
          | none => .ok none
          | some (.scalar s, rest) =>
            let m := if f.cardinality = .repeated then m.append f.number (.scalar s)
              else m.put desc f (.scalar s)
            .ok (some (m, rest))
          | some (.nested x, rest) =>
            let inner := (p.message? (f.kind.messageName?.getD [])).getD default
            if f.cardinality = .repeated then
              let c ← decodeInto p fuel inner .empty x
              .ok (some (m.append f.number (.message c), rest))
            else
              let c ← decodeInto p fuel inner (m.child f.number) x
              .ok (some (m.put desc f (.message c), rest))
    match known with
    | some (m, rest) => decodeInto p fuel desc m rest
    | none =>
      let rest ← skipValue (2 * after.length + 2) number t after
      decodeInto p fuel desc (m.addUnknown (b.take (b.length - rest.length))) rest

/-- Read the key and the value of an entry of a map. -/
def decodeEntry (p : Pool) : (fuel : Nat) → FieldDesc → Bytes → Except WireFault (Scalar × FieldTree)
  | 0, _, _ => .error .truncated
  | fuel + 1, f, b => do
    let entry := (p.message? (f.kind.messageName?.getD [])).getD default
    let m ← decodeInto p fuel { entry with isMapEntry := false } .empty b
    let key := (entry.fieldNumber? 1).getD default
    let value := (entry.fieldNumber? 2).getD default
    let k := match m.get? 1 with
      | some (.scalar s) => s
      | _ => p.default key
    let x := match m.get? 2, value.kind.messageName? with
      | some x, _ => x
      | none, some _ => .message .empty
      | none, none => .scalar (p.default value)
    return (k, x)

end

/-- Read a message in binary form. -/
def decodeMessage (p : Pool) (name : Bytes) (b : Bytes) : Except WireFault MessageTree := do
  let desc := (p.message? name).getD { fullName := name, fields := [] }
  let m ← decodeInto p (2 * b.length + 2) desc .empty b
  match checkComplete p name m with
  | .ok _ => return m
  | .error e => .error (.content e)

end Stencil
