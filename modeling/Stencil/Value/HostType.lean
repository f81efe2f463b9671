import Stencil.Text.Bytes

/-!
# Types of host data

A program is run by a host application, which may hand it data of its own:
numbers of any width, sequences, maps, records, pointers and functions. Host
data carry their type at run time. `HostType` describes these types;
`HostType.text` is how they are named in messages.
-/

namespace Stencil

/-- The integer types of a host. -/
inductive IntKind where
  | int | int8 | int16 | int32 | int64 | uint | uint8 | uint16 | uint32 | uint64 | uintptr
  deriving DecidableEq, Repr, Inhabited

namespace IntKind

/-- The name of an integer type. -/
def name : IntKind → String
  | .int => "int"
  | .int8 => "int8"
  | .int16 => "int16"
  | .int32 => "int32"
  | .int64 => "int64"
  | .uint => "uint"
  | .uint8 => "uint8"
  | .uint16 => "uint16"
  | .uint32 => "uint32"
  | .uint64 => "uint64"
  | .uintptr => "uintptr"

/-- Whether an integer type has negative values. -/
def isSigned : IntKind → Bool
  | .int | .int8 | .int16 | .int32 | .int64 => true
  | _ => false

/-- The number of bits of an integer type. -/
def bits : IntKind → Nat
  | .int8 | .uint8 => 8
  | .int16 | .uint16 => 16
  | .int32 | .uint32 => 32
  | _ => 64

/-- The least value of an integer type. -/
def least (k : IntKind) : Int := if k.isSigned then -(Nat.pow 2 (k.bits - 1)) else 0

/-- The greatest value of an integer type. -/
def greatest (k : IntKind) : Int :=
  if k.isSigned then Nat.pow 2 (k.bits - 1) - 1 else Nat.pow 2 k.bits - 1

/-- Whether an integer is a value of an integer type. -/
def holds (k : IntKind) (n : Int) : Bool := k.least ≤ n && n ≤ k.greatest

/-- The value of an integer type that agrees with `n` in its low bits. -/
def wrap (k : IntKind) (n : Int) : Int :=
  if k.isSigned then n.bmod (Nat.pow 2 k.bits) else n % Nat.pow 2 k.bits

end IntKind

/-- A type of host data. Records, messages and interfaces are known by their names. -/
inductive HostType where
  | bool
  | int (k : IntKind)
  | float32
  | float64
  | string
  | any
  | named (name : Bytes) (base : HostType)
  | record (name : Bytes)
  /-- A record that is a message. -/
  | message (name : Bytes)
  | iface (name : Bytes)
  | pointer (t : HostType)
  | slice (t : HostType)
  | array (n : Nat) (t : HostType)
  | map (key value : HostType)
  | channel (t : HostType)
  | function (ins : List HostType) (variadic : Bool) (outs : List HostType)
  deriving Repr, Inhabited

namespace HostType

mutual

/-- Whether two types are the same. -/
def beq : HostType → HostType → Bool
  | .bool, .bool | .float32, .float32 | .float64, .float64 | .string, .string | .any, .any => true
  | .int j, .int k => j = k
  | .named m s, .named n t => m = n && beq s t
  | .record m, .record n => m = n
  | .message m, .message n => m = n
  | .iface m, .iface n => m = n
  | .pointer s, .pointer t => beq s t
  | .slice s, .slice t => beq s t
  | .array m s, .array n t => m = n && beq s t
  | .map j s, .map k t => beq j k && beq s t
  | .channel s, .channel t => beq s t
  | .function a v r, .function b w q => beqAll a b && v == w && beqAll r q
  | _, _ => false

/-- Whether two lists of types are the same. -/
def beqAll : List HostType → List HostType → Bool
  | [], [] => true
  | s :: ss, t :: ts => beq s t && beqAll ss ts
  | _, _ => false

end

instance : BEq HostType := ⟨beq⟩

/-- The type a named type is made from. -/
def base : HostType → HostType
  | .named _ t => t
  | t => t

/-- The integer kind of an integer type, named or not. -/
def intKind? (t : HostType) : Option IntKind :=
  match t.base with
  | .int k => some k
  | _ => none

/-- Whether values of the type are references that may be missing. -/
def isNilable (t : HostType) : Bool :=
  match t.base with
  | .any | .iface _ | .pointer _ | .slice _ | .map _ _ | .channel _ | .function _ _ _ => true
  | _ => false

/-- Whether a slot of the type holds a value together with its own type. -/
def isInterface (t : HostType) : Bool :=
  match t with
  | .any | .iface _ => true
  | _ => false

mutual

/-- How a type is written in messages. -/
def text : HostType → Bytes
  | .bool => "bool"
  | .int k => k.name
  | .float32 => "float32"
  | .float64 => "float64"
  | .string => "string"
  | .any => "interface \x7b\x7d"
  | .named n _ | .record n | .message n | .iface n => n
  | .pointer t => Bytes.ofString "*" ++ t.text
  | .slice t => Bytes.ofString "[]" ++ t.text
  | .array n t => Bytes.ofString "[" ++ Bytes.ofNat n ++ "]" ++ t.text
  | .map k v => Bytes.ofString "map[" ++ k.text ++ "]" ++ v.text
  | .channel t => Bytes.ofString "chan " ++ t.text
  | .function ins variadic outs =>
    Bytes.ofString "func(" ++ paramsText variadic ins ++ ")" ++ resultsText outs

/-- The parameters of a function type; the last one may stand for any number. -/
def paramsText (variadic : Bool) : List HostType → Bytes
  | [] => []
  | [.slice t] => if variadic then Bytes.ofString "..." ++ t.text else Bytes.ofString "[]" ++ t.text
  | [t] => t.text
  | t :: ts => t.text ++ ", " ++ paramsText variadic ts

/-- The results of a function type. -/
def resultsText : List HostType → Bytes
  | [] => []
  | [t] => Bytes.ofString " " ++ t.text
  | t :: ts => Bytes.ofString " (" ++ t.text ++ commaText ts ++ ")"

/-- Types, each after a comma. -/
def commaText : List HostType → Bytes
  | [] => []
  | t :: ts => Bytes.ofString ", " ++ t.text ++ commaText ts

end

end HostType

/-- The type of errors of a host. -/
def HostType.error : HostType := .iface (Bytes.ofString "error")

/-- A string of bytes of a host. -/
def HostType.bytes : HostType := .slice (.int .uint8)

end Stencil
