import Stencil.Decimal.Numeral
import Stencil.Text.Quoted
import Stencil.Value.HostType
import Stencil.Value.Native

/-!
# Values

The values a program computes with. Numbers, strings and the like are plain
data. Lists, objects, functions and everything else that has an identity are
references into the store of a run.

Data of the host application are values too. `Value.host` carries them with
their type; a `Datum` is what a typed slot of the host (an element, a field, an
entry of a map) holds.
-/

namespace Stencil

/-- The type of a message: the collection of definitions it belongs to, and its full
name there. -/
structure MessageType where
  pool : Nat
  name : Bytes
  deriving DecidableEq, Repr, Inhabited

/-- A type that can be instantiated by name. -/
inductive TypeRef where
  /-- A type registered by the host application. -/
  | registered (name : Bytes)
  /-- A type of messages. -/
  | message (t : MessageType)
  deriving DecidableEq, Repr, Inhabited

/-- A time zone with a fixed offset in seconds east of UTC. Two zones made separately
differ even if they agree in name and offset; `stamp` tells them apart. -/
structure Zone where
  name : Bytes
  offset : Int
  isUTC : Bool
  stamp : Nat
  deriving DecidableEq, Repr, Inhabited

/-- The zone of universal time. -/
def Zone.utc : Zone := ⟨Bytes.ofString "UTC", 0, true, 0⟩

/-- An instant: seconds since the start of 1970, nanoseconds within the second, and
the zone in which it is shown. -/
structure Moment where
  sec : Int
  nsec : Nat
  zone : Zone
  deriving DecidableEq, Repr, Inhabited

mutual

/-- A node of a tree of namespaces. Trees loaded separately differ by their stamp. -/
inductive Namespace where
  | mk (stamp : Nat) (name : Bytes) (members : List (Bytes × NamespaceMember))

/-- A member of a namespace. -/
inductive NamespaceMember where
  | nspace (ns : Namespace)
  | type (t : TypeRef)

end

instance : Inhabited Namespace := ⟨.mk 0 [] []⟩
instance : Inhabited NamespaceMember := ⟨.type default⟩

/-- The stamp of the tree a namespace belongs to. -/
def Namespace.stamp : Namespace → Nat
  | .mk stamp _ _ => stamp

/-- The dotted name of a namespace. -/
def Namespace.name : Namespace → Bytes
  | .mk _ name _ => name

/-- The members of a namespace in the order they were added. -/
def Namespace.members : Namespace → List (Bytes × NamespaceMember)
  | .mk _ _ members => members

/-- The elements of a sequence of the host: an array of its own, or those of a list of
the language, which it shares. -/
inductive SliceBase where
  | array (id : Nat)
  | list (id : Nat)
  deriving DecidableEq, Repr, Inhabited

/-- The name and the parameters of a function. -/
structure Heading where
  name : Bytes
  params : List Bytes
  deriving DecidableEq, Repr, Inhabited

mutual

/-- A value. -/
inductive Value where
  | null
  | bool (b : Bool)
  | int (n : Int64)
  | float (x : Float)
  | string (s : Bytes)
  | list (id : Nat)
  | object (id : Nat)
  /-- A function of the language, told apart from others by `id`. -/
  | function (id : Nat) (heading : Heading)
  /-- A built-in function, bound to a receiver unless that is `null`. -/
  | builtin (fn : Native) (recv : Value) (stamp : Nat)
  | module (id : Nat)
  | nspace (ns : Namespace)
  | type (t : TypeRef)
  | message (id : Nat)
  /-- The missing message of a type: it reads as empty and cannot be changed. -/
  | noMessage (t : MessageType)
  /-- A repeated field of a message; `items` is missing for a field of a missing
  message. -/
  | repeated (owner : MessageType) (field : Nat) (items : Option Nat) (stamp : Nat)
  | context (id : Nat)
  | enumerator (id : Nat)
  /-- The elements of a sequence that satisfy a condition. -/
  | filtered (id : Nat)
  | pattern (id : Nat)
  | moment (m : Moment)
  | location (z : Zone)
  /-- A method of a value reached through its host type. -/
  | bound (recv : Value) (method : Bytes)
  /-- Data of the host application. -/
  | host (t : HostType) (d : Datum)

/-- What a typed slot of the host holds. -/
inductive Datum where
  | bool (b : Bool)
  | int (n : Int)
  | float (x : Float)
  | string (s : Bytes)
  /-- A missing reference. -/
  | nil
  /-- A pointer to a cell. -/
  | cell (id : Nat)
  | slice (base : SliceBase) (len : Nat)
  | array (items : List Datum)
  | map (id : Nat)
  | record (fields : List Datum)
  /-- A function of the host, by name. -/
  | function (name : Bytes)
  /-- A function of the language in the role of a host function. -/
  | adapted (fn : Value)
  /-- A value with its own type. -/
  | any (v : Value)

end

instance : Inhabited Value := ⟨.null⟩
instance : Inhabited Datum := ⟨.nil⟩

/-- Whether a value is `null`. -/
def Value.isNull : Value → Bool
  | .null => true
  | _ => false

/-- Whether a value is a function of the language. -/
def Value.isFunction : Value → Bool
  | .function .. => true
  | _ => false

/-!
## The written form of basic values

Null, booleans, numbers and strings have an output form that depends on nothing
but the value.
-/

/-- Floats are written with the fewest digits that read back; whole ones keep a
fraction. -/
def floatText (x : Float) : Bytes := { Decimal.plain with keepFraction := true }.float x

/-- The output form of a basic value: null is empty and strings stand for themselves. -/
def Value.basicText? : Value → Option Bytes
  | .null => some []
  | .bool b => some (if b then "true" else "false")
  | .int n => some (Bytes.ofInt n.toInt)
  | .float x => some (floatText x)
  | .string s => some s
  | _ => none

end Stencil
