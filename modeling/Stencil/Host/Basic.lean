import Stencil.Machine.Job

/-!
# Host applications

What a program can do with data of its host depends on the host application: the
fields of its records, the methods of its types, its functions and the types it
registers. `Host` gathers this; everything that touches host data is written for
an arbitrary one.
-/

namespace Stencil

/-- A field of a record type. The fields of an embedded record are reached as if they
were fields of the record around. -/
structure HostField where
  name : Bytes
  type : HostType
  isExported : Bool := true
  isEmbedded : Bool := false
  deriving Repr, Inhabited

/-- The signature of a method. -/
structure HostMethod where
  name : Bytes
  ins : List HostType := []
  variadic : Bool := false
  outs : List HostType := []
  deriving Repr, Inhabited

/-- The type of a method once it is bound to its receiver. -/
def HostMethod.type (m : HostMethod) : HostType := .function m.ins m.variadic m.outs

/-- Calls a function of a host type with arguments of its parameter types. -/
abbrev HostCall := Value → List Value → Job (List Value)

/-- A type registered under a dotted name. -/
inductive Registered where
  /-- Instances are pointers to empty data of the type. -/
  | type (t : HostType)
  /-- Instances are made by a function. -/
  | maker (make : List Value → Job Value)

/-- A host application. -/
class Host where
  /-- The fields of a record type. -/
  fields : Bytes → List HostField
  /-- The methods of a type, in the order of their names. -/
  methods : HostType → List HostMethod
  /-- The name a type gives to its values, if it gives one. -/
  typeName? : HostType → Option Bytes
  /-- The text a type gives to a value, if it gives one. -/
  text? : Heap → HostType → Datum → Option Bytes
  /-- Whether the values of a type are sequences by its methods. -/
  isSequence : HostType → Bool
  /-- The length of such a sequence. -/
  length : Heap → HostType → Datum → Nat
  /-- The element of such a sequence. -/
  item : Heap → HostType → Datum → Nat → Value
  /-- Whether a type has its own way to iterate. -/
  isIterable : HostType → Bool
  /-- Begin to iterate over a value of such a type. -/
  start : Value → Job Unit
  /-- The element at a position of such an iteration. -/
  advance : Value → Nat → Job (Option Value)
  /-- End such an iteration. -/
  finish : Value → Job Unit
  /-- Call a method. -/
  callMethod : HostCall → Value → Bytes → List Value → Job (List Value)
  /-- Call a function. -/
  callFunction : HostCall → Bytes → List Value → Job (List Value)
  /-- A registered type. -/
  registered? : Bytes → Option Registered
  /-- The order in which the keys of a map are met, which may differ each time. -/
  enumerate : Heap → List Datum → List Datum
  /-- Every key is met, and each of them once. -/
  enumerate_perm : ∀ s keys, (enumerate s keys).Perm keys
  /-- Whether its decoder of JSON text says of an array or object that is open at the end of the
  text that it does not go on, and not that the text is wrong. -/
  endsOpen : Bool := false

/-- A host application with functions made for the language. -/
class Application extends Host where
  /-- Call a function of the application in a context, by its name. -/
  native : Nat → Bytes → List Value → Job Value

/-! ### Programs without a host

The command runs programs on their own: there are no records, functions or registered types
beside those of the language.
-/

/-- An application that adds nothing to the language. -/
@[reducible]
def standalone : Application where
  fields _ := []
  methods _ := []
  typeName? _ := none
  text? _ _ _ := none
  isSequence _ := false
  length _ _ _ := 0
  item _ _ _ _ := .null
  isIterable _ := false
  start _ := return
  advance _ _ := return none
  finish _ := return
  callMethod _ _ _ _ := return []
  callFunction _ _ _ := return []
  registered? _ := none
  enumerate _ keys := keys
  enumerate_perm _ _ := .rfl
  native _ _ _ := return .null

end Stencil
