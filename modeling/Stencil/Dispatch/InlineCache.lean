import Stencil.Value.HostType

/-!
# Inline caches

The cache of a call site remembers the most recent resolution of its operation:
the types of the operands it was resolved for, and the result. It holds at most
one entry and counts the lookups that found their entry and those that did not.
-/

namespace Stencil

/-- The types of the operands an operation depends on; null has no type. Only binary
operators depend on their second operand. -/
structure Shape where
  x : Option HostType
  y : Option HostType
  deriving Repr, Inhabited

instance : BEq Shape := ⟨fun a b => a.x == b.x && a.y == b.y⟩

/-- The written form of a type that may be missing. -/
def optTypeText : Option HostType → Bytes
  | none => "nil"
  | some t => t.text

/-- The written form of a shape. -/
def Shape.text (s : Shape) : Bytes := optTypeText s.x ++ "," ++ optTypeText s.y

/-- A cache of resolutions of type `α`. -/
structure InlineCache (α : Type) where
  entry : Option (Shape × α) := none
  hits : Nat := 0
  misses : Nat := 0
  deriving Inhabited

namespace InlineCache

variable {α : Type}

/-- What is stored for a shape. -/
def find? (c : InlineCache α) (s : Shape) : Option α :=
  match c.entry with
  | some (shape, target) => if shape == s then some target else none
  | none => none

/-- Look a shape up and count the outcome. -/
def lookup (c : InlineCache α) (s : Shape) : Option α × InlineCache α :=
  match c.find? s with
  | some target => (some target, { c with hits := c.hits + 1 })
  | none => (none, { c with misses := c.misses + 1 })

/-- Replace the entry. -/
def store (c : InlineCache α) (s : Shape) (target : α) : InlineCache α :=
  { c with entry := some (s, target) }

/-- The empty cache with its counters at zero. -/
def reset (_ : InlineCache α) : InlineCache α := {}

end InlineCache

/-! ### Bindings

A binding is what an operation is resolved to for operands of given types. It is valid for
all operands of these types: what depends on the operands themselves is left to its execution.
-/

/-- How a member of a host type is reached. -/
inductive MemberPath where
  | method (name : Bytes)
  /-- A field, by the positions that lead to it; `deref` tells that the receiver is a
  pointer to the record. -/
  | field (path : List Nat) (deref : Bool)
  deriving DecidableEq, Repr, Inhabited

/-- A resolved operation. -/
inductive Binding where
  | getAttr | getNamespaceMember | getMessageField | getMethod | getMapKey
  | getHostMember (m : MemberPath)
  | setField | setMessageField | setMapKey
  | setHostMember (m : MemberPath)
  | getObjectIndex | setObjectIndex | getSequenceIndex | setSequenceIndex | getStringIndex
  | getMapIndex | setMapIndex | getSliceIndex | setSliceIndex
  | invokeCallable | invokeType | invokeHost
  | callAttr | callNamespaceMember | callMethod
  | callHostMember (m : MemberPath)
  | addInts | subtractInts | lessInts | equalInts | addStrings | equalStrings
  | binary | unary
  deriving DecidableEq, Repr, Inhabited

end Stencil
