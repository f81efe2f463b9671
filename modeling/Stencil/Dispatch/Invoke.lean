import Stencil.Dispatch.Resolve
import Stencil.Host.Call
import Stencil.Machine.Store

/-!
# Execution of resolved operations

What a binding does with operands of the types it was resolved for, and the
dispatch of a call site: the binding in its cache if the types are those of the
entry, and a new resolution otherwise.
-/

namespace Stencil

/-- The operand at a position; one that is not there is a panic. -/
def operand (args : List Value) (i : Nat) : Job Value :=
  match args[i]? with
  | some v => return v
  | none => do
    let _ ← positionIn i args.length
    return .null

/-- An index of a sequence of `n` elements. -/
def indexIn [Host] (i : Value) (n : Nat) : Job Nat := do
  match i with
  | .int k =>
    if k < 0 || Int64.ofNat n ≤ k then
      Job.error (Bytes.ofString "index " ++ Bytes.ofInt k.toInt ++ " out of range [0:" ++
        Bytes.ofNat n ++ "]")
    else return k.toNatClampNeg
  | i => Job.error (Bytes.ofString "index: got " ++ i.typeName (← get) ++ ", want int")

/-- The name of a field given as an index. -/
def fieldIndex [Host] (i : Value) : Job Bytes := do
  match i with
  | .string name => return name
  | i => Job.error (Bytes.ofString "object index: got " ++ i.typeName (← get) ++ ", want string")

/-- The member of a namespace. -/
def namespaceMember (x : Value) (name : Bytes) : Job Value :=
  match x with
  | .nspace ns =>
    match ns.find? name with
    | some (.nspace inner) => return .nspace inner
    | some (.type t) => return .type t
    | none =>
      Job.error (Bytes.ofString "namespace " ++ ns.name ++ " has no member " ++ name)
  | _ => return .null

/-- Hash the key of a map. A part of it whose type has no hash, which only a slot of an interface type
can hold, is a panic. -/
def hashKey [Host] (key : Datum) : Job Unit :=
  match key.unhashable? with
  | some t => Job.panic (Bytes.ofString "runtime error: hash of unhashable type " ++ t.text)
  | none => return

/-- The entry of a map of the host, or null. -/
def mapEntry [Host] (t : HostType) (d key : Datum) : Job Value := do
  hashKey key
  return ((d.find? (← get) key).map (Value.fromSlot t.elem)).getD .null

/-- Set an entry of a map of the host. -/
def setMapEntryOf [Host] (d key x : Datum) : Job Unit := do
  hashKey key
  match d with
  | .map id => Job.modify fun s => { s with maps := s.maps.modify id (setEntry key x) }
  | _ => return

/-- The failure to change a missing map. -/
def nilMap {α : Type} : Job α := Job.error "assignment to entry in nil map"

/-- Read an element of a sequence. -/
def getSequenceItem [Host] (x i : Value) : Job Value := do
  let s ← get
  let k ← indexIn i ((x.length? s).getD 0)
  match x with
  | .list id => return (s.list id).getD k .null
  | x => return x.item s k

/-- Assign to an element of a sequence. -/
def setSequenceItem [Host] (fuel : Nat) (x i y : Value) : Job Unit := do
  let k ← indexIn i ((x.length? (← get)).getD 0)
  match x with
  | .list id => Job.modifyList id (·.setIfInBounds k y)
  | x => setRepeated fuel x k y

/-- Read an element of a map of the host. -/
def getMapItem [Host] (fuel : Nat) (x i : Value) : Job Value := do
  match x with
  | .host t d =>
    let key ← Job.explaining "map key: " (i.convert fuel t.key)
    mapEntry t d (key.toSlot t.key)
  | _ => return .null

/-- Assign to an element of a map of the host. -/
def setMapItem [Host] (fuel : Nat) (x i y : Value) : Job Unit := do
  match x with
  | .host _ .nil => nilMap
  | .host t d =>
    let key ← Job.explaining "map key: " (i.convert fuel t.key)
    let v ← y.convert fuel t.elem
    setMapEntryOf d (key.toSlot t.key) (v.toSlot t.elem)
  | _ => return

/-- Assign to an element of a sequence of the host. -/
def setSliceItem [Host] (fuel : Nat) (x i y : Value) : Job Unit := do
  match x with
  | .host t d =>
    let k ← indexIn i (d.length (← get))
    let v ← y.convert fuel t.elem
    Job.setItem d k (v.toSlot t.elem)
  | _ => return

/-- Read an element of a sequence of the host. -/
def getSliceItem [Host] (x i : Value) : Job Value := do
  let s ← get
  match x with
  | .host t d =>
    let k ← indexIn i (d.length s)
    return (((d.items s)[k]?).map (Value.fromSlot t.elem)).getD .null
  | _ => return .null

/-- Assign to the entry of a map of the host that a name stands for. -/
def setMapKey [Host] (fuel : Nat) (x : Value) (name : Bytes) (y : Value) :
    Job Unit := do
  match x with
  | .host _ .nil => nilMap
  | .host t d =>
    let v ← y.convert fuel t.elem
    setMapEntryOf d (.string name) (v.toSlot t.elem)
  | _ => return

/-- A built-in method bound to its receiver. -/
def bindMethod (x : Value) (name : Bytes) : Job Value := do
  match x.method? name with
  | some m => return .builtin m x (← Job.freshStamp)
  | none => return .null

/-- Make an instance of the type that is the first operand. -/
def invokeType [Host] (fuel : Nat) (args : List Value) : Job Value :=
  match args with
  | .type t :: rest => construct fuel t rest
  | _ => return .null

/-- What a resolved operation comes to: a value, or the call of a function. -/
inductive Reply where
  | value (v : Value)
  | call (fn : Value) (args : List Value)
  deriving Inhabited

/-- The value of a resolved operation of a call site whose first operand is `x`. Operations
that call a function have none of their own. -/
def CallSite.compute [Host] (fuel : Nat) (site : CallSite) (args : List Value) (x : Value)
    (b : Binding) : Job Value := do
  match b with
  | .getAttr => getAttr x site.name
  | .getNamespaceMember => namespaceMember x site.name
  | .getMessageField => getMessageField x site.name
  | .getMethod => bindMethod x site.name
  | .getMapKey =>
    match x with
    | .host t d => mapEntry t d (.string site.name)
    | _ => return .null
  | .getHostMember m => getMember m x
  | .setField =>
    let y ← operand args 1
    match x with
    | .object id => Job.setField id site.name y
    | _ => return y
    return y
  | .setMessageField =>
    let y ← operand args 1
    setMessageField fuel fuel x site.name y
    return y
  | .setMapKey =>
    let y ← operand args 1
    setMapKey fuel x site.name y
    return y
  | .setHostMember m =>
    let y ← operand args 1
    setMember fuel m x y
    return y
  | .getObjectIndex => getAttr x (← fieldIndex (← operand args 1))
  | .setObjectIndex =>
    let name ← fieldIndex (← operand args 1)
    let y ← operand args 2
    match x with
    | .object id => Job.setField id name y
    | _ => return y
    return y
  | .getSequenceIndex => getSequenceItem x (← operand args 1)
  | .setSequenceIndex =>
    let y ← operand args 2
    setSequenceItem fuel x (← operand args 1) y
    return y
  | .getStringIndex =>
    let b := x.bytes
    let k ← indexIn (← operand args 1) b.length
    return .string ((b.drop k).take 1)
  | .getMapIndex => getMapItem fuel x (← operand args 1)
  | .setMapIndex =>
    let y ← operand args 2
    setMapItem fuel x (← operand args 1) y
    return y
  | .getSliceIndex => getSliceItem x (← operand args 1)
  | .setSliceIndex =>
    let y ← operand args 2
    setSliceItem fuel x (← operand args 1) y
    return y
  | .invokeHost =>
    match x.signature? (← get) with
    | some g => callHost fuel x g args.tail
    | none => return .null
  | .invokeType => invokeType fuel args
  | .callNamespaceMember =>
    match ← namespaceMember x site.name with
    | .type t => construct fuel t args.tail
    | v => Job.error (Bytes.ofString "invalid call of " ++ v.typeName (← get))
  | .addInts => return .int (x.int64 + (← operand args 1).int64)
  | .subtractInts => return .int (x.int64 - (← operand args 1).int64)
  | .lessInts => return .bool (x.int64 < (← operand args 1).int64)
  | .equalInts => return .bool (x.int64 == (← operand args 1).int64)
  | .addStrings => return .string (x.bytes ++ (← operand args 1).bytes)
  | .equalStrings => return .bool (x.bytes == (← operand args 1).bytes)
  | .binary => applyBinary site.op x (← operand args 1)
  | .unary => applyUnary site.op x
  | .invokeCallable | .callAttr | .callMethod | .callHostMember _ => return .null

/-- Perform a resolved operation of a call site. -/
def CallSite.perform [Host] (fuel : Nat) (site : CallSite) (args : List Value) (b : Binding) :
    Job Reply := do
  let x ← operand args 0
  match b with
  | .invokeCallable => return .call x args.tail
  | .callAttr => return .call (← getAttr x site.name) args.tail
  | .callMethod => return .call (← bindMethod x site.name) args.tail
  | .callHostMember m => return .call (← getMember m x) args.tail
  | b => return .value (← site.compute fuel args x b)

/-! ### Caches -/

/-- Look a shape up in the cache of a call site of a unit. -/
def Caches.lookup (c : Caches) (unit site : Nat) (shape : Shape) : Option Binding × Caches :=
  let (found, cache) := ((c.entries.getD unit #[]).getD site {}).lookup shape
  (found,
    { entries := c.entries.modify unit fun cs => cs.setIfInBounds site cache
      lookups := (unit, site, found.isSome) :: c.lookups })

/-- Change the cache of a call site of a unit. -/
def Caches.modify (c : Caches) (unit site : Nat)
    (f : InlineCache Binding → InlineCache Binding) : Caches :=
  { c with entries := c.entries.modify unit fun cs => cs.modify site f }

/-- Look a shape up in the cache of a call site of a unit. -/
def lookupCache (unit site : Nat) (shape : Shape) : Action (Option Binding) := do
  let s ← get
  let (found, caches) := s.caches.lookup unit site shape
  set { s with caches }
  return found

/-- Change the cache of a call site of a unit. -/
def modifyCache (unit site : Nat) (f : InlineCache Binding → InlineCache Binding) : Action Unit :=
  modify fun s => { s with caches := s.caches.modify unit site f }

/-- Resolve the operation of a call site for its operands without its cache. -/
def CallSite.bind [Host] (site : CallSite) (x y : Value) : Action Binding := do
  match site.resolve (← get).toHeap x y with
  | .ok b => return b
  | .error e => Action.fail e.message

/-- Carry out a resolved operation of a call site in a context. -/
def CallSite.carryOut [Host] (call : Callback) (fuel ctx : Nat) (site : CallSite)
    (args : List Value) (b : Binding) : Action Value := do
  match ← (site.perform fuel args b).run call with
  | .value v => return v
  | .call fn args => call ctx fn args

/-- Perform the operation of a call site, whose operands `x` and `y` decide what it is. -/
def dispatchOn [Host] (call : Callback) (fuel : Nat) (ctx unit : Nat) (site : CallSite)
    (args : List Value) (x y : Value) : Action Value := do
  Action.count fun t => { t with strays := t.strays + (site.isStray x y).toNat }
  let shape := site.shape (← get).toHeap x y
  match ← lookupCache unit site.id shape with
  | some b => site.carryOut call fuel ctx args b
  | none =>
    let b ← site.bind x y
    modifyCache unit site.id (·.store shape b)
    site.carryOut call fuel ctx args b

/-- Perform the operation of a call site. -/
def dispatch [Host] (call : Callback) (fuel : Nat) (ctx unit : Nat) (site : CallSite)
    (args : List Value) : Action Value := do
  let x ← operand args 0
  let y ← if site.kind = .binary then operand args 1 else pure .null
  dispatchOn call fuel ctx unit site args x y

end Stencil
