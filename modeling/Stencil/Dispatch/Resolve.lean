import Stencil.Machine.Universe
import Stencil.Host.Slot

/-!
# Resolution of operations

An operation is resolved for the types of its operands to a binding, or it is not
defined for them. What is found depends on the operands only through their types.
-/

namespace Stencil

/-- Why an operation is not defined for its operands. -/
inductive DispatchError where
  | nullMember (name : Bytes)
  | noMember (type name hint : Bytes)
  | setNullMember (name : Bytes)
  | setNamespaceMember (name ns : Bytes)
  | noSettableMember (name type : Bytes)
  | manyIndices (type : Bytes) (n : Nat)
  | indexNull
  | stringElement
  | noItemAssignment (type : Bytes)
  | notIndexable (type : Bytes)
  | callNull
  | notFunction (type : Bytes)
  | nullMethod (name : Bytes)
  | noMethod (type name hint : Bytes)
  | createNamespace (ns : Bytes)
  | notType (type : Bytes)

/-- The wording of a failed resolution. -/
def DispatchError.message : DispatchError → Bytes
  | .nullMember name => Bytes.ofString "null has no member " ++ name
  | .noMember type name hint => type ++ " has no member " ++ name ++ hint
  | .setNullMember name => Bytes.ofString "cannot set member " ++ name ++ " of null"
  | .setNamespaceMember name ns =>
    Bytes.ofString "cannot assign to member " ++ name ++ " of namespace " ++ ns
  | .noSettableMember name type => Bytes.ofString "cannot set member " ++ name ++ " of " ++ type
  | .manyIndices type n => type ++ " does not support " ++ Bytes.ofNat n ++ " indices"
  | .indexNull => "cannot index null"
  | .stringElement => "cannot assign to element of string"
  | .noItemAssignment type => type ++ " does not support item assignment"
  | .notIndexable type => type ++ " is not indexable"
  | .callNull => "invalid call of null"
  | .notFunction type => Bytes.ofString "invalid call of non-function (" ++ type ++ ")"
  | .nullMethod name => Bytes.ofString "null has no method " ++ name
  | .noMethod type name hint => type ++ " has no method " ++ name ++ hint
  | .createNamespace ns => Bytes.ofString "cannot instantiate namespace " ++ ns
  | .notType type => type ++ " is not a type"

/-- Whether a value has attributes. -/
def Value.hasAttrs : Value → Bool
  | .object _ | .module _ | .pattern _ => true
  | _ => false

/-- Whether a value is a map of the host whose keys are strings. -/
def Value.isStringMap : Value → Bool
  | .host t _ => t.isStringMap
  | _ => false

section

variable [Host] (s : Heap)

/-- A member of the host type of a value. -/
def Value.member? (x : Value) (name : Bytes) : Option MemberPath :=
  (x.hostType? s).bind (Stencil.member? · name)

/-- The names of the members of the host type of a value. -/
def Value.memberNames (x : Value) : List Bytes :=
  ((x.hostType? s).map memberNamesOf).getD []

/-- Resolve an operation on a member of the host type of a value. -/
def Value.resolveMember (x : Value) (name : Bytes) (found : MemberPath → Binding)
    (missing : DispatchError) : Except DispatchError Binding :=
  match x.member? s name with
  | some m => .ok (found m)
  | none => .error missing

/-- Resolve the reading of a member. -/
def resolveGetMember (name : Bytes) (x : Value) : Except DispatchError Binding :=
  match x with
  | .null => .error (.nullMember name)
  | .nspace _ => .ok .getNamespaceMember
  | .message _ | .noMessage _ => .ok .getMessageField
  | x =>
    if x.hasAttrs then .ok .getAttr
    else if (x.method? name).isSome then .ok .getMethod
    else if x.isStringMap then .ok .getMapKey
    else
      x.resolveMember s name .getHostMember
        (.noMember (x.typeName s) name (didYouMean name (x.memberNames s)))

/-- Resolve the assignment to a member. -/
def resolveSetMember (name : Bytes) (x : Value) : Except DispatchError Binding :=
  match x with
  | .null => .error (.setNullMember name)
  | .object _ => .ok .setField
  | .nspace ns => .error (.setNamespaceMember name ns.name)
  | .message _ | .noMessage _ => .ok .setMessageField
  | x =>
    if x.isStringMap then .ok .setMapKey
    else x.resolveMember s name .setHostMember (.noSettableMember name (x.typeName s))

/-- Resolve the indexing of a host value. -/
def resolveHostIndex (set : Bool) (x : Value) (t : HostType) : Except DispatchError Binding :=
  match t.base with
  | .map _ _ => .ok (if set then .setMapIndex else .getMapIndex)
  | .slice _ => .ok (if set then .setSliceIndex else .getSliceIndex)
  | .array _ _ => if set then .error (.noItemAssignment (x.typeName s)) else .ok .getSliceIndex
  | _ =>
    .error (if set then .noItemAssignment (x.typeName s) else .notIndexable (x.typeName s))

/-- Resolve the reading of an element, or the assignment to one. -/
def resolveIndex (arity : Nat) (set : Bool) (x : Value) : Except DispatchError Binding :=
  if arity ≠ 1 then .error (.manyIndices (x.typeName s) arity)
  else
    match x with
    | .null => .error .indexNull
    | .object _ => .ok (if set then .setObjectIndex else .getObjectIndex)
    | .list _ | .repeated .. => .ok (if set then .setSequenceIndex else .getSequenceIndex)
    | .string _ => if set then .error .stringElement else .ok .getStringIndex
    | .host t _ =>
      if Host.isSequence t && !set then .ok .getSequenceIndex
      else resolveHostIndex s set x t
    | x =>
      .error (if set then .noItemAssignment (x.typeName s) else .notIndexable (x.typeName s))

/-- Whether values of the type are functions. -/
def HostType.isFunction (t : HostType) : Bool :=
  match t.base with
  | .function _ _ _ => true
  | _ => false

/-- Whether a value is a function of the host that is not missing. -/
def Value.isHostFunction : Value → Bool
  | .host _ .nil => false
  | .host t _ => t.isFunction
  | _ => false

/-- Resolve a call of a value. -/
def resolveInvoke (x : Value) : Except DispatchError Binding :=
  match x with
  | .null => .error .callNull
  | .function .. | .builtin .. | .bound .. => .ok .invokeCallable
  | .type _ => .ok .invokeType
  | x => if x.isHostFunction then .ok .invokeHost else .error (.notFunction (x.typeName s))

/-- Resolve a call of a method. -/
def resolveCall (name : Bytes) (x : Value) : Except DispatchError Binding :=
  match x with
  | .null => .error (.nullMethod name)
  | .nspace _ => .ok .callNamespaceMember
  | .message _ | .noMessage _ => .error (.noMethod (x.typeName s) name [])
  | x =>
    if x.hasAttrs then .ok .callAttr
    else if (x.method? name).isSome then .ok .callMethod
    else
      let candidates := match x.methodNames with
        | [] => x.memberNames s
        | names => names
      x.resolveMember s name .callHostMember
        (.noMethod (x.typeName s) name (didYouMean name candidates))

/-- Resolve the making of an instance. -/
def resolveCreate (x : Value) : Except DispatchError Binding :=
  match x with
  | .type _ => .ok .invokeType
  | .nspace ns => .error (.createNamespace ns.name)
  | x => .error (.notType (x.typeName s))

/-- Resolve a binary operator. The common ones on ints and on strings have bindings of
their own. -/
def resolveBinary (op : Operator) (x y : Value) : Binding :=
  match x, y with
  | .int _, .int _ =>
    match op with
    | .binary .add => .addInts
    | .binary .subtract => .subtractInts
    | .binary .less => .lessInts
    | .binary .equal => .equalInts
    | _ => .binary
  | .string _, .string _ =>
    match op with
    | .binary .add => .addStrings
    | .binary .equal => .equalStrings
    | _ => .binary
  | _, _ => .binary

/-- Resolve the operation of a call site for its operands. -/
def CallSite.resolve (site : CallSite) (x y : Value) : Except DispatchError Binding :=
  match site.kind with
  | .getMember => resolveGetMember s site.name x
  | .setMember => resolveSetMember s site.name x
  | .getIndex => resolveIndex s site.arity false x
  | .setIndex => resolveIndex s site.arity true x
  | .invoke => resolveInvoke s x
  | .call => resolveCall s site.name x
  | .create => resolveCreate s x
  | .binary => .ok (resolveBinary site.op x y)
  | .unary => .ok .unary

/-- Whether a value is a datum of the host in the place of a value of the language. -/
def Value.isDisguised : Value → Bool
  | .host t _ => t.isOwn
  | _ => false

/-- Whether a value is a function of the host that is missing. -/
def Value.isMissingFunction : Value → Bool
  | .host t .nil => t.isFunction
  | _ => false

/-- Whether a call site is applied to what no host hands over: to a missing function, or to a
datum that is a value of the language by its type. -/
def CallSite.isStray (site : CallSite) (x y : Value) : Bool :=
  x.isDisguised || (site.kind = .binary && y.isDisguised) ||
    (site.kind = .invoke && x.isMissingFunction)

/-- The shape of the operands of a call site. -/
def CallSite.shape (site : CallSite) (x y : Value) : Shape :=
  ⟨x.hostType? s, if site.kind = .binary then y.hostType? s else none⟩

end

end Stencil
