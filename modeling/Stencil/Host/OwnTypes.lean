import Stencil.Host.Basic

/-!
# The language's values as host data

The values of the language are data of the host like any other: they have a host
type, and their types have methods and fields. This is how a host function sees a
list, and how a program reaches the methods of a list that the language does not
define itself.
-/

namespace Stencil

namespace HostType

/-- A pointer to a record of the language. -/
def own (name : String) : HostType := .pointer (.record name)

def list : HostType := own "happy.List"
def object : HostType := own "happy.Object"
def closure : HostType := own "happy.Function"
def builtin : HostType := own "happy.Builtin"
def module : HostType := own "happy.Module"
def nspace : HostType := own "catalog.Namespace"
def registered : HostType := own "catalog.GoType"
def messageType : HostType := .record "catalog.ProtoType"
def repeated : HostType := own "happy.RepeatedField"
def context : HostType := own "happy.RuntimeContext"
def enumerator : HostType := own "happy.enumerator"
def filtered : HostType := own "happy.WhereIterable"
def pattern : HostType := own "regexp.Regexp"
def moment : HostType := .record "time.Time"
def location : HostType := own "time.Location"
def boundMethod : HostType := .record "happy.goFunc"
def duration : HostType := .named "time.Duration" (.int .int64)
def month : HostType := .named "time.Month" (.int .int)
def weekday : HostType := .named "time.Weekday" (.int .int)
def iterator : HostType := .iface "happy.Iterator"
def dictionary : HostType := .named "happy.StringDict" (.map .string .any)
def reflected : HostType := .iface "reflect.Type"

end HostType

/-- The host type of a value; null has none. -/
def Value.hostType? (s : Heap) : Value → Option HostType
  | .null => none
  | .bool _ => some .bool
  | .int _ => some (.int .int64)
  | .float _ => some .float64
  | .string _ => some .string
  | .list _ => some .list
  | .object _ => some .object
  | .function .. => some .closure
  | .builtin .. => some .builtin
  | .module _ => some .module
  | .nspace _ => some .nspace
  | .type (.registered _) => some .registered
  | .type (.message _) => some .messageType
  | .message id =>
    let t := (s.messages.getD id default).type
    some ((s.pool t).hostType t.name)
  | .noMessage t => some ((s.pool t).hostType t.name)
  | .repeated .. => some .repeated
  | .context _ => some .context
  | .enumerator _ => some .enumerator
  | .filtered _ => some .filtered
  | .pattern _ => some .pattern
  | .moment _ => some .moment
  | .location _ => some .location
  | .bound .. => some .boundMethod
  | .host t _ => some t

/-- The types of the values of the language, messages apart. -/
def ownTypes : List HostType :=
  [.bool, .int .int64, .float64, .string, .list, .object, .closure, .builtin, .module, .nspace,
   .registered, .messageType, .repeated, .context, .enumerator, .filtered, .pattern, .moment,
   .location, .boundMethod]

/-- Whether the values of a type are values of the language. -/
def HostType.isOwn : HostType → Bool
  | .pointer (.message _) => true
  | t => ownTypes.any (· == t)

private def textMethod : HostMethod := { name := "String", outs := [.string] }

private def callMethod : HostMethod :=
  { name := "CallInternal", ins := [.context, .slice .any], outs := [.any, .error] }

private def nameMethod : HostMethod := { name := "Name", outs := [.string] }

/-- The methods of lists. -/
def listTypeMethods : List HostMethod :=
  [{ name := "Append", ins := [.any] },
   { name := "Clear" },
   { name := "Elems", outs := [.slice .any] },
   { name := "Index", ins := [.int .int], outs := [.any] },
   { name := "Iterate", outs := [.iterator] },
   { name := "Len", outs := [.int .int] },
   { name := "SetIndex", ins := [.int .int, .any], outs := [.error] },
   textMethod]

/-- The methods of functions. -/
def closureTypeMethods : List HostMethod :=
  [callMethod, nameMethod,
   { name := "NumParams", outs := [.int .int] },
   { name := "Param", ins := [.int .int], outs := [.string] },
   textMethod]

/-- The methods of built-in functions. -/
def builtinTypeMethods : List HostMethod :=
  [{ name := "BindReceiver", ins := [.any], outs := [.builtin] },
   callMethod, nameMethod,
   { name := "Receiver", outs := [.any] },
   textMethod]

/-- The methods of things with attributes. -/
def attributeMethods : List HostMethod :=
  [{ name := "Attr", ins := [.string], outs := [.any, .error] },
   { name := "AttrNames", outs := [.slice .string] }]

/-- The methods of objects. -/
def objectTypeMethods : List HostMethod :=
  attributeMethods ++
  [{ name := "Get", ins := [.string], outs := [.any, .bool] },
   { name := "Has", ins := [.string], outs := [.bool] },
   { name := "Len", outs := [.int .int] },
   { name := "SetField", ins := [.string, .any], outs := [.error] },
   textMethod]

/-- The methods of namespaces. -/
def namespaceTypeMethods : List HostMethod :=
  [{ name := "GetMember", ins := [.string], outs := [.any, .bool] },
   { name := "HasMember", ins := [.string], outs := [.bool] },
   { name := "MemberNames", outs := [.slice .string] },
   nameMethod,
   { name := "SetMember", ins := [.string, .any] },
   textMethod]

/-- The methods of types that can be instantiated. -/
def typeMethods : List HostMethod :=
  [{ name := "FullName", outs := [.string] },
   nameMethod,
   { name := "New", ins := [.slice .any], outs := [.any, .error] },
   textMethod]

/-- The methods of repeated fields. -/
def repeatedTypeMethods : List HostMethod :=
  [{ name := "Append", ins := [.any], outs := [.error] },
   { name := "Index", ins := [.int .int], outs := [.any] },
   { name := "Iterate", outs := [.iterator] },
   { name := "Len", outs := [.int .int] },
   { name := "SetIndex", ins := [.int .int, .any], outs := [.error] },
   textMethod,
   { name := "Type", outs := [.string] }]

/-- The methods of contexts. -/
def contextTypeMethods : List HostMethod :=
  [{ name := "CallStack", outs := [.slice (.record "happy.CallFrame")] },
   { name := "Cancel", ins := [.string] },
   { name := "Depth", outs := [.int .int] },
   { name := "Local", ins := [.string], outs := [.any] },
   { name := "PopWriter", outs := [.string] },
   { name := "PushWriter" },
   { name := "SafeWriteToTopWriter", ins := [.any], outs := [.error] },
   { name := "SetLocal", ins := [.string, .any] },
   { name := "WriteToTopWriter", ins := [.string], outs := [.error] }]

/-- The methods of instants. -/
def momentTypeMethods : List HostMethod :=
  let t := HostType.moment
  let int := HostType.int .int
  let bytes := HostType.bytes
  [{ name := "Add", ins := [.duration], outs := [t] },
   { name := "AddDate", ins := [int, int, int], outs := [t] },
   { name := "After", ins := [t], outs := [.bool] },
   { name := "AppendFormat", ins := [bytes, .string], outs := [bytes] },
   { name := "Before", ins := [t], outs := [.bool] },
   { name := "Clock", outs := [int, int, int] },
   { name := "Compare", ins := [t], outs := [int] },
   { name := "Date", outs := [int, .month, int] },
   { name := "Day", outs := [int] },
   { name := "Equal", ins := [t], outs := [.bool] },
   { name := "Format", ins := [.string], outs := [.string] },
   { name := "GoString", outs := [.string] },
   { name := "GobEncode", outs := [bytes, .error] },
   { name := "Hour", outs := [int] },
   { name := "ISOWeek", outs := [int, int] },
   { name := "In", ins := [.location], outs := [t] },
   { name := "IsDST", outs := [.bool] },
   { name := "IsZero", outs := [.bool] },
   { name := "Local", outs := [t] },
   { name := "Location", outs := [.location] },
   { name := "MarshalBinary", outs := [bytes, .error] },
   { name := "MarshalJSON", outs := [bytes, .error] },
   { name := "MarshalText", outs := [bytes, .error] },
   { name := "Minute", outs := [int] },
   { name := "Month", outs := [.month] },
   { name := "Nanosecond", outs := [int] },
   { name := "Round", ins := [.duration], outs := [t] },
   { name := "Second", outs := [int] },
   textMethod,
   { name := "Sub", ins := [t], outs := [.duration] },
   { name := "Truncate", ins := [.duration], outs := [t] },
   { name := "UTC", outs := [t] },
   { name := "Unix", outs := [.int .int64] },
   { name := "UnixMicro", outs := [.int .int64] },
   { name := "UnixMilli", outs := [.int .int64] },
   { name := "UnixNano", outs := [.int .int64] },
   { name := "Weekday", outs := [.weekday] },
   { name := "Year", outs := [int] },
   { name := "YearDay", outs := [int] },
   { name := "Zone", outs := [.string, int] },
   { name := "ZoneBounds", outs := [t, t] }]

/-- The methods of the types of the language, in the order of their names. -/
def ownMethods (t : HostType) : Option (List HostMethod) :=
  if t == .list then some listTypeMethods
  else if t == .object then some objectTypeMethods
  else if t == .closure then some closureTypeMethods
  else if t == .builtin then some builtinTypeMethods
  else if t == .module then some (attributeMethods ++ [textMethod])
  else if t == .nspace then some namespaceTypeMethods
  else if t == .registered then some (typeMethods ++ [{ name := "Type", outs := [.reflected] }])
  else if t == .messageType then some typeMethods
  else if t == .repeated then some repeatedTypeMethods
  else if t == .context then some contextTypeMethods
  else if t == .enumerator then some [textMethod]
  else if t == .filtered then some [{ name := "Iterate", outs := [.iterator] }, textMethod]
  else if t == .pattern then
    some (attributeMethods ++ [textMethod, { name := "Type", outs := [.string] }])
  else if t == .moment then some momentTypeMethods
  else if t == .location then some [textMethod]
  else if t == .boundMethod then
    some [callMethod, nameMethod, textMethod, { name := "Type", outs := [.string] }]
  else none

/-- The methods of a type. -/
def methodsOfType [Host] (t : HostType) : List HostMethod :=
  (ownMethods t).getD (Host.methods t)

/-- The signature of a method. -/
def methodOfType? [Host] (t : HostType) (name : Bytes) : Option HostMethod :=
  (methodsOfType t).find? (·.name = name)

/-- The fields of a record type. -/
def fieldsOfRecord [Host] (name : Bytes) : List HostField :=
  if name = Bytes.ofString "happy.Module" then
    [{ name := "Name", type := .string }, { name := "Members", type := .dictionary }]
  else Host.fields name

end Stencil
