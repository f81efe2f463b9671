import Stencil.Machine.Arguments
import Stencil.Message.Field
import Stencil.Time.Calendar

/-!
# The methods of the language's own types

What the methods do that the values of the language have as host data. The
arguments have the types of the parameters, and a method that reports an error does
so by failing.
-/

namespace Stencil

/-- The integer a slot of an integer type holds. -/
def Value.slotInt : Value → Int
  | .int n => n.toInt
  | .host _ (.int n) => n
  | _ => 0

/-- An int as a value. -/
def Value.ofInt (n : Int) : Value := .int (Int64.ofInt n)

/-- The panic that follows a missing pointer. -/
def nilDereference {α : Type} : Job α :=
  Job.panic "runtime error: invalid memory address or nil pointer dereference"

/-- A position in a sequence of `n` elements. -/
def positionIn (i : Int) (n : Nat) : Job Nat :=
  if i < 0 then
    Job.panic (Bytes.ofString "runtime error: index out of range [" ++ Bytes.ofInt i ++ "]")
  else if (n : Int) ≤ i then
    Job.panic (Bytes.ofString "runtime error: index out of range [" ++ Bytes.ofInt i ++
      "] with length " ++ Bytes.ofNat n)
  else return i.toNat

/-- A sequence of bytes of the host. -/
def hostBytes (b : Bytes) : Job Value := do
  return .host .bytes (← Job.newArray (b.map fun c => Datum.int c.toNat).toArray)

/-- The values in a sequence of the host. -/
def Value.slotItems (s : Heap) : Value → List Value
  | .host t d => (d.items s).map (Value.ofSlot t.elem)
  | _ => []

/-- Call a function in a context given as a value. Without one a function of the language
gets no further than its parameters. -/
def callInContext (fn : Value) (args : List Value) : Job (List Value) := do
  let s ← get
  let items := (args.getD 1 .null).slotItems s
  match args.headD .null, fn with
  | .context ctx, _ => return [← Job.call ctx fn items]
  | _, .function _ f =>
    if f.params.length = items.length then nilDereference
    else Job.error (wrongArguments f.name f.params.length items.length)
  | _, _ => return [← Job.call (← Job.query .contextCount) fn items]

/-- Call a method of a list. -/
def listMethod [Host] (id : Nat) (method : String) (args : List Value) :
    Job (List Value) := do
  let s ← get
  let items := s.list id
  let position := positionIn (args.headD .null).slotInt items.size
  match method with
  | "Append" =>
    Job.modifyList id (·.push (args.headD .null))
    return []
  | "Clear" =>
    Job.modifyList id fun _ => #[]
    return []
  | "Elems" =>
    if items.isEmpty then return [.null]
    return [.host (.slice .any) (.slice (.list id) items.size)]
  | "Index" => return [items.getD (← position) .null]
  | "Iterate" => return [.host (HostType.own "happy.listIterator") (.cell id)]
  | "Len" => return [.ofInt items.size]
  | "SetIndex" =>
    let i ← position
    Job.modifyList id (·.setIfInBounds i (args.getD 1 .null))
    return []
  | _ => return [.string ((Value.list id).repr s)]

/-- Call a method of a function of the language. -/
def closureMethod [Host] (id : Nat) (f : Heading) (method : String) (args : List Value) :
    Job (List Value) := do
  match method with
  | "CallInternal" => callInContext (.function id f) args
  | "Name" => return [.string f.name]
  | "NumParams" => return [.ofInt f.params.length]
  | "Param" =>
    let i ← positionIn (args.headD .null).slotInt f.params.length
    return [.string (f.params.getD i [])]
  | _ => return [.string ((Value.function id f).repr (← get))]

/-- Call a method of a built-in function. -/
def builtinMethod [Host] (fn : Native) (recv : Value) (stamp : Nat)
    (method : String) (args : List Value) : Job (List Value) := do
  let self := Value.builtin fn recv stamp
  match method with
  | "BindReceiver" => return [.builtin fn (args.headD .null) (← Job.freshStamp)]
  | "CallInternal" => callInContext self args
  | "Name" => return [.string fn.name]
  | "Receiver" => return [recv]
  | _ => return [.string (self.repr (← get))]

/-- Call a method of a repeated field. -/
def repeatedMethod [Host] (fuel : Nat) (self : Value) (method : String)
    (args : List Value) : Job (List Value) := do
  let s ← get
  let size := (self.length? s).getD 0
  match method with
  | "Append" =>
    appendRepeated fuel self (args.headD .null)
    return []
  | "Index" =>
    let i ← positionIn (args.headD .null).slotInt size
    return [self.item s i]
  | "Iterate" => return [.host (HostType.own "happy.indexIterator") .nil]
  | "Len" => return [.ofInt size]
  | "SetIndex" =>
    let i := (args.headD .null).slotInt
    if 0 ≤ i && i < size then
      setRepeated fuel self i.toNat (args.getD 1 .null)
    else let _ ← positionIn i size
    return []
  | "Type" => return [.string (self.typeName s)]
  | _ => return [.string (self.repr s)]

/-- Make an instance of a registered type. -/
def constructRegistered [Host] (name : Bytes) (args : List Value) : Job Value := do
  match Host.registered? name with
  | some (.maker make) => make args
  | some (.type t) =>
    if args.isEmpty then
      return .host (.pointer t) (.cell (← Job.newCell (t.zero 20)))
    else
      Job.error (name ++ ": constructor takes no arguments (" ++ Bytes.ofNat args.length ++
        " given)")
  | none => return .null

/-- Make an instance of a type. -/
def construct [Host] (fuel : Nat) (t : TypeRef) (args : List Value) : Job Value :=
  match t with
  | .registered name => constructRegistered name args
  | .message t => constructMessage fuel t args

/-- Call a method of a type. -/
def typeMethod [Host] (fuel : Nat) (t : TypeRef) (method : String) (args : List Value) :
    Job (List Value) := do
  match method with
  | "FullName" => return [.string t.fullName]
  | "Name" => return [.string t.name]
  | "New" => return [← construct fuel t ((args.headD .null).slotItems (← get))]
  | "Type" =>
    match t with
    | .registered name =>
      match Host.registered? name with
      | some (.type t) => return [.host (HostType.own "reflect.rtype") (.string t.text)]
      | _ => return [.null]
    | _ => return [.null]
  | _ => return [.string t.text]

/-- Call a method of a context. -/
def contextMethod [Host] (ctx : Nat) (method : String) (args : List Value) :
    Job (List Value) := do
  match method with
  | "Cancel" =>
    Job.cancel ctx (args.headD .null).bytes
    return []
  | "Depth" => return [.ofInt (← Job.context ctx).writers.length]
  | "PopWriter" => return [.string (← Job.popWriter ctx)]
  | "PushWriter" =>
    Job.pushWriter ctx
    return []
  | "SafeWriteToTopWriter" =>
    Job.write ctx ((args.headD .null).text (← get))
    return []
  | "WriteToTopWriter" =>
    Job.write ctx (args.headD .null).bytes
    return []
  | _ => return [.null]

/-- The time a value stands for. -/
def Value.asMoment : Value → Moment
  | .moment m => m
  | _ => default

/-- The instant whose year, month and day are one and whose clock is zero. -/
def Moment.zero : Moment := ⟨-yearOneToUnix, 0, .utc⟩

/-- The literal form of an instant for the host. -/
def Moment.literal (t : Moment) : Bytes :=
  let d := t.date
  let (h, m, s) := t.clock
  let zone : Bytes :=
    if t.zone.isUTC then "time.UTC" else Bytes.ofString "time.Location(" ++ t.zone.name.quote ++ ")"
  Bytes.ofString "time.Date(" ++ Bytes.ofInt d.year ++ ", time." ++
    (monthNames.getD (d.month - 1) "") ++ ", " ++
    Bytes.join ", " ([d.day, h, m, s, t.nsec].map Bytes.ofNat) ++ ", " ++ zone ++ ")"

/-- The form of an instant in interchange formats. -/
def Moment.interchange (t : Moment) (who : String) : Job Bytes := do
  if 0 ≤ t.date.year && t.date.year ≤ 9999 then
    return t.format "2006-01-02T15:04:05.999999999Z07:00"
  else Job.error (Bytes.ofString "Time." ++ who ++ ": year outside of range [0,9999]")

/-- Call a method of an instant that compares it or computes with it. -/
def momentArithmetic (t : Moment) (method : String) (args : List Value) : Option Value :=
  let arg := args.headD .null
  let other := arg.asMoment
  let amount := arg.slotInt
  match method with
  | "Add" => some (.moment (t.add amount))
  | "AddDate" =>
    some (.moment (t.addDate amount (args.getD 1 .null).slotInt (args.getD 2 .null).slotInt))
  | "After" => some (.bool (other.isBefore t))
  | "Before" => some (.bool (t.isBefore other))
  | "Compare" =>
    some (.ofInt (if t.isBefore other then -1 else if other.isBefore t then 1 else 0))
  | "Equal" => some (.bool (t.isSame other))
  | "Round" => some (.moment (t.round amount))
  | "Sub" => some (.ofInt (t.sub other))
  | "Truncate" => some (.moment (t.truncate amount))
  | _ => none

/-- Call a method of an instant that reads a part of it. -/
def momentParts (t : Moment) (method : String) : Option (List Int) :=
  let d := t.date
  let (h, m, s) := t.clock
  match method with
  | "Clock" => some [h, m, s]
  | "Date" => some [d.year, d.month, d.day]
  | "Day" => some [d.day]
  | "Hour" => some [h]
  | "ISOWeek" => some [t.isoWeek.1, t.isoWeek.2]
  | "Minute" => some [m]
  | "Month" => some [d.month]
  | "Nanosecond" => some [t.nsec]
  | "Second" => some [s]
  | "Unix" => some [wrap64 t.sec]
  | "UnixMicro" => some [wrap64 (t.sec * 1000000 + t.nsec / 1000)]
  | "UnixMilli" => some [wrap64 (t.sec * 1000 + t.nsec / 1000000)]
  | "UnixNano" => some [wrap64 (t.sec * 1000000000 + t.nsec)]
  | "Weekday" => some [t.weekday]
  | "Year" => some [d.year]
  | "YearDay" => some [d.yearDay + 1]
  | _ => none

/-- Call a method of an instant. -/
def momentMethod (t : Moment) (method : String) (args : List Value) : Job (List Value) := do
  match momentArithmetic t method args, momentParts t method with
  | some v, _ => return [v]
  | none, some ns => return ns.map .ofInt
  | none, none =>
    match method with
    | "AppendFormat" =>
      let before := (args.headD .null).slotItems (← get)
      let before := before.map fun v => UInt8.ofNat v.slotInt.toNat
      return [← hostBytes (before ++ t.format (args.getD 1 .null).bytes)]
    | "Format" => return [.string (t.format (args.headD .null).bytes)]
    | "GoString" => return [.string t.literal]
    | "In" =>
      match args.headD .null with
      | .location z => return [.moment { t with zone := z }]
      | _ => Job.panic "time: missing Location in call to Time.In"
    | "IsDST" => return [.bool false]
    | "IsZero" => return [.bool (t.isSame .zero)]
    | "Local" | "UTC" => return [.moment { t with zone := .utc }]
    | "Location" => return [.location t.zone]
    | "MarshalJSON" =>
      return [← hostBytes (Bytes.ofString "\"" ++ (← t.interchange method) ++ "\"")]
    | "MarshalText" => return [← hostBytes (← t.interchange method)]
    | "Zone" => return [.string t.zone.name, .ofInt t.zone.offset]
    | "ZoneBounds" => return [.moment .zero, .moment .zero]
    | "String" => return [.string t.text]
    | _ => return [.null, .null]

/-- Call a method of a function of the host. -/
def boundMethod [Host] (self : Value) (method : String) (args : List Value) :
    Job (List Value) := do
  let s ← get
  match method with
  | "CallInternal" => callInContext self args
  | "Name" => return [.string (self.functionName s)]
  | "Type" => return [.string (self.typeName s)]
  | _ => return [.string (self.repr s)]

/-- Call a method that a value of the language has as host data; null if its type is
not one of the language. -/
def ownMethod [Host] (fuel : Nat) (self : Value) (method : String)
    (args : List Value) : Job (List Value) := do
  match self with
  | .list id => listMethod id method args
  | .function id f => closureMethod id f method args
  | .builtin fn recv stamp => builtinMethod fn recv stamp method args
  | .repeated .. => repeatedMethod fuel self method args
  | .type t => typeMethod fuel t method args
  | .context id => contextMethod id method args
  | .moment t => momentMethod t method args
  | .bound .. => boundMethod self method args
  | .filtered _ =>
    match method with
    | "Iterate" => return [.host (HostType.own "happy.whereIterator") .nil]
    | _ => return [.string (self.repr (← get))]
  | _ => return [.string (self.repr (← get))]

end Stencil
