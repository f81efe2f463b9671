import Stencil.Host.OwnMethods
import Stencil.Machine.Store
import Stencil.Machine.Universe
import Stencil.Schema.Standard

/-!
# Sample messages

Messages with a field of every kind.
-/

namespace Stencil.Sample

/-- A full name in the sample package. -/
private def full (name : String) : Bytes := Bytes.ofString "acme.pb." ++ name

private def opt (name : String) (number : Nat) (kind : FieldKind)
    (dflt : Option Scalar := none) : FieldDesc :=
  optionalField name number kind dflt

private def rep (name : String) (number : Nat) (kind : FieldKind) : FieldDesc :=
  repeatedFieldOf name number kind

/-- The description of the entries of a map. -/
private def entry (name : String) (key value : FieldKind) : MessageDesc :=
  { fullName := full name, fields := [opt "key" 1 key, opt "value" 2 value],
    isMapEntry := true, isTop := false }

/-- The message that has a field of every kind. -/
private def all : MessageDesc :=
  { fullName := full "All"
    fields :=
      [opt "b" 1 .bool, opt "i32" 2 .int32, opt "s32" 3 .sint32, opt "sf32" 4 .sfixed32,
       opt "u32" 5 .uint32, opt "f32" 6 .fixed32, opt "i64" 7 .int64, opt "s64" 8 .sint64,
       opt "sf64" 9 .sfixed64, opt "u64" 10 .uint64, opt "f64" 11 .fixed64, opt "s" 12 .string,
       opt "by" 13 .bytes, opt "d" 14 .double, opt "fl" 15 .float,
       opt "color" 16 (.enum (full "Color")), opt "inner" 17 (.message (full "Inner")),
       rep "ri" 18 .int32, rep "rs" 19 .string, rep "rm" 20 (.message (full "Inner")),
       rep "rc" 21 (.enum (full "Color")), rep "msi" 22 (.message (full "All.MsiEntry")),
       rep "msm" 23 (.message (full "All.MsmEntry")),
       rep "mis" 24 (.message (full "All.MisEntry")), opt "dflt" 25 .int32 (some (.int 42)),
       opt "sd" 26 .string (some (.string "hey")),
       opt "cd" 27 (.enum (full "Color")) (some (.int 5)), opt "grp" 28 (.group (full "All.Grp")),
       { opt "pa" 29 .string with oneof := some (Bytes.ofString "pick") },
       { opt "pb" 30 .int32 with oneof := some (Bytes.ofString "pick") },
       rep "rd" 31 .double, rep "rb" 32 .bool] }

/-- The messages whose fields may be missing. -/
def typesFile : FileDesc :=
  { path := "acme/types.proto"
    package := "acme.pb"
    messages :=
      [{ fullName := full "Inner",
         fields :=
          [opt "name" 1 .string, opt "n" 2 .int32 (some (.int 7)),
           opt "next" 3 (.message (full "Inner"))] },
       { fullName := full "Req", fields := [requiredField "must" 1 .int32, opt "opt" 2 .string] },
       all,
       entry "All.MsiEntry" .string .int32,
       entry "All.MsmEntry" .string (.message (full "Inner")),
       entry "All.MisEntry" .int32 .string,
       { fullName := full "All.Grp", fields := [opt "x" 1 .int32], isTop := false }]
    enums :=
      [{ fullName := full "Color",
         values := [("RED", 0), ("GREEN", 1), ("BLUE", 5), ("NEG", -1)] }] }

/-- The messages whose basic fields always have a value. -/
def threeFile : FileDesc :=
  { path := "acme/three.proto"
    package := "acme.pb.three"
    edition := .proto3
    messages :=
      [{ fullName := full "three.P3",
         fields :=
          [plainField "n" 1 .int32, plainField "s" 2 .string,
           repeatedFieldOf "packed" 3 .int32 true, plainField "mode" 4 (.enum (full "three.Mode")),
           opt "child" 5 (.message (full "three.P3")), plainField "fl" 6 .float] }]
    enums := [{ fullName := full "three.Mode", values := [("OFF", 0), ("ON", 1)] }] }

/-- The sample messages. -/
def pool : Pool := { files := [typesFile, threeFile] }

/-!
## A sample host application

A host with data of every kind: points with methods, shapes with fields of many
types, counters that can be iterated, sequences with positions, maps, and functions
that call functions.
-/

/-! ### Types -/

private def int : HostType := .int .int

/-- A type with a name of its own. -/
def nameType : HostType := .named "main.Name" .string

/-- Small numbers with a name of their own. -/
def levelType : HostType := .named "main.Level" (.int .uint8)

/-- Booleans with a name of their own. -/
def flagType : HostType := .named "main.Flag" .bool

def pointType : HostType := .record "main.Point"
def pointPointer : HostType := .pointer pointType
def titleType : HostType := .record "main.Named"
def shapeType : HostType := .record "main.Shape"
def shapePointer : HostType := .pointer shapeType
def counterPointer : HostType := .pointer (.record "main.Counter")
def seqPointer : HostType := .pointer (.record "main.Seq")

/-- A function from an integer to an integer. -/
def intFunction : HostType := .function [int] false [int]

private def field (name : String) (type : HostType) : HostField := { name, type }

/-- The fields of the records. -/
def recordFields (name : Bytes) : List HostField :=
  match name.toString? with
  | some "main.Point" =>
    [field "X" int, field "Y" int, { name := "label", type := .string, isExported := false }]
  | some "main.Named" => [field "Title" .string]
  | some "main.Shape" =>
    [{ name := "Named", type := .pointer titleType, isEmbedded := true },
     field "Kind" nameType, field "Size" (.int .uint8), field "Delta" (.int .int8),
     field "F32" .float32, field "Ok" .bool, field "Tags" (.slice .string), field "Data" .bytes,
     field "Attrs" (.map .string int), field "Any" .any, field "Fn" intFunction,
     field "Inner" pointType, field "Ptr" pointPointer, field "Arr" (.array 3 int),
     field "Next" shapePointer, { name := "hidden", type := int, isExported := false }]
  | some "main.Counter" => [field "N" (.int .int64), field "Open" int]
  | some "main.Seq" => [field "Words" (.slice .string)]
  | _ => []

private def method (name : String) (ins outs : List HostType) : HostMethod := { name, ins, outs }

private def scaleMethod : HostMethod := method "Scale" [int] [pointType]

/-- The methods of the types, in the order of their names. -/
def typeMethods (t : HostType) : List HostMethod :=
  if t == pointType then [scaleMethod]
  else if t == pointPointer then
    [{ name := "Add", ins := [.slice int], variadic := true, outs := [int] },
     method "Div" [int] [int, .error], method "Fail" [.string] [.error],
     method "Move" [int, int] [], method "Pair" [] [int, int], method "Panic" [.string] [],
     method "PanicError" [.string] [], scaleMethod, method "Sum" [] [int]]
  else if t == shapePointer then [method "String" [] [.string]]
  else if t == counterPointer then
    [method "Iterate" [] [.iterator], method "String" [] [.string], method "Type" [] [.string]]
  else if t == seqPointer then
    [method "Index" [int] [.any], method "Len" [] [int], method "String" [] [.string],
     method "Type" [] [.string]]
  else []

/-! ### Data -/

/-- The field of a record at a position. -/
def part (s : Heap) (d : Datum) (i : Nat) : Datum :=
  match d with
  | .cell id =>
    match s.cells.getD id .nil with
    | .record ds => ds.getD i .nil
    | _ => .nil
  | .record ds => ds.getD i .nil
  | _ => .nil

private def intPart (s : Heap) (d : Datum) (i : Nat) : Int :=
  match part s d i with
  | .int n => n
  | _ => 0

private def textPart (s : Heap) (d : Datum) (i : Nat) : Bytes :=
  match part s d i with
  | .string b => b
  | _ => []

/-- The words of a sequence. -/
def words (s : Heap) (d : Datum) : List Bytes :=
  ((part s d 0).items s).filterMap fun x => match x with
    | .string b => some b
    | _ => none

/-- The texts the types give to their values. -/
def valueText (s : Heap) (t : HostType) (d : Datum) : Option Bytes :=
  if t == shapePointer then some (Bytes.ofString "Shape(" ++ textPart s d 1 ++ ")")
  else if t == counterPointer then
    some (Bytes.ofString "<counter " ++ Bytes.ofInt (intPart s d 0) ++ ">")
  else if t == seqPointer then some (Bytes.ofString "seq:" ++ Bytes.join "+" (words s d))
  else match d with
    | .string b => if t == HostType.own "reflect.rtype" then some b else none
    | _ => none

/-- Change the field of a record in a cell. -/
private def setPart (d : Datum) (i : Nat) (f : Int → Int) : Job Unit :=
  match d with
  | .cell id =>
    Job.modify fun s => { s with cells := s.cells.modify id fun c => match c with
      | .record ds => .record (ds.modify i fun x => match x with
        | .int n => .int (IntKind.int.wrap (f n))
        | x => x)
      | c => c }
  | _ => return

/-- Change the number of iterations over a counter that are not finished. -/
private def countOpen (v : Value) (delta : Int) : Job Unit :=
  match v with
  | .host _ d => setPart d 1 (· + delta)
  | _ => return

private def ofInt (n : Int) : Value := .ofInt (IntKind.int.wrap n)

/-- Call a method of a point. -/
private def pointMethod (s : Heap) (d : Datum) (method : String) (args : List Value) :
    Job (List Value) := do
  let arg := args.headD .null
  let n := arg.slotInt
  let x := intPart s d 0
  let y := intPart s d 1
  match method, d with
  | "Fail", _ => Job.error arg.bytes
  | "Panic", _ | "PanicError", _ => Job.panic arg.bytes
  | "Scale", .nil =>
    Job.panic "value method main.Point.Scale called using nil *Point pointer"
  | "Scale", d =>
    let wrap := IntKind.int.wrap
    return [.host pointType (.record [.int (wrap (x * n)), .int (wrap (y * n)), part s d 2])]
  | "Div", d =>
    if n = 0 then Job.error "divide by zero in Div"
    match d with
    | .nil => nilDereference
    | _ => return [ofInt ((IntKind.int.wrap (x + y)).tdiv n)]
  | _, .nil => nilDereference
  | "Add", _ => return [ofInt (args.foldl (fun sum v => sum + v.slotInt) x)]
  | "Move", d =>
    setPart d 0 (· + n)
    setPart d 1 (· + (args.getD 1 .null).slotInt)
    return []
  | "Pair", _ => return [ofInt x, ofInt y]
  | _, _ => return [ofInt (x + y)]

/-- Call a method. -/
def callMethod (_ : HostCall) (recv : Value) (name : Bytes) (args : List Value) :
    Job (List Value) := do
  let s ← get
  match recv with
  | .host t d =>
    let method := name.toString?.getD ""
    if t == pointType || t == pointPointer then pointMethod s d method args
    else
      match d with
      | .nil => nilDereference
      | d =>
        match method with
        | "Iterate" =>
          countOpen recv 1
          return [.host (HostType.own "main.counterIterator") .nil]
        | "Type" => return [.string (if t == seqPointer then "seq" else "counter")]
        | "Len" => return [ofInt (words s d).length]
        | "Index" =>
          let i ← positionIn (args.headD .null).slotInt (words s d).length
          return [.string ((words s d).getD i [])]
        | _ => return [.string ((valueText s t d).getD [])]
  | _ => return []

/-! ### Functions -/

/-- The functions, by the names under which programs find them, with the names they
have in the host and their types. -/
def functions : List (String × String × HostType) :=
  let fn (ins outs : List HostType) : HostType := .function ins false outs
  [("hypot", "hypot2", fn [.float64, .float64] [.float64]),
   ("sumAll", "sumAll", .function [int, .slice int] true [int]),
   ("divmod", "divmod", fn [int, int] [int, int]),
   ("apply", "apply", fn [intFunction, int] [int]),
   ("applyErr", "applyErr", fn [fn [int] [int, .error], int] [int, .error]),
   ("visit", "visit", fn [fn [.string] [], .string] []),
   ("pairOf", "pairOf", fn [fn [] [int, int]] [int]),
   ("check3", "check3", fn [fn [] [.error]] [.string]),
   ("shout", "shout", fn [nameType] [nameType]),
   ("small", "small", fn [.int .int8] [.int .uint8]),
   ("total", "total", fn [.slice .float64] [.float64]),
   ("mapLen", "mapLen", fn [.map .string int] [int]),
   ("failing", "failing", fn [.string] [int, .error]),
   ("nothing", "nothing", fn [] []),
   ("byteLen", "byteLen", fn [.bytes] [int]),
   ("ident", "ident", fn [.any] [.any]),
   ("nilptr", "nilptr", fn [] [pointPointer]),
   ("maxuint", "maxuint", fn [] [.int .uint64]),
   ("takePoint", "takePoint", fn [pointPointer] [int])]

/-- The name of a function in messages. -/
private def hostName (name : String) : Bytes := Bytes.ofString "main." ++ name

/-- Call a function. -/
def callFunction (call : HostCall) (name : Bytes) (args : List Value) :
    Job (List Value) := do
  let s ← get
  let x := args.headD .null
  let y := args.getD 1 .null
  match ((name.toString?.getD "").drop 5).toString with
  | "hypot2" => return [.float (x.number * x.number + y.number * y.number)]
  | "sumAll" => return [ofInt (args.foldl (fun sum v => sum + v.slotInt) 0)]
  | "divmod" =>
    if y.slotInt = 0 then Job.panic "runtime error: integer divide by zero"
    return [ofInt (x.slotInt.tdiv y.slotInt), ofInt (x.slotInt.tmod y.slotInt)]
  | "apply" | "applyErr" => call x [y]
  | "visit" =>
    let _ ← call x [y]
    return []
  | "pairOf" =>
    let rs ← call x []
    return [ofInt (rs.foldl (fun sum v => sum + v.slotInt) 0)]
  | "check3" =>
    match ← Job.attempt (call x []) with
    | .ok _ => return [.string "ok"]
    | .error e => return [.string (Bytes.ofString "err: " ++ e.message)]
  | "shout" => return [.string x.normalize.bytes.upper]
  | "small" => return [.ofInt (x.slotInt % 256)]
  | "total" =>
    return [.float ((x.slotItems s).foldl (fun sum v => sum + v.number) 0)]
  | "mapLen" =>
    match x with
    | .host _ d => return [ofInt (d.entries s).length]
    | _ => return [ofInt 0]
  | "failing" => Job.error x.bytes
  | "byteLen" => return [ofInt (x.slotItems s).length]
  | "ident" => return [x]
  | "nilptr" => return [.null]
  | "maxuint" => return [.host (.int .uint64) (.int (Nat.pow 2 64 - 1))]
  | "takePoint" =>
    match x with
    | .host _ d@(.cell _) => return [ofInt (intPart s d 0)]
    | _ => nilDereference
  | _ => return []

/-- The order in which the keys of a map are met: each new list turns it round by one key more. -/
def turned (s : Heap) (keys : List Datum) : List Datum :=
  let n := s.lists.size % (keys.length + 1)
  keys.drop n ++ keys.take n

theorem turned_perm (s : Heap) (keys : List Datum) : (turned s keys).Perm keys := by
  refine List.perm_append_comm.trans ?_
  rw [List.take_append_drop]

/-- What the host knows about its data. -/
@[reducible]
def host : Host where
  fields := recordFields
  methods := typeMethods
  typeName? t :=
    if t == counterPointer then some (Bytes.ofString "counter")
    else if t == seqPointer then some (Bytes.ofString "seq")
    else none
  text? := valueText
  isSequence t := t == seqPointer
  length s _ d := (words s d).length
  item s _ d i := .string ((words s d).getD i [])
  isIterable t := t == counterPointer
  start v := countOpen v 1
  advance v i := do
    match v with
    | .host _ d =>
      let n := intPart (← get) d 0
      return if (i : Int) < n then some (.ofInt (i + 1)) else none
    | _ => return none
  finish v := countOpen v (-1)
  callMethod := callMethod
  callFunction := callFunction
  registered? name :=
    match name.toString? with
    | some "acme.geo.Point" => some (.type pointType)
    | some "acme.geo.Shape" => some (.type shapeType)
    | some "acme.Int" => some (.type int)
    | some "acme.Pair" => some (.maker fun args => Job.newList args.toArray)
    | some "acme.Fail" =>
      some (.maker fun args =>
        Job.error (Bytes.ofString "Fail: " ++ Bytes.ofNat args.length ++ " args"))
    | _ => some (.maker fun _ => do return .object (← Job.newObject))
  enumerate := turned
  enumerate_perm := turned_perm

/-- The names of the registered types. -/
def registeredNames : List Bytes :=
  ["acme.geo.Point", "acme.geo.Shape", "acme.Int", "acme.Pair", "acme.Object", "acme.Fail", "solo"]

/-- Call a function made for the language: one stops the execution, the other makes an
object. -/
def native (ctx : Nat) (name : Bytes) (args : List Value) : Job Value := do
  let _ : Host := host
  match name.toString? with
  | some "stop" =>
    let xs ← unpack name args 0 [.value]
    Job.cancel ctx ((xs.headD .null).text (← get))
    return .null
  | _ =>
    let _ ← unpack name args 0 []
    return .object (← Job.newObject)

/-- The sample application. -/
instance : Application where
  toHost := host
  native := native

/-! ### Values -/

private def pointRecord (x y : Int) : Datum := .record [.int x, .int y, .string []]

private def strings (bs : List String) : Job Datum :=
  Job.newArray (bs.map fun b => Datum.string (Bytes.ofString b)).toArray

private def ints (ns : List Int) : Job Datum := Job.newArray (ns.map Datum.int).toArray

/-- A pointer to a shape. -/
private def newShape (title tags attrs inner ptr arr : Datum) (kind : String) (size : Int) :
    Job Value := do
  let shape : Datum := .record
    [title, .string kind, .int size, .int 0, .float 0, .bool false, tags, .nil, attrs, .nil, .nil,
     inner, ptr, arr, .nil, .int 0]
  return .host shapePointer (.cell (← Job.newCell shape))

/-- The data that programs find under their names. -/
def newData : Job (List (Bytes × Value)) := do
  let pt ← Job.newCell (pointRecord 3 4)
  let title ← Job.newCell (.record [.string "box"])
  let ptr ← Job.newCell (pointRecord 8 9)
  let shapeTags ← strings ["a", "b"]
  let shapeAttrs ← Job.newMap [(.string "w", .int 1)]
  let shape ← newShape (.cell title) shapeTags shapeAttrs (pointRecord 5 6) (.cell ptr)
    (.array [.int 1, .int 2, .int 3]) "sq" 7
  let bare ← newShape .nil .nil .nil (pointRecord 0 0) .nil (.array [.int 0, .int 0, .int 0])
    "bare" 0
  let ages ← Job.newMap [(.string "bob", .int 30), (.string "al", .int 4)]
  let two ← ints [1, 2]
  let named ← Job.newMap
    [(.string "one", .any (.host int (.int 1))), (.string "nil", .nil),
     (.string "list", .any (.host (.slice int) two))]
  let byint ← Job.newMap
    [(.int 10, .string "ten"), (.int (-1), .string "neg"), (.int 2, .string "two")]
  let byuint ← Job.newMap [(.int 200, .string "big"), (.int 3, .string "three")]
  let byfloat ← Job.newMap [(.float 2.5, .string "b"), (.float (-1), .string "a")]
  let bybool ← Job.newMap [(.bool true, .int 1), (.bool false, .int 0)]
  let q ← strings ["q"]
  let anys ← Job.newArray
    #[.any (.host int (.int 1)), .any (.string "two"), .nil, .any (.float 2.5),
      .any (.host (.slice .string) q)]
  let counter ← Job.newCell (.record [.int 4, .int 0])
  let seq ← Job.newCell (.record [← strings ["p", "q", "r"]])
  return [
    ("pt", .host pointPointer (.cell pt)),
    ("ptv", .host pointType (pointRecord 1 2)),
    ("nilpt", .host pointPointer .nil),
    ("shape", shape),
    ("bare", bare),
    ("ages", .host (.map .string int) ages),
    ("named", .host (.map nameType .any) named),
    ("nilmap", .host (.map .string int) .nil),
    ("byint", .host (.map int .string) byint),
    ("byuint", .host (.map (.int .uint8) .string) byuint),
    ("byfloat", .host (.map .float64 .string) byfloat),
    ("bybool", .host (.map .bool int) bybool),
    ("names", .host (.slice .string) (← strings ["x", "y"])),
    ("ints", .host (.slice int) (← ints [3, 4, 5])),
    ("anys", .host (.slice .any) anys),
    ("nilsl", .host (.slice int) .nil),
    ("arr", .host (.array 3 int) (.array [.int 7, .int 8, .int 9])),
    ("bytes", ← hostBytes "hi"),
    ("level", .host levelType (.int 3)),
    ("goint", .host int (.int 5)),
    ("f32", .host .float32 (.float 0.5)),
    ("counter", .host counterPointer (.cell counter)),
    ("seq", .host seqPointer (.cell seq))]

/-- The position of the sample messages among the collections of a store. -/
def samplePool : Nat := 0

/-- The position of the standard messages among the collections of a store. -/
def standardPool : Nat := 1

/-- A store that knows the sample messages and the standard ones. -/
def store : Store := { pools := #[pool, Pool.standard] }

/-- Missing references, a module, an object and functions, by their names. -/
def newOthers : Job (List (Bytes × Value)) := do
  let s ← get
  let lib : ModuleCell :=
    ⟨"lib", [("sqrt", .int 0), ("pow", .int 1), ("up", (Native.universal .upper).value)]⟩
  set { s with modules := s.modules.push lib }
  let tags ← Job.newList #[.string "a", .string "b"]
  let obj ← Job.newObject [("name", .string "x"), ("tags", tags), ("count", .int 2)]
  return [
    ("nildur", .noMessage ⟨standardPool, Standard.full "Duration"⟩),
    ("nilmsg", .noMessage ⟨standardPool, Standard.full "FileDescriptorSet"⟩),
    ("nilfn", .host intFunction .nil),
    ("lib", .module s.modules.size),
    ("obj", .object obj),
    ("stop", (Native.host "stop").value),
    ("newobj", (Native.host "newobj").value)]

/-- Every value of the host that programs find under a name. -/
def newValues : Job (List (Bytes × Value)) := do
  let data ← newData
  let others ← newOthers
  let fns := functions.map fun (name, host, type) =>
    (Bytes.ofString name, Value.host type (.function (hostName host)))
  return data ++ others ++ fns

end Stencil.Sample
