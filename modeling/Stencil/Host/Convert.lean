import Stencil.Machine.Iteration

/-!
# Values for the host

A value of the language is converted to a type of the host as if it were a
constant: an int to any numeric type that holds it, a string to any string type, a
sequence to a sequence of another type, an object to a map, a function to a
function. A conversion that is not exact fails.
-/

namespace Stencil

/-- Whether values of a type are functions of the language. -/
def Value.isCallable : Value → Bool
  | .function .. | .builtin .. | .bound .. => true
  | _ => false

/-- Whether a type has the methods of an interface. -/
def HostType.implements [Host] (t : HostType) (name : Bytes) : Bool :=
  let has (method : String) : Bool :=
    match methodOfType? t method with
    | some m => m.type == .function [] false [.string]
    | none => false
  if name = Bytes.ofString "fmt.Stringer" then has "String"
  else if name = Bytes.ofString "error" then has "Error"
  else false

/-- Whether a type is written by its structure, not by a name. -/
def HostType.isStructural : HostType → Bool
  | .pointer _ | .slice _ | .array _ _ | .map _ _ | .channel _ | .function _ _ _ => true
  | _ => false

/-- Whether values of one type can be put into slots of another without conversion. -/
def HostType.isAssignable [Host] (src dst : HostType) : Bool :=
  src == dst ||
    match dst with
    | .any => true
    | .iface name => src.implements name
    | dst =>
      src.base == dst.base && src.base.isStructural && (src.isStructural || dst.isStructural)

/-- Whether a value can be put into slots of a type without conversion. -/
def Value.isAssignable [Host] (s : Heap) (v : Value) (dst : HostType) : Bool :=
  match v, dst with
  | .message _, .iface name | .noMessage _, .iface name => name = Bytes.ofString "fmt.Stringer"
  | v, dst => ((v.hostType? s).map (·.isAssignable dst)).getD false

/-- The integer a number stands for, if it is whole and fits 64 bits. -/
def Value.asInt? : Value → Option Int
  | .int n => some n.toInt
  | .float x =>
    if Decimal.isWhole x then
      let n := Decimal.truncToInt x
      if -(Nat.pow 2 63) ≤ n && n < Nat.pow 2 63 then some n else none
    else none
  | _ => none

/-- The elements of a sequence, each converted; `i` counts those done. -/
def convertItems [Host] (convert : Value → Job Datum) (next : Job (Option Value)) :
    Nat → Nat → Array Datum → Job (Array Datum)
  | 0, _, _ => throw .exhausted
  | fuel + 1, i, done => do
    match ← next with
    | none => return done
    | some x =>
      let d ← Job.explaining (Bytes.ofString "in element " ++ Bytes.ofNat i ++ ": ") (convert x)
      convertItems convert next fuel (i + 1) (done.push d)

/-- The fields of an object, each converted. -/
def convertFields [Host] (convert : Value → Job Datum) :
    List (Bytes × Value) → Job (List (Datum × Datum))
  | [] => return []
  | (name, x) :: rest => do
    let d ← Job.explaining (Bytes.ofString "in field " ++ name ++ ": ") (convert x)
    return (.string name, d) :: (← convertFields convert rest)

/-- The failure to convert a value to a type. -/
def cannotConvert [Host] (x : Value) (t : HostType) : Job Value := do
  Job.error (Bytes.ofString "cannot convert " ++ x.typeName (← get) ++ " to Go " ++ t.text)

/-- Convert an int to a type of integers. -/
def convertInt (n : Int) (k : IntKind) (t : HostType) : Job Value :=
  if k.holds n then return .ofSlot t (.int n)
  else Job.error (Bytes.ofInt n ++ " overflows Go " ++ t.text)

/-- Convert a value that is neither null nor assignable to the type `t`, which is made
from the given one; `item` converts the parts of a value. -/
def convertBase [Host] (fuel : Nat) (item : HostType → Value → Job Datum)
    (t base : HostType) (x : Value) : Job Value := do
  match base, x with
  | .bool, .bool b => return .ofSlot t (.bool b)
  | .int k, x =>
    match x.asInt? with
    | some n => convertInt n k t
    | none => cannotConvert x t
  | .float32, .int n | .float64, .int n => return .ofSlot t (.float (t.roundFloat (intToFloat n)))
  | .float32, .float y | .float64, .float y => return .ofSlot t (.float (t.roundFloat y))
  | .string, .string s => return .ofSlot t (.string s)
  | .slice _, .string s =>
    if t == .bytes then
      return .ofSlot t (← Job.newArray (s.map fun b => Datum.int b.toNat).toArray)
    else cannotConvert x t
  | .slice u, x =>
    match ← Job.attempt (iterate x) with
    | .error _ => cannotConvert x t
    | .ok cursor =>
      let outcome ← Job.attempt
        (convertItems (item u) (advance fuel cursor) fuel 0 #[])
      finish cursor
      match outcome with
      | .ok items => return .ofSlot t (← Job.newArray items)
      | .error e => throw e
  | .map _ u, .object id =>
    if t.isStringMap then
      let entries ← convertFields (item u) ((← get).object id)
      let entries := entries.foldl (fun m (key, d) => setEntry key d m) []
      return .ofSlot t (← Job.newMap entries)
    else cannotConvert x t
  | .function _ _ _, x =>
    if x.isCallable then return .host t (.adapted x) else cannotConvert x t
  | _, x => cannotConvert x t

/-- Convert a value to a type of the host. Types are nested at most `depth` deep. -/
def convertTo [Host] (fuel : Nat) : (depth : Nat) → HostType → Value → Job Value
  | 0, t, x => cannotConvert x t
  | depth + 1, t, x => do
    if x.isNull then
      if t.isInterface then return .null
      if t.isNilable then return .host t .nil
      Job.error (Bytes.ofString "cannot convert null to Go " ++ t.text)
    else if x.isAssignable (← get) t then return x
    else
      convertBase fuel
        (fun u y => do return (← convertTo fuel depth u y).toSlot u) t t.base x

/-- How deeply the parts of a type are nested. -/
def HostType.height : HostType → Nat
  | .named _ t | .slice t | .array _ t | .pointer t | .channel t => t.height + 1
  | .map k t => max k.height t.height + 1
  | _ => 1

/-- Convert a value to a type of the host. -/
def Value.convert [Host] (fuel : Nat) (x : Value) (t : HostType) : Job Value :=
  convertTo fuel t.height t x

end Stencil
