import Stencil.Json.Lexeme
import Stencil.Message.TextForm
import Stencil.Text.Base64

/-!
# Messages in JSON form

A message is an object with a member for each field that is set. Integers of 64 bits
are strings, so that no reader rounds them; bytes are in base 64. Durations and
timestamps have forms of their own.
-/

namespace Stencil

/-- Why a message has no JSON form. -/
inductive JsonFormFault where
  | content (e : MessageFault)
  /-- A key of a map is not UTF-8. -/
  | badKey
  /-- A part of a duration or timestamp is out of its range. -/
  | outOfRange (message part : Bytes) (n : Int)
  | signsDiffer (message : Bytes)
  deriving DecidableEq, Repr, Inhabited

/-- The wording of a fault. -/
def JsonFormFault.message : JsonFormFault → Bytes
  | .content e => e.message
  | .badKey => "proto: invalid UTF-8"
  | .outOfRange message part n =>
    Bytes.ofString "proto: " ++ message ++ ": " ++ part ++ " out of range " ++ Bytes.ofInt n
  | .signsDiffer message =>
    Bytes.ofString "proto: " ++ message ++ ": signs of seconds and nanos do not match"

/-! ### Durations and timestamps -/

/-- The name of the message for durations. -/
def durationName : Bytes := "google.protobuf.Duration"

/-- The name of the message for timestamps. -/
def timestampName : Bytes := "google.protobuf.Timestamp"

/-- The greatest number of seconds of a duration. -/
def maxDurationSeconds : Int := 315576000000

/-- The number of seconds before the first timestamp. -/
def minTimestampSeconds : Int := -62135596800

/-- The number of seconds of the last timestamp. -/
def maxTimestampSeconds : Int := 253402300799

/-- The int of a field. -/
def MessageTree.int (m : MessageTree) (number : Nat) : Int :=
  match m.get? number with
  | some (.scalar (.int n)) => n
  | _ => 0

/-- Leave out groups of three zeros at the end of nine decimal places. -/
def shortFraction (places : Bytes) : Bytes :=
  let drop (s : Bytes) : Bytes := if s.endsWith "000" then s.take (s.length - 3) else s
  let s := drop (drop places)
  if s = Bytes.ofString "000" then [] else Bytes.ofString "." ++ s

/-- Nine decimal places. -/
def ninePlaces (n : Nat) : Bytes :=
  let ds := Bytes.ofNat n
  List.replicate (9 - ds.length) 48 ++ ds

/-- The text of a duration. -/
def durationForm (m : MessageTree) : Except JsonFormFault Bytes :=
  let secs := m.int 1
  let nanos := m.int 2
  if maxDurationSeconds < secs.natAbs then .error (.outOfRange durationName "seconds" secs)
  else if 999999999 < nanos.natAbs then .error (.outOfRange durationName "nanos" nanos)
  else if (0 < secs && nanos < 0) || (secs < 0 && 0 < nanos) then
    .error (.signsDiffer durationName)
  else
    let sign : Bytes := if secs < 0 || nanos < 0 then "-" else []
    .ok (sign ++ Bytes.ofNat secs.natAbs ++ shortFraction (ninePlaces nanos.natAbs) ++ "s")

/-- The text of a timestamp. -/
def timestampForm (m : MessageTree) : Except JsonFormFault Bytes :=
  let secs := m.int 1
  let nanos := m.int 2
  if secs < minTimestampSeconds || maxTimestampSeconds < secs then
    .error (.outOfRange timestampName "seconds" secs)
  else if nanos < 0 || 999999999 < nanos then .error (.outOfRange timestampName "nanos" nanos)
  else
    let t : Moment := ⟨secs, nanos.toNat, .utc⟩
    .ok (t.format "2006-01-02T15:04:05" ++ shortFraction (ninePlaces nanos.toNat) ++ "Z")

/-! ### Writing -/

/-- A string in JSON form. -/
def jsonQuote (s : Bytes) : Bytes := Json.quoteString (fun _ => false) s

/-- A float in JSON form, with the precision of its field. -/
def jsonFloat (k : FieldKind) (x : Float) : Bytes :=
  if x.isNaN then jsonQuote "NaN"
  else if x == Decimal.infinity false then jsonQuote "Infinity"
  else if x == Decimal.infinity true then jsonQuote "-Infinity"
  else
    match k with
    | .float => Decimal.interchange.float32 x.toFloat32
    | _ => Decimal.interchange.float x

/-- The JSON form of a basic value. -/
def scalarJson (p : Pool) (name : Bytes) (k : FieldKind) (s : Scalar) :
    Except JsonFormFault Bytes :=
  match k, s with
  | _, .bool b => .ok (if b then "true" else "false")
  | .int64, .int n | .sint64, .int n | .uint64, .int n | .sfixed64, .int n | .fixed64, .int n =>
    .ok (jsonQuote (Bytes.ofInt n))
  | .enum e, .int n =>
    match (p.enum? e).bind fun e => e.values.find? fun (_, m) => m = n with
    | some (label, _) => .ok (jsonQuote label)
    | none => .ok (Bytes.ofInt n)
  | _, .int n => .ok (Bytes.ofInt n)
  | k, .float x => .ok (jsonFloat k x)
  | .bytes, .string b => .ok (jsonQuote (Base64.encode b))
  | _, .string b => if b.isValid then .ok (jsonQuote b) else .error (.content (.notText name))

/-- The key of a map as the name of a member. -/
def keyJson : Scalar → Except JsonFormFault Bytes
  | .bool b => .ok (jsonQuote (if b then "true" else "false"))
  | .int n => .ok (jsonQuote (Bytes.ofInt n))
  | .string s => if s.isValid then .ok (jsonQuote s) else .error .badKey
  | .float _ => .ok (jsonQuote [])

/-- Members in braces. -/
def objectJson (members : List Bytes) : Bytes :=
  Bytes.ofString "\x7b" ++ Bytes.join "," members ++ "\x7d"

mutual

/-- The JSON form of a message. -/
def MessageTree.jsonForm (p : Pool) (name : Bytes) : MessageTree → Except JsonFormFault Bytes
  | .mk fields unknown =>
    if name = durationName then (durationForm (.mk fields unknown)).map jsonQuote
    else if name = timestampName then (timestampForm (.mk fields unknown)).map jsonQuote
    else do
      let desc := (p.message? name).getD { fullName := name, fields := [] }
      let pieces := arrange (fun f => (desc.declaredRank f, 0)) (jsonFields p desc fields)
      return objectJson (← pieces.mapM id)

/-- The members of fields that are set. -/
def jsonFields (p : Pool) (desc : MessageDesc) :
    List (Nat × FieldTree) → List (FieldDesc × Except JsonFormFault Bytes)
  | [] => []
  | (n, x) :: rest =>
    let f := (desc.fieldNumber? n).getD default
    let others := jsonFields p desc rest
    if x.isPopulated f then
      (f, (jsonField p desc f x).map (jsonQuote f.jsonName ++ Bytes.ofString ":" ++ ·)) :: others
    else others

/-- The JSON form of what a field holds. -/
def jsonField (p : Pool) (desc : MessageDesc) (f : FieldDesc) :
    FieldTree → Except JsonFormFault Bytes
  | .scalar s => scalarJson p (desc.fieldName f) f.kind s
  | .message m => m.jsonForm p (f.kind.messageName?.getD [])
  | .list xs => do
    return Bytes.ofString "[" ++ Bytes.join "," (← jsonItems p desc f xs) ++ "]"
  | .map es => do
    let entry := (p.message? (f.kind.messageName?.getD [])).getD default
    let value := (entry.fieldNumber? 2).getD default
    let members ← (sortByKey (jsonEntries p entry value es)).mapM fun (k, x) => do
      return (← keyJson k) ++ ":" ++ (← x)
    return objectJson members

/-- The JSON forms of the elements of a list. -/
def jsonItems (p : Pool) (desc : MessageDesc) (f : FieldDesc) :
    List FieldTree → Except JsonFormFault (List Bytes)
  | [] => .ok []
  | x :: rest => do
    let b ← jsonField p desc f x
    return b :: (← jsonItems p desc f rest)

/-- The JSON forms of the values of a map, with their keys. -/
def jsonEntries (p : Pool) (entry : MessageDesc) (value : FieldDesc) :
    List (Scalar × FieldTree) → List (Scalar × Except JsonFormFault Bytes)
  | [] => []
  | (k, x) :: rest => (k, jsonField p entry value x) :: jsonEntries p entry value rest

end

/-- The JSON form of a message that is complete. -/
def MessageTree.toJson (p : Pool) (name : Bytes) (m : MessageTree) : Except JsonFormFault Bytes := do
  let b ← m.jsonForm p name
  match checkComplete p name m with
  | .ok _ => return b
  | .error e => .error (.content e)

end Stencil
