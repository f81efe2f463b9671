import Stencil.Host.Call
import Stencil.Json.Lexeme
import Stencil.Text.Base64

/-!
# Host data in JSON text

Records are objects with a member for each exported field, maps are objects with
their keys in order, and sequences are arrays; bytes are strings in base 64. Functions
have no JSON text.
-/

namespace Stencil

/-- Why host data have no JSON text. -/
inductive InterchangeFault where
  | unsupportedType (t : Bytes)
  | unsupportedValue (v : Bytes)
  /-- Pointers lead on without an end. -/
  | endless (t : Bytes)
  /-- A key of a map is not written as a string. -/
  | keyNotString
  /-- A time is too far from now. -/
  | badTime
  deriving DecidableEq, Repr, Inhabited

/-- The wording of a fault. -/
def InterchangeFault.message : InterchangeFault → Bytes
  | .unsupportedType t => Bytes.ofString "json: unsupported type: " ++ t
  | .unsupportedValue v => Bytes.ofString "json: unsupported value: " ++ v
  | .endless t => Bytes.ofString "json: unsupported value: encountered a cycle via " ++ t
  | .keyNotString =>
    Bytes.ofString "json: unsupported value: jsontext: object member name must be a string after " ++
      "offset 2"
  | .badTime =>
    Bytes.ofString "json: error calling MarshalJSON for type time.Time: " ++
      "Time.MarshalJSON: year outside of range [0,9999]"

namespace Interchange

/-- A string. -/
def string (s : Bytes) : Bytes := Json.quoteString Json.isPageSpecial s

/-- A float. -/
def float (single : Bool) (x : Float) : Except InterchangeFault Bytes :=
  if !Decimal.isFinite x then .error (.unsupportedValue (Decimal.plain.float x))
  else if single then .ok (Decimal.interchange.float32 x.toFloat32)
  else .ok (Decimal.interchange.float x)

/-- An instant. -/
def moment (t : Moment) : Except InterchangeFault Bytes :=
  let year := t.date.year
  if year < 0 || 9999 < year then .error .badTime
  else .ok (string (t.format "2006-01-02T15:04:05.999999999Z07:00"))

/-- The name of a key of a map. -/
def key (t : HostType) (d : Datum) : Except InterchangeFault Bytes :=
  match t.base, d with
  | .string, .string s => .ok s
  | .int _, .int n => .ok (Bytes.ofInt n)
  | .float32, .float x => float true x
  | .float64, .float x => float false x
  | _, _ => .error .keyNotString

/-- Members in braces. -/
def object (members : List (Bytes × Bytes)) : Bytes :=
  Bytes.ofString "\x7b" ++
    Bytes.join "," (members.map fun (name, x) => string name ++ Bytes.ofString ":" ++ x) ++ "\x7d"

/-- Elements in brackets. -/
def array (items : List Bytes) : Bytes := Bytes.ofString "[" ++ Bytes.join "," items ++ "]"

/-- The bytes of a sequence of them. -/
def bytesOf (ds : List Datum) : Bytes :=
  ds.map fun d => match d with
    | .int n => n.toNat.toUInt8
    | _ => 0

mutual

/-- Host data of a type in JSON text. -/
def slot [Host] (s : Heap) : (fuel : Nat) → HostType → Datum → Except InterchangeFault Bytes
  | 0, t, _ => .error (.endless t.text)
  | fuel + 1, t, d => do
    match t.base, d with
    | .function .., _ | .channel _, _ => .error (.unsupportedType t.text)
    | _, .any v => value s fuel v
    | .bool, .bool b => return if b then "true" else "false"
    | .int _, .int n => return Bytes.ofInt n
    | .float32, .float x => float true x
    | _, .float x => float false x
    | _, .string b => return string b
    | .pointer u, .cell id => slot s fuel u (s.cells.getD id .nil)
    | .slice u, .slice .. =>
      let ds := d.items s
      match u.base with
      | .int .uint8 => return string (Base64.encode (bytesOf ds))
      | _ => return array (← ds.mapM (slot s fuel u))
    | .array _ u, .array ds => return array (← ds.mapM (slot s fuel u))
    | .map k u, .map _ =>
      let members ← (d.entries s).mapM fun (e : Datum × Datum) => do
        return (← key k e.1, ← slot s fuel u e.2)
      return object (members.mergeSort fun a b => Bytes.le a.1 b.1)
    | .record name, .record ds =>
      return object (← record s fuel ((fieldsOfRecord name).zip ds))
    | _, _ => return "null"

/-- The members of a record; those of an embedded record are its own. -/
def record [Host] (s : Heap) : (fuel : Nat) → List (HostField × Datum) →
    Except InterchangeFault (List (Bytes × Bytes))
  | 0, _ => .ok []
  | _ + 1, [] => .ok []
  | fuel + 1, (f, d) :: rest => do
    let own ←
      if f.isEmbedded then
        let (t, inner) := match f.type, d with
          | .pointer u, .cell id => (u, s.cells.getD id .nil)
          | t, d => (t, d)
        match t, inner with
        | .record name, .record ds => record s fuel ((fieldsOfRecord name).zip ds)
        | _, _ => .ok []
      else if f.isExported then do
        let x ← slot s fuel f.type d
        .ok [(f.name, x)]
      else .ok []
    return own ++ (← record s fuel rest)

/-- A value held by the host in JSON text. -/
def value [Host] (s : Heap) : (fuel : Nat) → Value → Except InterchangeFault Bytes
  | 0, _ => .error (.endless "interface \x7b\x7d")
  | fuel + 1, v => do
    match v with
    | .null | .noMessage _ => return "null"
    | .bool b => return if b then "true" else "false"
    | .int n => return Bytes.ofInt n.toInt
    | .float x => float false x
    | .string b => return string b
    | .moment t => moment t
    | .host t d => slot s fuel t d
    | .bound recv method => .error (.unsupportedType (boundType s recv method).text)
    | .module id =>
      let m := s.modules.getD id default
      let members ← m.members.mapM fun (e : Bytes × Value) => do
        return (e.1, ← value s fuel e.2)
      let members := members.mergeSort fun a b => Bytes.le a.1 b.1
      return object [("Name", string m.name), ("Members", object members)]
    | .type (.message _) => return object [("MessageType", object [])]
    | _ => return object []

end

end Interchange

end Stencil
