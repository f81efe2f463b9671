import Stencil.Yaml.Scanner
import Stencil.Decimal.Numeral
import Stencil.Time.Reading
import Stencil.Text.Base64
import Stencil.Text.Quoted

/-!
# The meaning of scalars

A plain scalar that looks like a number, a truth value, a time or nothing stands for
one; any other stands for its text. A tag in front of a scalar says what it must be.
-/

namespace Stencil.Yaml

/-- What settings are made of. -/
inductive Data where
  | null
  | bool (b : Bool)
  | int (n : Int)
  /-- A number that is too large for a signed one. -/
  | large (n : Nat)
  | float (x : Float)
  | text (s : Bytes)
  | moment (t : Moment)
  | list (items : List Data)
  /-- A mapping whose keys are texts, in the order of the keys. -/
  | record (fields : List (Bytes × Data))
  /-- Any other mapping. -/
  | table (entries : List (Data × Data))
  deriving Inhabited

/-- The name of the type of a scalar. -/
def Data.tag : Data → Bytes
  | .null => "!!null"
  | .bool _ => "!!bool"
  | .int _ | .large _ => "!!int"
  | .float _ => "!!float"
  | .text _ => "!!str"
  | .moment _ => "!!timestamp"
  | .list _ => "!!seq"
  | .record _ | .table _ => "!!map"

/-- The words with a meaning of their own. -/
def words : List (String × Data) :=
  (["true", "True", "TRUE"].map fun w => (w, .bool true)) ++
  (["false", "False", "FALSE"].map fun w => (w, .bool false)) ++
  (["", "~", "null", "Null", "NULL"].map fun w => (w, .null)) ++
  ([".nan", ".NaN", ".NAN"].map fun w => (w, .float Decimal.notANumber)) ++
  ([".inf", ".Inf", ".INF", "+.inf", "+.Inf", "+.INF"].map fun w =>
    (w, .float (Decimal.infinity false))) ++
  (["-.inf", "-.Inf", "-.INF"].map fun w => (w, .float (Decimal.infinity true)))

/-- The ways a time is written. -/
def momentLayouts : List Bytes :=
  ["2006-1-2T15:4:5.999999999Z07:00", "2006-1-2t15:4:5.999999999Z07:00",
   "2006-1-2 15:4:5.999999999", "2006-1-2"]

/-- Read a time, which starts with a year of four digits. -/
def readMoment? (s : Bytes) : Option Moment :=
  let year := s.takeWhile isDigitByte
  if year.length ≠ 4 || (s.drop 4).head? ≠ some 45 then none
  else momentLayouts.findSome? fun l => (readMoment l s 0).toOption

/-- Digits of a base, possibly after a sign. -/
def signedDigits? (base : Nat) (negative : Bool) (cs : List Char) : Option Int := do
  if cs.isEmpty then none
  let ds ← cs.mapM hexValue?
  if ds.any (· ≥ base) then none
  let n := ds.foldl (fun n d => n * base + d) 0
  return if negative then -(n : Int) else n

/-- Read an integer. A leading zero or a letter after it gives the base. -/
def readInteger? (cs : List Char) : Option Int :=
  let (negative, cs) := match cs with
    | '-' :: r => (true, r)
    | '+' :: r => (false, r)
    | r => (false, r)
  match cs with
  | '0' :: 'x' :: r | '0' :: 'X' :: r => signedDigits? 16 negative r
  | '0' :: 'o' :: r | '0' :: 'O' :: r => signedDigits? 8 negative r
  | '0' :: 'b' :: r | '0' :: 'B' :: r => signedDigits? 2 negative r
  | '0' :: c :: r => signedDigits? 8 negative (c :: r)
  | r => signedDigits? 10 negative r

/-- Read a number. Underscores between digits do not count. -/
def readNumber? (s : Bytes) : Option Data :=
  let plain := (s.filter (· ≠ 95)).map fun b => Char.ofNat b.toNat
  let signed := plain.head? = some '+' || plain.head? = some '-'
  let whole := (readInteger? plain).bind fun n =>
    if Decimal.fitsInt64 n then some (Data.int n)
    else if !signed && n < Nat.pow 2 64 then some (.large n.toNat) else none
  whole.or do
    let _ ← Decimal.readFraction? plain
    return .float (← (Decimal.readFloat plain).toOption)

/-- What a plain scalar stands for; times are looked for on demand. -/
def plainData (times : Bool) (s : Bytes) : Data :=
  match s with
  | [] => .null
  | b :: _ =>
    let word := (words.find? fun w => Bytes.ofString w.1 = s).map (·.2)
    let asText := Data.text s
    if b = 43 || b = 45 || isDigitByte b then
      word.getD ((if times then (readMoment? s).map .moment else none).getD
        ((readNumber? s).getD asText))
    else if b = 46 then
      word.getD (((Decimal.readFraction? s.chars).bind fun _ =>
        (Decimal.readFloat s.chars).toOption.map .float).getD asText)
    else if (Bytes.ofString "yYnNtTfFoO~").any (· = b) then word.getD asText
    else asText

/-- The types that scalars are checked against. -/
def isScalarTag (tag : Bytes) : Bool :=
  tag.isEmpty || (["!!str", "!!bool", "!!int", "!!float", "!!null", "!!timestamp"].any fun t =>
    Bytes.ofString t = tag)

/-- What a scalar with a tag stands for, with the name of its type. -/
def resolve (tag s : Bytes) : Except Fault (Bytes × Data) :=
  if !isScalarTag tag || tag = Bytes.ofString "!!str" then .ok (tag, .text s)
  else
    let d := plainData (tag.isEmpty || tag = Bytes.ofString "!!timestamp") s
    if tag.isEmpty || d.tag = tag then .ok (d.tag, d)
    else
      match d with
      | .int n => if tag = Bytes.ofString "!!float" then .ok (tag, .float (Decimal.floatOfInt n)) else refuse d
      | d => refuse d
where
  /-- The scalar is not what its tag says. -/
  refuse (d : Data) : Except Fault (Bytes × Data) :=
    .error (.other (Bytes.ofString "cannot decode " ++ d.tag ++ " `" ++ s ++ "` as a " ++ tag))

/-- The text of data in binary form. -/
def readBinary (s : Bytes) : Except Fault Bytes :=
  match Base64.decode? s with
  | some b => .ok b
  | none => .error (.other "!!binary value contains invalid base64 data")

/-! ### Descriptions -/

/-- The number of a kind of data in the order of keys. -/
def Data.rank : Data → Nat
  | .null => 0
  | .bool _ => 1
  | .float _ => 2
  | .int _ => 3
  | .text _ => 4
  | .moment _ => 5
  | .large _ => 6
  | _ => 7

/-- The order of keys in a description. -/
def Data.keyLe (a b : Data) : Bool :=
  match a, b with
  | .int m, .int n => m ≤ n
  | .large m, .large n => m ≤ n
  | .float x, .float y => x ≤ y
  | .text s, .text t => Bytes.le s t
  | .bool x, .bool y => !x || y
  | a, b => a.rank ≤ b.rank

mutual

/-- The description of data. -/
def Data.display : Data → Bytes
  | .null => "<nil>"
  | .bool b => if b then "true" else "false"
  | .int n => Bytes.ofInt n
  | .large n => Bytes.ofNat n
  | .float x => Decimal.FloatStyle.float Decimal.plain x
  | .text s => s
  | .moment t => t.text
  | .list items => Bytes.ofString "[" ++ Bytes.join " " (displayAll items) ++ "]"
  | .record fields => Bytes.ofString "map[" ++ Bytes.join " " (displayFields fields) ++ "]"
  | .table entries => Bytes.ofString "map[" ++ Bytes.join " " (displayEntries entries) ++ "]"

/-- The descriptions of several data. -/
def displayAll : List Data → List Bytes
  | [] => []
  | x :: xs => x.display :: displayAll xs

/-- The descriptions of fields. -/
def displayFields : List (Bytes × Data) → List Bytes
  | [] => []
  | (k, x) :: xs => (k ++ ":" ++ x.display) :: displayFields xs

/-- The descriptions of entries. -/
def displayEntries : List (Data × Data) → List Bytes
  | [] => []
  | (k, x) :: xs => (k.display ++ ":" ++ x.display) :: displayEntries xs

end

mutual

/-- The description of data with its types. -/
def Data.displayTyped : Data → Bytes
  | .null => "interface \x7b\x7d(nil)"
  | .text s => s.quote
  | .large n => Bytes.ofString "0x" ++ hexNat 1 n
  | .list items => Bytes.ofString "[]interface \x7b\x7d\x7b" ++ Bytes.join ", " (displayAllTyped items) ++ "\x7d"
  | .record fields =>
    Bytes.ofString "map[string]interface \x7b\x7d\x7b" ++ Bytes.join ", " (displayFieldsTyped fields) ++ "\x7d"
  | .table entries =>
    Bytes.ofString "map[interface \x7b\x7d]interface \x7b\x7d\x7b" ++
      Bytes.join ", " (displayEntriesTyped entries) ++ "\x7d"
  | d => d.display

/-- The descriptions of several data with their types. -/
def displayAllTyped : List Data → List Bytes
  | [] => []
  | x :: xs => x.displayTyped :: displayAllTyped xs

/-- The descriptions of fields with their types. -/
def displayFieldsTyped : List (Bytes × Data) → List Bytes
  | [] => []
  | (k, x) :: xs => (Bytes.quote k ++ ":" ++ x.displayTyped) :: displayFieldsTyped xs

/-- The descriptions of entries with their types. -/
def displayEntriesTyped : List (Data × Data) → List Bytes
  | [] => []
  | (k, x) :: xs => (k.displayTyped ++ ":" ++ x.displayTyped) :: displayEntriesTyped xs

end

end Stencil.Yaml
