import Stencil.Sample.Host

/-!
# Types by name

The types of the sample host by their written forms.
-/

namespace Stencil.Sample

/-- The types written as a single word. -/
def wordTypes : List (String × HostType) :=
  [("bool", .bool), ("int", .int .int), ("int8", .int .int8), ("int16", .int .int16),
   ("int32", .int .int32), ("int64", .int .int64), ("uint", .int .uint), ("uint8", .int .uint8),
   ("uint16", .int .uint16), ("uint32", .int .uint32), ("uint64", .int .uint64),
   ("uintptr", .int .uintptr), ("float32", .float32), ("float64", .float64), ("string", .string),
   ("byte", .int .uint8), ("rune", .int .int32), ("interface \x7b\x7d", .any), ("interface\x7b\x7d", .any),
   ("any", .any), ("error", .error), ("fmt.Stringer", .iface "fmt.Stringer"),
   ("main.Name", nameType), ("main.Level", levelType), ("main.Flag", flagType),
   ("main.Point", pointType), ("main.Named", titleType), ("main.Shape", shapeType),
   ("main.Counter", .record "main.Counter"), ("main.Seq", .record "main.Seq"),
   ("time.Time", .moment), ("time.Duration", .duration), ("happy.List", .record "happy.List"),
   ("happy.Object", .record "happy.Object"), ("happy.Function", .record "happy.Function")]

/-- The longest word type a text starts with, and the rest. -/
def readWord (cs : List Char) : Option (HostType × List Char) :=
  let found := wordTypes.filter fun (w, _) => w.toList.isPrefixOf cs
  let longest := found.foldl (fun (best : Option (String × HostType)) (w, t) =>
    match best with
    | some (b, _) => if b.length < w.length then some (w, t) else best
    | none => some (w, t)) none
  longest.map fun (w, t) => (t, cs.drop w.length)

mutual

/-- Read a type and leave the rest of the text. -/
def readType : Nat → List Char → Option (HostType × List Char)
  | 0, _ => none
  | fuel + 1, cs =>
    match cs with
    | '*' :: cs => (readType fuel cs).map fun (t, r) => (.pointer t, r)
    | '[' :: ']' :: cs => (readType fuel cs).map fun (t, r) => (.slice t, r)
    | '[' :: cs =>
      let digits := cs.takeWhile Char.isDigit
      match cs.drop digits.length with
      | ']' :: cs =>
        (readType fuel cs).map fun (t, r) =>
          (.array (digits.foldl (fun n c => 10 * n + (c.toNat - 48)) 0) t, r)
      | _ => none
    | 'm' :: 'a' :: 'p' :: '[' :: cs => do
      let (k, r) ← readType fuel cs
      match r with
      | ']' :: r =>
        let (v, r) ← readType fuel r
        return (.map k v, r)
      | _ => none
    | 'c' :: 'h' :: 'a' :: 'n' :: ' ' :: cs =>
      (readType fuel cs).map fun (t, r) => (.channel t, r)
    | 'f' :: 'u' :: 'n' :: 'c' :: '(' :: cs => do
      let (ins, variadic, r) ← readList fuel cs
      match r with
      | ' ' :: '(' :: r =>
        let (outs, _, r) ← readList fuel r
        return (.function ins variadic outs, r)
      | ' ' :: r =>
        let (t, r) ← readType fuel r
        return (.function ins variadic [t], r)
      | r => return (.function ins variadic [], r)
    | cs => readWord cs

/-- Read types up to a closing parenthesis; the last one may stand for any number. -/
def readList : Nat → List Char → Option (List HostType × Bool × List Char)
  | 0, _ => none
  | fuel + 1, cs =>
    match cs with
    | ')' :: r => some ([], false, r)
    | ',' :: ' ' :: cs => readList fuel cs
    | '.' :: '.' :: '.' :: cs => do
      let (t, r) ← readType fuel cs
      match r with
      | ')' :: r => return ([.slice t], true, r)
      | _ => none
    | cs => do
      let (t, r) ← readType fuel cs
      let (ts, variadic, r) ← readList fuel r
      return (t :: ts, variadic, r)

end

/-- The type with the given written form. -/
def typeNamed? (text : String) : Option HostType :=
  match readType (text.length + 1) text.toList with
  | some (t, []) => some t
  | _ => none

end Stencil.Sample
