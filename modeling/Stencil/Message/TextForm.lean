import Stencil.Message.Wire

/-!
# Messages in text form

Each field has a line with its name and value; the fields of a message in a message
stand in braces on lines of their own. Texts are written with escapes for what cannot
be seen, and values of enumerations by name.
-/

namespace Stencil

/-- A character of a text in quotes. Stray bytes are escaped. -/
def textGlyph : Glyph → Bytes
  | .stray b => Bytes.ofString "\\x" ++ hexNat 2 b.toNat
  | .char c =>
    match c with
    | '"' => "\\\""
    | '\\' => "\\\\"
    | '\n' => "\\n"
    | '\r' => "\\r"
    | '\t' => "\\t"
    | c => if c.toNat < 32 then Bytes.ofString "\\x" ++ hexNat 2 c.toNat else Bytes.ofChar c

/-- A text in quotes. -/
def textQuote (s : Bytes) : Bytes := [34] ++ s.glyphs.flatMap textGlyph ++ [34]

/-- A float in text form, with the precision of its field. -/
def textFloat (k : FieldKind) (x : Float) : Bytes :=
  if x.isNaN then "nan"
  else if x == Decimal.infinity false then "inf"
  else if x == Decimal.infinity true then "-inf"
  else
    match k with
    | .float => Decimal.plain.float32 x.toFloat32
    | _ => Decimal.plain.float x

/-- The name of a value of an enumeration, or its number if it has none. -/
def Pool.enumText (p : Pool) (name : Bytes) (n : Int) : Bytes :=
  match (p.enum? name).bind fun e => e.values.find? fun (_, m) => m = n with
  | some (label, _) => label
  | none => Bytes.ofInt n

/-- The text form of a basic value. -/
def scalarText (p : Pool) (k : FieldKind) : Scalar → Bytes
  | .bool b => if b then "true" else "false"
  | .int n =>
    match k with
    | .enum name => p.enumText name n
    | _ => Bytes.ofInt n
  | .float x => textFloat k x
  | .string s => textQuote s

/-- The last part of a dotted name. -/
def lastName (name : Bytes) : Bytes :=
  (name.reverse.takeWhile fun b => b ≠ 46).reverse

/-- The name of a field in text form: a group goes by the name of its type. -/
def FieldDesc.textName (f : FieldDesc) : Bytes :=
  match f.kind with
  | .group name => lastName name
  | _ => f.name

/-- A name with the lines of a message in braces. -/
def braced (name : Bytes) (lines : List Bytes) : List Bytes :=
  if lines.isEmpty then [name ++ ": \x7b\x7d"]
  else [name ++ ": \x7b"] ++ lines.map (Bytes.ofString "  " ++ ·) ++ [Bytes.ofString "\x7d"]

/-- The line of a field that holds a basic value. -/
def basicLines (p : Pool) (desc : MessageDesc) (f : FieldDesc) (s : Scalar) :
    Except MessageFault (List Bytes) :=
  match textFault? (p.checksText desc.fullName) (desc.fieldName f) f s with
  | some e => .error e
  | none => .ok [f.textName ++ ": " ++ scalarText p f.kind s]

mutual

/-- The lines of a message. -/
def MessageTree.lines (p : Pool) (name : Bytes) : MessageTree → Except MessageFault (List Bytes)
  | .mk fields _ => do
    let desc := (p.message? name).getD { fullName := name, fields := [] }
    let pieces := arrange (fun f => (desc.declaredRank f, 0)) (linesOfFields p desc fields)
    return (← pieces.mapM id).flatten

/-- The lines of fields that are set. -/
def linesOfFields (p : Pool) (desc : MessageDesc) :
    List (Nat × FieldTree) → List (FieldDesc × Except MessageFault (List Bytes))
  | [] => []
  | (n, x) :: rest =>
    let f := (desc.fieldNumber? n).getD default
    let others := linesOfFields p desc rest
    if x.isPopulated f then (f, linesOfField p desc f x) :: others else others

/-- The lines of a field. -/
def linesOfField (p : Pool) (desc : MessageDesc) (f : FieldDesc) :
    FieldTree → Except MessageFault (List Bytes)
  | .scalar s => basicLines p desc f s
  | .message m => do
    return braced f.textName (← m.lines p (f.kind.messageName?.getD []))
  | .list xs => linesOfItems p desc f xs
  | .map es => do
    let entry := (p.message? (f.kind.messageName?.getD [])).getD default
    let key := (entry.fieldNumber? 1).getD default
    let value := (entry.fieldNumber? 2).getD default
    let pieces ← (sortByKey (linesOfEntries p entry value es)).mapM fun (k, x) => do
      return braced f.textName ((← basicLines p entry key k) ++ (← x))
    return pieces.flatten

/-- The lines of the elements of a list. -/
def linesOfItems (p : Pool) (desc : MessageDesc) (f : FieldDesc) :
    List FieldTree → Except MessageFault (List Bytes)
  | [] => .ok []
  | x :: rest => do
    let ls ← linesOfField p desc f x
    return ls ++ (← linesOfItems p desc f rest)

/-- The lines of the values of a map, with their keys. -/
def linesOfEntries (p : Pool) (entry : MessageDesc) (value : FieldDesc) :
    List (Scalar × FieldTree) → List (Scalar × Except MessageFault (List Bytes))
  | [] => []
  | (k, x) :: rest => (k, linesOfField p entry value x) :: linesOfEntries p entry value rest

end

/-- The text form of a message. -/
def MessageTree.toText (p : Pool) (name : Bytes) (m : MessageTree) : Except MessageFault Bytes := do
  return (← m.lines p name).flatMap fun l => l ++ Bytes.ofString "\n"

end Stencil
