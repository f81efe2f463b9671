import Stencil.Message.Wire
import Stencil.Message.TextToken
import Stencil.Schema.Standard

/-!
# Sets of file descriptions

Descriptions of messages are messages themselves: a set of files can be read in binary
form and turned into a pool. A file is added after the files it imports. Names are
declared first, then the types of fields are looked up, from the scope of the field
outwards, and last the definitions are checked.
-/

namespace Stencil

/-- Why a set of file descriptions does not make a pool. -/
inductive DescriptorFault where
  | fileTwice (path : Bytes)
  | importCycle (path : Bytes)
  | badEdition (text : Bytes)
  | noPath
  | badPackage (name : Bytes)
  | badImportIndex (weak : Bool) (index : Int)
  | missingImport (path : Bytes)
  | importedTwice (path : Bytes)
  | badName (parent name : Bytes)
  | declaredTwice (name : Bytes)
  | nameConflict (path name : Bytes)
  | badOneof (field : Bytes) (index : Int)
  | badType (field reason : Bytes)
  | badDefault (field reason : Bytes)
  | emptyEnum (name : Bytes)
  | enumNumberTwice (name : Bytes) (number : Int) (first second : Bytes)
  | enumNotZero (value : Bytes)
  | enumNoNumber (value : Bytes)
  | fieldNumberTwice (message first second : Bytes)
  | similarNames (message first second : Bytes)
  | badNumber (field : Bytes) (number : Int)
  | badLabel (field : Bytes) (label : Int)
  | requiredField (field : Bytes)
  | emptyOneof (name : Bytes)
  | oneofLabel (field : Bytes)
  deriving DecidableEq, Repr

/-- The wording of a fault. -/
def DescriptorFault.text : DescriptorFault → Bytes
  | .fileTwice path => Bytes.ofString "file appears multiple times: " ++ path.quote
  | .importCycle path => Bytes.ofString "import cycle in file: " ++ path.quote
  | .badEdition text => Bytes.ofString "invalid syntax: " ++ text.quote
  | .noPath => "file path must be populated"
  | .badPackage name => Bytes.ofString "invalid package: " ++ name.quote
  | .badImportIndex weak index =>
    Bytes.ofString "invalid or duplicate " ++ Bytes.ofString (if weak then "weak" else "public") ++
      " import index: " ++ Bytes.ofInt index
  | .missingImport path =>
    Bytes.ofString "could not resolve import " ++ path.quote ++ ": not found"
  | .importedTwice path => Bytes.ofString "already imported " ++ path.quote
  | .badName parent name =>
    Bytes.ofString "descriptor " ++ parent.quote ++ " has an invalid nested name: " ++ name.quote
  | .declaredTwice name => Bytes.ofString "descriptor " ++ name.quote ++ " already declared"
  | .nameConflict path name =>
    Bytes.ofString "file " ++ path.quote ++ " has a name conflict over " ++ name
  | .badOneof field index => message field ++ " has an invalid oneof index: " ++ Bytes.ofInt index
  | .badType field reason => message field ++ " cannot resolve type: " ++ reason
  | .badDefault field reason => message field ++ " has invalid default: " ++ reason
  | .emptyEnum name =>
    Bytes.ofString "enum " ++ name.quote ++ " must contain at least one value declaration"
  | .enumNumberTwice name number first second =>
    Bytes.ofString "enum " ++ name.quote ++ " has conflicting non-aliased values on number " ++
      Bytes.ofInt number ++ ": " ++ first.quote ++ " with " ++ second.quote
  | .enumNotZero value =>
    Bytes.ofString "enum " ++ value.quote ++
      " using proto3 semantics must have zero number for the first value"
  | .enumNoNumber value =>
    Bytes.ofString "enum value " ++ value.quote ++ " must have a specified number"
  | .fieldNumberTwice name first second =>
    Bytes.ofString "message " ++ name.quote ++ " has conflicting fields: " ++ first.quote ++
      " with " ++ second.quote
  | .similarNames name first second =>
    Bytes.ofString "message " ++ name.quote ++ " using proto3 semantics has conflict: " ++
      first.quote ++ " with " ++ second.quote
  | .badNumber field number => message field ++ " has an invalid number: " ++ Bytes.ofInt number
  | .badLabel field label => message field ++ " has an invalid cardinality: " ++ Bytes.ofInt label
  | .requiredField field => message field ++ " using proto3 semantics cannot be required"
  | .emptyOneof name =>
    Bytes.ofString "message oneof " ++ name.quote ++ " must contain at least one field declaration"
  | .oneofLabel field => message field ++ " belongs in a oneof and must be optional"
where
  /-- A field in a message. -/
  message (field : Bytes) : Bytes := Bytes.ofString "message field " ++ field.quote

namespace MessageTree

/-- The text in a field. -/
def textAt (m : MessageTree) (n : Nat) : Bytes :=
  match m.get? n with
  | some (.scalar (.string s)) => s
  | _ => []

/-- The integer in a field. -/
def intAt? (m : MessageTree) (n : Nat) : Option Int :=
  match m.get? n with
  | some (.scalar (.int i)) => some i
  | _ => none

/-- The flag in a field. -/
def flagAt (m : MessageTree) (n : Nat) : Bool :=
  match m.get? n with
  | some (.scalar (.bool b)) => b
  | _ => false

/-- The elements of a repeated field. -/
def itemsAt (m : MessageTree) (n : Nat) : List FieldTree :=
  match m.get? n with
  | some (.list xs) => xs
  | _ => []

/-- The messages of a repeated field. -/
def messagesAt (m : MessageTree) (n : Nat) : List MessageTree :=
  (m.itemsAt n).filterMap fun x => match x with
    | .message c => some c
    | _ => none

/-- The texts of a repeated field. -/
def textsAt (m : MessageTree) (n : Nat) : List Bytes :=
  (m.itemsAt n).filterMap fun x => match x with
    | .scalar (.string s) => some s
    | _ => none

/-- The integers of a repeated field. -/
def intsAt (m : MessageTree) (n : Nat) : List Int :=
  (m.itemsAt n).filterMap fun x => match x with
    | .scalar (.int i) => some i
    | _ => none

end MessageTree

/-! ### Names -/

/-- Whether a text is a name without dots. -/
def isPlainName : Bytes → Bool
  | [] => false
  | b :: rest => isLetterByte b && rest.all fun c => isLetterByte c || isDigitByte c

/-- Whether a text is a sequence of names with dots between them. -/
def isDottedName (name : Bytes) : Bool := (segments name).all isPlainName

/-- A name within a scope. -/
def within (scope name : Bytes) : Bytes := if scope.isEmpty then name else scope ++ "." ++ name

/-- The scope a name lies in. -/
def enclosing (name : Bytes) : Bytes := Bytes.join "." (segments name).dropLast

/-- What a name is declared as. -/
inductive DeclaredKind where
  | message | enum | other
  deriving DecidableEq, Repr

/-- Names with what they are declared as. -/
abbrev Declarations := List (Bytes × DeclaredKind)

/-- Declare a name in a scope. -/
def Declarations.declare (ds : Declarations) (parent scope name : Bytes) (kind : DeclaredKind) :
    Except DescriptorFault Declarations :=
  if !isPlainName name then .error (.badName parent name)
  else
    let full := within scope name
    if ds.any fun d => d.1 = full then .error (.declaredTwice full) else .ok ((full, kind) :: ds)

/-- Declare an enumeration and its values, which lie beside it. -/
def declareEnum (scope : Bytes) (ds : Declarations) (e : MessageTree) :
    Except DescriptorFault Declarations := do
  let ds ← ds.declare scope scope (e.textAt 1) .enum
  (e.messagesAt 2).foldlM
    (fun ds v => ds.declare (within scope (e.textAt 1)) scope (v.textAt 1) .other) ds

/-- Declare a message and what is defined in it. -/
def declareMessage : (depth : Nat) → (scope : Bytes) → Declarations → MessageTree →
    Except DescriptorFault Declarations
  | 0, _, ds, _ => .ok ds
  | depth + 1, scope, ds, m => do
    let ds ← ds.declare scope scope (m.textAt 1) .message
    let inner := within scope (m.textAt 1)
    let ds ← (m.messagesAt 2 ++ m.messagesAt 8).foldlM
      (fun ds f => Declarations.declare ds inner inner (f.textAt 1) .other) ds
    let ds ← (m.messagesAt 4).foldlM (declareEnum inner) ds
    (m.messagesAt 3).foldlM (declareMessage depth inner) ds

/-! ### Types of fields -/

/-- Where a file looks for names: in itself and in the files it imports. -/
structure NameTable where
  own : Declarations
  /-- The names of other files, with their paths. -/
  others : List (Bytes × DeclaredKind × Bytes)
  imports : List Bytes

/-- Why a name has no meaning. -/
inductive NameFault where
  | notFound
  | notImported (name path : Bytes)

/-- Look a name up in each of the given scopes. -/
def NameTable.search (t : NameTable) (name : Bytes) : (hidden : Option (Bytes × Bytes)) →
    List Bytes → Except NameFault (Bytes × DeclaredKind)
  | none, [] => .error .notFound
  | some (n, path), [] => .error (.notImported n path)
  | hidden, scope :: rest =>
    let full := within scope name
    match t.own.find? fun d => d.1 = full with
    | some d => .ok d
    | none =>
      match t.others.find? fun d => d.1 = full with
      | some (n, kind, path) =>
        if t.imports.contains path then .ok (n, kind) else t.search name (some (n, path)) rest
      | none => t.search name hidden rest

/-- The scopes around and including one, the innermost first. -/
def scopesOf (scope : Bytes) : List Bytes :=
  if scope.isEmpty then [[]] else go (segments scope).reverse
where
  /-- The scopes named by leading segments, which are given in reverse. -/
  go : List Bytes → List Bytes
    | [] => [[]]
    | s :: ss => Bytes.join "." (s :: ss).reverse :: go ss

/-- Find the message or the enumeration that a field refers to. -/
def NameTable.find (t : NameTable) (scope ref : Bytes) : Except Bytes (Bytes × DeclaredKind) :=
  let isFull := Bytes.startsWith ref "."
  let bare := if isFull then ref.drop 1 else ref
  if !isDottedName bare then .error (Bytes.ofString "invalid name reference: " ++ ref.quote)
  else
    match t.search bare none (if isFull then [[]] else scopesOf scope) with
    | .ok d => .ok d
    | .error .notFound =>
      let shown : Bytes := if isFull then bare else Bytes.ofString "*." ++ bare
      .error (shown.quote ++ " not found")
    | .error (.notImported name path) =>
      .error (Bytes.ofString "resolved " ++ name.quote ++ ", but " ++ path.quote ++ " is not imported")

/-- The types that are not defined in files, by number. -/
def basicKind? : Int → Option FieldKind
  | 1 => some .double
  | 2 => some .float
  | 3 => some .int64
  | 4 => some .uint64
  | 5 => some .int32
  | 6 => some .fixed64
  | 7 => some .fixed32
  | 8 => some .bool
  | 9 => some .string
  | 12 => some .bytes
  | 13 => some .uint32
  | 15 => some .sfixed32
  | 16 => some .sfixed64
  | 17 => some .sint32
  | 18 => some .sint64
  | _ => none

/-- The type of a field in a message. -/
def NameTable.kindOf (t : NameTable) (scope : Bytes) (f : MessageTree) : Except Bytes FieldKind := do
  let ref := f.textAt 6
  match f.intAt? 5 with
  | some 10 => return .group (← wanted .message "message" ref)
  | some 11 => return .message (← wanted .message "message" ref)
  | some 14 => return .enum (← wanted .enum "enum" ref)
  | none | some 0 =>
    match ← t.find scope ref with
    | (name, .message) => return .message name
    | (name, .enum) => return .enum name
    | (_, .other) => throw (Bytes.ofString "unknown kind")
  | some n =>
    match basicKind? n with
    | some kind =>
      if ref.isEmpty then return kind
      else throw (Bytes.ofString "target name cannot be specified for " ++ kind.text)
    | none => throw (Bytes.ofString "invalid kind: " ++ Bytes.ofInt n)
where
  /-- The full name of a definition of one kind. -/
  wanted (kind : DeclaredKind) (word : String) (ref : Bytes) : Except Bytes Bytes := do
    let (name, found) ← t.find scope ref
    if found = kind then return name
    else throw (Bytes.ofString "resolved " ++ name.quote ++ ", but it is not an " ++ word)

/-- The default of a field as it is written in its description. -/
def defaultOf? (enums : List EnumDesc) (kind : FieldKind) (text : Bytes) : Option Scalar :=
  match kind with
  | .bool =>
    if text = Bytes.ofString "true" then some (.bool true)
    else if text = Bytes.ofString "false" then some (.bool false) else none
  | .enum name => do
    let e ← enums.find? (·.fullName = name)
    return .int (← e.values.lookup text)
  | .string => some (.string text)
  | .bytes =>
    let quoted : Bytes := text ++ [34]
    (takeTextString (.ofBytes quoted) 34 (quoted.length + 1) [] quoted).toOption.map fun r =>
      .string r.1
  | .double => floatText false
  | .float => floatText true
  | .message _ | .group _ => none
  | kind => do
    let k ← kind.intKind?
    let n ← (Decimal.readInt text.chars).toOption
    guard (k.holds n)
    return .int n
where
  /-- A number with a fraction, or one of the words for the others. -/
  floatText (single : Bool) : Option Scalar :=
    if text = Bytes.ofString "nan" then some (.float Decimal.notANumber)
    else if text = Bytes.ofString "inf" then some (.float (Decimal.infinity false))
    else if text = Bytes.ofString "-inf" then some (.float (Decimal.infinity true))
    else (Decimal.readFloat text.chars).toOption.map fun x =>
      .float (if single then x.toFloat32.toFloat else x)

/-! ### Definitions -/

/-- What a file provides for the definitions in it. -/
structure FileScope where
  names : NameTable
  edition : SchemaEdition
  enums : List EnumDesc

/-- The full name of the `k`-th group of alternatives of a message. -/
def oneofName? (full : Bytes) (m : MessageTree) (k : Int) : Option Bytes :=
  if k < 0 then none else (m.messagesAt 8)[k.toNat]?.map fun o => within full (o.textAt 1)

/-- The description of a field. -/
def fieldDescOf (s : FileScope) (full : Bytes) (m f : MessageTree) :
    Except DescriptorFault FieldDesc := do
  let name := f.textAt 1
  let whole := within full name
  let oneof ← match f.intAt? 9 with
    | none => pure none
    | some k =>
      match oneofName? full m k with
      | some o => pure (some o)
      | none => throw (.badOneof whole k)
  let kind ← (s.names.kindOf full f).mapError (.badType whole)
  let dflt ← match f.get? 7 with
    | none => pure none
    | some _ =>
      match defaultOf? s.enums kind (f.textAt 7) with
      | some d => pure (some d)
      | none => throw (.badDefault whole
          (Bytes.ofString "could not parse value for " ++ kind.text ++ ": " ++ (f.textAt 7).quote))
  let cardinality : Cardinality := match f.intAt? 4 with
    | some 2 => .required
    | some 3 => .repeated
    | _ => .optional
  let packable := match kind with
    | .string | .bytes | .message _ | .group _ => false
    | _ => true
  let packed := match (f.child 8).get? 2 with
    | some _ => (f.child 8).flagAt 2
    | none => s.edition = .proto3 && packable && cardinality = .repeated
  return {
    name, number := ((f.intAt? 3).getD 0).toNat, kind, cardinality
    jsonName := if (f.get? 10).isSome then f.textAt 10 else camelName name
    dflt, packed, oneof
    hasPresence := cardinality ≠ .repeated &&
      (s.edition = .proto2 || kind.messageName?.isSome || oneof.isSome) }

/-- The description of an enumeration. -/
def enumDescOf (scope : Bytes) (e : MessageTree) : EnumDesc :=
  { fullName := within scope (e.textAt 1)
    values := (e.messagesAt 2).map fun v => (v.textAt 1, (v.intAt? 2).getD 0) }

/-- The enumerations of a message, at any depth. -/
def enumsWithin : (depth : Nat) → (scope : Bytes) → MessageTree → List EnumDesc
  | 0, _, _ => []
  | depth + 1, scope, m =>
    let inner := within scope (m.textAt 1)
    (m.messagesAt 4).map (enumDescOf inner) ++ (m.messagesAt 3).flatMap (enumsWithin depth inner)

/-- The descriptions of a message and of those defined in it. -/
def messageDescsOf (s : FileScope) : (depth : Nat) → (isTop : Bool) → (scope : Bytes) →
    MessageTree → Except DescriptorFault (List MessageDesc)
  | 0, _, _, _ => .ok []
  | depth + 1, isTop, scope, m => do
    let full := within scope (m.textAt 1)
    let fields ← (m.messagesAt 2).mapM (fieldDescOf s full m)
    let nested ← (m.messagesAt 3).mapM (messageDescsOf s depth false full)
    return { fullName := full, fields, isMapEntry := (m.child 7).flagAt 7, isTop } :: nested.flatten

/-! ### Checks -/

/-- The first of two elements of a list that agree in what `key` gives, with the second. -/
def firstRepeat? {α β : Type} [BEq β] (key : α → β) : List α → Option (α × α)
  | [] => none
  | x :: xs =>
    match xs.find? fun y => key y == key x with
    | some y => some (x, y)
    | none => firstRepeat? key xs

/-- Check an enumeration. -/
def checkEnum (edition : SchemaEdition) (scope : Bytes) (e : MessageTree) :
    Except DescriptorFault Unit := do
  let name := within scope (e.textAt 1)
  let values := e.messagesAt 2
  let numberOf (v : MessageTree) : Int := (v.intAt? 2).getD 0
  match values with
  | [] => throw (.emptyEnum name)
  | v :: _ =>
    if !(e.child 3).flagAt 2 then
      if let some (x, y) := firstRepeat? numberOf values then
        throw (.enumNumberTwice name (numberOf x) (y.textAt 1) (x.textAt 1))
    if edition = .proto3 && numberOf v ≠ 0 then throw (.enumNotZero (within scope (v.textAt 1)))
    for v in values do
      if (v.intAt? 2).isNone then throw (.enumNoNumber (within scope (v.textAt 1)))

/-- Whether a number can be the number of a field. -/
def isFieldNumber (n : Int) : Bool :=
  1 ≤ n && n < Nat.pow 2 29 && !(19000 ≤ n && n < 20000)

/-- Check a field of a message. -/
def checkField (edition : SchemaEdition) (full : Bytes) (f : MessageTree) :
    Except DescriptorFault Unit := do
  let name := within full (f.textAt 1)
  let number := (f.intAt? 3).getD 0
  let label := (f.intAt? 4).getD 0
  if !isFieldNumber number then throw (.badNumber name number)
  if !(1 ≤ label && label ≤ 3) then throw (.badLabel name label)
  if edition = .proto3 && label = 2 then throw (.requiredField name)

/-- The form in which the names of fields must differ. -/
def looseName (name : Bytes) : Bytes :=
  (name.filter (· ≠ 95)).map fun b => if 65 ≤ b && b ≤ 90 then b + 32 else b

/-- Check a message and what is defined in it. -/
def checkMessage (edition : SchemaEdition) : (depth : Nat) → (scope : Bytes) → MessageTree →
    Except DescriptorFault Unit
  | 0, _, _ => .ok ()
  | depth + 1, scope, m => do
    let full := within scope (m.textAt 1)
    let fields := m.messagesAt 2
    if let some (x, y) := firstRepeat? (fun f => (f.intAt? 3).getD 0) fields then
      throw (.fieldNumberTwice full (y.textAt 1) (x.textAt 1))
    if edition = .proto3 then
      if let some (x, y) := firstRepeat? (fun f => looseName (f.textAt 1)) fields then
        throw (.similarNames full (y.textAt 1) (x.textAt 1))
    fields.forM (checkField edition full)
    for (o, k) in (m.messagesAt 8).zipIdx do
      let chosen := fields.filter fun f => f.intAt? 9 = some (k : Int)
      if chosen.isEmpty then throw (.emptyOneof (within full (o.textAt 1)))
      for f in chosen do
        if f.intAt? 4 ≠ some 1 then throw (.oneofLabel (within full (f.textAt 1)))
    (m.messagesAt 4).forM (checkEnum edition full)
    (m.messagesAt 3).forM (checkMessage edition depth full)

/-! ### Files -/

/-- Files that have been added, with the names each declares. -/
structure FileTable where
  files : List (FileDesc × Declarations) := []

/-- The edition a file names. -/
def editionOf (f : MessageTree) : Except DescriptorFault SchemaEdition :=
  let text := f.textAt 12
  if text.isEmpty || text = Bytes.ofString "proto2" then .ok .proto2
  else if text = Bytes.ofString "proto3" then .ok .proto3
  else .error (.badEdition text)

/-- Check that marks of imports refer to imports, each at most once. -/
def checkImportMarks (weak : Bool) (count : Nat) (marks : List Int) : Except DescriptorFault Unit :=
  go [] marks
where
  /-- Check the remaining marks. -/
  go (seen : List Int) : List Int → Except DescriptorFault Unit
    | [] => .ok ()
    | i :: rest =>
      if 0 ≤ i && i < count && !seen.contains i then go (i :: seen) rest
      else .error (.badImportIndex weak i)

/-- Check that every import is known and made once. -/
def checkImports (t : FileTable) (weak : List Int) : (seen : List Bytes) → List (Bytes × Nat) →
    Except DescriptorFault Unit
  | _, [] => .ok ()
  | seen, (path, i) :: rest =>
    if !(t.files.any fun f => f.1.path = path) && !weak.contains (i : Int) then
      .error (.missingImport path)
    else if seen.contains path then .error (.importedTwice path)
    else checkImports t weak (path :: seen) rest

/-- Add a file whose imports have been added. -/
def FileTable.add (t : FileTable) (depth : Nat) (f : MessageTree) :
    Except DescriptorFault FileTable := do
  let edition ← editionOf f
  let path := f.textAt 1
  if path.isEmpty then throw .noPath
  let package := f.textAt 2
  if !package.isEmpty && !isDottedName package then throw (.badPackage package)
  let imports := f.textsAt 3
  checkImportMarks false imports.length (f.intsAt 10)
  checkImportMarks true imports.length (f.intsAt 11)
  checkImports t (f.intsAt 11) [path] imports.zipIdx
  let own ← (f.messagesAt 5).foldlM (declareEnum package) []
  let own ← (f.messagesAt 4).foldlM (declareMessage depth package) own
  let enums := (f.messagesAt 5).map (enumDescOf package) ++
    (f.messagesAt 4).flatMap (enumsWithin depth package)
  let others := t.files.flatMap fun (g, ds) => ds.map fun (n, k) => (n, k, g.path)
  let scope : FileScope :=
    { names := { own, others, imports }, edition
      enums := enums ++ t.files.flatMap (·.1.enums) }
  let messages ← (f.messagesAt 4).mapM (messageDescsOf scope depth true package)
  (f.messagesAt 5).forM (checkEnum edition package)
  (f.messagesAt 4).forM (checkMessage edition depth package)
  for (n, _) in own.reverse do
    if others.any fun o => o.1 = n then throw (.nameConflict path n)
  return { files := t.files ++
    [({ path, package, edition, messages := messages.flatten, enums }, own)] }

/-- Add a file after the files it imports. `open` are the files on the way to it. -/
def FileTable.addWithImports (all : List MessageTree) (depth : Nat) : (fuel : Nat) →
    (opened : List Bytes) → FileTable → MessageTree → Except DescriptorFault FileTable
  | 0, _, t, _ => .ok t
  | fuel + 1, opened, t, f => do
    let path := f.textAt 1
    if t.files.any fun g => g.1.path = path then return t
    let t ← (f.textsAt 3).foldlM (fun t dep => do
      if opened.contains dep || dep = path then throw (.importCycle dep)
      match all.find? fun g => g.textAt 1 = dep with
      | some g => FileTable.addWithImports all depth fuel (path :: opened) t g
      | none => return t) t
    t.add depth f

/-- The pool of a set of files. Messages may be nested up to `depth` deep. -/
def Pool.ofDescriptorSet (depth : Nat) (set : MessageTree) : Except DescriptorFault Pool := do
  let all := set.messagesAt 1
  if let some (f, _) := firstRepeat? (fun f => f.textAt 1) all then
    throw (.fileTwice (f.textAt 1))
  let t ← all.foldlM (FileTable.addWithImports all depth (all.length + 1) []) {}
  return { files := t.files.map (·.1) }

/-- The pool of a set of files in binary form, or why there is none. -/
def loadDescriptorSet (b : Bytes) : Except Bytes Pool := do
  let set ← (decodeMessage Pool.standard (Standard.full "FileDescriptorSet") b).mapError fun e =>
    Bytes.ofString "catalog: decoding descriptor set: " ++ e.message
  (Pool.ofDescriptorSet b.length set).mapError fun e =>
    Bytes.ofString "catalog: building descriptor index: proto: " ++ e.text

end Stencil
