import Stencil.Yaml.Decode
import Stencil.Program.Run
import Stencil.Schema.DescriptorSet
import Stencil.Catalog.Source
import Stencil.Schema.Descriptor

/-!
# Settings

Settings for running programs: namespaces to load, files with descriptions of messages,
a bound on the depth of calls, and values for global variables. Only settings that are
known are accepted.
-/

namespace Stencil

/-! ### Messages as types

The messages of a pool are types that programs can load. Linked messages are found by
their own names, others by the packages of their files.
-/

/-- The messages defined by a file outside of other messages. -/
def FileDesc.typeFile (f : FileDesc) : TypeFile :=
  ⟨f.package, (f.messages.filter (·.isTop)).map (·.fullName)⟩

/-- The types of the pool with the given index. -/
def Pool.source (p : Pool) (index : Nat) : TypeSource :=
  if p.linked then .messages index p.topMessages else .files index (p.files.map (·.typeFile))

/-! ### Settings -/

open Yaml

/-- Settings. A list that is not given differs from an empty one. -/
structure Settings where
  load : Option (List Bytes) := none
  descriptors : Option (List Bytes) := none
  maxCallDepth : Int := 0
  noDebugInfo : Bool := false
  globals : List (Bytes × Data) := []

/-- Read one setting. -/
def Settings.readField (fuel : Nat) (s : Settings) (key value : Node) : Decode Settings := do
  match ← decodeText fuel key with
  | none => return s
  | some name =>
    match name.toString? with
    | some "load" =>
      return { s with load := ← decodeTexts fuel value }
    | some "descriptors" => return { s with descriptors := ← decodeTexts fuel value }
    | some "maxCallDepth" =>
      return { s with maxCallDepth := (← decodeScalar "int" integerOf? fuel value).getD 0 }
    | some "noDebugInfo" =>
      return { s with noDebugInfo := (← decodeScalar "bool" truthOf? fuel value).getD false }
    | some "globals" => return { s with globals := (← decodeFields fuel value).getD [] }
    | _ =>
      note key.line (Bytes.ofString "field " ++ name ++ " not found in type main.config")
      return s

/-- Read the settings of a tree. -/
def Settings.ofNode : (fuel : Nat) → Node → Decode Settings
  | 0, _ => return {}
  | fuel + 1, n => do
    let want : Bytes := "main.config"
    match n with
    | .scalar _ tag text =>
      match ← scalarData tag text with
      | (_, .null) => return {}
      | _ =>
        noteKind n want
        return {}
    | .sequence .. =>
      noteKind n want
      return {}
    | .mapping _ _ entries =>
      if !(← checkKeys entries) then return {}
      (← mergedEntries fuel entries).foldlM (fun s (k, v) => s.readField fuel k v) {}
    | .alias _ _ (some target) => Settings.ofNode fuel target
    | .alias _ name none => selfReference name

/-- Read settings. An empty text holds none. -/
def readSettings (text : Bytes) : Except Bytes Settings := do
  match Node.read? text with
  | .error f => .error f.message
  | .ok none => return {}
  | .ok (some n) =>
    let s ← (Settings.ofNode (4 * text.length + 16) n).finish
    if s.maxCallDepth < 0 then .error "maxCallDepth must not be negative"
    return s

mutual

/-- The value of a setting, or what there is no value for. -/
def settingValue : Data → Job (Except Bytes Value)
  | .null => return .ok .null
  | .bool b => return .ok (.bool b)
  | .int n => return .ok (.int n.toInt64)
  | .float x => return .ok (.float x)
  | .text s => return .ok (.string s)
  | .list items => do
    match ← settingValues items with
    | .ok vs => return .ok (← Job.newList vs.toArray)
    | .error e => return .error e
  | .record fields => do
    match ← settingFields fields with
    | .ok fs => return .ok (.object (← Job.newObject fs))
    | .error e => return .error e
  | .large n => return .error (unsupported (.large n) "uint64")
  | .moment t => return .error (unsupported (.moment t) "time.Time")
  | .table es => return .error (unsupported (.table es) "map[interface \x7b\x7d]interface \x7b\x7d")
where
  /-- The wording of data without a value. -/
  unsupported (d : Data) (type : String) : Bytes :=
    Bytes.ofString "unsupported value " ++ d.display ++ " of type " ++ type

/-- The values of several settings. -/
def settingValues : List Data → Job (Except Bytes (List Value))
  | [] => return .ok []
  | d :: ds => do
    match ← settingValue d with
    | .error e => return .error e
    | .ok v =>
      match ← settingValues ds with
      | .ok vs => return .ok (v :: vs)
      | .error e => return .error e

/-- The values of fields. -/
def settingFields : List (Bytes × Data) → Job (Except Bytes (List (Bytes × Value)))
  | [] => return .ok []
  | (k, d) :: ds => do
    match ← settingValue d with
    | .error e => return .error e
    | .ok v =>
      match ← settingFields ds with
      | .ok fs => return .ok ((k, v) :: fs)
      | .error e => return .error e

end

/-- The values of global variables, in the order of their names. -/
def globalSettings : List (Bytes × Data) → Job (Except Bytes (List (Bytes × Value)))
  | [] => return .ok []
  | (k, d) :: ds => do
    match ← settingValue d with
    | .error e => return .error (Bytes.ofString "global " ++ k ++ ": " ++ e)
    | .ok v =>
      match ← globalSettings ds with
      | .ok fs => return .ok ((k, v) :: fs)
      | .error e => return .error e

/-- The wording of a file that is not there. -/
def missingFile (path : Bytes) : Bytes :=
  Bytes.ofString "open " ++ path ++ ": no such file or directory"

/-- Add the messages of a descriptor set to the store; they take the place of those known
so far. -/
def loadDescriptors (data : Bytes) : Job (Except Bytes TypeSource) := do
  match loadDescriptorSet data with
  | .error e => return .error e
  | .ok pool =>
    let s ← get
    set { s with pools := s.pools.push pool }
    return .ok (pool.source s.pools.size)

end Stencil
