import Stencil.Yaml.Node
import Stencil.Catalog.Source

/-!
# From trees to data

A node is read as what is wanted in its place. Nodes of the wrong kind are noted with
their lines and reading goes on, so that all of them are reported together.
-/

namespace Stencil.Yaml

/-- Computations that note nodes of the wrong kind, the last one first. -/
abbrev Decode := StateT (List Bytes) (Except Fault)

/-- Note a problem on a line. -/
def note (line : Nat) (what : Bytes) : Decode Unit :=
  modify fun notes => (Bytes.ofString "line " ++ Bytes.ofNat line ++ ": " ++ what) :: notes

/-- Note that a node is not what is wanted. -/
def noteKind (n : Node) (want : Bytes) : Decode Unit :=
  let isCollection := n.tag = Bytes.ofString "!!seq" || n.tag = Bytes.ofString "!!map"
  let shown : Bytes :=
    if isCollection then n.text
    else if n.text.length > 10 then Bytes.ofString " `" ++ n.text.take 7 ++ "...`"
    else Bytes.ofString " `" ++ n.text ++ "`"
  note n.line (Bytes.ofString "cannot unmarshal " ++ n.tag ++ shown ++ " into " ++ want)

/-- Note the keys of a mapping that are given again; the outcome tells that there are
none. -/
def checkKeys : List (Node × Node) → Decode Bool
  | [] => return true
  | (k, _) :: rest => do
    let again := rest.filter fun e => k.isSameKey e.1
    again.forM fun (e, _) =>
      note e.line (Bytes.ofString "mapping key " ++ e.text.quote ++ " already defined at line " ++
        Bytes.ofNat k.line)
    return (← checkKeys rest) && again.isEmpty

/-- A reference within the node it refers to. -/
def selfReference {α : Type} (name : Bytes) : Decode α :=
  throw (.other (Bytes.ofString "anchor '" ++ name ++ "' value contains itself"))

/-- The entries of a mapping with those it takes over from others, which do not replace
its own. -/
def mergedEntries : (fuel : Nat) → List (Node × Node) → Decode (List (Node × Node))
  | 0, entries => return entries
  | fuel + 1, entries => do
    let own := entries.filter fun e => !e.1.isMerge
    let add (acc more : List (Node × Node)) : List (Node × Node) :=
      acc ++ more.filter fun e => !acc.any fun x => x.1.isSameKey e.1
    let wanted {α : Type} : Decode α :=
      throw (.other "map merge requires map or sequence of maps as the value")
    let from_ (n : Node) : Decode (List (Node × Node)) :=
      match n with
      | .mapping _ _ es | .alias _ _ (some (.mapping _ _ es)) => mergedEntries fuel es
      | .alias _ name none => selfReference name
      | _ => wanted
    match (entries.filter fun e => e.1.isMerge).getLast? with
    | none => return own
    | some (_, .sequence _ _ ns) =>
      ns.foldlM (fun acc n => do return add acc (← from_ n)) own
    | some (_, n) => return add own (← from_ n)

/-- The content of a scalar, with the name of its type. -/
def scalarData (tag text : Bytes) : Decode (Bytes × Data) := do
  if tag = Bytes.ofString "!!binary" then return (tag, .text (← readBinary text))
  else resolve tag text

/-- Read a text. Numbers and the like are taken as they are written; nothing is no
text. -/
def decodeText : (fuel : Nat) → Node → Decode (Option Bytes)
  | 0, _ => return none
  | fuel + 1, n => do
    match n with
    | .scalar _ tag text =>
      match ← scalarData tag text with
      | (_, .null) => return none
      | (_, .text s) => return some s
      | _ => return some text
    | .sequence .. =>
      noteKind n "string"
      return none
    | .mapping _ _ entries =>
      if ← checkKeys entries then noteKind n "string"
      return none
    | .alias _ _ (some target) => decodeText fuel target
    | .alias _ name none => selfReference name

/-- Whether all keys of a mapping are texts. -/
def hasTextKeys (entries : List (Node × Node)) : Bool :=
  entries.all fun e => e.1.effectiveTag = Bytes.ofString "!!str" || e.1.isMerge

/-- The fields of a record in the order of their names. -/
def sortFields (fields : List (Bytes × Data)) : List (Bytes × Data) :=
  fields.mergeSort fun a b => Bytes.le a.1 b.1

/-- Read whatever a node holds; the outcome is none if it was noted as wrong. -/
def decodeData : (fuel : Nat) → Node → Decode (Option Data)
  | 0, _ => return none
  | fuel + 1, n => do
    match n with
    | .scalar _ tag text => return some (← scalarData tag text).2
    | .sequence _ _ items => return some (.list (← items.filterMapM (decodeData fuel)))
    | .mapping _ _ entries =>
      if !(← checkKeys entries) then return none
      let all ← mergedEntries fuel entries
      if hasTextKeys entries then
        let fields ← all.filterMapM fun (k, x) => do
          let name ← decodeText fuel k
          let d ← decodeData fuel x
          return (name.bind fun s => d.map fun d => (s, d))
        return some (.record (sortFields (fields.foldl (fun m (k, x) => setAssoc k x m) [])))
      else
        let entries ← all.filterMapM fun (k, x) => do
          match ← decodeData fuel k with
          | none => return none
          | some key =>
            match key with
            | .list _ | .record _ | .table _ =>
              throw (.other (Bytes.ofString "invalid map key: " ++ key.displayTyped))
            | _ => return (← decodeData fuel x).map fun d => (key, d)
        return some (.table (entries.mergeSort fun a b => a.1.keyLe b.1))
    | .alias _ _ (some target) => decodeData fuel target
    | .alias _ name none => selfReference name

/-- Read a sequence of texts. -/
def decodeTexts : (fuel : Nat) → Node → Decode (Option (List Bytes))
  | 0, _ => return none
  | fuel + 1, n => do
    let want : Bytes := "[]string"
    match n with
    | .scalar _ tag text =>
      match ← scalarData tag text with
      | (_, .null) => return none
      | _ =>
        noteKind n want
        return none
    | .sequence _ _ items => return some (← items.filterMapM (decodeText fuel))
    | .mapping _ _ entries =>
      if ← checkKeys entries then noteKind n want
      return none
    | .alias _ _ (some target) => decodeTexts fuel target
    | .alias _ name none => selfReference name

/-- Read a scalar of a kind of its own. -/
def decodeScalar {α : Type} (want : Bytes) (read? : Data → Option α) : (fuel : Nat) → Node →
    Decode (Option α)
  | 0, _ => return none
  | fuel + 1, n => do
    match n with
    | .scalar _ tag text =>
      match ← scalarData tag text with
      | (_, .null) => return none
      | (_, d) =>
        match read? d with
        | some x => return some x
        | none =>
          noteKind n want
          return none
    | .sequence .. =>
      noteKind n want
      return none
    | .mapping _ _ entries =>
      if ← checkKeys entries then noteKind n want
      return none
    | .alias _ _ (some target) => decodeScalar want read? fuel target
    | .alias _ name none => selfReference name

/-- Read an integer; the fraction of a number is dropped. -/
def integerOf? : Data → Option Int
  | .int n => some n
  | .float x =>
    if x ≤ 9223372036854775808 then
      let n := Decimal.truncToInt x
      some (if Decimal.isFinite x && Decimal.fitsInt64 n then n else Decimal.minInt64)
    else none
  | _ => none

/-- Read a truth value, for which there are some more words. -/
def truthOf? : Data → Option Bool
  | .bool b => some b
  | .text s =>
    if ["y", "Y", "yes", "Yes", "YES", "on", "On", "ON"].any fun w => Bytes.ofString w = s then
      some true
    else if ["n", "N", "no", "No", "NO", "off", "Off", "OFF"].any fun w => Bytes.ofString w = s then
      some false
    else none
  | _ => none

/-- Read the entries of a mapping whose keys are taken as texts. -/
def decodeFields : (fuel : Nat) → Node → Decode (Option (List (Bytes × Data)))
  | 0, _ => return none
  | fuel + 1, n => do
    let want : Bytes := "map[string]interface \x7b\x7d"
    match n with
    | .scalar _ tag text =>
      match ← scalarData tag text with
      | (_, .null) => return none
      | _ =>
        noteKind n want
        return none
    | .sequence .. =>
      noteKind n want
      return none
    | .mapping _ _ entries =>
      if !(← checkKeys entries) then return none
      let fields ← (← mergedEntries fuel entries).filterMapM fun (k, x) => do
        match ← decodeText fuel k with
        | none => return none
        | some name => return (← decodeData fuel x).map fun d => (name, d)
      return some (sortFields (fields.foldl (fun m (k, x) => setAssoc k x m) []))
    | .alias _ _ (some target) => decodeFields fuel target
    | .alias _ name none => selfReference name

/-- The outcome of reading, unless there is something wrong. -/
def Decode.finish {α : Type} (act : Decode α) : Except Bytes α :=
  match act.run [] with
  | .error f => .error f.message
  | .ok (a, []) => .ok a
  | .ok (_, notes) =>
    .error (Bytes.ofString "yaml: unmarshal errors:\n  " ++ Bytes.join "\n  " notes.reverse)

end Stencil.Yaml
