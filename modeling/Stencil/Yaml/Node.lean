import Stencil.Yaml.Scanner
import Stencil.Yaml.Scalar

/-!
# Trees of settings

The tokens of a text make up a tree of scalars, sequences and mappings. A node can be
given a name and be referred to by it further on.
-/

namespace Stencil.Yaml

/-- A node of the tree: its line, its tag and its content. -/
inductive Node where
  | scalar (line : Nat) (tag text : Bytes)
  | sequence (line : Nat) (tag : Bytes) (items : List Node)
  | mapping (line : Nat) (tag : Bytes) (entries : List (Node × Node))
  /-- A reference to a named node; none if it is within that node. -/
  | alias (line : Nat) (name : Bytes) (target : Option Node)
  deriving Inhabited

/-- The named nodes, the last one first. A node that is not complete has no content. -/
structure Anchors where
  entries : List (Bytes × Nat × Option Node) := []
  count : Nat := 0
  deriving Inhabited

/-- Computations that make nodes of tokens. -/
abbrev Parse := StateT Anchors Scan

/-- Give a name to a node that starts here. -/
def openAnchor (name : Option Bytes) : Parse (Option Nat) := do
  match name with
  | none => return none
  | some n =>
    let a ← get
    set ({ entries := (n, a.count, none) :: a.entries, count := a.count + 1 } : Anchors)
    return some a.count

/-- Note the content of a named node. -/
def closeAnchor (id : Option Nat) (node : Node) : Parse Node := do
  match id with
  | none => return node
  | some i =>
    modify fun a => { a with entries := a.entries.map fun (n, j, x) =>
      if i = j then (n, j, some node) else (n, j, x) }
    return node

/-- The short form of a tag. -/
def shortTag (tag : Bytes) : Bytes :=
  match Bytes.dropLeading? "tag:yaml.org,2002:" tag with
  | some rest => Bytes.ofString "!!" ++ rest
  | none => tag

/-- The tag that a handle and a suffix stand for. -/
def expandTag (start : Mark) (handle suffix : Bytes) (at_ : Mark) : Except Fault Bytes :=
  if handle.isEmpty then .ok (shortTag suffix)
  else if handle = Bytes.ofString "!" then .ok (handle ++ suffix)
  else if handle = Bytes.ofString "!!" then .ok (handle ++ suffix)
  else .error (.parsing .badHandle start at_)

/-- The name and the tag in front of a node. -/
def properties (start : Mark) : (fuel : Nat) → (anchor tag : Option Bytes) →
    Scan (Option Bytes × Option Bytes)
  | 0, anchor, tag => return (anchor, tag)
  | fuel + 1, anchor, tag => do
    let t ← peek
    match t.kind, anchor, tag with
    | .anchor name, none, _ =>
      advance
      properties start fuel (some name) tag
    | .tag handle suffix, _, none =>
      advance
      properties start fuel anchor (some (← expandTag start handle suffix t.mark))
    | _, _, _ => return (anchor, tag)

/-- The tag of a node: the one in front of it, or the one that follows from its form. -/
def tagOr (tag : Option Bytes) (dflt : Bytes) : Bytes :=
  match tag with
  | none => dflt
  | some t => if t.isEmpty || t = Bytes.ofString "!" then dflt else t

/-- The mark of a mapping that is taken over. -/
def mergeText : Bytes := "<<"

/-- A scalar. -/
def scalarNode (line : Nat) (tag : Option Bytes) (style : ScalarStyle) (text : Bytes) : Node :=
  let dflt : Bytes := match style with
    | .quoted => "!!str"
    | .plain => if text = mergeText then "!!merge" else (plainData true text).tag
  .scalar line (tagOr tag dflt) text

/-- A node without content. -/
def emptyNode (mark : Mark) : Node := scalarNode (mark.line + 1) none .plain []

mutual

/-- Read a node. `block` tells whether it may be made by indentation, and `indentless`
whether a sequence may start at the column of the key before it. -/
def parseNode : (fuel : Nat) → (block indentless : Bool) → Parse Node
  | 0, _, _ => throw (.other "document nested too deeply")
  | fuel + 1, block, indentless => do
    let t ← (peek : Scan Token)
    let start := t.mark
    let line := start.line + 1
    match t.kind with
    | .alias name =>
      (advance : Scan Unit)
      match (← get).entries.find? fun e => e.1 = name with
      | some (_, _, target) => return .alias line name target
      | none => throw (.other (Bytes.ofString "unknown anchor '" ++ name ++ "' referenced"))
    | _ =>
      let (anchor, tag) ← (properties start 2 none none : Scan _)
      let t ← (peek : Scan Token)
      let sequence (items : Parse (List Node)) : Parse Node := do
        let id ← openAnchor anchor
        let items ← items
        closeAnchor id (.sequence line (tagOr tag "!!seq") items)
      let mapping (entries : Parse (List (Node × Node))) : Parse Node := do
        let id ← openAnchor anchor
        let entries ← entries
        closeAnchor id (.mapping line (tagOr tag "!!map") entries)
      let leaf (style : ScalarStyle) (text : Bytes) : Parse Node := do
        let id ← openAnchor anchor
        closeAnchor id (scalarNode line tag style text)
      match t.kind with
      | .scalar style text =>
        (advance : Scan Unit)
        leaf style text
      | .flowSequence =>
        (advance : Scan Unit)
        sequence (parseFlowSequence fuel t.mark true)
      | .flowMapping =>
        (advance : Scan Unit)
        mapping (parseFlowMapping fuel t.mark true)
      | kind =>
        if indentless && kind = .blockEntry then sequence (parseIndentless fuel)
        else if block && kind = .blockSequence then
          (advance : Scan Unit)
          sequence (parseBlockSequence fuel t.mark)
        else if block && kind = .blockMapping then
          (advance : Scan Unit)
          mapping (parseBlockMapping fuel t.mark)
        else if anchor.isSome || tag.isSome then leaf .plain []
        else throw (.parsing .noContent start t.mark)

/-- Read a node unless one of the given tokens comes next. -/
def parseUnless : (fuel : Nat) → (block indentless : Bool) → (mark : Mark) →
    (stops : List TokenKind) → Parse Node
  | 0, _, _, mark, _ => return emptyNode mark
  | fuel + 1, block, indentless, mark, stops => do
    let t ← (peek : Scan Token)
    if stops.contains t.kind then return emptyNode mark else parseNode fuel block indentless

/-- Read the elements of a sequence made by indentation. -/
def parseBlockSequence : (fuel : Nat) → (start : Mark) → Parse (List Node)
  | 0, _ => return []
  | fuel + 1, start => do
    let t ← (peek : Scan Token)
    match t.kind with
    | .blockEntry =>
      (advance : Scan Unit)
      let x ← parseUnless fuel true false t.mark [.blockEntry, .blockEnd]
      return x :: (← parseBlockSequence fuel start)
    | .blockEnd =>
      (advance : Scan Unit)
      return []
    | _ => throw (.parsing .noEntry start t.mark)

/-- Read the elements of a sequence at the column of its key. -/
def parseIndentless : (fuel : Nat) → Parse (List Node)
  | 0 => return []
  | fuel + 1 => do
    let t ← (peek : Scan Token)
    match t.kind with
    | .blockEntry =>
      (advance : Scan Unit)
      let x ← parseUnless fuel true false t.mark [.blockEntry, .key, .value, .blockEnd]
      return x :: (← parseIndentless fuel)
    | _ => return []

/-- Read the value after a key in a mapping made by indentation. -/
def parseBlockValue : (fuel : Nat) → Parse Node
  | 0 => return emptyNode {}
  | fuel + 1 => do
    let t ← (peek : Scan Token)
    if t.kind = .value then
      (advance : Scan Unit)
      parseUnless fuel true true t.mark [.key, .value, .blockEnd]
    else return emptyNode t.mark

/-- Read the entries of a mapping made by indentation. -/
def parseBlockMapping : (fuel : Nat) → (start : Mark) → Parse (List (Node × Node))
  | 0, _ => return []
  | fuel + 1, start => do
    let t ← (peek : Scan Token)
    match t.kind with
    | .key =>
      (advance : Scan Unit)
      let k ← parseUnless fuel true true t.mark [.key, .value, .blockEnd]
      let v ← parseBlockValue fuel
      return (k, v) :: (← parseBlockMapping fuel start)
    | .blockEnd =>
      (advance : Scan Unit)
      return []
    | _ => throw (.parsing .noKey start t.mark)

/-- Read the value after a key in brackets. -/
def parseFlowValue : (fuel : Nat) → (closing : TokenKind) → Parse Node
  | 0, _ => return emptyNode {}
  | fuel + 1, closing => do
    let t ← (peek : Scan Token)
    if t.kind = .value then
      (advance : Scan Unit)
      parseUnless fuel false false t.mark [.flowEntry, closing]
    else return emptyNode t.mark

/-- Read the elements of a sequence in brackets. -/
def parseFlowSequence : (fuel : Nat) → (start : Mark) → (first : Bool) → Parse (List Node)
  | 0, _, _ => return []
  | fuel + 1, start, first => do
    let t ← (peek : Scan Token)
    if t.kind = .flowSequenceEnd then
      (advance : Scan Unit)
      return []
    if !first then
      if t.kind = .flowEntry then (advance : Scan Unit)
      else throw (.parsing .noSequenceEnd start t.mark)
    let t ← (peek : Scan Token)
    match t.kind with
    | .flowSequenceEnd =>
      (advance : Scan Unit)
      return []
    | .key =>
      (advance : Scan Unit)
      let k ← parseUnless fuel false false t.mark [.value, .flowEntry, .flowSequenceEnd]
      let v ← parseFlowValue fuel .flowSequenceEnd
      let pair := Node.mapping (t.mark.line + 1) "!!map" [(k, v)]
      return pair :: (← parseFlowSequence fuel start false)
    | _ =>
      let x ← parseNode fuel false false
      return x :: (← parseFlowSequence fuel start false)

/-- Read the entries of a mapping in brackets. -/
def parseFlowMapping : (fuel : Nat) → (start : Mark) → (first : Bool) → Parse (List (Node × Node))
  | 0, _, _ => return []
  | fuel + 1, start, first => do
    let t ← (peek : Scan Token)
    if t.kind = .flowMappingEnd then
      (advance : Scan Unit)
      return []
    if !first then
      if t.kind = .flowEntry then (advance : Scan Unit)
      else throw (.parsing .noMappingEnd start t.mark)
    let t ← (peek : Scan Token)
    match t.kind with
    | .flowMappingEnd =>
      (advance : Scan Unit)
      return []
    | .key =>
      (advance : Scan Unit)
      let k ← parseUnless fuel false false t.mark [.value, .flowEntry, .flowMappingEnd]
      let v ← parseFlowValue fuel .flowMappingEnd
      return (k, v) :: (← parseFlowMapping fuel start false)
    | _ =>
      let k ← parseNode fuel false false
      let t ← (peek : Scan Token)
      return (k, emptyNode t.mark) :: (← parseFlowMapping fuel start false)

end

/-- Pass over the directions at the start of a document. -/
def skipDirectives : (fuel : Nat) → Scan Unit
  | 0 => return
  | fuel + 1 => do
    if (← peek).kind = .directive then
      advance
      skipDirectives fuel

/-- Read the first document of a text, if there is one. -/
def parseDocument (fuel : Nat) : Parse (Option Node) := do
  let t ← (peek : Scan Token)
  match t.kind with
  | .streamEnd => return none
  | .directive | .documentStart =>
    (skipDirectives fuel : Scan Unit)
    let t ← (peek : Scan Token)
    if t.kind ≠ .documentStart then throw (.parsing .noDocument {} t.mark)
    (advance : Scan Unit)
    let x ← parseUnless fuel true false t.mark [.directive, .documentStart, .documentEnd, .streamEnd]
    let _ ← (peek : Scan Token)
    return some x
  | _ =>
    let x ← parseNode fuel true false
    let _ ← (peek : Scan Token)
    return some x

/-- The tree of the first document of a text. -/
def Node.read? (text : Bytes) : Except Fault (Option Node) := do
  let s ← Scanner.ofBytes text
  let ((node, _), _) ← ((parseDocument (16 * text.length + 128)).run {}).run s
  return node

namespace Node

/-- The line a node starts on. -/
def line : Node → Nat
  | .scalar l _ _ | .sequence l _ _ | .mapping l _ _ | .alias l _ _ => l

/-- The tag of a node. -/
def tag : Node → Bytes
  | .scalar _ t _ | .sequence _ t _ | .mapping _ t _ => t
  | .alias .. => []

/-- The text of a scalar or the name in a reference. -/
def text : Node → Bytes
  | .scalar _ _ s => s
  | .alias _ n _ => n
  | _ => []

/-- The tag of a node or of the node it refers to. -/
def effectiveTag : Node → Bytes
  | .alias _ _ (some n) => n.tag
  | n => n.tag

/-- Whether two nodes are the same as keys: scalars with one text, or any sequences, or
any mappings. -/
def isSameKey : Node → Node → Bool
  | .scalar _ _ s, .scalar _ _ t => s = t
  | .alias _ s _, .alias _ t _ => s = t
  | .sequence .., .sequence .. | .mapping .., .mapping .. => true
  | _, _ => false

/-- Whether a key marks a mapping that is taken over. -/
def isMerge : Node → Bool
  | .scalar _ t s => s = mergeText && t = Bytes.ofString "!!merge"
  | _ => false

end Node

end Stencil.Yaml
