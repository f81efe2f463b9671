import Stencil.Machine.Arguments
import Stencil.Machine.Operation
import Stencil.Message.Field
import Stencil.Text.Spelling

/-!
# Universal functions and methods

The functions every program finds in its global scope, and the methods of strings,
lists and repeated fields.
-/

namespace Stencil

/-- A built-in function that is bound to no receiver. -/
def Native.value (fn : Native) : Value := .builtin fn .null 0

/-- The functions every program finds in its global scope, by name. -/
def universalValues : List (Bytes × Value) :=
  UniverseFn.all.map fun f => (Bytes.ofString f.name, (Native.universal f).value)

/-! ### Attributes -/

/-- The members of a module, sorted by name. -/
def ModuleCell.names (m : ModuleCell) : List Bytes := Bytes.sort (m.members.map (·.1))

/-- The names of the attributes of a value that has attributes. -/
def Value.attrNames? (s : Heap) : Value → Option (List Bytes)
  | .object id => some ((s.object id).map (·.1))
  | .module id => some (s.modules.getD id default).names
  | .pattern _ => some (PatternMethod.all.map fun m => Bytes.ofString m.name)
  | _ => none

/-- Read an attribute of a value that has attributes. -/
def getAttr (v : Value) (name : Bytes) : Job Value := do
  let s ← get
  match v with
  | .object id =>
    match (s.object id).lookup name with
    | some x => return x
    | none =>
      throw (.missing (Bytes.ofString "object has no field " ++ name ++
        didYouMean name ((s.object id).map (·.1))))
  | .module id =>
    let m := s.modules.getD id default
    match m.members.lookup name with
    | some x => return x
    | none =>
      throw (.missing (Bytes.ofString "module " ++ m.name ++ " has no member " ++ name ++
        didYouMean name m.names))
  | .pattern _ =>
    match PatternMethod.all.find? fun m => Bytes.ofString m.name = name with
    | some m => return .builtin (.pattern m) v (← Job.freshStamp)
    | none => throw (.missing (Bytes.ofString "regexp has no method " ++ name))
  | _ => return .null

/-- A built-in method of strings, lists or repeated fields. -/
def Value.method? (v : Value) (name : Bytes) : Option Native :=
  match v with
  | .string _ => (TextMethod.all.find? fun m => Bytes.ofString m.name = name).map .text
  | .list _ => (ListMethod.all.find? fun m => Bytes.ofString m.name = name).map .list
  | .repeated .. => if name = Bytes.ofString "append" then some .repeatedAppend else none
  | _ => none

/-- The names of the built-in methods of a value. -/
def Value.methodNames : Value → List Bytes
  | .string _ => TextMethod.all.map fun m => Bytes.ofString m.name
  | .list _ => ListMethod.all.map fun m => Bytes.ofString m.name
  | .repeated .. => [Bytes.ofString "append"]
  | _ => []

/-! ### Functions -/

/-- The number of elements of a sequence or map, of fields of an object, or of bytes of a
string. -/
def lengthOf [Host] (x : Value) : Job Value := do
  let s ← get
  let count (n : Nat) : Job Value := return .int (Int64.ofNat n)
  match x with
  | .string b => count b.length
  | .object id => count (s.object id).length
  | x =>
    match x.length? s with
    | some n => count n
    | none =>
      let none := Job.error (Bytes.ofString "len: value of type " ++ x.typeName s ++ " has no len")
      match x with
      | .host t d =>
        match t.base with
        | .slice _ | .array _ _ | .map _ _ => count (d.length s)
        | _ => none
      | _ => none

/-- The ints from `i` towards `stop`, the last one first; stepping stays within 64
bits. -/
def rangeFrom (stop step : Int64) : Nat → Int64 → Array Value → Job (Array Value)
  | 0, i, done =>
    if (0 < step && i < stop) || (step < 0 && stop < i) then
      Job.error "range: too many elements"
    else return done
  | fuel + 1, i, done =>
    if (0 < step && i < stop) || (step < 0 && stop < i) then
      rangeFrom stop step fuel (i + step) (done.push (.int i))
    else return done

/-- The list of ints from a start to before a stop. -/
def rangeList [Host] (args : List Value) : Job Value := do
  let (start, stop, step) ←
    if args.length = 1 then
      pure (0, (← unpackOne "range" args .int).int64, 1)
    else do
      let xs ← unpack "range" args 2 [.int, .int, .int]
      pure ((xs.getD 0 (.int 0)).int64, (xs.getD 1 (.int 0)).int64, (xs.getD 2 (.int 1)).int64)
  if step = 0 then Job.error "range: step argument must not be zero"
  Job.newList (← rangeFrom stop step maxRepeat start #[])

/-- The output forms of the remaining elements of a cursor, the last one first. -/
def joinFrom [Host] (next : Job (Option Value)) : Nat → List Bytes → Job (List Bytes)
  | 0, _ => throw .exhausted
  | fuel + 1, done => do
    match ← next with
    | none => return done
    | some x => joinFrom next fuel (x.text (← get) :: done)

/-- The output forms of the elements of a sequence with a text between each two. -/
def joinElements [Host] (fuel : Nat) (fn : Bytes) (x : Value) (sep : Bytes) :
    Job Value := do
  let cursor ← Job.explaining (fn ++ ": ") (iterate x)
  let parts ← joinFrom (advance fuel cursor) fuel []
  finish cursor
  return .string (Bytes.join sep parts.reverse)

/-- A list of strings. -/
def stringList (bs : List Bytes) : Job Value :=
  Job.newList (bs.map Value.string).toArray

/-- The names of the attributes of a value, or the keys of a map of the host. -/
def keysOf [Host] (x : Value) : Job Value := do
  let s ← get
  match x.attrNames? s with
  | some names => stringList names
  | none =>
    let none := Job.error (Bytes.ofString "keys: got " ++ x.typeName s ++ ", want object")
    match x with
    | .host t d =>
      match t.base with
      | .map _ _ => Job.newList ((d.sortedKeys s t).map (Value.fromSlot t.key)).toArray
      | _ => none
    | _ => none

/-- Call a universal function. -/
def UniverseFn.run [Host] (fuel : Nat) (f : UniverseFn) (args : List Value) :
    Job Value := do
  let name := Bytes.ofString f.name
  match f with
  | .join =>
    let xs ← unpack name args 1 [.value, .string]
    joinElements fuel name (xs.headD .null) (xs.getD 1 .null).bytes
  | .keys => keysOf (← unpackOne name args)
  | .len => lengthOf (← unpackOne name args)
  | .lower => return .string (← unpackText name args).lower
  | .range => rangeList args
  | .repr =>
    let x ← unpackOne name args
    return .string (x.repr (← get))
  | .str =>
    let x ← unpackOne name args
    return .string (x.text (← get))
  | .type =>
    let x ← unpackOne name args
    return .string (x.typeName (← get))
  | .upper => return .string (← unpackText name args).upper

/-! ### Methods -/

/-- Put a text before every character and at the end. -/
def surround (b new : Bytes) : Bytes :=
  new ++ b.glyphs.flatMap fun g => g.bytes ++ new

/-- The words of a text. -/
def words (b : Bytes) : List Bytes :=
  let (word, found) := b.glyphs.foldr step ([], [])
  if word.isEmpty then found else word :: found
where
  /-- Put a glyph in front of the current word, or end the word. -/
  step (g : Glyph) (acc : Bytes × List Bytes) : Bytes × List Bytes :=
    if isBlank g.toChar then ([], if acc.1.isEmpty then acc.2 else acc.1 :: acc.2)
    else (g.bytes ++ acc.1, acc.2)

/-- Call a method of a string. -/
def TextMethod.run [Host] (m : TextMethod) (recv : Bytes) (args : List Value) : Job Value := do
  let name := Bytes.ofString m.name
  match m with
  | .upper =>
    let _ ← unpack name args 0 []
    return .string recv.upper
  | .lower =>
    let _ ← unpack name args 0 []
    return .string recv.lower
  | .trim =>
    let _ ← unpack name args 0 []
    return .string recv.trim
  | .contains => return .bool (recv.contains (← unpackText name args))
  | .startsWith => return .bool (recv.startsWith (← unpackText name args))
  | .endsWith => return .bool (recv.endsWith (← unpackText name args))
  | .replace =>
    let xs ← unpack name args 2 [.string, .string]
    let old := (xs.headD .null).bytes
    let new := (xs.getD 1 .null).bytes
    return .string (if old.isEmpty then surround recv new else recv.replace old new)
  | .split =>
    let xs ← unpack name args 0 [.value]
    match xs.headD .null with
    | .null => stringList (words recv)
    | .string sep =>
      if sep.isEmpty then Job.error "split: empty separator"
      else stringList (recv.splitOn sep)
    | sep =>
      Job.error (Bytes.ofString "split: got " ++ sep.typeName (← get) ++
        " for separator, want string")

/-- Call a method of a list. -/
def ListMethod.run [Host] (fuel : Nat) (m : ListMethod) (id : Nat)
    (args : List Value) : Job Value := do
  let name := Bytes.ofString m.name
  match m with
  | .append =>
    let x ← unpackOne name args
    Job.modifyList id (·.push x)
    return .null
  | .clear =>
    let _ ← unpack name args 0 []
    Job.modifyList id fun _ => #[]
    return .null
  | .contains =>
    let x ← unpackOne name args
    let s ← get
    return .bool ((s.list id).any fun y => y.equal s x)
  | .join =>
    let xs ← unpack name args 0 [.string]
    joinElements fuel name (.list id) (xs.headD .null).bytes

end Stencil
