import Stencil.Host.OwnMethods

/-!
# Calls of host functions

A host function takes arguments of the types of its parameters, to which the
arguments of a call are converted, and yields any number of results: none reads as
null and several as a list. An error among the results is the failure of the call,
and a panic of the host becomes an error that names the function.
-/

namespace Stencil

/-- The parameters and results of a host function. -/
structure Signature where
  ins : List HostType
  variadic : Bool
  outs : List HostType
  deriving Inhabited

/-- Whether the last result is an error. -/
def Signature.reportsError (g : Signature) : Bool :=
  match g.outs.getLast? with
  | some t => t == .error
  | none => false

/-- The results other than an error. -/
def Signature.results (g : Signature) : List HostType :=
  if g.reportsError then g.outs.dropLast else g.outs

/-- The type of the parameter an argument is for. -/
def Signature.param (g : Signature) (i : Nat) : HostType :=
  if g.variadic && g.ins.length ≤ i + 1 then (g.ins.getLastD .any).elem else g.ins.getD i .any

/-- The signature of a host function; other values have none. -/
def Value.signature? [Host] (s : Heap) : Value → Option Signature
  | .bound recv method =>
    match boundType s recv method with
    | .function ins variadic outs => some ⟨ins, variadic, outs⟩
    | _ => none
  | .host t _ =>
    match t.base with
    | .function ins variadic outs => some ⟨ins, variadic, outs⟩
    | _ => none
  | _ => none

/-- Call a function of the language in the role of a host function. It runs in a
context of its own; a failure it cannot report is a panic. -/
def callAdapted [Host] (fuel : Nat) (g : Signature) (fn : Value)
    (args : List Value) : Job (List Value) := do
  let ctx ← Job.query .newContext
  let panicking (e : Failure) : Job (List Value) := throw (.panic e.message e.isMissing)
  match ← Job.attempt (Job.call ctx fn (args.map Value.normalize)) with
  | .error e => if g.reportsError then throw e else panicking e
  | .ok result =>
    match g.results with
    | [] => return []
    | [t] =>
      match ← Job.attempt (result.convert fuel t) with
      | .ok x => return [x]
      | .error e => panicking e
    | ts =>
      Job.panic (Bytes.ofString "cannot convert the result of a Happy function to " ++
        Bytes.ofNat ts.length ++ " Go results")

/-- Call a host function with arguments of its parameter types. Host functions call each
other at most `depth` deep. -/
def applyHost [Host] (fuel : Nat) : (depth : Nat) → HostCall
  | 0, _, _ => throw .exhausted
  | depth + 1, fn, args => do
    match fn with
    | .bound recv@(.host _ _) method => Host.callMethod (applyHost fuel depth) recv method args
    | .bound recv method => ownMethod fuel recv (method.toString?.getD "") args
    | .host _ (.function name) => Host.callFunction (applyHost fuel depth) name args
    | .host _ (.adapted g) =>
      callAdapted fuel ((fn.signature? (← get)).getD default) g args
    | _ => nilDereference

/-- Turn a panic of a host function into an error. -/
def protect {α : Type} (name : Bytes) (job : Job α) : Job α :=
  job.handle fun e => match e with
    | .panic msg missing => .fail (.plain (Bytes.ofString "panic in " ++ name ++ ": " ++ msg) missing)
    | e => .fail e

/-- Convert the arguments of a call; `i` counts those before. -/
def convertArgs [Host] (fuel : Nat) (name : Bytes) (g : Signature) :
    Nat → List Value → Job (List Value)
  | _, [] => return []
  | i, x :: xs => do
    let y ← Job.explaining
      (Bytes.ofString "in argument " ++ Bytes.ofNat (i + 1) ++ " of call to " ++ name ++ ", ")
      (x.convert fuel (g.param i))
    return y :: (← convertArgs fuel name g (i + 1) xs)

/-- The results of a host function that is called with arguments of any types. -/
def hostResults [Host] (fuel : Nat) (fn : Value) (g : Signature)
    (args : List Value) : Job (List Value) := do
  let name := fn.functionName (← get)
  let wrongCount (want : Bytes) : Job (List Value) :=
    Job.error (Bytes.ofString "in call to " ++ name ++ ", got " ++ Bytes.ofNat args.length ++
      " arguments, want " ++ want)
  if g.variadic && args.length + 1 < g.ins.length then
    wrongCount (Bytes.ofString "at least " ++ Bytes.ofNat (g.ins.length - 1))
  else if !g.variadic && args.length ≠ g.ins.length then wrongCount (Bytes.ofNat g.ins.length)
  else
    let args ← convertArgs fuel name g 0 args
    let apply := match fn with
      | .host _ .nil => Job.panic "reflect.Value.Call: call of nil function"
      | fn => applyHost fuel fuel fn args
    protect name apply

/-- Call a host function. -/
def callHost [Host] (fuel : Nat) (fn : Value) (g : Signature)
    (args : List Value) : Job Value := do
  match ← hostResults fuel fn g args with
  | [] => return .null
  | [x] => return x.normalize
  | xs => Job.newList (xs.map Value.normalize).toArray

/-! ### Assignment to members -/

/-- Assign to a field of a module. -/
def setModuleField [Host] (fuel : Nat) (id : Nat) (isName : Bool)
    (y : Value) : Job Unit := do
  let update (f : ModuleCell → ModuleCell) : Job Unit :=
    Job.modify fun s => { s with modules := s.modules.modify id f }
  if isName then
    match ← y.convert fuel .string with
    | .string name => update fun m => { m with name }
    | _ => return
  else
    match ← y.convert fuel .dictionary with
    | .host _ d =>
      let entries := d.entries (← get)
      let members := entries.filterMap fun (k, x) => match k with
        | .string name => some (name, Value.ofSlot .any x)
        | _ => none
      update fun m => { m with members }
    | _ => return

/-- Assign to a member of a value. -/
def setMember [Host] (fuel : Nat) (m : MemberPath) (x y : Value) :
    Job Unit := do
  let typeName := x.typeName (← get)
  match m with
  | .method _ => Job.error (Bytes.ofString "cannot assign to method of " ++ typeName)
  | .field _ false =>
    Job.error (Bytes.ofString "cannot assign to field of non-pointer " ++ typeName)
  | .field path true =>
    match x with
    | .module id => setModuleField fuel id (path == [0]) y
    | .host t d =>
      let record := ((t.recordOf?).map (·.1)).getD []
      let (id, inside) ← placeOf record path d
      let u := fieldType record path
      let v ← y.convert fuel u
      Job.modify fun s => { s with cells := s.cells.modify id (Datum.setAt (v.toSlot u) inside) }
    | _ => nilPointer

end Stencil
