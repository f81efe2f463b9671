import Stencil.Machine.Iteration
import Stencil.Host.Convert

/-!
# Arguments of built-in functions

A built-in function says which kinds of values it takes; some of them may be left
out at the end.
-/

namespace Stencil

/-- A kind of argument. -/
inductive ArgKind where
  | value | bool | int | float | string | list | iterable | callable
  /-- A kind that no value can be taken for. -/
  | unsupported (name : Bytes)
  deriving DecidableEq, Repr, Inhabited

/-- Whether a value has its own way to iterate. -/
def Value.isIterable [Host] : Value → Bool
  | .list _ | .repeated .. | .filtered _ => true
  | .host t _ => Host.isIterable t
  | _ => false

/-- The argument a value is taken for; otherwise what was wanted. Ints are taken for
floats. -/
def ArgKind.accept [Host] (k : ArgKind) (v : Value) : Except Bytes Value :=
  match k, v with
  | .value, v => .ok v
  | .bool, .bool b => .ok (.bool b)
  | .bool, _ => .error "bool"
  | .int, .int n => .ok (.int n)
  | .int, _ => .error "int"
  | .float, .float x => .ok (.float x)
  | .float, .int n => .ok (.float (intToFloat n))
  | .float, _ => .error "float or int"
  | .string, .string s => .ok (.string s)
  | .string, _ => .error "string"
  | .list, .list id => .ok (.list id)
  | .list, _ => .error "list"
  | .iterable, v => if v.isIterable then .ok v else .error "iterable"
  | .callable, v => if v.isCallable then .ok v else .error "function"
  | .unsupported _, v => .ok v

/-- The arguments taken so far, and why the next one is not taken. -/
def takeArgs [Host] (s : Heap) (fn : Bytes) :
    Nat → List Value → List ArgKind → List Value × Option Failure
  | i, v :: vs, k :: ks =>
    match k with
    | .unsupported name => ([], some (.panic (Bytes.ofString "cannot unpack " ++ name) false))
    | k =>
      match k.accept v with
      | .ok x =>
        let (xs, e) := takeArgs s fn (i + 1) vs ks
        (x :: xs, e)
      | .error want =>
        ([], some (.plain (fn ++ ": for parameter " ++ Bytes.ofNat (i + 1) ++ ": got " ++
          v.typeName s ++ ", want " ++ want) false))
  | _, _, _ => ([], none)

/-- Check the number of arguments and take them; at least `least` are required. -/
def takeArguments [Host] (s : Heap) (fn : Bytes) (args : List Value) (least : Nat)
    (kinds : List ArgKind) : List Value × Option Failure :=
  if args.length < least then
    ([], some (.plain (fn ++ ": got " ++ Bytes.ofNat args.length ++ " arguments, want at least " ++
      Bytes.ofNat least) false))
  else if kinds.length < args.length then
    ([], some (.plain (fn ++ ": got " ++ Bytes.ofNat args.length ++ " arguments, want at most " ++
      Bytes.ofNat kinds.length) false))
  else takeArgs s fn 0 args kinds

/-- The arguments of a built-in function. -/
def unpack [Host] (fn : Bytes) (args : List Value) (least : Nat) (kinds : List ArgKind) :
    Job (List Value) := do
  match takeArguments (← get) fn args least kinds with
  | (xs, none) => return xs
  | (_, some e) => throw e

/-- The only argument of a built-in function. -/
def unpackOne [Host] (fn : Bytes) (args : List Value) (kind : ArgKind := .value) :
    Job Value := do
  return (← unpack fn args 1 [kind]).headD .null

/-- The text of a string argument. -/
def Value.bytes : Value → Bytes
  | .string s => s
  | _ => []

/-- The number of an int argument. -/
def Value.int64 : Value → Int64
  | .int n => n
  | _ => 0

/-- The number of a float argument. -/
def Value.number : Value → Float
  | .float x => x
  | .int n => intToFloat n
  | _ => 0

/-- The text of the only argument, a string. -/
def unpackText [Host] (fn : Bytes) (args : List Value) : Job Bytes := do
  return (← unpackOne fn args .string).bytes

end Stencil
