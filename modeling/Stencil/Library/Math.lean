import Stencil.Decimal.Numeral
import Stencil.Machine.Universe
import Stencil.Numeric.Elementary

/-!
# Mathematics in programs

Functions of floats take ints too. Rounding gives ints, and what has no int is an
error.
-/

namespace Stencil

open Decimal

/-- The angle of one degree. -/
def degree : Float := 0.017453292519943295

/-- The function of one float a name stands for. -/
def MathFn.unary? : MathFn → Option (Float → Float)
  | .exp => some Float.exp
  | .log => some Numeric.log
  | .sqrt => some Float.sqrt
  | .acos => some Numeric.acos
  | .asin => some Numeric.asin
  | .atan => some Numeric.atan
  | .cos => some Numeric.cos
  | .sin => some Numeric.sin
  | .tan => some Numeric.tan
  | .degrees => some (· / degree)
  | .radians => some (· * degree)
  | _ => none

/-- The function of two floats a name stands for. -/
def MathFn.binary? : MathFn → Option (Float → Float → Float)
  | .pow => some Numeric.pow
  | .atan2 => some Numeric.atan2
  | .hypot => some Numeric.hypot
  | _ => none

/-- The way of rounding a name stands for. -/
def MathFn.rounding? : MathFn → Option (Float → Float)
  | .ceil => some Float.ceil
  | .floor => some Float.floor
  | .round => some Float.round
  | _ => none

/-- Round a number to an int. -/
def roundNumber [Host] (fn : Bytes) (f : Float → Float) (x : Value) : Job Value := do
  match x with
  | .int n => return .int n
  | .float x =>
    let r := f x
    if isFinite r && fitsInt64 (truncToInt r) then return .int (Int64.ofInt (truncToInt r))
    else Job.error (fn ++ ": cannot convert " ++ plain.float x ++ " to int")
  | x => Job.error (fn ++ ": got " ++ x.typeName (← get) ++ ", want int or float")

/-- The absolute value of a number. That of the least int is the least int. -/
def absolute [Host] (x : Value) : Job Value := do
  match x with
  | .int n => return .int (if n < 0 then -n else n)
  | .float x => return .float x.abs
  | x => Job.error (Bytes.ofString "abs: got " ++ x.typeName (← get) ++ ", want int or float")

/-- The best of some values, by a comparison with the best one so far. -/
def bestOf [Host] (fn : Bytes) (op : Operator) (best : Value) : List Value → Job Value
  | [] => return best
  | x :: xs => do
    match ← Job.explaining (fn ++ ": ") (applyBinary op x best) with
    | .bool true => bestOf fn op x xs
    | _ => bestOf fn op best xs

/-- The best of the arguments, or of the elements of the only argument. -/
def bestArgument [Host] (fuel : Nat) (fn : Bytes) (op : Operator)
    (args : List Value) : Job Value := do
  let xs ←
    match args with
    | [x] => do
      let cursor ← Job.explaining (fn ++ ": ") (iterate x)
      let xs ← collectReversed fuel cursor fuel []
      finish cursor
      pure xs.reverse
    | xs => pure xs
  match xs with
  | [] => Job.error (fn ++ ": no values")
  | x :: xs => bestOf fn op x xs

/-- Call a mathematical function. -/
def MathFn.run [Host] (fuel : Nat) (f : MathFn) (args : List Value) :
    Job Value := do
  let name := Bytes.ofString f.name
  match f.unary?, f.binary?, f.rounding? with
  | some g, _, _ => return .float (g (← unpackOne name args .float).number)
  | _, some g, _ =>
    let xs ← unpack name args 2 [.float, .float]
    return .float (g (xs.headD .null).number (xs.getD 1 .null).number)
  | _, _, some g => roundNumber name g (← unpackOne name args)
  | none, none, none =>
    match f with
    | .max => bestArgument fuel name (.binary .greater) args
    | .min => bestArgument fuel name (.binary .less) args
    | _ => absolute (← unpackOne name args)

end Stencil
