import Stencil.Machine.Equality
import Stencil.Decimal.Binary

/-!
# Operators on values

Arithmetic on two ints gives an int, in 64 bits; if an operand is a float the
result is a float. A string plus anything is a string. Strings and lists can be
repeated, up to a limit.
-/

namespace Stencil

/-- The greatest size of what an operator or function may build at once. -/
def maxRepeat : Nat := Nat.pow 2 20

/-- The size of `n` copies of something, computed in 64 bits. -/
def repeatedSize (size : Nat) (n : Int64) : Int64 := Int64.ofNat size * n

/-- Repeat a string. A size that leaves the 64 bits is not noticed by the test for the
limit. -/
def repeatString (b : Bytes) (n : Int64) : Job Value := do
  if n ≤ 0 then return .string []
  if Int64.ofNat maxRepeat < repeatedSize b.length n then Job.error "string repetition too large"
  if b.isEmpty then return .string []
  if b.length * n.toNatClampNeg ≥ Nat.pow 2 63 then Job.panic "strings: Repeat output length overflow"
  return .string (Bytes.times b n.toNatClampNeg)

/-- Repeat a list. -/
def repeatList (id : Nat) (n : Int64) : Job Value := do
  let items ← Job.listItems id
  if n ≤ 0 || items.isEmpty then Job.newList #[]
  else
    let size := repeatedSize items.size n
    if Int64.ofNat maxRepeat < size then Job.error "list repetition too large"
    if size < 0 || items.size * n.toNatClampNeg > maxRepeat then
      Job.panic "runtime error: makeslice: cap out of range"
    Job.newList ((List.replicate n.toNatClampNeg items).foldl (· ++ ·) #[])

/-- Subtract, multiply, divide or take the remainder of two ints. -/
def intArithmetic (op : BinaryOp) (x y : Int64) : Job Value :=
  match op with
  | .subtract => return .int (x - y)
  | .multiply => return .int (x * y)
  | .divide => if y = 0 then Job.error "integer division by zero" else return .int (x / y)
  | .mod => if y = 0 then Job.error "integer modulo by zero" else return .int (x % y)
  | op => Job.error (Bytes.ofString "unknown binary op: int " ++ op.spelling ++ " int")

/-- Subtract, multiply, divide or take the remainder of two floats. -/
def floatArithmetic (op : BinaryOp) (x y : Float) : Job Value :=
  match op with
  | .subtract => return .float (x - y)
  | .multiply => return .float (x * y)
  | .divide =>
    if y == 0 then Job.error "floating-point division by zero" else return .float (x / y)
  | .mod =>
    if y == 0 then Job.error "floating-point modulo by zero"
    else return .float (Decimal.remainder x y)
  | op => Job.error (Bytes.ofString "unknown binary op: float " ++ op.spelling ++ " float")

/-- The failure of an operator that is not defined for its operands. -/
def unknownBinary [Host] (op : Operator) (x y : Value) : Job Value := do
  let s ← get
  Job.error (Bytes.ofString "unknown binary op: " ++ x.typeName s ++ " " ++ op.spelling ++ " " ++
    y.typeName s)

/-- Add two values. -/
def addValues [Host] (x y : Value) : Job Value := do
  match x, y with
  | .string a, y => return .string (a ++ y.text (← get))
  | .int m, .int n => return .int (m + n)
  | .int m, .float y => return .float (intToFloat m + y)
  | .float x, .float y => return .float (x + y)
  | .float x, .int n => return .float (x + intToFloat n)
  | .list i, .list j => do
    let s ← get
    Job.newList (s.list i ++ s.list j)
  | .null, y => unknownBinary (.binary .add) .null y
  | x, .string b => return .string (x.text (← get) ++ b)
  | x, y => unknownBinary (.binary .add) x y

/-- Whether an order satisfies a comparison. -/
def BinaryOp.holdsFor (op : BinaryOp) (o : Ordering) : Bool :=
  match op with
  | .less => o == .lt
  | .greater => o == .gt
  | .lessEq => o != .gt
  | _ => o != .lt

/-- A bitwise operation on ints. -/
def BinaryOp.onInts (op : BinaryOp) (x y : Int64) : Int64 :=
  match op with
  | .bitAnd => x &&& y
  | .bitOr => x ||| y
  | _ => x ^^^ y

/-- A bitwise operation on booleans. -/
def BinaryOp.onBools (op : BinaryOp) (x y : Bool) : Bool :=
  match op with
  | .bitAnd => x && y
  | .bitOr => x || y
  | _ => x != y

/-- Apply a binary operator. -/
def applyBinary [Host] (op : Operator) (x y : Value) : Job Value := do
  match op with
  | .binary .add => addValues x y
  | .binary op@.subtract | .binary op@.multiply | .binary op@.divide | .binary op@.mod =>
    match x, y with
    | .int m, .int n => intArithmetic op m n
    | .int m, .float y => floatArithmetic op (intToFloat m) y
    | .float x, .float y => floatArithmetic op x y
    | .float x, .int n => floatArithmetic op x (intToFloat n)
    | .string b, .int n =>
      if op = .multiply then repeatString b n else unknownBinary (.binary op) x y
    | .list id, .int n =>
      if op = .multiply then repeatList id n else unknownBinary (.binary op) x y
    | x, y => unknownBinary (.binary op) x y
  | .binary op@.bitAnd | .binary op@.bitOr | .binary op@.xor =>
    match x, y with
    | .int m, .int n => return .int (op.onInts m n)
    | .bool a, .bool b => return .bool (op.onBools a b)
    | x, y => unknownBinary (.binary op) x y
  | .binary .equal => return .bool (x.equal (← get) y)
  | .binary .notEqual => return .bool (!x.equal (← get) y)
  | .binary op@.less | .binary op@.greater | .binary op@.lessEq | .binary op@.greaterEq =>
    match x.compare? y with
    | some o => return .bool (op.holdsFor o)
    | none => unknownBinary (.binary op) x y
  | op => unknownBinary op x y

/-- Apply a unary operator. -/
def applyUnary [Host] (op : Operator) (x : Value) : Job Value := do
  match op, x with
  | .unary .negate, .int n => return .int (-n)
  | .unary .negate, .float x => return .float (-x)
  | op, x =>
    Job.error (Bytes.ofString "unknown unary op: " ++ op.spelling ++ x.typeName (← get))

end Stencil
