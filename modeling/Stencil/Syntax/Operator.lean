/-!
# Operators

The operations of unary and binary expressions, and the wider set of operations
an expression or a call site can name.
-/

namespace Stencil

/-- The binary operations on values. -/
inductive BinaryOp where
  | add | subtract | multiply | divide | mod | logicalAnd | logicalOr | xor | bitAnd | bitOr
  | equal | notEqual | greater | less | greaterEq | lessEq
  deriving DecidableEq, Repr, Inhabited

/-- The unary operations on values. -/
inductive UnaryOp where
  | not | negate
  deriving DecidableEq, Repr, Inhabited

/-- Everything that can stand where an operator is named. -/
inductive Operator where
  | illegal
  | binary (op : BinaryOp)
  | assign
  | unary (op : UnaryOp)
  | index
  | member
  deriving DecidableEq, Repr, Inhabited

/-- How a binary operation is written. -/
def BinaryOp.spelling : BinaryOp → String
  | .add => "+"
  | .subtract => "-"
  | .multiply => "*"
  | .divide => "/"
  | .mod => "%"
  | .logicalAnd => "&&"
  | .logicalOr => "||"
  | .xor => "^"
  | .bitAnd => "&"
  | .bitOr => "|"
  | .equal => "=="
  | .notEqual => "!="
  | .greater => ">"
  | .less => "<"
  | .greaterEq => ">="
  | .lessEq => "<="

/-- How a unary operation is written. -/
def UnaryOp.spelling : UnaryOp → String
  | .not => "!"
  | .negate => "-"

/-- How an operator is written. -/
def Operator.spelling : Operator → String
  | .illegal => "illegal"
  | .binary op => op.spelling
  | .assign => "="
  | .unary op => op.spelling
  | .index => "[]"
  | .member => "."

/-- How tightly a binary operation binds, from 1 to 9. -/
def BinaryOp.level : BinaryOp → Nat
  | .logicalOr => 1
  | .logicalAnd => 2
  | .bitOr => 3
  | .xor => 4
  | .bitAnd => 5
  | .equal | .notEqual => 6
  | .less | .greater | .lessEq | .greaterEq => 7
  | .add | .subtract => 8
  | .multiply | .divide | .mod => 9

end Stencil
