import Stencil.Value.Basic
import Stencil.Syntax.Operator
import Stencil.Source.Position

/-!
# Executable code

Code is what a module is lowered to: statements are blocks, conditionals, loops
and labelled jumps, and every operation whose meaning depends on the run-time
types of its operands is a `dynamic` node with a call site. The code of a module
is a lambda whose only parameter is the run-time context.

Variables name the lambda that owns them; jump targets and call sites are told
apart by numbers that are unique within the code of a module.
-/

namespace Stencil

/-- A slot in the frame of the lambda that owns it. -/
structure Variable where
  name : Bytes
  index : Nat
  owner : Nat
  ownerName : Bytes
  deriving DecidableEq, Repr, Inhabited

/-- The destination of a jump. -/
structure Target where
  id : Nat
  name : Bytes
  deriving DecidableEq, Repr, Inhabited

/-- The operations resolved at run time. -/
inductive SiteKind where
  | getMember | setMember | getIndex | setIndex | invoke | call | create | binary | unary
  deriving DecidableEq, Repr, Inhabited

/-- The name of an operation. -/
def SiteKind.name : SiteKind → String
  | .getMember => "GetMember"
  | .setMember => "SetMember"
  | .getIndex => "GetIndex"
  | .setIndex => "SetIndex"
  | .invoke => "Invoke"
  | .call => "Call"
  | .create => "Create"
  | .binary => "BinaryOp"
  | .unary => "UnaryOp"

/-- The number of operands of an operation with `arity` indices or arguments. -/
def SiteKind.operands (k : SiteKind) (arity : Nat) : Nat :=
  match k with
  | .getMember | .unary => 1
  | .setMember | .binary => 2
  | .setIndex => arity + 2
  | _ => arity + 1

/-- The static description of an operation resolved at run time. -/
structure CallSite where
  id : Nat
  kind : SiteKind
  name : Bytes := []
  op : Operator := .illegal
  arity : Nat := 0
  pos : Position := .unknown
  deriving DecidableEq, Repr, Inhabited

/-- The operation of a call site with what it is applied to. -/
def CallSite.text (s : CallSite) : Bytes :=
  let kind := Bytes.ofString s.kind.name
  match s.kind with
  | .getMember | .setMember => kind ++ " " ++ s.name
  | .call => kind ++ " " ++ s.name ++ "/" ++ Bytes.ofNat s.arity
  | .getIndex | .setIndex | .invoke | .create => kind ++ "/" ++ Bytes.ofNat s.arity
  | .binary | .unary => kind ++ " " ++ s.op.spelling

/-- The operations of the run-time context. -/
inductive ContextMethod where
  | pushWriter | popWriter | write | safeWrite | getGlobals
  deriving DecidableEq, Repr, Inhabited

/-- The name of an operation of the context. -/
def ContextMethod.name : ContextMethod → String
  | .pushWriter => "PushWriter"
  | .popWriter => "PopWriter"
  | .write => "WriteToTopWriter"
  | .safeWrite => "SafeWriteToTopWriter"
  | .getGlobals => "GetGlobals"

/-- A node of code. -/
inductive Code where
  /-- No code at all; stands for the optional parts that are missing. -/
  | absent
  | constant (v : Value)
  /-- Does nothing; its value is null. -/
  | empty
  /-- Evaluates its items in order after resetting its variables. A jump to a label
  among the items resumes there. -/
  | block (vars : List Variable) (items : List Code)
  | var (v : Variable)
  | assign (v : Variable) (x : Code)
  /-- A function literal with `slots` variables, the first of them its parameters. -/
  | lambda (id : Nat) (name : Bytes) (params : List Variable) (slots : Nat) (body : Code)
  | cond (test yes no : Code)
  | not (x : Code)
  | toBool (x : Code)
  | andAlso (x y : Code)
  | orElse (x y : Code)
  /-- Repeats its body until a jump to `brk`; a jump to `cont` starts the next round. -/
  | loop (brk : Target) (cont : Option Target) (body : Code)
  /-- Marks a place in a block. Reached in sequence it has the value of `dflt`. -/
  | label (t : Target) (dflt : Code)
  | goto (t : Target) (value : Code)
  | switch (x : Code) (cases : List Code) (dflt : Code) (equal : CallSite)
  /-- One clause of a switch. -/
  | case (values : List Code) (body : Code)
  /-- Evaluates `finally` on every exit from the body. -/
  | tryFinally (body finally_ : Code)
  | contextCall (method : ContextMethod) (ctx : Code) (args : List Code)
  | dynamic (site : CallSite) (args : List Code)
  | iterate (x : Code)
  | moveNext (enum : Code)
  | current (enum : Code)
  | filter (x pred : Code)
  | list (items : List Code)
  /-- Code that came from the given place. -/
  | debug (pos : Position) (x : Code)
  deriving Inhabited

/-- A function literal. -/
structure Lambda where
  id : Nat
  name : Bytes
  params : List Variable
  slots : Nat
  body : Code
  deriving Inhabited

/-- A lambda as a node of code. -/
def Lambda.code (f : Lambda) : Code := .lambda f.id f.name f.params f.slots f.body

/-- Whether there is no code. -/
def Code.isAbsent : Code → Bool
  | .absent => true
  | _ => false

/-- Code without the notes of where it came from. -/
def Code.unwrap : Code → Code
  | .debug _ x => x.unwrap
  | x => x

/-- The name of a kind of node. -/
def Code.kind : Code → String
  | .absent => ""
  | .constant _ => "Constant"
  | .empty => "Empty"
  | .block .. => "Block"
  | .var _ => "Var"
  | .assign .. => "Assign"
  | .lambda .. => "Lambda"
  | .cond .. => "If"
  | .not _ => "Not"
  | .toBool _ => "ToBool"
  | .andAlso .. => "AndAlso"
  | .orElse .. => "OrElse"
  | .loop .. => "Loop"
  | .label .. => "Label"
  | .goto .. => "Goto"
  | .switch .. => "Switch"
  | .case .. => "Case"
  | .tryFinally .. => "TryFinally"
  | .contextCall .. => "ContextCall"
  | .dynamic .. => "Dynamic"
  | .iterate _ => "Iterate"
  | .moveNext _ => "MoveNext"
  | .current _ => "Current"
  | .filter .. => "Where"
  | .list _ => "List"
  | .debug .. => "Debug"

mutual

/-- The nodes of code, each before its parts. -/
def Code.nodes : Code → List Code
  | .absent => []
  | c@(.constant _) | c@.empty | c@(.var _) => [c]
  | c@(.block _ items) | c@(.list items) | c@(.dynamic _ items) => c :: nodesOf items
  | c@(.assign _ x) | c@(.lambda _ _ _ _ x) | c@(.not x) | c@(.toBool x) | c@(.loop _ _ x)
  | c@(.label _ x) | c@(.goto _ x) | c@(.iterate x) | c@(.moveNext x) | c@(.current x)
  | c@(.debug _ x) => c :: x.nodes
  | c@(.andAlso x y) | c@(.orElse x y) | c@(.tryFinally x y) | c@(.filter x y) =>
    c :: (x.nodes ++ y.nodes)
  | c@(.cond x y z) => c :: (x.nodes ++ y.nodes ++ z.nodes)
  | c@(.switch x cases d _) => c :: (x.nodes ++ nodesOf cases ++ d.nodes)
  | c@(.case values body) => c :: (nodesOf values ++ body.nodes)
  | c@(.contextCall _ ctx args) => c :: (ctx.nodes ++ nodesOf args)

/-- The nodes of several pieces of code. -/
def nodesOf : List Code → List Code
  | [] => []
  | c :: cs => c.nodes ++ nodesOf cs

end

/-- The lambda that a node is. -/
def Code.lambda? : Code → Option Lambda
  | .lambda id name params slots body => some ⟨id, name, params, slots, body⟩
  | _ => none

/-- The lambdas in code, in the order of its nodes. -/
def Code.lambdas (c : Code) : List Lambda := c.nodes.filterMap Code.lambda?

/-- A lambda and those inside it. -/
def Lambda.lambdas (f : Lambda) : List Lambda := f.code.lambdas

/-- The call site of a node. -/
def Code.site? : Code → Option CallSite
  | .dynamic site _ => some site
  | .switch _ _ _ equal => some equal
  | _ => none

/-- The call sites of code, in the order of its nodes. -/
def Code.sites (c : Code) : List CallSite := c.nodes.filterMap Code.site?

end Stencil
