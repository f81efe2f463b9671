import Stencil.Code.Basic
import Stencil.Scope.Resolution

/-!
# Numbering

Lambdas, jump targets, call sites and slots are numbered as the tree of a module is
walked. How far the numbers get depends on the constructs alone, not on what their names
mean: `after` tells it for each of them.
-/

namespace Stencil

/-- The targets of a loop. -/
structure LoopTargets where
  brk : Target
  cont : Target
  deriving DecidableEq, Repr, Inhabited

/-- What has been numbered so far, and the slots of the lambda being lowered. -/
structure Numbering where
  lambdas : Nat := 0
  targets : Nat := 0
  sites : Nat := 0
  slots : Nat := 0
  deriving DecidableEq, Repr, Inhabited

namespace Numbering

/-- After one more call site. -/
def nextSite (n : Numbering) : Numbering := { n with sites := n.sites + 1 }

/-- After some more slots. -/
def declare (n : Numbering) (k : Nat) : Numbering := { n with slots := n.slots + k }

/-- After one more jump target. -/
def nextTarget (n : Numbering) : Numbering := { n with targets := n.targets + 1 }

/-- The targets of a loop that begins here. -/
def loop (n : Numbering) : LoopTargets := ⟨⟨n.targets, "break"⟩, ⟨n.targets + 1, "continue"⟩⟩

/-- After the targets of one more loop. -/
def nextLoop (n : Numbering) : Numbering := { n with targets := n.targets + 2 }

/-- Inside a new lambda with some parameters. -/
def enter (n : Numbering) (params : Nat) : Numbering :=
  { n with lambdas := n.lambdas + 1, slots := params }

/-- Back in the lambda that had so many slots. -/
def leave (n : Numbering) (slots : Nat) : Numbering := { n with slots }

end Numbering

/-- The names a block declares, in the order of their symbols. -/
def Block.names (b : Block) (base : Scope := {}) : List Bytes :=
  (b.scope base).1.symbols.map (·.name)

/-- The names of the variables in the body of a loop over `var`. -/
def loopNames (var : Bytes) (body : Block) : List Bytes :=
  body.names (Scope.single var .localVar)

/-- Whether an expression is a name. A name that is assigned to is not read. -/
def Expr.isName : Expr → Bool
  | .name .. => true
  | _ => false

/-! ### Constructs -/

mutual

/-- What has been numbered after an expression. -/
def Expr.after : Expr → Numbering → Numbering
  | .literal .., n | .null _, n => n
  | .name .., n => n.nextSite
  | .unary _ _ x, n => (x.after n).nextSite
  | .binary x _ _ y, n => (y.after (x.after n)).nextSite
  | .assign target _ y, n => (y.after (if target.isName then n else target.after n)).nextSite
  | .index x _ args _, n => (exprsAfter args (x.after n)).nextSite
  | .member x _ _ _, n => (x.after n).nextSite
  | .method x _ _ _ _ args _, n => (exprsAfter args (x.after n)).nextSite
  | .call _ _ _ args _, n => (exprsAfter args n).nextSite.nextSite
  | .new _ type _ args _, n => (exprsAfter args (type.after n)).nextSite
  | .list _ items _, n => exprsAfter items n
  | .template b, n => (b.after n).declare 1

/-- What has been numbered after several expressions. -/
def exprsAfter : List Expr → Numbering → Numbering
  | [], n => n
  | x :: xs, n => exprsAfter xs (x.after n)

/-- What has been numbered after a block with a region of its own. -/
def Block.after : Block → Numbering → Numbering
  | b@(.mk _ stmts _ _), n => stmtsAfter stmts (n.declare b.names.length)

/-- What has been numbered after the body of a loop, whose region belongs to the loop. -/
def Block.afterBody : Block → Numbering → Numbering
  | .mk _ stmts _ _, n => stmtsAfter stmts n

/-- What has been numbered after several statements. -/
def stmtsAfter : List Stmt → Numbering → Numbering
  | [], n => n
  | st :: sts, n => stmtsAfter sts (st.after n)

/-- What has been numbered after the initial values of variables. -/
def varDefsAfter : List VarDef → Numbering → Numbering
  | [], n => n
  | v :: vs, n => varDefsAfter vs (v.after n)

/-- What has been numbered after the initial value of a variable. -/
def VarDef.after : VarDef → Numbering → Numbering
  | .mk _ _ none, n => n
  | .mk _ _ (some x), n => (x.after n).nextSite

/-- What has been numbered after the arms of a switch. -/
def casesAfter : List SwitchCase → Numbering → Numbering
  | [], n => n
  | c :: cs, n => casesAfter cs (c.after n)

/-- What has been numbered after an arm of a switch. -/
def SwitchCase.after : SwitchCase → Numbering → Numbering
  | .mk _ values body, n => body.after (exprsAfter values n)

/-- What has been numbered after a block that may be missing. -/
def optBlockAfter : Option Block → Numbering → Numbering
  | none, n => n
  | some b, n => b.after n

/-- What has been numbered after the condition on the elements of a loop. -/
def WhereClause.after : WhereClause → Numbering → Numbering
  | .mk _ x, n => (x.after (n.enter 1)).leave n.slots

/-- What has been numbered after a condition that may be missing. -/
def optWhereAfter : Option WhereClause → Numbering → Numbering
  | none, n => n
  | some w, n => w.after n

/-- What has been numbered after a statement. -/
def Stmt.after : Stmt → Numbering → Numbering
  | .block b, n => b.after n
  | .text .., n | .leave _, n | .again _, n | .ret _ none, n => n
  | .define _ vars, n => varDefsAfter vars n
  | .output _ xs, n => exprsAfter xs n
  | .expr x, n => x.after n
  | .ret _ (some x), n => x.after n
  | .cond _ test yes no, n => optBlockAfter no (yes.after (test.after n))
  | .loop _ test body, n => body.after (test.after n.nextLoop)
  | .each _ _ var x filter body between, n =>
    let n := (n.declare ((loopNames var body).length + 1)).nextLoop
    optBlockAfter between (body.afterBody (optWhereAfter filter (x.after n)))
  | .switch _ x cases dflt _, n => (optBlockAfter dflt (casesAfter cases (x.after n))).nextSite

end

/-- What has been numbered after a function. -/
def FunctionDecl.after (f : FunctionDecl) (n : Numbering) : Numbering :=
  ((f.body.after (n.nextTarget.enter f.params.length)).leave n.slots).nextSite

/-- What has been numbered after several functions. -/
def functionsAfter : List FunctionDecl → Numbering → Numbering
  | [], n => n
  | f :: fs, n => functionsAfter fs (f.after n)

/-- What has been numbered after several global definitions. -/
def defsAfter : List GlobalDef → Numbering → Numbering
  | [], n => n
  | d :: ds, n => defsAfter ds (varDefsAfter d.vars n)

/-- What is numbered before anything in a module: its own lambda, and the slot of its
parameter. -/
def Numbering.start : Numbering := { lambdas := 1, slots := 1 }

end Stencil
