import Stencil.Scope.Resolution

/-!
# Traversal

A module is walked in source order. Every node is entered, then its children are visited,
and then it is left. The walk passes the same surroundings down as analysis does, so that
what a name refers to is known where the name is met.
-/

namespace Stencil

/-- A node of the tree. -/
inductive SyntaxNode where
  | module (m : Module)
  | load (l : LoadDirective)
  | function (f : FunctionDecl)
  | param (p : Param)
  /-- A block whose region already holds `base`; `external` tells that its region belongs
  to the statement around. -/
  | block (b : Block) (base : Scope) (external : Bool)
  | stmt (st : Stmt)
  | varDef (v : VarDef)
  /-- The condition on the elements of a loop over `var`. -/
  | filter (var : Bytes) (w : WhereClause)
  | arm (c : SwitchCase)
  /-- An expression; `write` tells that it is the direct target of an assignment. -/
  | expr (x : Expr) (write : Bool)
  | memberName (name : Bytes)
  /-- The indices of an indexed expression. -/
  | arguments (args : List Expr)
  /-- The method and the arguments of a method call. -/
  | memberCall (name : Bytes) (args : List Expr)

/-- What happens on the walk. -/
inductive Event where
  | enter (n : SyntaxNode) (s : Surroundings)
  | leave (n : SyntaxNode) (s : Surroundings)

/-- The visit of a node whose children are visited by `inside`. -/
def visit (n : SyntaxNode) (s : Surroundings) (inside : List Event) : List Event :=
  .enter n s :: (inside ++ [.leave n s])

mutual

/-- The visit of an expression. -/
def Expr.walk (s : Surroundings) (write : Bool) : Expr → List Event
  | e@(.literal ..) | e@(.null _) | e@(.name ..) => visit (.expr e write) s []
  | e@(.unary _ _ x) => visit (.expr e write) s (x.walk s false)
  | e@(.binary x _ _ y) => visit (.expr e write) s (x.walk s false ++ y.walk s false)
  | e@(.assign x _ y) => visit (.expr e write) s (x.walk s true ++ y.walk s false)
  | e@(.index x _ args _) =>
    visit (.expr e write) s (x.walk s false ++ visit (.arguments args) s (exprsWalk s args))
  | e@(.member x _ _ name) =>
    visit (.expr e write) s (x.walk s false ++ visit (.memberName name) s [])
  | e@(.method x _ _ name _ args _) =>
    visit (.expr e write) s (x.walk s false ++ visit (.memberCall name args) s (exprsWalk s args))
  | e@(.call _ _ _ args _) => visit (.expr e write) s (exprsWalk s args)
  | e@(.new _ type _ args _) => visit (.expr e write) s (type.walk s false ++ exprsWalk s args)
  | e@(.list _ items _) => visit (.expr e write) s (exprsWalk s items)
  | e@(.template b) => visit (.expr e write) s (b.walk { s with loops := 0 } {} false)

/-- The visits of several expressions. -/
def exprsWalk (s : Surroundings) : List Expr → List Event
  | [] => []
  | x :: xs => x.walk s false ++ exprsWalk s xs

/-- The visit of a block whose region already holds `base`. -/
def Block.walk (s : Surroundings) (base : Scope) (external : Bool) : Block → List Event
  | b@(.mk _ stmts _ _) =>
    visit (.block b base external) s (stmtsWalk (s.enter (b.scope base).1) stmts)

/-- The visit of a block that may be missing. -/
def optBlockWalk (s : Surroundings) : Option Block → List Event
  | none => []
  | some b => b.walk s {} false

/-- The visits of several statements. -/
def stmtsWalk (s : Surroundings) : List Stmt → List Event
  | [] => []
  | st :: sts => st.walk s ++ stmtsWalk s sts

/-- The visits of the definitions of several variables. -/
def varDefsWalk (s : Surroundings) : List VarDef → List Event
  | [] => []
  | v :: vs => v.walk s ++ varDefsWalk s vs

/-- The visit of the definition of a variable. -/
def VarDef.walk (s : Surroundings) : VarDef → List Event
  | v@(.mk _ _ none) => visit (.varDef v) s []
  | v@(.mk _ _ (some x)) => visit (.varDef v) s (x.walk s false)

/-- The visits of the arms of a switch. -/
def casesWalk (s : Surroundings) : List SwitchCase → List Event
  | [] => []
  | c :: cs => c.walk s ++ casesWalk s cs

/-- The visit of an arm of a switch. -/
def SwitchCase.walk (s : Surroundings) : SwitchCase → List Event
  | c@(.mk _ values body) => visit (.arm c) s (exprsWalk s values ++ body.walk s {} false)

/-- The visit of the condition on the elements of a loop over `var`. -/
def WhereClause.walk (s : Surroundings) (var : Bytes) : WhereClause → List Event
  | w@(.mk _ x) =>
    visit (.filter var w) s
      (x.walk { s.enter (Scope.single var .parameter) with loops := 0, inFunction := false } false)

/-- The visit of a condition that may be missing. -/
def optWhereWalk (s : Surroundings) (var : Bytes) : Option WhereClause → List Event
  | none => []
  | some w => w.walk s var

/-- The visit of a statement. A block is its own statement. -/
def Stmt.walk (s : Surroundings) : Stmt → List Event
  | .block b => b.walk s {} false
  | st@(.text ..) | st@(.leave _) | st@(.again _) | st@(.ret _ none) => visit (.stmt st) s []
  | st@(.define _ vars) => visit (.stmt st) s (varDefsWalk s vars)
  | st@(.output _ xs) => visit (.stmt st) s (exprsWalk s xs)
  | st@(.expr x) => visit (.stmt st) s (x.walk s false)
  | st@(.ret _ (some x)) => visit (.stmt st) s (x.walk s false)
  | st@(.cond _ test yes no) =>
    visit (.stmt st) s (test.walk s false ++ yes.walk s {} false ++ optBlockWalk s no)
  | st@(.loop _ test body) =>
    let s := { s with loops := s.loops + 1 }
    visit (.stmt st) s (test.walk s false ++ body.walk s {} false)
  | st@(.each _ _ var x filter body between) =>
    let s := { s with loops := s.loops + 1 }
    let base := Scope.single var .localVar
    visit (.stmt st) s (x.walk s false ++ optWhereWalk s var filter ++ body.walk s base true ++
      optBlockWalk (s.enter (body.scope base).1) between)
  | st@(.switch _ x cases dflt _) =>
    visit (.stmt st) s (x.walk s false ++ casesWalk s cases ++ optBlockWalk s dflt)

end

/-- The visit of a function. -/
def FunctionDecl.walk (s : Surroundings) (f : FunctionDecl) : List Event :=
  let inner := { s.enter (Scope.declareAll .parameter {} f.params).1 with
    loops := 0, inFunction := true }
  visit (.function f) s (f.params.flatMap (fun p => visit (.param p) s []) ++
    f.body.walk inner {} false)

/-- The visit of a definition of global variables. -/
def GlobalDef.walk (s : Surroundings) (d : GlobalDef) : List Event :=
  visit (.stmt (.define d.pos d.vars)) s (varDefsWalk s d.vars)

/-- What a module is surrounded by: its own names, the roots of loaded namespaces among
them. -/
def Module.surroundings (m : Module) (isPredeclared : Bytes → Bool) (roots : List Bytes) :
    Surroundings :=
  { isPredeclared, scopes := [(m.scope roots).1] }

/-- The walk over a module. -/
def Module.walk (m : Module) (isPredeclared : Bytes → Bool) (roots : List Bytes) : List Event :=
  let s := m.surroundings isPredeclared roots
  visit (.module m) s (m.loads.flatMap (fun l => visit (.load l) s []) ++
    m.functions.flatMap (·.walk s) ++ m.defs.flatMap (·.walk s) ++ stmtsWalk s m.stmts)

end Stencil
