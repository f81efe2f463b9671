import Stencil.Syntax.Tree

/-!
# The outline of a tree

The bare shape of a syntax tree: the kind of every node and its children in
source order. `Outline.visits` lists the nodes as a depth-first walk meets them.
-/

namespace Stencil

/-- A node kind with the outlines of its children. -/
inductive Outline where
  | node (kind : String) (children : List Outline)
  deriving Inhabited

mutual

/-- The outline of an expression. -/
def Expr.outline : Expr → Outline
  | .literal .. => .node "LiteralExpression" []
  | .null .. => .node "NullExpression" []
  | .name .. => .node "IdentifierExpression" []
  | .unary _ _ x => .node "UnaryExpression" [x.outline]
  | .binary x _ _ y => .node "BinaryExpression" [x.outline, y.outline]
  | .assign x _ y => .node "BinaryExpression" [x.outline, y.outline]
  | .index x _ args _ =>
    .node "BinaryExpression" [x.outline, .node "ArgumentList" (exprOutlines args)]
  | .member x _ _ _ => .node "BinaryExpression" [x.outline, .node "IdentifierExpression" []]
  | .method x _ _ _ _ args _ =>
    .node "BinaryExpression" [x.outline, .node "FunctionCallExpression" (exprOutlines args)]
  | .call _ _ _ args _ => .node "FunctionCallExpression" (exprOutlines args)
  | .new _ type _ args _ => .node "NewObjectExpression" (type.outline :: exprOutlines args)
  | .list _ items _ => .node "ListExpression" (exprOutlines items)
  | .template b => .node "AnonymousTemplate" [b.outline]

/-- The outlines of several expressions. -/
def exprOutlines : List Expr → List Outline
  | [] => []
  | x :: xs => x.outline :: exprOutlines xs

/-- The outline of a block. -/
def Block.outline : Block → Outline
  | .mk _ stmts _ _ => .node "StatementBlock" (stmtOutlines stmts)

/-- The outline of a block that may be missing. -/
def optBlockOutlines : Option Block → List Outline
  | none => []
  | some b => [b.outline]

/-- The outlines of several statements. -/
def stmtOutlines : List Stmt → List Outline
  | [] => []
  | s :: ss => s.outline :: stmtOutlines ss

/-- The outlines of variable definitions. -/
def varDefOutlines : List VarDef → List Outline
  | [] => []
  | .mk _ _ none :: vs => .node "VariableDef" [] :: varDefOutlines vs
  | .mk _ _ (some x) :: vs => .node "VariableDef" [x.outline] :: varDefOutlines vs

/-- The outlines of the arms of a switch. -/
def caseOutlines : List SwitchCase → List Outline
  | [] => []
  | .mk _ values body :: cs =>
    .node "SwitchCase" (exprOutlines values ++ [body.outline]) :: caseOutlines cs

/-- The outline of a condition on loop elements. -/
def whereOutlines : Option WhereClause → List Outline
  | none => []
  | some (.mk _ x) => [.node "ForWhereClause" [x.outline]]

/-- The outline of a statement. -/
def Stmt.outline : Stmt → Outline
  | .block b => b.outline
  | .text .. => .node "VerbatimSection" []
  | .define _ vars => .node "DefStatement" (varDefOutlines vars)
  | .output _ xs => .node "OutputStatement" (exprOutlines xs)
  | .expr x => .node "ExpressionStatement" [x.outline]
  | .ret _ none => .node "ReturnStatement" []
  | .ret _ (some x) => .node "ReturnStatement" [x.outline]
  | .cond _ test yes no =>
    .node "IfStatement" ([test.outline, yes.outline] ++ optBlockOutlines no)
  | .loop _ test body => .node "WhileStatement" [test.outline, body.outline]
  | .each _ _ _ x filter body between =>
    .node "ForStatement" ([x.outline] ++ whereOutlines filter ++ [body.outline] ++
      optBlockOutlines between)
  | .leave _ => .node "BreakStatement" []
  | .again _ => .node "ContinueStatement" []
  | .switch _ x cases dflt _ =>
    .node "SwitchStatement" ([x.outline] ++ caseOutlines cases ++ optBlockOutlines dflt)

end

/-- The outline of a module. -/
def Module.outline (m : Module) : Outline :=
  .node "Module" (
    (m.loads.map fun _ => .node "LoadDirective" []) ++
    (m.functions.map fun f => .node "Function"
      ((f.params.map fun _ => .node "FunctionParameter" []) ++ [f.body.outline])) ++
    (m.defs.map fun d => .node "DefStatement" (varDefOutlines d.vars)) ++
    stmtOutlines m.stmts)

mutual

/-- The nodes of an outline as a walk meets them: the kind of a node before its
children, `none` after them. A node for which `prune` holds is met, but neither its
children nor its end are. -/
def Outline.visits (prune : String → Bool) : Outline → List (Option String)
  | .node kind children =>
    if prune kind then [some kind]
    else some kind :: (childVisits prune children ++ [none])

/-- The nodes of several outlines. -/
def childVisits (prune : String → Bool) : List Outline → List (Option String)
  | [] => []
  | o :: os => o.visits prune ++ childVisits prune os

end

end Stencil
