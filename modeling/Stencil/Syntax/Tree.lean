import Stencil.Source.Token
import Stencil.Syntax.Operator

/-!
# Syntax trees

The tree of a module: its load directives, functions, global definitions and
other statements. Every node records the positions needed to tell where it
starts and ends; `Expr.span`, `Stmt.span` and their companions give the extent.

An `else if` is a false branch whose block holds a single conditional. The body
of a switch case is an implicit block.
-/

namespace Stencil

/-- The value of a literal. -/
inductive Literal where
  | bool (b : Bool)
  | int (n : Int64)
  | float (x : Float)
  | string (s : Bytes)
  deriving Repr, Inhabited

mutual

/-- An expression. -/
inductive Expr where
  | literal (pos : Position) (raw : Bytes) (value : Literal)
  | null (pos : Position)
  | name (pos : Position) (name : Bytes)
  | unary (pos : Position) (op : UnaryOp) (x : Expr)
  | binary (x : Expr) (pos : Position) (op : BinaryOp) (y : Expr)
  | assign (target : Expr) (pos : Position) (value : Expr)
  | index (x : Expr) (lbrack : Position) (args : List Expr) (rbrack : Position)
  | member (x : Expr) (dot : Position) (namePos : Position) (name : Bytes)
  | method (x : Expr) (dot : Position) (namePos : Position) (name : Bytes) (lparen : Position)
      (args : List Expr) (rparen : Position)
  | call (namePos : Position) (name : Bytes) (lparen : Position) (args : List Expr)
      (rparen : Position)
  | new (pos : Position) (type : Expr) (lparen : Position) (args : List Expr) (rparen : Position)
  | list (lbrack : Position) (items : List Expr) (rbrack : Position)
  | template (body : Block)

/-- Statements between braces, or the inside of a template. -/
inductive Block where
  | mk (lbrace : Position) (stmts : List Stmt) (rbrace : Position) (isTemplate : Bool)

/-- A name in a definition, with its optional initial value. -/
inductive VarDef where
  | mk (pos : Position) (name : Bytes) (init : Option Expr)

/-- The condition that selects the elements of a loop. -/
inductive WhereClause where
  | mk (pos : Position) (cond : Expr)

/-- One arm of a switch. -/
inductive SwitchCase where
  | mk (pos : Position) (values : List Expr) (body : Block)

/-- A statement. -/
inductive Stmt where
  | block (b : Block)
  | text (pos : Position) (s : Bytes)
  | define (pos : Position) (vars : List VarDef)
  | output (pos : Position) (exprs : List Expr)
  | expr (x : Expr)
  | ret (pos : Position) (result : Option Expr)
  | cond (pos : Position) (test : Expr) (yes : Block) (no : Option Block)
  | loop (pos : Position) (test : Expr) (body : Block)
  | each (pos varPos : Position) (var : Bytes) (x : Expr) (filter : Option WhereClause)
      (body : Block) (between : Option Block)
  | leave (pos : Position)
  | again (pos : Position)
  | switch (pos : Position) (x : Expr) (cases : List SwitchCase) (dflt : Option Block)
      (rbrace : Position)

end

instance : Inhabited Expr := ⟨.null default⟩
instance : Inhabited Block := ⟨.mk default [] default false⟩
instance : Inhabited Stmt := ⟨.leave default⟩
instance : Inhabited VarDef := ⟨.mk default [] none⟩

/-- A directive that makes a namespace visible. -/
structure LoadDirective where
  pos : Position
  namePos : Position
  name : Bytes
  semicolon : Position
  deriving Repr, Inhabited

/-- A parameter of a function. -/
structure Param where
  pos : Position
  name : Bytes
  deriving DecidableEq, Repr, Inhabited

/-- A function declaration. -/
structure FunctionDecl where
  pos : Position
  namePos : Position
  name : Bytes
  params : List Param
  body : Block
  deriving Inhabited

/-- A definition of global variables. -/
structure GlobalDef where
  pos : Position
  vars : List VarDef
  deriving Inhabited

/-- The tree of a source file: declarations sorted by kind, and the remaining
statements in order. -/
structure Module where
  path : Bytes
  loads : List LoadDirective
  functions : List FunctionDecl
  defs : List GlobalDef
  stmts : List Stmt
  endPos : Position
  deriving Inhabited

/-! ### Extents -/

/-- The statements of a block. -/
def Block.stmts : Block → List Stmt
  | .mk _ stmts _ _ => stmts

/-- Whether a block is the inside of a template. -/
def Block.isTemplate : Block → Bool
  | .mk _ _ _ t => t

/-- The extent of a block. -/
def Block.span : Block → Span
  | .mk l _ r t => ⟨l, r.right (if t then 2 else 1)⟩

/-- Where an expression starts. -/
def Expr.start : Expr → Position
  | .literal p _ _ | .null p | .name p _ | .unary p _ _ => p
  | .binary x _ _ _ | .assign x _ _ | .index x _ _ _ | .member x _ _ _ => x.start
  | .method x _ _ _ _ _ _ => x.start
  | .call p _ _ _ _ | .new p _ _ _ _ | .list p _ _ => p
  | .template b => b.span.first

/-- Where an expression ends. -/
def Expr.finish : Expr → Position
  | .literal p raw _ => p.add raw
  | .null p => p.right 4
  | .name p n => p.add n
  | .unary _ _ x => x.finish
  | .binary _ _ _ y => y.finish
  | .assign _ _ y => y.finish
  | .index _ _ _ r => r.right 1
  | .member _ _ p n => p.add n
  | .method _ _ _ _ _ _ r => r.right 1
  | .call _ _ _ _ r => r.right 1
  | .new _ _ _ _ r => r.right 1
  | .list _ _ r => r.right 1
  | .template b => b.span.last

/-- The extent of an expression. -/
def Expr.span (x : Expr) : Span := ⟨x.start, x.finish⟩

/-- The extent of a variable definition. -/
def VarDef.span : VarDef → Span
  | .mk p n none => ⟨p, p.add n⟩
  | .mk p _ (some x) => ⟨p, x.finish⟩

/-- The extent of a condition on loop elements. -/
def WhereClause.span : WhereClause → Span
  | .mk p x => ⟨p, x.finish⟩

/-- The extent of a switch arm. -/
def SwitchCase.span : SwitchCase → Span
  | .mk p _ b => ⟨p, b.span.last⟩

/-- The extent of a definition whose keyword stands at `p`. -/
def defSpan (p : Position) (vars : List VarDef) : Span :=
  ⟨p, match vars.getLast? with
    | some v => v.span.last
    | none => p⟩

/-- The extent of a statement. -/
def Stmt.span : Stmt → Span
  | .block b => b.span
  | .text p s => ⟨p, p.add s⟩
  | .define p vars => defSpan p vars
  | .output p xs => ⟨p, match xs.getLast? with
      | some x => x.finish
      | none => p⟩
  | .expr x => x.span
  | .ret p none => ⟨p, p.right 6⟩
  | .ret p (some x) => ⟨p, x.finish⟩
  | .cond p _ yes no => ⟨p, (no.getD yes).span.last⟩
  | .loop p _ body => ⟨p, body.span.last⟩
  | .each p _ _ _ _ body between => ⟨p, (between.getD body).span.last⟩
  | .leave p => ⟨p, p.right 5⟩
  | .again p => ⟨p, p.right 8⟩
  | .switch p _ _ _ r => ⟨p, r.right 1⟩

/-- The extent of a load directive. -/
def LoadDirective.span (l : LoadDirective) : Span := ⟨l.pos, l.semicolon.right 1⟩

/-- The extent of a parameter. -/
def Param.span (p : Param) : Span := ⟨p.pos, p.pos.add p.name⟩

/-- The extent of a function. -/
def FunctionDecl.span (f : FunctionDecl) : Span := ⟨f.pos, f.body.span.last⟩

/-- The extent of a global definition. -/
def GlobalDef.span (d : GlobalDef) : Span := defSpan d.pos d.vars

/-- The extent of a module: from its first construct to its end. -/
def Module.span (m : Module) : Span :=
  let firsts := (m.loads.head?.map (·.pos)).toList ++ (m.functions.head?.map (·.pos)).toList ++
    (m.defs.head?.map (·.pos)).toList ++ (m.stmts.head?.map (·.span.first)).toList
  let earlier (start p : Position) : Position :=
    if p.isValid && (!start.isValid || p.isBefore start) then p else start
  ⟨firsts.foldl earlier m.endPos, m.endPos⟩

end Stencil
