import Stencil.Syntax.Tree
import Stencil.Source.Position

/-!
# Symbols, scopes and the resolution of names

A scope is the table of the names declared in one lexical region: the module, the parameters of a
function, a block, or the condition of a loop. Names are looked up innermost first; a name may be
declared once in each region.

The problems analysis finds in a module that is well formed are diagnostics. They are reported all
together, in the order of their positions.
-/

namespace Stencil

/-- Where the value of a name lives at run time. -/
inductive SymbolKind where
  | global | localVar | parameter | nspace
  deriving DecidableEq, Repr, Inhabited

/-- The name of a kind of symbol. -/
def SymbolKind.name : SymbolKind → String
  | .global => "global"
  | .localVar => "local"
  | .parameter => "parameter"
  | .nspace => "namespace"

/-- A declared name. `index` counts the declarations of its scope. -/
structure Symbol where
  name : Bytes
  kind : SymbolKind
  index : Nat
  deriving DecidableEq, Repr, Inhabited

/-- Kind, name and index of a symbol. -/
def Symbol.text (s : Symbol) : Bytes :=
  Bytes.ofString s.kind.name ++ " " ++ s.name ++ "#" ++ Bytes.ofNat s.index

/-- The names of one lexical region, in the order of their declaration. -/
structure Scope where
  symbols : List Symbol := []
  deriving DecidableEq, Repr, Inhabited

namespace Scope

/-- The symbol declared for a name in this region. -/
def find? (s : Scope) (name : Bytes) : Option Symbol := s.symbols.find? (·.name = name)

/-- Declare a name. A name declared before keeps its symbol, and the flag tells that
this declaration is a duplicate. -/
def declare (s : Scope) (name : Bytes) (kind : SymbolKind) : Scope × Symbol × Bool :=
  match s.find? name with
  | some prev => (s, prev, true)
  | none =>
    let sym : Symbol := ⟨name, kind, s.symbols.length⟩
    (⟨s.symbols ++ [sym]⟩, sym, false)

/-- Declare names in order; the answer also lists the duplicates. -/
def declareAll (kind : SymbolKind) : Scope → List Param → Scope × List Param
  | s, [] => (s, [])
  | s, p :: ps =>
    let (s₁, _, dup) := s.declare p.name kind
    let (s₂, dups) := declareAll kind s₁ ps
    (s₂, if dup then p :: dups else dups)

/-- The symbol for a name in a stack of regions, the innermost first. -/
def lookup : List Scope → Bytes → Option Symbol
  | [], _ => none
  | s :: outer, name =>
    match s.find? name with
    | some sym => some sym
    | none => lookup outer name

end Scope

/-- The names a statement declares in the block it stands in. -/
def Stmt.declares : Stmt → List Param
  | .define _ vars => vars.map fun v => match v with
    | .mk p n _ => ⟨p, n⟩
  | _ => []

/-- The names a block declares, in order. -/
def Block.declares (b : Block) : List Param := b.stmts.flatMap Stmt.declares

/-- The region of a block, on top of what the enclosing statement has put into it, and
the declarations that repeat a name. -/
def Block.scope (b : Block) (base : Scope := {}) : Scope × List Param :=
  Scope.declareAll .localVar base b.declares

/-- The region that holds one name. -/
def Scope.single (name : Bytes) (kind : SymbolKind) : Scope := ⟨[⟨name, kind, 0⟩]⟩

/-- The kind of a problem. -/
inductive DiagnosticCode where
  | undeclaredIdentifier | undeclaredFunction | duplicateDeclaration | invalidTarget
  | breakOutsideLoop | continueOutsideLoop | returnOutsideFunction | unknownNamespace
  deriving DecidableEq, Repr, Inhabited

/-- The name of a kind of problem. -/
def DiagnosticCode.name : DiagnosticCode → String
  | .undeclaredIdentifier => "UndeclaredIdentifier"
  | .undeclaredFunction => "UndeclaredFunction"
  | .duplicateDeclaration => "DuplicateDeclaration"
  | .invalidTarget => "InvalidLValue"
  | .breakOutsideLoop => "BreakOutsideLoop"
  | .continueOutsideLoop => "ContinueOutsideLoop"
  | .returnOutsideFunction => "ReturnOutsideFunction"
  | .unknownNamespace => "UnknownNamespace"

/-- Every kind of problem. -/
def DiagnosticCode.all : List DiagnosticCode :=
  [.undeclaredIdentifier, .undeclaredFunction, .duplicateDeclaration, .invalidTarget,
   .breakOutsideLoop, .continueOutsideLoop, .returnOutsideFunction, .unknownNamespace]

/-- What cannot be assigned to. -/
inductive TargetProblem where
  | nspace (name : Bytes)
  | methodCall
  | literal (raw : Bytes)
  | null
  | functionCall
  | construction
  | list
  | template
  | operation
  deriving DecidableEq, Repr

/-- The wording for what cannot be assigned to. -/
def TargetProblem.text : TargetProblem → Bytes
  | .nspace name => Bytes.ofString "namespace " ++ name
  | .methodCall => "method call"
  | .literal raw => Bytes.ofString "literal " ++ raw
  | .null => "null"
  | .functionCall => "function call"
  | .construction => "new expression"
  | .list => "list literal"
  | .template => "template"
  | .operation => "operator expression"

/-- A problem of a module. -/
inductive Problem where
  | undeclaredIdentifier (name : Bytes)
  | undeclaredFunction (name : Bytes)
  | duplicateDeclaration (name : Bytes)
  | invalidTarget (what : TargetProblem)
  | breakOutsideLoop
  | continueOutsideLoop
  | returnOutsideFunction
  | unknownNamespace (name reason : Bytes)
  deriving DecidableEq, Repr

/-- The kind of a problem. -/
def Problem.code : Problem → DiagnosticCode
  | .undeclaredIdentifier _ => .undeclaredIdentifier
  | .undeclaredFunction _ => .undeclaredFunction
  | .duplicateDeclaration _ => .duplicateDeclaration
  | .invalidTarget _ => .invalidTarget
  | .breakOutsideLoop => .breakOutsideLoop
  | .continueOutsideLoop => .continueOutsideLoop
  | .returnOutsideFunction => .returnOutsideFunction
  | .unknownNamespace _ _ => .unknownNamespace

/-- The wording of a problem. -/
def Problem.text : Problem → Bytes
  | .undeclaredIdentifier name => Bytes.ofString "undeclared identifier " ++ name
  | .undeclaredFunction name => Bytes.ofString "undeclared function " ++ name
  | .duplicateDeclaration name => Bytes.ofString "duplicate declaration of " ++ name
  | .invalidTarget what => Bytes.ofString "cannot assign to " ++ what.text
  | .breakOutsideLoop => "break not in a loop"
  | .continueOutsideLoop => "continue not in a loop"
  | .returnOutsideFunction => "return not in a function"
  | .unknownNamespace name reason => Bytes.ofString "cannot load " ++ name ++ ": " ++ reason

/-- A problem and its place. -/
structure Diagnostic where
  pos : Position
  problem : Problem
  deriving DecidableEq, Repr

/-- The place and the wording of a problem. -/
def Diagnostic.message (d : Diagnostic) : Bytes := d.pos.text ++ ": " ++ d.problem.text

/-- Order by position, keeping the order of problems at the same place. -/
def Diagnostic.sort (ds : List Diagnostic) : List Diagnostic :=
  ds.mergeSort fun a b => !b.pos.isBefore a.pos

/-- The kinds of problem present, in their fixed order. -/
def Diagnostic.codes (ds : List Diagnostic) : List DiagnosticCode :=
  DiagnosticCode.all.filter fun c => ds.any (·.problem.code = c)

/-!
## Name resolution

One walk over a module in source order finds out what every name means and what
is wrong with the module. What it meets is a list of `Finding`s: the regions
with their symbols, the uses of names, and the problems.

Names are resolved by lexical scope, innermost first. The region of the module
holds the roots of loaded namespaces, then its functions and its global
variables; all of them are visible throughout the module. A name the module does
not declare may be predeclared by the host. A free call only considers names of
the module and predeclared names.
-/

/-- What the host provides to a module under analysis. -/
structure ResolveEnv where
  /-- Whether a name is provided by the host. -/
  isPredeclared : Bytes → Bool
  /-- Namespaces loaded beside those the module names. -/
  loads : List Bytes := []
  /-- The sorted roots of the namespaces that can be loaded, and the names that
  cannot, each with the reason. -/
  load : List Bytes → List Bytes × List (Bytes × Bytes)

/-- What a use of a name refers to. -/
inductive Referent where
  | symbol (s : Symbol)
  | predeclared
  | undeclared
  deriving DecidableEq, Repr

/-- The pass of analysis a problem belongs to: declarations, names, or the rules on
control flow and assignment. Problems at the same place are reported in this order. -/
inductive Pass where
  | declarations | names | rules
  deriving DecidableEq, Repr

/-- Something met on the walk over a module. -/
inductive Finding where
  | region (span : Span) (kind : String) (depth : Nat) (external : Bool) (scope : Scope)
  | ident (span : Span) (name : Bytes) (write : Bool) (ref : Referent)
  | memberName (span : Span) (name : Bytes)
  | call (span : Span) (name : Bytes) (isMember : Bool)
  | target (span : Span) (op : String)
  | problem (pass : Pass) (d : Diagnostic)
  deriving Repr

/-- The surroundings of a construct: the regions around it, the innermost first and
the module last; the number of loops it can leave; whether it may return. -/
structure Surroundings where
  isPredeclared : Bytes → Bool
  scopes : List Scope
  loops : Nat := 0
  inFunction : Bool := false

namespace Surroundings

/-- Enter a region. -/
def enter (s : Surroundings) (sc : Scope) : Surroundings := { s with scopes := sc :: s.scopes }

/-- The number of regions around the innermost one. -/
def depth (s : Surroundings) : Nat := s.scopes.length - 1

/-- What a name refers to. -/
def refer (s : Surroundings) (name : Bytes) : Referent :=
  match Scope.lookup s.scopes name with
  | some sym => .symbol sym
  | none => if s.isPredeclared name then .predeclared else .undeclared

/-- Whether a free call of a name is possible. -/
def canCall (s : Surroundings) (name : Bytes) : Bool :=
  match s.scopes.getLast? with
  | some m => (m.find? name).isSome || s.isPredeclared name
  | none => s.isPredeclared name

end Surroundings

/-- The problems of repeated declarations. -/
def duplicates (ps : List Param) : List Finding :=
  ps.map fun p => .problem .declarations ⟨p.pos, .duplicateDeclaration p.name⟩

/-- A problem unless a condition holds. -/
def require (ok : Bool) (pass : Pass) (p : Position) (problem : Problem) : List Finding :=
  if ok then [] else [.problem pass ⟨p, problem⟩]

/-- What is wrong with an assignment target, if anything is. -/
def Expr.targetProblem? (s : Surroundings) : Expr → Option TargetProblem
  | .name _ n =>
    match Scope.lookup s.scopes n with
    | some sym => if sym.kind = .nspace then some (.nspace n) else none
    | none => none
  | .index .. | .member .. => none
  | .method .. => some .methodCall
  | .literal _ raw _ => some (.literal raw)
  | .null _ => some .null
  | .call .. => some .functionCall
  | .new .. => some .construction
  | .list .. => some .list
  | .template _ => some .template
  | .unary .. | .binary .. | .assign .. => some .operation

/-- The note of an operation used as an assignment target. -/
def targetNote (write : Bool) (x : Expr) (op : String) : List Finding :=
  if write then [.target x.span op] else []

mutual

/-- What is met in an expression; `write` tells that it is the direct target of an
assignment. -/
def Expr.findings (s : Surroundings) (write : Bool) : Expr → List Finding
  | .literal .. | .null _ => []
  | x@(.name p n) =>
    let ref := s.refer n
    .ident x.span n write ref :: require (ref ≠ .undeclared) .names p (.undeclaredIdentifier n)
  | .unary _ _ x => x.findings s false
  | e@(.binary x _ op y) =>
    targetNote write e op.spelling ++ x.findings s false ++ y.findings s false
  | e@(.assign x _ y) =>
    targetNote write e "=" ++
      (match x.targetProblem? s with
        | some what => [.problem .rules ⟨x.start, .invalidTarget what⟩]
        | none => []) ++
      x.findings s true ++ y.findings s false
  | e@(.index x _ args _) => targetNote write e "[]" ++ x.findings s false ++ exprsFindings s args
  | e@(.member x _ p n) =>
    targetNote write e "." ++ x.findings s false ++ [.memberName ⟨p, p.add n⟩ n]
  | e@(.method x _ p n _ args r) =>
    targetNote write e "." ++ x.findings s false ++ .call ⟨p, r.right 1⟩ n true ::
      exprsFindings s args
  | e@(.call p n _ args _) =>
    .call e.span n false :: require (s.canCall n) .names p (.undeclaredFunction n) ++
      exprsFindings s args
  | .new _ type _ args _ => type.findings s false ++ exprsFindings s args
  | .list _ items _ => exprsFindings s items
  | .template b => b.findings { s with loops := 0 } {} false

/-- What is met in several expressions. -/
def exprsFindings (s : Surroundings) : List Expr → List Finding
  | [] => []
  | x :: xs => x.findings s false ++ exprsFindings s xs

/-- What is met in a block whose region already holds `base`; `external` tells that
the symbols belong to the enclosing statement. -/
def Block.findings (s : Surroundings) (base : Scope) (external : Bool) : Block → List Finding
  | b@(.mk _ stmts _ _) =>
    let (sc, dups) := b.scope base
    let s' := s.enter sc
    .region b.span "StatementBlock" s'.depth external sc :: duplicates dups ++
      stmtsFindings s' stmts

/-- What is met in a block that may be missing. -/
def optBlockFindings (s : Surroundings) : Option Block → List Finding
  | none => []
  | some b => b.findings s {} false

/-- What is met in several statements. -/
def stmtsFindings (s : Surroundings) : List Stmt → List Finding
  | [] => []
  | st :: sts => st.findings s ++ stmtsFindings s sts

/-- What is met in the initial values of variables. -/
def varDefsFindings (s : Surroundings) : List VarDef → List Finding
  | [] => []
  | .mk _ _ none :: vs => varDefsFindings s vs
  | .mk _ _ (some x) :: vs => x.findings s false ++ varDefsFindings s vs

/-- What is met in the arms of a switch. -/
def casesFindings (s : Surroundings) : List SwitchCase → List Finding
  | [] => []
  | .mk _ values body :: cs =>
    exprsFindings s values ++ body.findings s {} false ++ casesFindings s cs

/-- What is met in the condition on the elements of a loop over `var`. The condition
is a function of its own. -/
def whereFindings (s : Surroundings) (var : Bytes) : Option WhereClause → List Finding
  | none => []
  | some w@(.mk _ x) =>
    let sc := Scope.single var .parameter
    let s' := { s.enter sc with loops := 0, inFunction := false }
    .region w.span "ForWhereClause" s'.depth false sc :: x.findings s' false

/-- What is met in a statement. -/
def Stmt.findings (s : Surroundings) : Stmt → List Finding
  | .block b => b.findings s {} false
  | .text .. => []
  | .define _ vars => varDefsFindings s vars
  | .output _ xs => exprsFindings s xs
  | .expr x => x.findings s false
  | .ret p none => require s.inFunction .rules p .returnOutsideFunction
  | .ret p (some x) => require s.inFunction .rules p .returnOutsideFunction ++ x.findings s false
  | .cond _ test yes no =>
    test.findings s false ++ yes.findings s {} false ++ optBlockFindings s no
  | .loop _ test body =>
    let s := { s with loops := s.loops + 1 }
    test.findings s false ++ body.findings s {} false
  | .each _ _ var x filter body between =>
    let s := { s with loops := s.loops + 1 }
    let base := Scope.single var .localVar
    -- what runs between two rounds sees the variables of the round before
    x.findings s false ++ whereFindings s var filter ++ body.findings s base true ++
      optBlockFindings (s.enter (body.scope base).1) between
  | .leave p => require (0 < s.loops) .rules p .breakOutsideLoop
  | .again p => require (0 < s.loops) .rules p .continueOutsideLoop
  | .switch _ x cases dflt _ =>
    x.findings s false ++ casesFindings s cases ++ optBlockFindings s dflt

end

/-- What is met in a function. -/
def FunctionDecl.findings (s : Surroundings) (f : FunctionDecl) : List Finding :=
  let (sc, dups) := Scope.declareAll .parameter {} f.params
  let s' := { s.enter sc with loops := 0, inFunction := true }
  .region f.span "Function" s'.depth false sc :: duplicates dups ++ f.body.findings s' {} false

/-- The names of the namespaces a module loads, those of the environment first. -/
def Module.loadNames (m : Module) (env : ResolveEnv) : List Bytes :=
  env.loads ++ m.loads.map (·.name)

/-- The roots of the namespaces a module loads, and the names that cannot be loaded. -/
def Module.loaded (m : Module) (env : ResolveEnv) : List Bytes × List (Bytes × Bytes) :=
  if (m.loadNames env).isEmpty then ([], []) else env.load (m.loadNames env)

/-- The problems of namespaces that cannot be loaded, each at the first directive that
names it, or at the start of the module. -/
def Module.loadFindings (m : Module) (failures : List (Bytes × Bytes)) : List Finding :=
  failures.map fun (name, reason) =>
    let pos := match m.loads.find? (·.name = name) with
      | some l => l.namePos
      | none => m.span.first
    .problem .declarations ⟨pos, .unknownNamespace name reason⟩

/-- The names a module declares, and the duplicates among them. -/
def Module.scope (m : Module) (roots : List Bytes) : Scope × List Param :=
  let (sc, _) := Scope.declareAll .nspace {} (roots.map fun r => ⟨default, r⟩)
  let names := m.functions.map (fun f => ⟨f.namePos, f.name⟩) ++
    m.defs.flatMap fun d => (Stmt.define d.pos d.vars).declares
  Scope.declareAll .global sc names

/-- The region of the module and everything met in it. -/
def Module.findings (m : Module) (env : ResolveEnv) : Scope × List Finding :=
  let (roots, failures) := m.loaded env
  let (sc, dups) := m.scope roots
  let s : Surroundings := { isPredeclared := env.isPredeclared, scopes := [sc] }
  (sc, m.loadFindings failures ++ duplicates dups ++
    m.functions.flatMap (·.findings s) ++
    m.defs.flatMap (fun d => varDefsFindings s d.vars) ++
    stmtsFindings s m.stmts)

/-- The problems of a pass. -/
def problemsOf (pass : Pass) (fs : List Finding) : List Diagnostic :=
  fs.filterMap fun f => match f with
    | .problem p d => if p = pass then some d else none
    | _ => none

/-- The problems of a module, in the order of their positions. -/
def Module.diagnose (m : Module) (env : ResolveEnv) : List Diagnostic :=
  let fs := (m.findings env).2
  Diagnostic.sort (problemsOf .declarations fs ++ problemsOf .names fs ++ problemsOf .rules fs)

/-- The predeclared names a module uses as variables, in the order of their first use. -/
def predeclaredUses (fs : List Finding) : List Bytes :=
  (fs.filterMap fun f => match f with
    | .ident _ n _ .predeclared => some n
    | _ => none).eraseDups

/-- The region of a module with the predeclared names it uses added. -/
def Module.fullScope (m : Module) (env : ResolveEnv) : Scope :=
  let (sc, fs) := m.findings env
  (Scope.declareAll .global sc ((predeclaredUses fs).map fun n => ⟨default, n⟩)).1

end Stencil
