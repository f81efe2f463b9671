import Stencil.Syntax.Parser
import Stencil.Scope.Resolution
import Stencil.Code.Generator
import Stencil.Catalog.Source
import Stencil.Machine.Universe
import Stencil.Machine.Evaluate

/-!
# Compilation and programs

From source text to code: parsing, analysis, lowering. Each step that fails ends the compilation
with its own kind of error.

A program is compiled code with the values it finds in its global scope. It can be run any number
of times, in any context; its caches remain from run to run.
-/

namespace Stencil

/-- What a module is compiled with. -/
structure Options where
  /-- Values, beyond the universal ones, that every run finds in its global scope. -/
  predeclared : List (Bytes × Value) := []
  /-- Where loaded namespaces are found. -/
  catalog : Option TypeSource := none
  /-- Namespaces visible beside those the module loads itself. -/
  load : List Bytes := []
  /-- Whether the places of errors are noted. -/
  debugInfo : Bool := true
  deriving Inhabited

namespace Options

/-- Whether a name is provided without being declared. -/
def isPredeclared (opts : Options) (name : Bytes) : Bool :=
  (opts.predeclared.any fun (n, _) => n = name) || universalValues.any fun (n, _) => n = name

/-- What analysis takes from the options. -/
def resolveEnv (opts : Options) : ResolveEnv where
  isPredeclared := opts.isPredeclared
  loads := opts.load
  load names :=
    let l := loadNamespaces opts.catalog 0 names
    (l.roots.map (·.1), l.failures.map fun (n, e) => (n, e.text))

end Options

/-- Why a module was not compiled. -/
inductive CompileError where
  | malformed (e : SyntaxError)
  /-- The problems found by analysis, in the order of their positions. -/
  | rejected (ds : List Diagnostic)
  | broken (e : GenerateError)

/-- The wording of an error; of several problems, the first one's. -/
def CompileError.message : CompileError → Bytes
  | .malformed e => e.message
  | .rejected (d :: _) => d.message
  | .rejected [] => "no errors"
  | .broken e => e.message

/-- Analyse and lower a module. The namespaces it loads are told apart from others by
`stamp`. -/
def Module.compile (m : Module) (opts : Options) (stamp : Nat) : Except CompileError Lambda :=
  let env := opts.resolveEnv
  match m.diagnose env with
  | [] =>
    let roots := (loadNamespaces opts.catalog stamp (m.loadNames env)).roots
    match m.generate opts.debugInfo opts.isPredeclared roots with
    | .ok f => .ok f
    | .error e => .error (.broken e)
  | ds => .error (.rejected ds)

/-- Compile source text. -/
def compile (file src : Bytes) (opts : Options) (stamp : Nat) : Except CompileError Lambda :=
  match parseModule file src with
  | .ok m => m.compile opts stamp
  | .error e => .error (.malformed e)

/-- A compiled module. -/
structure Program where
  path : Bytes
  predeclared : List (Bytes × Value)
  /-- The unit of its code, which owns the caches of its call sites. -/
  unit : Nat
  lambda : Lambda
  deriving Inhabited

/-- The description of a program. -/
def Program.text (p : Program) : Bytes := Bytes.ofString "<program " ++ p.path ++ ">"

/-- The call sites of a program. -/
def Program.sites (p : Program) : List CallSite := p.lambda.code.sites

/-- Make a program of code. -/
def link (path : Bytes) (predeclared : List (Bytes × Value)) (lambda : Lambda) :
    Action Program := do
  let s ← get
  let size := lambda.code.sites.foldl (fun n site => max n (site.id + 1)) 0
  set { s with
    units := s.units.push lambda.lambdas
    caches.entries := s.caches.entries.push (Array.replicate size {}) }
  return { path, predeclared, unit := s.units.size, lambda }

/-- The entries of a dictionary in the order of their names; of several for one name the
last counts. -/
def sortEntries (entries : List (Bytes × Value)) : List (Bytes × Value) :=
  (entries.foldl (fun m (k, v) => setAssoc k v m) []).mergeSort fun a b => Bytes.le a.1 b.1

/-- Add fields to an object that it does not have. -/
def addMissing (id : Nat) : List (Bytes × Value) → Action Unit
  | [] => return
  | (name, v) :: rest => do
    if (← Action.field? id name).isNone then Action.setField id name v
    addMissing id rest

/-- The global object of a context, made if there is none. -/
def ensureGlobals (ctx : Nat) : Action Nat := do
  match (← Action.context ctx).globals with
  | some id => return id
  | none =>
    let id ← Action.newObject
    Action.modifyContext ctx fun c => { c with globals := some id }
    return id

/-- Report any error as one of evaluation. -/
def asEvalError {α : Type} (ctx : Nat) (e : Failure) : Action α := do
  match e with
  | .missing _ | .plain .. =>
    throw (.positioned ⟨.unknown, e.message, ← Action.callStack ctx, e.isMissing⟩)
  | e => throw e

/-- Run the code of a program in a context. Predeclared and universal values are added to
the global object unless it has fields of their names. -/
def Program.runAs (p : Program) (ctx : Nat) (run : List Value → Action Value) : Action Unit := do
  let globals ← ensureGlobals ctx
  addMissing globals (sortEntries p.predeclared)
  addMissing globals universalValues
  let depth := (← Action.context ctx).writers.length
  let outcome ← Action.attempt (run [.context ctx])
  let after := (← Action.context ctx).writers.length
  if after ≠ depth then
    Action.panic (Bytes.ofString "happy: writer depth " ++ Bytes.ofNat after ++
      " after run, want " ++ Bytes.ofNat depth)
  match outcome with
  | .ok _ => return
  | .error e => asEvalError ctx e

/-- The function value that stands for the module itself. -/
def Program.entry (p : Program) : Closure := ⟨p.unit, p.lambda.id, none⟩

/-- Run a program in a context. -/
def Program.run [Application] (fuel : Nat) (p : Program) (ctx : Nat) : Action Unit :=
  p.runAs ctx (p.lambda.routine.call p.entry (callValue fuel) fuel ctx)

/-- The elements of a value, asked for by the host. -/
def elements [Host] (call : Callback) (fuel : Nat) (v : Value) : Action (List Value) :=
  (v.elements fuel).run call

/-- A value as data of a host type, asked for by the host. -/
def convert [Host] (call : Callback) (fuel : Nat) (x : Value) (t : HostType) : Action Value :=
  (x.convert fuel t).run call

/-- The fuel of ordinary runs: more than any run can use up. -/
def ampleFuel : Nat := Nat.pow 2 60

/-- The fields of the global object of a context that do not hold what they were given
from the start. -/
def ownGlobals [Host] (s : Store) (given : List (Bytes × Value)) (ctx : Nat) :
    List (Bytes × Value) :=
  match (s.contexts.getD ctx {}).globals with
  | none => []
  | some id =>
    (s.object id).filter fun (name, v) =>
      match given.lookup name with
      | some w => !v.isIdentical w
      | none => true

end Stencil
