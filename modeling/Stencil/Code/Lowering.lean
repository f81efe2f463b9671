import Stencil.Code.Numbering
import Stencil.Value.Basic

/-!
# Lowering

The code of the constructs of a module. It follows the tree: the code of a construct is
put together from the code of its parts, and each part is noted with the place it came
from.

Names are found by lexical scope, as analysis finds them. A local variable or
parameter becomes a slot of the lambda it is declared in; a global name becomes
a member of the global object; a namespace becomes a constant. The loops and the
function around a statement give the targets of its jumps.

The code of a construct is a function of what has been numbered before it. What analysis
rejects has no code: `absent` stands in its place.
-/

namespace Stencil

/-- The surroundings of a construct. -/
structure LowerEnv where
  /-- Whether places are noted. -/
  debug : Bool
  isPredeclared : Bytes → Bool
  /-- The names of the module. -/
  globals : Scope
  /-- The loaded namespaces. -/
  roots : List (Bytes × Namespace)
  /-- The slots of the names in the regions around, the innermost first. -/
  regions : List (List Variable) := []
  /-- The lambda around, by number and name. -/
  owner : Nat := 0
  ownerName : Bytes := []
  ret : Option Target := none
  loops : List LoopTargets := []

/-- Code and the place it came from. -/
structure Item where
  pos : Position
  code : Code
  deriving Inhabited

/-- Slots of a lambda from a number on, for some names. -/
def slotsFrom (owner : Nat) (ownerName : Bytes) : Nat → List Bytes → List Variable
  | _, [] => []
  | k, name :: names => ⟨name, k, owner, ownerName⟩ :: slotsFrom owner ownerName (k + 1) names

/-- The parameter that holds the run-time context of the module. -/
def contextVariable : Variable := ⟨Bytes.ofString "ctx", 0, 0, Bytes.ofString "<toplevel>"⟩

/-- A call of the context. -/
def contextCode (method : ContextMethod) (args : List Code) : Code :=
  .contextCall method (.var contextVariable) args

/-- The global object. -/
def globalsCode : Code := contextCode .getGlobals []

/-- The code that reads a global variable. -/
def globalCode (pos : Position) (name : Bytes) (site : Nat) : Code :=
  .dynamic { id := site, kind := .getMember, name, pos } [globalsCode]

/-- The code that assigns to a global variable. -/
def setGlobalCode (pos : Position) (name : Bytes) (x : Code) (site : Nat) : Code :=
  .dynamic { id := site, kind := .setMember, name, pos } [globalsCode, x]

/-- Note where code came from, once. -/
def noteAt (debug : Bool) (pos : Position) (c : Code) : Code :=
  if !debug || !pos.isValid then c else
    match c with
    | .debug .. => c
    | _ => .debug pos c

/-- The code of an item with the note of its place. -/
def Item.noted (i : Item) (debug : Bool) : Code := noteAt debug i.pos i.code

/-- What a name stands for. -/
inductive Meaning where
  | slot (v : Variable)
  | global
  | nspace (ns : Namespace)

/-- The slot of a name in the regions around. -/
def findSlot : List (List Variable) → Bytes → Option Variable
  | [], _ => none
  | r :: rs, name =>
    match r.find? (·.name = name) with
    | some v => some v
    | none => findSlot rs name

namespace LowerEnv

variable (env : LowerEnv)

/-- Slots of the lambda around, for some names. -/
def newSlots (n : Numbering) (names : List Bytes) : List Variable :=
  slotsFrom env.owner env.ownerName n.slots names

/-- Inside a region with the given slots. -/
def within (vars : List Variable) : LowerEnv := { env with regions := vars :: env.regions }

/-- Inside a loop with the given targets. -/
def inLoop (t : LoopTargets) : LowerEnv := { env with loops := t :: env.loops }

/-- Inside a new lambda with the given parameters. No loop can be left from there. -/
def inLambda (n : Numbering) (name : Bytes) (params : List Bytes) (ret : Option Target) :
    LowerEnv :=
  { env with
    owner := n.lambdas, ownerName := name, ret, loops := []
    regions := slotsFrom n.lambdas name 0 params :: env.regions }

/-- What a name stands for, if anything. -/
def meaning? (name : Bytes) : Option Meaning :=
  match findSlot env.regions name with
  | some v => some (.slot v)
  | none =>
    match env.globals.find? name with
    | some sym =>
      if sym.kind = .nspace then (env.roots.lookup name).map .nspace else some .global
    | none => if env.isPredeclared name then some .global else none

/-- The code that reads a name; `site` is the number of its call site, if it has one. -/
def load (pos : Position) (name : Bytes) (site : Nat) : Code :=
  match env.meaning? name with
  | some (.slot v) => .var v
  | some .global => globalCode pos name site
  | some (.nspace ns) => .constant (.nspace ns)
  | none => .absent

/-- The code that assigns to a name. -/
def store (pos : Position) (name : Bytes) (x : Code) (site : Nat) : Code :=
  match env.meaning? name with
  | some (.slot v) => .assign v x
  | some .global => setGlobalCode pos name x site
  | _ => .absent

/-- The code that jumps out of the innermost loop, or to its next round. -/
def jump (target : LoopTargets → Target) : Code :=
  match env.loops with
  | t :: _ => .goto (target t) .absent
  | [] => .absent

/-- The code that returns from the function around. -/
def return_ (value : Code) : Code :=
  match env.ret with
  | some t => .goto t value
  | none => .absent

end LowerEnv

/-- The value of a literal. -/
def Literal.value : Literal → Value
  | .bool b => .bool b
  | .int n => .int n
  | .float x => .float x
  | .string s => .string s

/-- Several pieces of code as one. -/
def sequenceCode : List Code → Code
  | [] => .empty
  | [c] => c
  | cs => .block [] cs

/-- The code that writes the value of an expression. A basic constant is formatted in
advance. -/
def outputCode (x : Code) : Code :=
  match x.unwrap with
  | .constant v =>
    match v.basicText? with
    | some s => contextCode .write [.constant (.string s)]
    | none => contextCode .safeWrite [x]
  | _ => contextCode .safeWrite [x]

/-- The code of a unary operation. -/
def unaryCode (pos : Position) (op : UnaryOp) (x : Code) (site : Nat) : Code :=
  match op with
  | .not => .not (.toBool x)
  | .negate => .dynamic { id := site, kind := .unary, op := .unary .negate, pos } [x]

/-- The code of a binary operation. -/
def binaryCode (pos : Position) (op : BinaryOp) (x y : Code) (site : Nat) : Code :=
  match op with
  | .logicalAnd => .andAlso (.toBool x) (.toBool y)
  | .logicalOr => .orElse (.toBool x) (.toBool y)
  | _ => .dynamic { id := site, kind := .binary, op := .binary op, pos } [x, y]

/-- The code that reads a member. -/
def memberCode (pos : Position) (name : Bytes) (x : Code) (site : Nat) : Code :=
  .dynamic { id := site, kind := .getMember, name, pos } [x]

/-- The code of an operation with so many indices or arguments. -/
def dynamicCode (kind : SiteKind) (pos : Position) (name : Bytes) (arity : Nat)
    (operands : List Code) (site : Nat) : Code :=
  .dynamic { id := site, kind, name, arity, pos } operands

/-- The code of an assignment to a member or an element. The target has been lowered as
if it were read. -/
def assignCode (pos : Position) (target value : Code) (site : Nat) : Code :=
  match target.unwrap with
  | .dynamic read args =>
    match read.kind with
    | .getMember => .dynamic { id := site, kind := .setMember, name := read.name, pos } (args ++ [value])
    | .getIndex => .dynamic { id := site, kind := .setIndex, arity := read.arity, pos } (args ++ [value])
    | _ => .absent
  | _ => .absent

/-- The code of a loop over a sequence:

    $enum = iterate(source)
    if moveNext($enum)
      loop
        var = current($enum); body
        continue: if moveNext($enum) between else goto break

What stands between runs only between two rounds, also after a `continue`. The
variables of the body start each round as null. -/
def forCode (t : LoopTargets) (vars : List Variable) (enum : Variable)
    (source body between : Code) : Code :=
  let advance := Code.moveNext (.var enum)
  let resets := (vars.drop 1).map fun v => Code.assign v (.constant .null)
  let current := (vars.take 1).map fun v => Code.assign v (.current (.var enum))
  let round := Code.block [] (resets ++ current ++
    [body, .label t.cont .absent, .cond advance between (.goto t.brk .absent)])
  .block (vars ++ [enum])
    [.assign enum (.iterate source), .cond advance (.loop t.brk none round) .absent]

/-- The code of a sequence with a condition on its elements. -/
def filterCode (source : Code) (pred : Option Code) : Code :=
  match pred with
  | some p => .filter source p
  | none => source

/-- The code of a loop with a condition. -/
def whileCode (t : LoopTargets) (test body : Code) : Code :=
  .loop t.brk (some t.cont)
    (.block [] [.cond (.not (.toBool test)) (.goto t.brk .absent) .absent, body])

/-- The code of a template: what its body writes becomes its value. -/
def templateCode (tmp : Variable) (body : Code) : Code :=
  .block [tmp]
    [contextCode .pushWriter [],
     .tryFinally body (.assign tmp (contextCode .popWriter [])),
     .var tmp]

/-- The code of a switch. Without arms the value is computed all the same. -/
def switchCode (pos : Position) (x : Code) (arms : List Code) (dflt : Option Code) (site : Nat) :
    Code :=
  if arms.isEmpty then .block [] (x :: dflt.toList)
  else .switch x arms (dflt.getD .absent)
    { id := site, kind := .binary, op := .binary .equal, pos }

/-- The code of the body of a function. -/
def functionBody (ret : Target) (body : Code) : Code :=
  .block [] [body, .label ret (.constant .null)]

mutual

/-- The code of an expression, without the note of its place. -/
def Expr.lower (env : LowerEnv) : Expr → Numbering → Code
  | .literal _ _ v, _ => .constant v.value
  | .null _, _ => .constant .null
  | .name p name, n => env.load p name n.sites
  | .unary p op x, n =>
    unaryCode p op (noteAt env.debug x.start (x.lower env n)) (x.after n).sites
  | .binary x p op y, n =>
    binaryCode p op (noteAt env.debug x.start (x.lower env n))
      (noteAt env.debug y.start (y.lower env (x.after n))) (y.after (x.after n)).sites
  | .assign target p y, n =>
    match target with
    | .name _ name => env.store p name (noteAt env.debug y.start (y.lower env n)) (y.after n).sites
    | target =>
      assignCode p (target.lower env n)
        (noteAt env.debug y.start (y.lower env (target.after n))) (y.after (target.after n)).sites
  | .index x l args _, n =>
    dynamicCode .getIndex l [] args.length
      (noteAt env.debug x.start (x.lower env n) ::
        (exprItems env args (x.after n)).map (·.noted env.debug))
      (exprsAfter args (x.after n)).sites
  | .member x _ p name, n =>
    memberCode p name (noteAt env.debug x.start (x.lower env n)) (x.after n).sites
  | .method x _ _ name l args _, n =>
    dynamicCode .call l name args.length
      (noteAt env.debug x.start (x.lower env n) ::
        (exprItems env args (x.after n)).map (·.noted env.debug))
      (exprsAfter args (x.after n)).sites
  | .call p name l args _, n =>
    dynamicCode .invoke l [] args.length
      (globalCode p name (exprsAfter args n).sites :: (exprItems env args n).map (·.noted env.debug))
      (exprsAfter args n).nextSite.sites
  | .new p type _ args _, n =>
    dynamicCode .create p [] args.length
      (noteAt env.debug type.start (type.lower env n) ::
        (exprItems env args (type.after n)).map (·.noted env.debug))
      (exprsAfter args (type.after n)).sites
  | .list _ items _, n => .list ((exprItems env items n).map (·.noted env.debug))
  | .template b, n =>
    templateCode ⟨"$template", (b.after n).slots, env.owner, env.ownerName⟩
      (noteAt env.debug b.span.first (b.lower env n))

/-- The code of several expressions. -/
def exprItems (env : LowerEnv) : List Expr → Numbering → List Item
  | [], _ => []
  | x :: xs, n => ⟨x.start, x.lower env n⟩ :: exprItems env xs (x.after n)

/-- The code of a block with a region of its own. -/
def Block.lower (env : LowerEnv) : Block → Numbering → Code
  | b@(.mk _ stmts _ _), n =>
    let vars := env.newSlots n b.names
    .block vars ((stmtItems (env.within vars) stmts (n.declare b.names.length)).map
      (·.noted env.debug))

/-- The code of the body of a loop, whose region belongs to the loop. -/
def Block.lowerBody (env : LowerEnv) : Block → Numbering → Code
  | .mk _ stmts _ _, n => .block [] ((stmtItems env stmts n).map (·.noted env.debug))

/-- The code of several statements. -/
def stmtItems (env : LowerEnv) : List Stmt → Numbering → List Item
  | [], _ => []
  | st :: sts, n => ⟨st.span.first, st.lower env n⟩ :: stmtItems env sts (st.after n)

/-- The code of the initial values of variables. -/
def varDefItems (env : LowerEnv) : List VarDef → Numbering → List Item
  | [], _ => []
  | v :: vs, n => v.items env n ++ varDefItems env vs (v.after n)

/-- The code of the initial value of a variable, if it has one. -/
def VarDef.items (env : LowerEnv) : VarDef → Numbering → List Item
  | .mk _ _ none, _ => []
  | .mk p name (some x), n =>
    [⟨p, env.store p name (noteAt env.debug x.start (x.lower env n)) (x.after n).sites⟩]

/-- The code of the arms of a switch. -/
def caseItems (env : LowerEnv) : List SwitchCase → Numbering → List Item
  | [], _ => []
  | c :: cs, n => ⟨c.span.first, c.lower env n⟩ :: caseItems env cs (c.after n)

/-- The code of an arm of a switch. -/
def SwitchCase.lower (env : LowerEnv) : SwitchCase → Numbering → Code
  | .mk _ values body, n =>
    .case ((exprItems env values n).map (·.noted env.debug))
      (noteAt env.debug body.span.first (body.lower env (exprsAfter values n)))

/-- The code of a block that may be missing, with its place. -/
def optBlockCode (env : LowerEnv) : Option Block → Numbering → Option Code
  | none, _ => none
  | some b, n => some (noteAt env.debug b.span.first (b.lower env n))

/-- The code of the condition on the elements of a loop over `var`: a function of the
loop variable. -/
def WhereClause.lower (env : LowerEnv) (var : Bytes) : WhereClause → Numbering → Code
  | .mk _ x, n =>
    .lambda n.lambdas "where" (slotsFrom n.lambdas "where" 0 [var]) (x.after (n.enter 1)).slots
      (noteAt env.debug x.start (x.lower (env.inLambda n "where" [var] none) (n.enter 1)))

/-- The code of a condition that may be missing, with its place. -/
def optWhereCode (env : LowerEnv) (var : Bytes) : Option WhereClause → Numbering → Option Code
  | none, _ => none
  | some w, n => some (noteAt env.debug w.span.first (w.lower env var n))

/-- The code of a statement, without the note of its place. -/
def Stmt.lower (env : LowerEnv) : Stmt → Numbering → Code
  | .block b, n => b.lower env n
  | .text _ s, _ => contextCode .write [.constant (.string s)]
  | .define _ vars, n => sequenceCode ((varDefItems env vars n).map (·.noted env.debug))
  | .output _ xs, n => sequenceCode ((exprItems env xs n).map fun i => outputCode (i.noted env.debug))
  | .expr x, n => x.lower env n
  | .ret _ none, _ => env.return_ (.constant .null)
  | .ret _ (some x), n => env.return_ (noteAt env.debug x.start (x.lower env n))
  | .cond _ test yes no, n =>
    .cond (.toBool (noteAt env.debug test.start (test.lower env n)))
      (noteAt env.debug yes.span.first (yes.lower env (test.after n)))
      ((optBlockCode env no (yes.after (test.after n))).getD .absent)
  | .loop _ test body, n =>
    let env := env.inLoop n.loop
    whileCode n.loop (noteAt env.debug test.start (test.lower env n.nextLoop))
      (noteAt env.debug body.span.first (body.lower env (test.after n.nextLoop)))
  | .each _ _ var x filter body between, n =>
    let names := loopNames var body
    let vars := env.newSlots n names
    let enum : Variable := ⟨"$enum", n.slots + names.length, env.owner, env.ownerName⟩
    let env := env.inLoop n.loop
    let n₁ := (n.declare (names.length + 1)).nextLoop
    let n₂ := x.after n₁
    let n₃ := optWhereAfter filter n₂
    let inner := env.within vars
    forCode n.loop vars enum
      (filterCode (noteAt env.debug x.start (x.lower env n₁)) (optWhereCode env var filter n₂))
      (noteAt env.debug body.span.first (body.lowerBody inner n₃))
      ((optBlockCode inner between (body.afterBody n₃)).getD .empty)
  | .leave _, _ => env.jump (·.brk)
  | .again _, _ => env.jump (·.cont)
  | .switch p x cases dflt _, n =>
    let arms := caseItems env cases (x.after n)
    let n' := casesAfter cases (x.after n)
    switchCode p (noteAt env.debug x.start (x.lower env n)) (arms.map (·.code))
      (optBlockCode env dflt n') (optBlockAfter dflt n').sites

end

/-- The lambda of a function of the module, whose targets and slots are numbered from
`n` on. -/
def FunctionDecl.lambda (env : LowerEnv) (f : FunctionDecl) (n : Numbering) : Lambda :=
  let ret : Target := ⟨n.targets, "return"⟩
  let names := f.params.map (·.name)
  let env := env.inLambda n f.name names (some ret)
  let inner := n.nextTarget.enter f.params.length
  ⟨n.lambdas, f.name, slotsFrom n.lambdas f.name 0 names, (f.body.after inner).slots,
    functionBody ret (noteAt env.debug f.body.span.first (f.body.lower env inner))⟩

/-- The code that defines a function of the module. -/
def FunctionDecl.lower (env : LowerEnv) (f : FunctionDecl) (n : Numbering) : Code :=
  setGlobalCode f.namePos f.name (f.lambda env n).code
    (f.body.after (n.nextTarget.enter f.params.length)).sites

/-- The code of the functions of a module. -/
def functionItems (env : LowerEnv) : List FunctionDecl → Numbering → List Item
  | [], _ => []
  | f :: fs, n => ⟨f.pos, f.lower env n⟩ :: functionItems env fs (f.after n)

/-- The code of the global definitions of a module. -/
def defItems (env : LowerEnv) : List GlobalDef → Numbering → List Item
  | [], _ => []
  | d :: ds, n =>
    ⟨d.pos, sequenceCode ((varDefItems env d.vars n).map (·.noted env.debug))⟩ ::
      defItems env ds (varDefsAfter d.vars n)

/-- The number that slots reach in the code of a module. -/
def Module.after (m : Module) : Numbering :=
  stmtsAfter m.stmts (defsAfter m.defs (functionsAfter m.functions .start))

/-- The code of a module in order: its functions, the initial values of its global
variables, and then its statements. -/
def Module.items (m : Module) (env : LowerEnv) : List Item :=
  let n := functionsAfter m.functions .start
  functionItems env m.functions .start ++ defItems env m.defs n ++
    stmtItems env m.stmts (defsAfter m.defs n)

/-- The lambda of a module. -/
def Module.lower (m : Module) (env : LowerEnv) : Lambda :=
  let name := contextVariable.ownerName
  let env := { env with owner := 0, ownerName := name }
  ⟨0, name, [contextVariable], m.after.slots,
    .block [] ((m.items env).map (·.noted env.debug) ++ [.empty])⟩

end Stencil
