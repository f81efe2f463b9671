import Stencil.Code.Lowering
import Stencil.Machine.Evaluate

/-!
# The direct meaning of a module

The meaning of every construct, read off the tree. There are no jumps: a construct ends
in the ordinary way or by an `Exit`, which the loop or the function around it deals with.

* The names of a block are null whenever the block is entered.
* `break` ends the innermost loop. `continue` ends the round at hand; in a loop over a
  sequence it goes on with the next element.
* A loop over a sequence advances after each round, and what stands between two rounds runs
  only if there is another element; it still sees the variables of the round before, which
  are null again when the next round starts. The condition on the elements is a function
  that the advance calls.
* `return` ends the function with a value; a function that reaches its end has the value
  null.
* A switch computes its value once and runs the first arm that has an equal value.
* A module defines its functions, then computes the initial values of its global variables,
  and then runs its other statements in order.

A name refers to a cell of the frame of the function that declares it, to a field of the
global object or to a namespace. The elements that a loop has still to visit, and the text
that a template has produced, are kept in cells of their own. What analysis rejects, such as
a name that refers to nothing, does nothing and is null.
-/

namespace Stencil

/-- How a construct may be left before its end. -/
inductive Exit where
  | leave
  | again
  | ret (v : Value)

/-- A computation that may be left before its end. -/
abbrev Exec := ExceptT Exit Action

/-! ### Loops -/

/-- Round after round until one is left. -/
def rounds (ctx : Nat) (round : Exec Unit) : (fuel : Nat) → Exec Unit
  | 0 => (throw .exhausted : Action Unit)
  | fuel + 1 => do
    Action.checkCancelled ctx
    match ← outcome round with
    | .ok _ | .error .again => rounds ctx round fuel
    | .error .leave => return
    | .error (.ret v) => throw (.ret v)

/-- Run the body of a round; a `continue` only ends the body. -/
def untilAgain (body : Exec Unit) : Exec Unit := do
  match ← outcome body with
  | .ok _ | .error .again => return
  | .error e => throw e

/-- Run something, and then `next` whenever a `continue` asks for it. -/
def advancing (next : Exec Unit) : (fuel : Nat) → Exec Unit → Exec Unit
  | 0, run => do
    match ← outcome run with
    | .ok _ => return
    | .error .again => (throw .exhausted : Action Unit)
    | .error e => throw e
  | fuel + 1, run => do
    match ← outcome run with
    | .ok _ => return
    | .error .again => advancing next fuel next
    | .error e => throw e

/-! ### Names and operations -/

namespace Activation

variable (act : Activation)

/-- Run something at a place, if places are noted. -/
def at_ {ε α : Type} (debug : Bool) (pos : Position) (run : ExceptT ε Action α) :
    ExceptT ε Action α :=
  if !debug || !pos.isValid then run
  else do
    act.moveTo pos
    .mk (act.locate pos run.run)

variable [Host] (call : Callback) (fuel : Nat)

/-- Perform an operation of the context that the module runs in. -/
def onContext {ε : Type} (method : ContextMethod) (args : ExceptT ε Action (List Value)) :
    ExceptT ε Action Value := do
  match ← act.read contextVariable with
  | .context id => callContext method (.context id) (← args)
  | v => callContext method v []

/-- The global object. -/
def globals {ε : Type} : ExceptT ε Action Value := act.onContext .getGlobals (return [])

/-- Perform an operation that depends on the types of its operands. -/
def operate (site : CallSite) (vs : List Value) : Action Value := do
  match site.kind with
  | .invoke | .call | .create => act.moveTo site.pos
  | _ => pure ()
  dispatch call fuel act.ctx act.unit site vs

/-- The value of a global variable. -/
def readGlobal {ε : Type} (pos : Position) (name : Bytes) (site : Nat) : ExceptT ε Action Value := do
  act.operate call fuel { id := site, kind := .getMember, name, pos } [← act.globals]

/-- Assign to a global variable. -/
def writeGlobal {ε : Type} (pos : Position) (name : Bytes) (x : ExceptT ε Action Value)
    (site : Nat) : ExceptT ε Action Value := do
  let g ← act.globals
  act.operate call fuel { id := site, kind := .setMember, name, pos } [g, ← x]

/-- The value of a name. -/
def readName {ε : Type} (env : LowerEnv) (pos : Position) (name : Bytes) (site : Nat) :
    ExceptT ε Action Value :=
  match env.meaning? name with
  | some (.slot v) => act.read v
  | some .global => act.readGlobal call fuel pos name site
  | some (.nspace ns) => return .nspace ns
  | none => return .null

/-- Assign to a name. -/
def writeName {ε : Type} (env : LowerEnv) (pos : Position) (name : Bytes)
    (x : ExceptT ε Action Value) (site : Nat) : ExceptT ε Action Value :=
  match env.meaning? name with
  | some (.slot v) => do
    let y ← x
    act.write v y
    return y
  | some .global => act.writeGlobal call fuel pos name x site
  | _ => return .null

/-- Whether the value of an expression is true. -/
def test {ε : Type} (x : ExceptT ε Action Value) : ExceptT ε Action Bool := do
  return (← x).truth (← get).toHeap

/-- A unary operation. -/
def unary {ε : Type} (pos : Position) (op : UnaryOp) (x : ExceptT ε Action Value) (site : Nat) :
    ExceptT ε Action Value := do
  match op with
  | .not => return .bool (!(← test x))
  | .negate => act.operate call fuel { id := site, kind := .unary, op := .unary .negate, pos } [← x]

/-- A binary operation. The second operand of a logical one is computed only if it
matters. -/
def binary {ε : Type} (pos : Position) (op : BinaryOp) (x y : ExceptT ε Action Value)
    (site : Nat) : ExceptT ε Action Value := do
  match op with
  | .logicalAnd => if ← test x then return .bool (← test y) else return .bool false
  | .logicalOr => if ← test x then return .bool true else return .bool (← test y)
  | op =>
    let v ← x
    act.operate call fuel { id := site, kind := .binary, op := .binary op, pos } [v, ← y]

/-- Capture what a body writes. The capture ends however the body does. -/
def capture {ε : Type} (tmp : Variable) (body : ExceptT ε Action Unit) : ExceptT ε Action Value := do
  act.clear [tmp]
  let _ ← act.onContext .pushWriter (return [])
  runFinally body do act.write tmp (← act.onContext .popWriter (return []))
  act.read tmp

/-- Advance a loop; tells whether there is another element. -/
def advance {ε : Type} (enum : Variable) : ExceptT ε Action Bool := do
  let id ← asEnumerator (← act.read enum)
  moveNext call fuel id

/-- The element that a loop has reached. -/
def element {ε : Type} (enum : Variable) : ExceptT ε Action Value := do
  let id ← asEnumerator (← act.read enum)
  return ((← get).enumerators.getD id default).current

/-- Start a round: the loop variable is the element reached, the others are null. -/
def startRound {ε : Type} (vars : List Variable) (enum : Variable) : ExceptT ε Action Unit := do
  act.clear (vars.drop 1)
  match vars with
  | var :: _ => act.write var (← act.element enum)
  | [] => pure ()

/-- Go on to the next element, if there is one. -/
def proceed (enum : Variable) (between : Exec Unit) : Exec Unit := do
  if ← act.advance call fuel enum then between else throw .leave

/-- A loop over the elements of a sequence. -/
def forEach (vars : List Variable) (enum : Variable) (source : Exec Value)
    (body between : Exec Unit) : Exec Unit := do
  act.clear (vars ++ [enum])
  let v ← source
  act.write enum (← (newEnumerator v).within call)
  let next := act.proceed call fuel enum between
  let round : Exec Unit := do
    act.startRound vars enum
    untilAgain body
    next
  if ← act.advance call fuel enum then rounds act.ctx (advancing next fuel round) fuel

end Activation

/-! ### Constructs -/

/-- The text of a literal, which is written as it is. -/
def Expr.plainText? : Expr → Option Bytes
  | .literal _ _ v => v.value.basicText?
  | .null _ => Value.basicText? .null
  | _ => none

section

variable [Host] (call : Callback) (fuel : Nat) (act : Activation)

mutual

/-- The value of an expression. -/
def Expr.exec (env : LowerEnv) : Expr → Numbering → Exec Value
  | .literal _ _ v, _ => return v.value
  | .null _, _ => return .null
  | .name p name, n => act.readName call fuel env p name n.sites
  | .unary p op x, n =>
    act.unary call fuel p op (act.at_ env.debug x.start (x.exec env n)) (x.after n).sites
  | .binary x p op y, n =>
    act.binary call fuel p op (act.at_ env.debug x.start (x.exec env n))
      (act.at_ env.debug y.start (y.exec env (x.after n))) (y.after (x.after n)).sites
  | .assign target p y, n =>
    match target with
    | .name _ name =>
      act.writeName call fuel env p name (act.at_ env.debug y.start (y.exec env n)) (y.after n).sites
    | .member x _ _ name => do
      let n₁ := (x.after n).nextSite
      let v ← act.at_ env.debug x.start (x.exec env n)
      let w ← act.at_ env.debug y.start (y.exec env n₁)
      act.operate call fuel { id := (y.after n₁).sites, kind := .setMember, name, pos := p } [v, w]
    | .index x _ args _ => do
      let n₁ := (exprsAfter args (x.after n)).nextSite
      let v ← act.at_ env.debug x.start (x.exec env n)
      let vs ← exprsExec env args (x.after n)
      let w ← act.at_ env.debug y.start (y.exec env n₁)
      act.operate call fuel
        { id := (y.after n₁).sites, kind := .setIndex, arity := args.length, pos := p }
        (v :: (vs ++ [w]))
    | _ => return .null
  | .index x l args _, n => do
    let v ← act.at_ env.debug x.start (x.exec env n)
    let vs ← exprsExec env args (x.after n)
    act.operate call fuel { id := (exprsAfter args (x.after n)).sites, kind := .getIndex,
                            arity := args.length, pos := l } (v :: vs)
  | .member x _ p name, n => do
    let v ← act.at_ env.debug x.start (x.exec env n)
    act.operate call fuel { id := (x.after n).sites, kind := .getMember, name, pos := p } [v]
  | .method x _ _ name l args _, n => do
    let v ← act.at_ env.debug x.start (x.exec env n)
    let vs ← exprsExec env args (x.after n)
    act.operate call fuel { id := (exprsAfter args (x.after n)).sites, kind := .call, name,
                            arity := args.length, pos := l } (v :: vs)
  | .call p name l args _, n => do
    let f ← act.readGlobal call fuel p name (exprsAfter args n).sites
    let vs ← exprsExec env args n
    act.operate call fuel { id := (exprsAfter args n).nextSite.sites, kind := .invoke,
                            arity := args.length, pos := l } (f :: vs)
  | .new p type _ args _, n => do
    let t ← act.at_ env.debug type.start (type.exec env n)
    let vs ← exprsExec env args (type.after n)
    act.operate call fuel { id := (exprsAfter args (type.after n)).sites, kind := .create,
                            arity := args.length, pos := p } (t :: vs)
  | .list _ items _, n => do Action.newList (← exprsExec env items n).toArray
  | .template b, n =>
    act.capture ⟨"$template", (b.after n).slots, env.owner, env.ownerName⟩
      (act.at_ env.debug b.span.first (b.exec env n))

/-- The values of several expressions, from left to right. -/
def exprsExec (env : LowerEnv) : List Expr → Numbering → Exec (List Value)
  | [], _ => return []
  | x :: xs, n => do
    let v ← act.at_ env.debug x.start (x.exec env n)
    return v :: (← exprsExec env xs (x.after n))

/-- Write the values of several expressions. -/
def outputExec (env : LowerEnv) : List Expr → Numbering → Exec Unit
  | [], _ => return
  | x :: xs, n => do
    match x.plainText? with
    | some text => discard (act.onContext .write (return [.string text]))
    | none =>
      discard (act.onContext .safeWrite do return [← act.at_ env.debug x.start (x.exec env n)])
    outputExec env xs (x.after n)

/-- Run a block with names of its own. -/
def Block.exec (env : LowerEnv) : Block → Numbering → Exec Unit
  | b@(.mk _ stmts _ _), n => do
    let vars := env.newSlots n b.names
    act.clear vars
    stmtsExec (env.within vars) stmts (n.declare b.names.length)

/-- Run the body of a loop, whose names belong to the loop. -/
def Block.execBody (env : LowerEnv) : Block → Numbering → Exec Unit
  | .mk _ stmts _ _, n => stmtsExec env stmts n

/-- Run several statements. -/
def stmtsExec (env : LowerEnv) : List Stmt → Numbering → Exec Unit
  | [], _ => return
  | st :: sts, n => do
    act.at_ env.debug st.span.first (st.exec env n)
    stmtsExec env sts (st.after n)

/-- Compute the initial values of variables. -/
def varDefsExec (env : LowerEnv) : List VarDef → Numbering → Exec Unit
  | [], _ => return
  | v :: vs, n => do
    v.exec env n
    varDefsExec env vs (v.after n)

/-- Compute the initial value of a variable. -/
def VarDef.exec (env : LowerEnv) : VarDef → Numbering → Exec Unit
  | .mk _ _ none, _ => return
  | .mk p name (some x), n =>
    discard (act.at_ env.debug p (act.writeName call fuel env p name
      (act.at_ env.debug x.start (x.exec env n)) (x.after n).sites))

/-- Run the first arm of a switch that has a value equal to `v`; tells whether there is
one. -/
def casesExec (env : LowerEnv) (equal : CallSite) (v : Value) :
    List SwitchCase → Numbering → Exec Bool
  | [], _ => return false
  | c :: cs, n => do
    if ← c.exec env equal v n then return true else casesExec env equal v cs (c.after n)

/-- Run an arm of a switch if it has a value equal to `v`. -/
def SwitchCase.exec (env : LowerEnv) (equal : CallSite) (v : Value) :
    SwitchCase → Numbering → Exec Bool
  | .mk _ values body, n => do
    if ← matchExec env equal v values n then
      act.at_ env.debug body.span.first (body.exec env (exprsAfter values n))
      return true
    else return false

/-- Whether one of the values of an arm is equal to `v`. -/
def matchExec (env : LowerEnv) (equal : CallSite) (v : Value) :
    List Expr → Numbering → Exec Bool
  | [], _ => return false
  | x :: xs, n => do
    let w ← act.at_ env.debug x.start (x.exec env n)
    let eq ← dispatch call fuel act.ctx act.unit equal [v, w]
    if eq.truth (← get).toHeap then return true else matchExec env equal v xs (x.after n)

/-- Run a block that may be missing. -/
def optBlockExec (env : LowerEnv) : Option Block → Numbering → Exec Unit
  | none, _ => return
  | some b, n => act.at_ env.debug b.span.first (b.exec env n)

/-- The elements that a loop visits. The condition on them is a function value. -/
def sourceExec (env : LowerEnv) (var : Bytes) (x : Exec Value) :
    Option WhereClause → Numbering → Exec Value
  | none, _ => x
  | some w, n => do
    let v ← x
    let pred ← act.at_ env.debug w.span.first (newClosure act n.lambdas ⟨"where", [var]⟩)
    (newFiltered act.ctx v pred).within call

/-- Run a statement. -/
def Stmt.exec (env : LowerEnv) : Stmt → Numbering → Exec Unit
  | .block b, n => b.exec env n
  | .text _ s, _ => discard (act.onContext .write (return [.string s]))
  | .define _ vars, n => varDefsExec env vars n
  | .output _ xs, n => outputExec env xs n
  | .expr x, n => discard (x.exec env n)
  | .ret _ none, _ => throw (.ret .null)
  | .ret _ (some x), n => do throw (.ret (← act.at_ env.debug x.start (x.exec env n)))
  | .cond _ test yes no, n => do
    if ← Activation.test (act.at_ env.debug test.start (test.exec env n)) then
      act.at_ env.debug yes.span.first (yes.exec env (test.after n))
    else optBlockExec env no (yes.after (test.after n))
  | .loop _ test body, n =>
    let env := env.inLoop n.loop
    let round : Exec Unit := do
      if ← Activation.test (act.at_ env.debug test.start (test.exec env n.nextLoop)) then
        act.at_ env.debug body.span.first (body.exec env (test.after n.nextLoop))
      else throw .leave
    rounds act.ctx round fuel
  | .each _ _ var x filter body between, n =>
    let names := loopNames var body
    let vars := env.newSlots n names
    let enum : Variable := ⟨"$enum", n.slots + names.length, env.owner, env.ownerName⟩
    let env := env.inLoop n.loop
    let n₁ := (n.declare (names.length + 1)).nextLoop
    let n₂ := x.after n₁
    let n₃ := optWhereAfter filter n₂
    act.forEach call fuel vars enum
      (sourceExec env var (act.at_ env.debug x.start (x.exec env n₁)) filter n₂)
      (act.at_ env.debug body.span.first (body.execBody (env.within vars) n₃))
      (optBlockExec (env.within vars) between (body.afterBody n₃))
  | .leave _, _ => throw .leave
  | .again _, _ => throw .again
  | .switch p x cases dflt _, n => do
    let n₁ := x.after n
    let n₂ := casesAfter cases n₁
    let v ← act.at_ env.debug x.start (x.exec env n)
    let equal : CallSite :=
      { id := (optBlockAfter dflt n₂).sites, kind := .binary, op := .binary .equal, pos := p }
    if ← casesExec env equal v cases n₁ then return else optBlockExec env dflt n₂

end

end

/-! ### Functions -/

/-- The value of a function with the given body. -/
def asFunction {ε : Type} (body : Exec Unit) : ExceptT ε Action Value :=
  .mk do
    match ← body.run with
    | .error (.ret v) => return .ok v
    | _ => return .ok .null

/-- The value of an expression that nothing can leave. -/
def asValue {ε : Type} (x : Exec Value) : ExceptT ε Action Value :=
  .mk do
    match ← x.run with
    | .ok v => return .ok v
    | .error _ => return .ok .null

variable [Host]

/-- The condition on the elements of a loop over `var`, as a function. -/
def WhereClause.direct (env : LowerEnv) (var : Bytes) (w : WhereClause) (n : Numbering) : Routine :=
  match w with
  | .mk _ x =>
    ⟨"where", 1, (x.after (n.enter 1)).slots, fun call fuel act =>
      asValue (act.at_ env.debug x.start
        (x.exec call fuel act (env.inLambda n "where" [var] none) (n.enter 1)))⟩

/-- A function of the module. -/
def FunctionDecl.direct (env : LowerEnv) (f : FunctionDecl) (n : Numbering) : Routine :=
  let env := env.inLambda n f.name (f.params.map (·.name)) (some ⟨n.targets, "return"⟩)
  let inner := n.nextTarget.enter f.params.length
  ⟨f.name, f.params.length, (f.body.after inner).slots, fun call fuel act =>
    asFunction (act.at_ env.debug f.body.span.first (f.body.exec call fuel act env inner))⟩

section

variable (call : Callback) (fuel : Nat) (act : Activation)

/-- Define the functions of a module. -/
def functionsExec (env : LowerEnv) : List FunctionDecl → Numbering → Exec Unit
  | [], _ => return
  | f :: fs, n => do
    discard (act.at_ env.debug f.pos (act.writeGlobal call fuel f.namePos f.name
      (newClosure act n.lambdas ⟨f.name, f.params.map (·.name)⟩)
      (f.body.after (n.nextTarget.enter f.params.length)).sites))
    functionsExec env fs (f.after n)

/-- Compute the initial values of the global variables of a module. -/
def defsExec (env : LowerEnv) : List GlobalDef → Numbering → Exec Unit
  | [], _ => return
  | d :: ds, n => do
    act.at_ env.debug d.pos (varDefsExec call fuel act env d.vars n)
    defsExec env ds (varDefsAfter d.vars n)

/-- Run a module. -/
def Module.exec (m : Module) (env : LowerEnv) : Exec Unit := do
  let n := functionsAfter m.functions .start
  functionsExec call fuel act env m.functions .start
  defsExec call fuel act env m.defs n
  stmtsExec call fuel act env m.stmts (defsAfter m.defs n)

end

/-- A module as a function of the context it runs in. -/
def Module.direct (m : Module) (env : LowerEnv) : Routine :=
  let name := contextVariable.ownerName
  let env := { env with owner := 0, ownerName := name }
  ⟨name, 1, m.after.slots, fun call fuel act => asFunction (m.exec call fuel act env)⟩

end Stencil
