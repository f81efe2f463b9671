import Stencil.Code.Lowering
import Stencil.Code.Traversal

/-!
# Generation of code

Code is generated on the walk over a module. When a node is left its code is assembled
from that of its children, which are the topmost items of a stack, and takes their place.
On the way down the generator keeps track of the lambdas, loops and regions around and
hands out slots.

A module that analysis accepts can always be generated. What would go wrong otherwise is a
`GenerateError`: a defect of analysis or of the generator, not of the module.
-/

namespace Stencil

/-- Why code cannot be generated. -/
inductive GenerateError where
  | underflow (want have_ : Nat)
  | noVariable (sym : Symbol)
  | noLoop
  | noLoopState
  | noRegion
  | noLambda
  | returnOutsideFunction (pos : Position)
  | operandCount (site : CallSite) (got : Nat)
  | unresolved (pos : Position) (name : Bytes)
  | badTarget (pos : Position)
  | notArm (pos : Position)
  | leftover (items : Nat)
  | notLambda
  deriving DecidableEq, Repr

/-- The wording of a failure to generate code. -/
def GenerateError.message (e : GenerateError) : Bytes :=
  Bytes.ofString "internal compiler error: " ++
    match e with
    | .underflow want have_ =>
      Bytes.ofString "assembly stack underflow: pop " ++ Bytes.ofNat want ++ " of " ++
        Bytes.ofNat have_
    | .noVariable sym => Bytes.ofString "no variable for " ++ sym.text
    | .noLoop => "break or continue outside a loop context"
    | .noLoopState => "loop context stack underflow"
    | .noRegion => "no scope to leave"
    | .noLambda => "no lambda to leave"
    | .returnOutsideFunction pos => pos.text ++ ": return outside a function"
    | .operandCount site got =>
      site.text ++ ": " ++ Bytes.ofNat got ++ " operands, want " ++
        Bytes.ofNat (site.kind.operands site.arity)
    | .unresolved pos name => pos.text ++ ": unresolved identifier " ++ name
    | .badTarget pos => pos.text ++ ": invalid assignment target"
    | .notArm pos => pos.text ++ ": switch case compiled to something else"
    | .leftover items =>
      Bytes.ofString "assembly stack holds " ++ Bytes.ofNat items ++
        " items at end of module, want 1"
    | .notLambda => "module compiled to something else than a lambda"

/-- The lambda being generated, and what jumps in it may refer to. -/
structure LambdaState where
  owner : Nat := 0
  ownerName : Bytes := []
  params : List Variable := []
  ret : Option Target := none
  /-- The loops around, the innermost first. -/
  loops : List LoopTargets := []
  deriving Inhabited

/-- The variables of a loop over a sequence: those of its body, and its state. -/
structure LoopState where
  vars : List Variable
  enum : Variable
  deriving Inhabited

/-- The state of generation. -/
structure Generator where
  /-- The code assembled so far, the most recent first. -/
  stack : List Item := []
  fn : LambdaState := {}
  next : Numbering := {}
  /-- The lambdas around the current one, each with its number of slots. -/
  outer : List (LambdaState × Nat) := []
  /-- The variables of the regions around, the innermost first. -/
  regions : List (List Variable) := []
  /-- The loops over sequences that have been entered and not left. -/
  states : List LoopState := []
  deriving Inhabited

/-- A step of generation. -/
abbrev Gen := StateT Generator (Except GenerateError)

namespace Gen

/-! ### The stack -/

/-- Put code on the stack. -/
def push (pos : Position) (c : Code) : Gen Unit :=
  modify fun g => { g with stack := ⟨pos, c⟩ :: g.stack }

/-- Take the most recent item from the stack. -/
def popRaw : Gen Item := do
  match (← get).stack with
  | [] => throw (.underflow 1 0)
  | i :: is =>
    modify fun g => { g with stack := is }
    return i

/-- Take the most recent item from the stack, with the note of its place. -/
def pop (debug : Bool) : Gen Code := do return (← popRaw).noted debug

/-- Take the `k` most recent items from the stack, in the order they were put there. -/
def popN (debug : Bool) (k : Nat) : Gen (List Code) := do
  let is := (← get).stack
  if is.length < k then throw (.underflow k is.length)
  modify fun g => { g with stack := is.drop k }
  return (is.take k).reverse.map (·.noted debug)

/-- Take the most recent item from the stack if there is one for it. -/
def popIf (debug : Bool) (present : Bool) : Gen (Option Code) :=
  if present then do return some (← pop debug) else return none

/-- Take the arms of a switch from the stack. They have no places of their own. -/
def popArms (pos : Position) (k : Nat) : Gen (List Code) := do
  let arms ← popN false k
  if arms.all (fun c => match c with | .case _ _ => true | _ => false) then return arms
  else throw (.notArm pos)

/-- An operation with the right number of operands. -/
def checked (c : Code) : Gen Code :=
  match c with
  | .dynamic site args =>
    if args.length = site.kind.operands site.arity then return c
    else throw (.operandCount site args.length)
  | c => return c

/-! ### Variables, loops and lambdas -/

/-- The number of a new call site. -/
def newSite : Gen Nat := do
  let g ← get
  set { g with next := g.next.nextSite }
  return g.next.sites

/-- New slots of the current lambda. -/
def declare (names : List Bytes) : Gen (List Variable) := do
  let g ← get
  set { g with next := g.next.declare names.length }
  return slotsFrom g.fn.owner g.fn.ownerName g.next.slots names

/-- Enter a region with the given variables. -/
def enterRegion (vars : List Variable) : Gen Unit :=
  modify fun g => { g with regions := vars :: g.regions }

/-- Leave the innermost region; its variables are the answer. -/
def leaveRegion : Gen (List Variable) := do
  match (← get).regions with
  | [] => throw .noRegion
  | vars :: rs =>
    modify fun g => { g with regions := rs }
    return vars

/-- The variable of a symbol. -/
def variableOf (sym : Symbol) : Gen Variable := do
  match findSlot (← get).regions sym.name with
  | some v => return v
  | none => throw (.noVariable sym)

/-- Enter a loop. -/
def enterLoop : Gen Unit :=
  modify fun g => { g with
    fn := { g.fn with loops := g.next.loop :: g.fn.loops }, next := g.next.nextLoop }

/-- The innermost loop. -/
def topLoop : Gen LoopTargets := do
  match (← get).fn.loops with
  | t :: _ => return t
  | [] => throw .noLoop

/-- Leave the innermost loop. -/
def leaveLoop : Gen LoopTargets := do
  let t ← topLoop
  modify fun g => { g with fn := { g.fn with loops := g.fn.loops.tail } }
  return t

/-- Leave the innermost loop over a sequence. -/
def leaveState : Gen LoopState := do
  match (← get).states with
  | [] => throw .noLoopState
  | st :: sts =>
    modify fun g => { g with states := sts }
    return st

/-- Enter a new lambda with a region for its parameters. -/
def enterLambda (name : Bytes) (params : List Bytes) (ret : Option Target) : Gen Unit :=
  modify fun g =>
    let vars := slotsFrom g.next.lambdas name 0 params
    { g with
      fn := { owner := g.next.lambdas, ownerName := name, params := vars, ret }
      next := g.next.enter params.length
      outer := (g.fn, g.next.slots) :: g.outer
      regions := vars :: g.regions }

/-- Leave a lambda with the given body. -/
def leaveLambda (body : Code) : Gen Code := do
  let g ← get
  let _ ← leaveRegion
  match g.outer with
  | [] => throw .noLambda
  | (fn, slots) :: outer =>
    modify fun g => { g with fn, outer, next := g.next.leave slots }
    return .lambda g.fn.owner g.fn.ownerName g.fn.params g.next.slots body

/-! ### Names -/

/-- The code that reads a name that refers to `ref`. -/
def load (roots : List (Bytes × Namespace)) (pos : Position) (name : Bytes) (ref : Referent) :
    Gen Code := do
  let site ← newSite
  match ref with
  | .undeclared => throw (.unresolved pos name)
  | .predeclared => checked (globalCode pos name site)
  | .symbol sym =>
    match sym.kind with
    | .localVar | .parameter => return .var (← variableOf sym)
    | .global => checked (globalCode pos name site)
    | .nspace =>
      match roots.lookup name with
      | some ns => return .constant (.nspace ns)
      | none => throw (.unresolved pos name)

/-- The code that assigns to a name that refers to `ref`. -/
def store (pos : Position) (name : Bytes) (ref : Referent) (x : Code) : Gen Code := do
  let site ← newSite
  match ref with
  | .undeclared => throw (.badTarget pos)
  | .predeclared => checked (setGlobalCode pos name x site)
  | .symbol sym =>
    match sym.kind with
    | .localVar | .parameter => return .assign (← variableOf sym) x
    | .global => checked (setGlobalCode pos name x site)
    | .nspace => throw (.badTarget pos)

/-! ### Nodes -/

/-- What is done when a node is entered. -/
def before : SyntaxNode → Gen Unit
  | .module _ =>
    modify fun g => { g with
      fn := { owner := 0, ownerName := contextVariable.ownerName, params := [contextVariable] }
      next := .start }
  | .function f => do
    let g ← get
    set { g with next := g.next.nextTarget }
    enterLambda f.name (f.params.map (·.name)) (some ⟨g.next.targets, "return"⟩)
  | .filter var _ => enterLambda "where" [var] none
  | .block b _ false => do enterRegion (← declare b.names)
  | .block _ _ true => do
    -- the variables were declared when the loop was entered
    match (← get).states with
    | st :: _ => enterRegion st.vars
    | [] => throw .noLoopState
  | .stmt (.each _ _ var _ _ body _) => do
    let vars ← declare (loopNames var body)
    let enum ← declare ["$enum"]
    modify fun g => { g with states := ⟨vars, enum.headD default⟩ :: g.states }
    enterLoop
  | .stmt (.loop ..) => enterLoop
  | _ => return

/-- What is done when an expression is left. -/
def afterExpr (debug : Bool) (roots : List (Bytes × Namespace)) (s : Surroundings) (write : Bool)
    (e : Expr) : Gen Unit :=
  match e with
  | .literal _ _ v => push e.start (.constant v.value)
  | .null _ => push e.start (.constant .null)
  | .name p name =>
    -- the assignment uses the name of its target
    if write then return else do push e.start (← load roots p name (s.refer name))
  | .unary p op _ => do
    let x ← pop debug
    push e.start (← checked (unaryCode p op x (← newSite)))
  | .binary _ p op _ => do
    let y ← pop debug
    let x ← pop debug
    push e.start (← checked (binaryCode p op x y (← newSite)))
  | .assign target p _ => do
    let value ← pop debug
    match target with
    | .name _ name => push e.start (← store p name (s.refer name) value)
    | _ =>
      let t ← popRaw
      let c := assignCode p t.code value (← newSite)
      if c.isAbsent then throw (.badTarget p)
      push e.start (← checked c)
  | .index _ l args _ => do
    let operands ← popN debug (1 + args.length)
    push e.start (← checked (dynamicCode .getIndex l [] args.length operands (← newSite)))
  | .member _ _ p name => do
    let x ← pop debug
    push e.start (← checked (memberCode p name x (← newSite)))
  | .method _ _ _ name l args _ => do
    let operands ← popN debug (1 + args.length)
    push e.start (← checked (dynamicCode .call l name args.length operands (← newSite)))
  | .call p name l args _ => do
    let operands ← popN debug args.length
    let callee ← checked (globalCode p name (← newSite))
    push e.start (← checked (dynamicCode .invoke l [] args.length (callee :: operands) (← newSite)))
  | .new p _ _ args _ => do
    let operands ← popN debug (1 + args.length)
    push e.start (← checked (dynamicCode .create p [] args.length operands (← newSite)))
  | .list _ items _ => do push e.start (.list (← popN debug items.length))
  | .template _ => do
    let body ← pop debug
    let tmp ← declare ["$template"]
    push e.start (templateCode (tmp.headD default) body)

/-- What is done when a statement is left. -/
def afterStmt (debug : Bool) (st : Stmt) : Gen Unit :=
  let place := st.span.first
  match st with
  | .block _ | .expr _ => return
  | .text _ text => push place (contextCode .write [.constant (.string text)])
  | .define _ vars => do
    let inits := vars.countP fun v => match v with | .mk _ _ init => init.isSome
    push place (sequenceCode (← popN debug inits))
  | .output _ xs => do push place (sequenceCode ((← popN debug xs.length).map outputCode))
  | .ret p result => do
    match (← get).fn.ret with
    | none => throw (.returnOutsideFunction p)
    | some t => push place (.goto t ((← popIf debug result.isSome).getD (.constant .null)))
  | .cond _ _ _ no => do
    let n ← popIf debug no.isSome
    let y ← pop debug
    let c ← pop debug
    push place (.cond (.toBool c) y (n.getD .absent))
  | .loop .. => do
    let body ← pop debug
    let test ← pop debug
    push place (whileCode (← leaveLoop) test body)
  | .each _ _ _ _ filter _ between => do
    let n ← popIf debug between.isSome
    let body ← pop debug
    let pred ← popIf debug filter.isSome
    let source ← pop debug
    let _ ← leaveRegion
    let state ← leaveState
    push place (forCode (← leaveLoop) state.vars state.enum (filterCode source pred) body
      (n.getD .empty))
  | .leave _ => do push place (.goto (← topLoop).brk .absent)
  | .again _ => do push place (.goto (← topLoop).cont .absent)
  | .switch p _ cases dflt _ => do
    let d ← popIf debug dflt.isSome
    let arms ← popArms p cases.length
    let x ← pop debug
    push place (switchCode p x arms d (← newSite))

/-- What is done when a node is left. -/
def after (debug : Bool) (roots : List (Bytes × Namespace)) (s : Surroundings) : SyntaxNode → Gen Unit
  | .module m => do
    let items ← popN debug (m.functions.length + m.defs.length + m.stmts.length)
    let g ← get
    push m.span.first
      (.lambda g.fn.owner g.fn.ownerName g.fn.params g.next.slots (.block [] (items ++ [.empty])))
  | .load _ | .param _ | .memberName _ | .arguments _ | .memberCall .. => return
  | .function f => do
    let body ← pop debug
    match (← get).fn.ret with
    | none => throw (.returnOutsideFunction f.pos)
    | some ret =>
      let fn ← leaveLambda (functionBody ret body)
      push f.pos (← checked (setGlobalCode f.namePos f.name fn (← newSite)))
  | .block b _ external => do
    let vars ← if external then pure [] else leaveRegion
    push b.span.first (.block vars (← popN debug b.stmts.length))
  | .stmt st => afterStmt debug st
  | .varDef (.mk _ _ none) => return
  | .varDef (.mk p name (some _)) => do
    let x ← pop debug
    push p (← store p name (s.refer name) x)
  | .filter _ w => do
    let body ← pop debug
    push w.span.first (← leaveLambda body)
  | .arm c@(.mk _ values _) => do
    let body ← pop debug
    push c.span.first (.case (← popN debug values.length) body)
  | .expr x write => afterExpr debug roots s write x

/-- What is done at an event of the walk. -/
def step (debug : Bool) (roots : List (Bytes × Namespace)) : Event → Gen Unit
  | .enter n _ => before n
  | .leave n s => after debug roots s n

/-- What is done at several events. -/
def steps (debug : Bool) (roots : List (Bytes × Namespace)) : List Event → Gen Unit
  | [] => return
  | e :: es => do
    step debug roots e
    steps debug roots es

end Gen

/-- Generate the code of a module. -/
def Module.generate (m : Module) (debug : Bool) (isPredeclared : Bytes → Bool)
    (roots : List (Bytes × Namespace)) : Except GenerateError Lambda := do
  let (_, g) ← (Gen.steps debug roots (m.walk isPredeclared (roots.map (·.1)))).run {}
  match g.stack with
  | [⟨_, .lambda id name params slots body⟩] => return ⟨id, name, params, slots, body⟩
  | [_] => throw .notLambda
  | items => throw (.leftover items.length)

end Stencil
