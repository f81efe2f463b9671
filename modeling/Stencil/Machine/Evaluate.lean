import Stencil.Dispatch.Invoke
import Stencil.Library.Module

/-!
# Evaluation

`eval` is the meaning of code: it follows the structure of the code, given the
meaning `call` of function calls. It ends with a value, with a `Jump` on its way to the
construct that owns its target, or with a failure.

What the machine needs to call a lambda is a `Routine`. `callWith` ties the knot for
routines found in any way, and `callValue` finds them in the units of code; each nested
call uses up one unit of its fuel, which also bounds the rounds of every loop.
-/

namespace Stencil

/-- A jump on its way. -/
structure Jump where
  target : Target
  value : Value
  deriving Inhabited

/-- A computation that may also jump. -/
abbrev Eval := ExceptT Jump Action

/-- How a computation with exits ends, as a value. -/
def outcome {ε α : Type} (run : ExceptT ε Action α) : ExceptT ε Action (Except ε α) :=
  .mk (.ok <$> run.run)

/-- A job as part of a computation with exits. -/
def Job.within {ε α : Type} (call : Callback) (job : Job α) : ExceptT ε Action α :=
  .lift (job.run call)

/-- The call that code is run for: its context, the unit of the code and the frame. -/
structure Activation where
  ctx : Nat
  unit : Nat
  frame : Nat
  deriving Inhabited

/-! ### Loops over sequences -/

/-- Keep the failure that ended the search of a cursor. -/
def Action.interrupt (id : Nat) (e : Failure) : Action Unit :=
  modify fun s => match s.cursors.getD id default with
    | .filtered ctx pred inner _ => { s with
        cursors := s.cursors.setIfInBounds id (.filtered ctx pred inner (some .interrupted))
        kept := (id, e) :: s.kept }
    | _ => s

/-- The next element of the cursor of a loop, moving it on. The elements that do not satisfy
its condition are passed over; a failure of the condition ends the search and is kept. -/
def passTo [Host] (call : Callback) (fuel : Nat) : (depth id : Nat) → Action (Option Value)
  | 0, _ => return none
  | depth + 1, id => do
    match (← get).cursors.getD id default with
    | .filtered ctx pred (some inner) none =>
      let test (x : Value) : Action Bool := do
        let ok ← call ctx pred [x]
        return ok.truth (← get).toHeap
      match ← Action.attempt (searchNext (passTo call fuel depth inner) test fuel) with
      | .ok r => return r
      | .error e =>
        Action.interrupt id e
        return none
    | c => (nextPlain id c).run call

/-- The failure that ended the search of a cursor. -/
def Store.endingOf (s : Store) (id : Nat) : Option Failure :=
  match s.cursors.getD id default with
  | .filtered _ _ _ (some (.failed e)) => some e
  | .filtered _ _ _ (some .interrupted) => s.kept.lookup id
  | _ => none

/-- The end of a loop: the failure that ended its search arises. -/
def Action.endSearch (id : Nat) : Action Unit := do
  match (← get).endingOf id with
  | some failure => throw failure
  | none => return

/-- Advance a loop; whether there is an element. At the end the iteration is closed, and
the failure that ended its search arises. -/
def moveNext [Host] (call : Callback) (fuel : Nat) (id : Nat) : Action Bool := do
  let s ← get
  let e := s.enumerators.getD id default
  if e.done then return false
  match ← passTo call fuel (s.cursors.size + 1) e.cursor with
  | some x =>
    (Job.setEnumerator id { e with current := x }).run call
    return true
  | none =>
    (Job.setEnumerator id { e with current := .null, done := true }).run call
    (finish e.cursor).run call
    Action.endSearch e.cursor
    return false

/-! ### Variables -/

/-- The innermost frame of a lambda, from a given frame outwards. -/
def findFrame (frames : Array Frame) (owner : Nat) : Nat → Nat → Option Nat
  | 0, _ => none
  | fuel + 1, id =>
    let f := frames.getD id default
    if f.lambda = owner then some id
    else match f.outer with
      | some outer => findFrame frames owner fuel outer
      | none => none

/-- The frame that holds a variable. -/
def Activation.home (act : Activation) (v : Variable) : Action Nat := do
  let s ← get
  match findFrame s.frames v.owner s.frames.size act.frame with
  | some id =>
    let n := (s.frames.getD id default).vars.size
    if v.index < n then return id
    else
      Action.fault .noSlot
      Action.panic (Bytes.ofString "runtime error: index out of range [" ++ Bytes.ofNat v.index ++
        "] with length " ++ Bytes.ofNat n)
  | none =>
    Action.fault .outOfScope
    Action.panic (Bytes.ofString "happy: variable " ++ v.name ++ " of " ++ v.ownerName ++
      " is not in scope in " ++ (s.frames.getD act.frame default).name)

/-- Change a frame. -/
def Action.modifyFrame (id : Nat) (f : Frame → Frame) : Action Unit :=
  modify fun s => { s with frames := s.frames.modify id f }

/-- The value of a variable. -/
def Activation.read (act : Activation) (v : Variable) : Action Value := do
  let id ← act.home v
  return ((← get).frames.getD id default).vars.getD v.index .null

/-- Assign to a variable. -/
def Activation.write (act : Activation) (v : Variable) (x : Value) : Action Unit := do
  let id ← act.home v
  Action.modifyFrame id fun f => { f with vars := f.vars.setIfInBounds v.index x }

/-- Set variables to null. -/
def Activation.clear (act : Activation) : List Variable → Action Unit
  | [] => return
  | v :: vs => do
    act.write v .null
    act.clear vs

/-- Note the point of execution. -/
def Activation.moveTo (act : Activation) (pos : Position) : Action Unit :=
  modify fun s => { s with places := s.places.setIfInBounds act.frame pos }

/-! ### Control -/

/-- Fail with an error that is reported at a place. -/
def Activation.report {α : Type} (act : Activation) (pos : Position) (e : Failure) : Action α := do
  act.moveTo pos
  throw (.positioned ⟨pos, e.message, ← Action.callStack act.ctx, e.isMissing⟩)

/-- Report an error at a place, unless it already has one. -/
def Activation.locate {α : Type} (act : Activation) (pos : Position) (run : Action α) : Action α :=
  fun s =>
    match run s with
    | .error e s =>
      match e with
      | .missing _ | .plain .. => act.report pos e s
      | e => .error e s
    | r => r

/-- Whether a node's value is true; it must be a boolean. -/
def evalTest [Host] (run : Eval Value) : Eval Bool := do
  match ← run with
  | .bool b => return b
  | v =>
    Action.fault .notCondition
    Action.fail (Bytes.ofString "internal error: condition yields " ++ v.typeName (← get).toHeap ++
      ", want bool")

/-- The position of a label among the items of a block. -/
def labelIndex (items : List Code) (t : Target) : Option Nat :=
  items.findIdx? fun c => match c.unwrap with
    | .label u _ => u.id = t.id
    | _ => false

/-- Run the items of a block, from after the first `skip` on. A jump back to a label among
them, which `labels` finds, resumes after it; `fuel` bounds these jumps. -/
def runBlock (labels : Target → Option Nat) (run : (skip : Nat) → (last : Value) → Eval Value) :
    (fuel : Nat) → (skip : Nat) → (last : Value) → Eval Value
  | 0, skip, last => do
    match ← outcome (run skip last) with
    | .ok v => return v
    | .error j => if (labels j.target).isSome then (throw .exhausted : Action Value) else throw j
  | fuel + 1, skip, last => do
    match ← outcome (run skip last) with
    | .ok v => return v
    | .error j =>
      match labels j.target with
      | some k => runBlock labels run fuel (k + 1) j.value
      | none => throw j

/-- Repeat the body of a loop until a jump to `brk` or another failure. -/
def runLoop (ctx : Nat) (brk : Target) (cont : Option Target) (body : Eval Value) :
    (fuel : Nat) → Eval Value
  | 0 => (throw .exhausted : Action Value)
  | fuel + 1 => do
    Action.checkCancelled ctx
    match ← outcome body with
    | .ok _ => runLoop ctx brk cont body fuel
    | .error j =>
      if j.target.id = brk.id then return .null
      else if cont.map (·.id) = some j.target.id then runLoop ctx brk cont body fuel
      else throw j

/-- Run `finally_` after the body on every exit but a panic; an exit from it takes the
place of that of the body. -/
def runFinally {ε α : Type} (body finally_ : ExceptT ε Action α) : ExceptT ε Action α :=
  .mk fun s =>
    match body.run s with
    | .error (.panic msg m) s => .error (.panic msg m) s
    | .error .exhausted s => .error .exhausted s
    | .error e s =>
      match finally_.run s with
      | .ok (.ok _) s => .error e s
      | r => r
    | .ok r s =>
      match finally_.run s with
      | .ok (.ok _) s => .ok r s
      | r => r

/-- Perform an operation of a context. -/
def callContext [Host] (m : ContextMethod) (target : Value) (args : List Value) :
    Action Value := do
  match target with
  | .context ctx =>
    match m with
    | .pushWriter =>
      Action.pushWriter ctx
      return .null
    | .popWriter =>
      if (← Action.context ctx).writers.isEmpty then
        Action.fault .noWriter
        Action.fail "internal error: writer stack underflow"
      else return .string (← Action.popWriter ctx)
    | .write =>
      match ← operand args 0 with
      | .string text =>
        Action.write ctx text
        return .null
      | v =>
        Action.fault .notText
        Action.fail (Bytes.ofString "internal error: writing " ++ v.typeName (← get).toHeap ++
          " as text")
    | .safeWrite =>
      let v ← operand args 0
      Action.write ctx (v.text (← get).toHeap)
      return .null
    | .getGlobals =>
      match (← Action.context ctx).globals with
      | some id => return .object id
      | none =>
        let id ← Action.newObject
        Action.modifyContext ctx fun c => { c with globals := some id }
        return .object id
  | v =>
    Action.fault .notContext
    Action.fail (Bytes.ofString "internal error: " ++ m.name ++ " of " ++
      v.typeName (← get).toHeap)

/-- The loop state a value must be. -/
def asEnumerator [Host] (v : Value) : Action Nat := do
  match v with
  | .enumerator id => return id
  | v =>
    Action.fault .notEnumerator
    Action.fail (Bytes.ofString "internal error: " ++ v.typeName (← get).toHeap ++
      " is not an enumerator")

/-- A new function value. -/
def newClosure (act : Activation) (lambda : Nat) (heading : Heading) : Action Value := do
  let s ← get
  set { s with closures := s.closures.push ⟨act.unit, lambda, some act.frame⟩ }
  return .function s.closures.size heading

/-- The evaluation of a node that has no value. -/
def unexpectedNode (kind : String) : Action Value := do
  Action.fault .unexpectedNode
  Action.fail (Bytes.ofString "internal error: unexpected IR node " ++ kind)

/-! ### Code -/

section

variable [Host] (call : Callback) (fuel : Nat) (act : Activation)

mutual

/-- Evaluate code. -/
def Code.eval : Code → Eval Value
  | .absent => unexpectedNode "<nil>"
  | .case _ _ => unexpectedNode "*ir.Case"
  | .constant v => return v
  | .empty => return .null
  | .var v => act.read v
  | .block vars items => do
    act.clear vars
    runBlock (labelIndex items) (evalFrom (labelIndex items) items 0) fuel 0 .null
  | .assign v x => do
    let y ← x.eval
    act.write v y
    return y
  | .lambda id name params _ _ => newClosure act id ⟨name, params.map (·.name)⟩
  | .cond test yes no => do
    if ← evalTest test.eval then yes.eval
    else if no.isAbsent then return .null
    else no.eval
  | .not x => return .bool (!(← evalTest x.eval))
  | .toBool x => do
    let y ← x.eval
    return .bool (y.truth (← get).toHeap)
  | .andAlso x y => do
    if ← evalTest x.eval then return .bool (← evalTest y.eval) else return .bool false
  | .orElse x y => do
    if ← evalTest x.eval then return .bool true else return .bool (← evalTest y.eval)
  | .loop brk cont body => runLoop act.ctx brk cont body.eval fuel
  | .label _ dflt => if dflt.isAbsent then return .null else dflt.eval
  | .goto t value => do
    let v ← if value.isAbsent then pure .null else value.eval
    throw ⟨t, v⟩
  | .switch x cases dflt equal => do
    let v ← x.eval
    match ← evalCases equal v cases with
    | some r => return r
    | none => if dflt.isAbsent then return .null else dflt.eval
  | .tryFinally body finally_ => runFinally body.eval finally_.eval
  | .contextCall method ctx args => do
    let target ← ctx.eval
    match target with
    | .context _ => callContext method target (← evalArgs args)
    | target => callContext method target []
  | .dynamic site args => do
    let vs ← evalArgs args
    match site.kind with
    | .invoke | .call | .create => act.moveTo site.pos
    | _ => pure ()
    dispatch call fuel act.ctx act.unit site vs
  | .iterate x => do (newEnumerator (← x.eval)).within call
  | .moveNext enum => do
    let id ← asEnumerator (← enum.eval)
    return .bool (← moveNext call fuel id)
  | .current enum => do
    let id ← asEnumerator (← enum.eval)
    return ((← get).enumerators.getD id default).current
  | .filter x pred => do
    let source ← x.eval
    (newFiltered act.ctx source (← pred.eval)).within call
  | .list items => do Action.newList (← evalArgs items).toArray
  | .debug pos x => do
    act.moveTo pos
    .mk (act.locate pos x.eval.run)

/-- Evaluate the items after the first `skip` in order; the value is the last one's. `i`
counts the items before, and a jump to a label further on resumes after it. -/
def evalFrom (labels : Target → Option Nat) :
    List Code → (i skip : Nat) → (last : Value) → Eval Value
  | [], _, _, last => return last
  | _ :: cs, i, skip + 1, last => evalFrom labels cs (i + 1) skip last
  | c :: cs, i, 0, _ => do
    match ← outcome c.eval with
    | .ok v => evalFrom labels cs (i + 1) 0 v
    | .error j =>
      match labels j.target with
      | some k => if i < k then evalFrom labels cs (i + 1) (k - i) j.value else throw j
      | none => throw j

/-- Evaluate operands from left to right. -/
def evalArgs : List Code → Eval (List Value)
  | [] => return []
  | c :: cs => do
    let v ← c.eval
    return v :: (← evalArgs cs)

/-- Evaluate the first clause of a switch that has a value equal to `v`. -/
def evalCases (equal : CallSite) (v : Value) : List Code → Eval (Option Value)
  | [] => return none
  | c :: cs => do
    match ← c.evalCase equal v with
    | some r => return some r
    | none => evalCases equal v cs

/-- Evaluate a clause of a switch if it has a value equal to `v`. -/
def Code.evalCase (equal : CallSite) (v : Value) : Code → Eval (Option Value)
  | .case values body => do
    if ← evalMatch equal v values then return some (← body.eval) else return none
  | _ => return none

/-- Whether one of the values of a clause is equal to `v`. -/
def evalMatch (equal : CallSite) (v : Value) : List Code → Eval Bool
  | [] => return false
  | c :: cs => do
    let w ← c.eval
    let eq ← dispatch call fuel act.ctx act.unit equal [v, w]
    if eq.truth (← get).toHeap then return true else evalMatch equal v cs

end

end

/-! ### Calls -/

/-- What the machine needs to call a lambda. -/
structure Routine where
  name : Bytes
  arity : Nat
  slots : Nat
  run : Callback → (fuel : Nat) → Activation → Eval Value

instance : Inhabited Routine := ⟨⟨[], 0, 0, fun _ _ _ => return .null⟩⟩

/-- The routine of a lambda. -/
def Lambda.routine [Host] (f : Lambda) : Routine :=
  ⟨f.name, f.params.length, f.slots, fun call fuel act => f.body.eval call fuel act⟩

/-- The lambda of a unit of code with a number. -/
def Store.lambda? (s : Store) (unit id : Nat) : Option Lambda :=
  (s.units.getD unit []).find? (·.id = id)

/-- The usual bound on the depth of calls. -/
def usualDepth : Nat := 2000

/-- The bound on the depth of calls in a context. -/
def Context.depthLimit (c : Context) : Nat := if c.maxDepth = 0 then usualDepth else c.maxDepth

/-- Enter a function: a new frame that holds its variables. -/
def enter (ctx : Nat) (f : Closure) (name : Bytes) (caller : Option Nat) (vars : Array Value) :
    Action Nat := do
  let s ← get
  let frame : Frame :=
    { ctx, unit := f.unit, lambda := f.lambda, name, vars, outer := f.env, caller }
  set { s with frames := s.frames.push frame, places := s.places.push .unknown }
  Action.modifyContext ctx fun c => { c with frame := some s.frames.size, depth := c.depth + 1 }
  return s.frames.size

/-- Leave a function: what a panic leaves behind, nothing clears up. -/
def leaving (ctx : Nat) (caller : Option Nat) (name : Bytes) (run : Eval Value) :
    Action Value := fun s =>
  let back (s : Store) : Store :=
    { s with contexts := s.contexts.modify ctx fun c =>
        { c with depth := c.depth - 1, frame := caller } }
  match run.run s with
  | .error (.panic msg m) s => .error (.panic msg m) s
  | .error .exhausted s => .error .exhausted s
  | .error e s => .error e (back s)
  | .ok (.ok v) s => .ok v (back s)
  | .ok (.error j) s =>
    .error (.plain (Bytes.ofString "internal error: jump to " ++ j.target.name ++
      " escaped function " ++ name) false) (back { s with faults := .escapedJump :: s.faults })

/-- Call a routine as the function value `f`. -/
def Routine.call (r : Routine) (f : Closure) (call : Callback) (fuel ctx : Nat)
    (args : List Value) : Action Value := do
  if args.length ≠ r.arity then
    Action.fail (wrongArguments r.name r.arity args.length)
  Action.checkCancelled ctx
  let c ← Action.context ctx
  if c.depthLimit ≤ c.depth then
    Action.fail (Bytes.ofString "call of " ++ r.name ++
      " exceeds the maximum call depth of " ++ Bytes.ofNat c.depthLimit)
  let frame ← enter ctx f r.name c.frame
    (args.toArray ++ Array.replicate (r.slots - args.length) Value.null)
  leaving ctx c.frame r.name (r.run call fuel ⟨ctx, f.unit, frame⟩)

/-- Where the routines of function values are found: in a store, by unit and number. -/
abbrev Linkage := Store → Nat → Nat → Option Routine

/-- The routines of the units of code. -/
def Store.routine? [Host] : Linkage := fun s unit id => (s.lambda? unit id).map Lambda.routine

/-- Call a function of the language. -/
def callClosure (link : Linkage) (call : Callback) (fuel ctx id : Nat) (args : List Value) :
    Action Value := do
  let s ← get
  match s.closures[id]? with
  | none => (nilDereference : Job Value)
  | some f =>
    match link s f.unit f.lambda with
    | none => (nilDereference : Job Value)
    | some r => r.call f call fuel ctx args

/-- Call a value that is not a function of the language. -/
def callOther [Application] (fuel ctx : Nat) (fn : Value) (args : List Value) : Job Value := do
  match fn with
  | .builtin f recv _ => f.run fuel ctx recv args
  | .null => Job.error "invalid call of null"
  | fn =>
    let s ← get
    match fn, fn.signature? s with
    | .bound .., some g => callHost fuel fn g args
    | fn, some g =>
      if fn.isHostFunction then callHost fuel fn g args
      else Job.error (DispatchError.notFunction (fn.typeName s)).message
    | fn, none => Job.error (DispatchError.notFunction (fn.typeName s)).message

/-- Call a value in a context; the routines of functions are found by `link`. -/
def callWith [Application] (link : Linkage) : (fuel : Nat) → Callback
  | 0, _, _, _ => throw .exhausted
  | fuel + 1, ctx, fn, args =>
    match fn with
    | .function id _ => callClosure link (callWith link fuel) fuel ctx id args
    | fn => (callOther fuel ctx fn args).run (callWith link fuel)

/-- Call a value in a context. -/
def callValue [Application] : (fuel : Nat) → Callback := callWith Store.routine?

end Stencil
