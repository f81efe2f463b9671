import Stencil.Proofs.Machine.Trail

/-!
# What the machine does, layer by layer

Evaluating code comes down to steps of the machine and to the evaluation of its parts and calls of
values, in an order that depends on how these end. The same goes for a call, and for a whole run.
A `Script` writes down one layer of this: it reads and changes the store, and where something is
to be evaluated or called it names the `Task` and goes on with the outcome.

Carrying out the script of a task is performing the task. So what is done on the way can be asked
for, not only how it ends.
-/

namespace Stencil

variable {ε α β : Type}

/-- Something the machine can be asked for. -/
inductive Task where
  /-- Evaluate code for a call. -/
  | code (fuel : Nat) (act : Activation) (c : Code)
  /-- Call a value with arguments in a context. -/
  | call (fuel ctx : Nat) (fn : Value) (args : List Value)

/-- What a task ends with if it does not fail. -/
@[reducible]
def Task.Answer : Task → Type
  | .code .. => Except Jump Value
  | .call .. => Value

/-- Steps of the machine and the tasks in between. -/
inductive Script (α : Type) : Type where
  | done (a : α)
  | fail (e : Failure)
  | read (k : Store → Script α)
  | update (f : Store → Store) (k : Script α)
  | task (t : Task) (k : Except Failure t.Answer → Script α)

/-- A script that may also end with a jump. -/
abbrev EvalScript := ExceptT Jump Script

namespace Script

/-- Go on with the end of a script, whichever it is. -/
def inspect : Script α → (Except Failure α → Script β) → Script β
  | .done a, k => k (.ok a)
  | .fail e, k => k (.error e)
  | .read r, k => .read fun s => (r s).inspect k
  | .update f m, k => .update f (m.inspect k)
  | .task t r, k => .task t fun a => (r a).inspect k

/-- Go on with the outcome of a script. -/
def bind (m : Script α) (f : α → Script β) : Script β :=
  m.inspect fun r => match r with
    | .ok a => f a
    | .error e => .fail e

instance : Monad Script where
  pure := .done
  bind := .bind

instance : MonadExceptOf Failure Script where
  throw := .fail
  tryCatch m f := m.inspect fun r => match r with
    | .ok a => .done a
    | .error e => f e

/-- The outcome of a script that may end with an error; any other failure goes on. -/
def attempt (m : Script α) : Script (Except Failure α) :=
  m.inspect fun r => match r with
    | .ok a => .done (.ok a)
    | .error e => if e.isError then .done (.error e) else .fail e

/-- Steps of the machine that evaluate and call nothing. -/
def act (m : Action α) : Script α :=
  .read fun s => match m s with
    | .ok a t => .update (fun _ => t) (.done a)
    | .error e t => .update (fun _ => t) (.fail e)

instance : MonadLift Action Script := ⟨act⟩

end Script

/-- A task alone. -/
def Task.ask (t : Task) : Script t.Answer :=
  .task t fun r => match r with
    | .ok a => .done a
    | .error e => .fail e

/-! ### Jobs and loops over sequences -/

/-- Carry out a job. -/
def Job.script (fuel : Nat) : Job α → Script α
  | .done a => .done a
  | .fail e => .fail e
  | .read k => .read fun s => (k s.toHeap).script fuel
  | .update f k => .update (fun s => { s with toHeap := f s.toHeap }) (k.script fuel)
  | .ask (.call ctx fn args) k =>
    .update (fun s => { s with
        tally := { s.tally with callbacks := s.tally.callbacks + fn.isFunction.toNat } })
      (.task (.call fuel ctx fn args) fun r => (k r).script fuel)
  | .ask q k =>
    (Script.act (q.serve fun _ _ _ => Action.panic "call outside a program")).inspect fun r =>
      (k r).script fuel

namespace Script

section

variable [Host]

/-- Whether a value satisfies a condition. -/
def testBy (fuel ctx : Nat) (pred x : Value) : Script Bool := do
  let ok ← (Task.call fuel ctx pred [x]).ask
  .read fun s => return ok.truth s.toHeap

/-- The next element of the cursor of a loop. -/
def passTo (fuel : Nat) : (depth id : Nat) → Script (Option Value)
  | 0, _ => return none
  | depth + 1, id => .read fun s =>
    match s.cursors.getD id default with
    | .filtered ctx pred (some inner) none => do
      match ← (searchNext (passTo fuel depth inner) (testBy fuel ctx pred) fuel).attempt with
      | .ok r => return r
      | .error e =>
        Action.interrupt id e
        return none
    | c => (nextPlain id c).script fuel

/-- Advance a loop. -/
def moveNext (fuel id : Nat) : Script Bool := .read fun s => do
  let e := s.enumerators.getD id default
  if e.done then return false
  match ← passTo fuel (s.cursors.size + 1) e.cursor with
  | some x =>
    (Job.setEnumerator id { e with current := x }).script fuel
    return true
  | none =>
    (Job.setEnumerator id { e with current := .null, done := true }).script fuel
    (finish e.cursor).script fuel
    Action.endSearch e.cursor
    return false

/-! ### Dispatch -/

/-- Carry out a resolved operation of a call site in a context. -/
def carryOut (fuel ctx : Nat) (site : CallSite) (args : List Value) (b : Binding) :
    Script Value := do
  match ← (site.perform fuel args b).script fuel with
  | .value v => return v
  | .call fn args => (Task.call fuel ctx fn args).ask

/-- Perform the operation of a call site, whose operands `x` and `y` decide what it is: the
dispatch begins, and then the binding is carried out that was found or is resolved. -/
def dispatchOn (fuel ctx unit : Nat) (site : CallSite) (args : List Value) (x y : Value) :
    Script Value := .read fun s =>
  .update (fun s => (s.strayed site x y).begun site unit x y) <|
    match s.found site unit x y with
    | some b => carryOut fuel ctx site args b
    | none => do carryOut fuel ctx site args (← site.bind x y)

/-- Perform the operation of a call site. -/
def dispatch (fuel ctx unit : Nat) (site : CallSite) (args : List Value) : Script Value := do
  let x ← operand args 0
  let y ← if site.kind = .binary then operand args 1 else pure .null
  dispatchOn fuel ctx unit site args x y

end

/-! ### Control -/

/-- Steps of the machine that evaluate and call nothing, but may jump. -/
def steps (m : Eval α) : EvalScript α := .mk (act m.run)

/-- A job as part of a script with jumps. -/
def job (fuel : Nat) (j : Job α) : EvalScript α := .lift (j.script fuel)

/-- How a script with jumps ends, as a value. -/
def outcome (m : EvalScript α) : EvalScript (Except Jump α) := .mk (.ok <$> m.run)

/-- Whether a node's value is true; it must be a boolean. -/
def evalTest [Host] (m : EvalScript Value) : EvalScript Bool := do
  steps (Stencil.evalTest (pure (← m)))

/-- Run the items of a block, from after the first `skip` on. -/
def runBlock (labels : Target → Option Nat) (run : (skip : Nat) → (last : Value) → EvalScript Value) :
    (fuel : Nat) → (skip : Nat) → (last : Value) → EvalScript Value
  | 0, skip, last => do
    match ← outcome (run skip last) with
    | .ok v => return v
    | .error j => if (labels j.target).isSome then (throw .exhausted : Action Value) else throw j
  | fuel + 1, skip, last => do
    match ← outcome (run skip last) with
    | .ok v => return v
    | .error j =>
      match labels j.target with
      | some k => runBlock labels run fuel (k + 1) j.value
      | none => throw j

/-- Repeat the body of a loop until a jump to `brk` or another failure. -/
def runLoop (ctx : Nat) (brk : Target) (cont : Option Target) (body : EvalScript Value) :
    (fuel : Nat) → EvalScript Value
  | 0 => (throw .exhausted : Action Value)
  | fuel + 1 => do
    Action.checkCancelled ctx
    match ← outcome body with
    | .ok _ => runLoop ctx brk cont body fuel
    | .error j =>
      if j.target.id = brk.id then return .null
      else if cont.map (·.id) = some j.target.id then runLoop ctx brk cont body fuel
      else throw j

/-- Run `finally_` after the body on every exit but a panic. -/
def runFinally (body finally_ : EvalScript α) : EvalScript α :=
  .mk <| body.run.inspect fun r => match r with
    | .error e =>
      if e.isError then do
        match ← finally_.run with
        | .ok _ => throw e
        | r => return r
      else throw e
    | .ok r => do
      match ← finally_.run with
      | .ok _ => return r
      | r' => return r'

/-! ### Code -/

section

variable (fuel : Nat) (act : Activation)

/-- Evaluate a part of code. -/
def part (c : Code) : EvalScript Value := .mk (Task.code fuel act c).ask

/-- Evaluate the items after the first `skip` in order. -/
def evalFrom (labels : Target → Option Nat) :
    List Code → (i skip : Nat) → (last : Value) → EvalScript Value
  | [], _, _, last => return last
  | _ :: cs, i, skip + 1, last => evalFrom labels cs (i + 1) skip last
  | c :: cs, i, 0, _ => do
    match ← outcome (part fuel act c) with
    | .ok v => evalFrom labels cs (i + 1) 0 v
    | .error j =>
      match labels j.target with
      | some k => if i < k then evalFrom labels cs (i + 1) (k - i) j.value else throw j
      | none => throw j

/-- Evaluate operands from left to right. -/
def evalArgs : List Code → EvalScript (List Value)
  | [] => return []
  | c :: cs => do
    let v ← part fuel act c
    return v :: (← evalArgs cs)

variable [Host]

/-- Whether one of the values of a clause is equal to `v`. -/
def evalMatch (equal : CallSite) (v : Value) : List Code → EvalScript Bool
  | [] => return false
  | c :: cs => do
    let w ← part fuel act c
    let eq ← dispatch fuel act.ctx act.unit equal [v, w]
    if eq.truth (← (get : Action Store)).toHeap then return true else evalMatch equal v cs

/-- Evaluate the first clause of a switch that has a value equal to `v`. -/
def evalCases (equal : CallSite) (v : Value) : List Code → EvalScript (Option Value)
  | [] => return none
  | .case values body :: cs => do
    if ← evalMatch fuel act equal v values then return some (← part fuel act body)
    else evalCases equal v cs
  | _ :: cs => evalCases equal v cs

/-- Evaluate code. -/
def eval : Code → EvalScript Value
  | .absent => unexpectedNode "<nil>"
  | .case _ _ => unexpectedNode "*ir.Case"
  | .constant v => return v
  | .empty => return .null
  | .var v => act.read v
  | .block vars items => do
    act.clear vars
    runBlock (labelIndex items) (evalFrom fuel act (labelIndex items) items 0) fuel 0 .null
  | .assign v x => do
    let y ← part fuel act x
    act.write v y
    return y
  | .lambda id name params _ _ => newClosure act id ⟨name, params.map (·.name)⟩
  | .cond test yes no => do
    if ← evalTest (part fuel act test) then part fuel act yes
    else if no.isAbsent then return .null
    else part fuel act no
  | .not x => return .bool (!(← evalTest (part fuel act x)))
  | .toBool x => do
    let y ← part fuel act x
    return .bool (y.truth (← (get : Action Store)).toHeap)
  | .andAlso x y => do
    if ← evalTest (part fuel act x) then return .bool (← evalTest (part fuel act y))
    else return .bool false
  | .orElse x y => do
    if ← evalTest (part fuel act x) then return .bool true
    else return .bool (← evalTest (part fuel act y))
  | .loop brk cont body => runLoop act.ctx brk cont (part fuel act body) fuel
  | .label _ dflt => if dflt.isAbsent then return .null else part fuel act dflt
  | .goto t value => do
    let v ← if value.isAbsent then pure .null else part fuel act value
    throw ⟨t, v⟩
  | .switch x cases dflt equal => do
    let v ← part fuel act x
    match ← evalCases fuel act equal v cases with
    | some r => return r
    | none => if dflt.isAbsent then return .null else part fuel act dflt
  | .tryFinally body finally_ => runFinally (part fuel act body) (part fuel act finally_)
  | .contextCall method ctx args => do
    let target ← part fuel act ctx
    match target with
    | .context _ => callContext method target (← evalArgs fuel act args)
    | target => callContext method target []
  | .dynamic site args => do
    let vs ← evalArgs fuel act args
    match site.kind with
    | .invoke | .call | .create => act.moveTo site.pos
    | _ => pure ()
    dispatch fuel act.ctx act.unit site vs
  | .iterate x => do job fuel (newEnumerator (← part fuel act x))
  | .moveNext enum => do
    let id ← asEnumerator (← part fuel act enum)
    return .bool (← moveNext fuel id)
  | .current enum => do
    let id ← asEnumerator (← part fuel act enum)
    return ((← (get : Action Store)).enumerators.getD id default).current
  | .filter x pred => do
    let source ← part fuel act x
    job fuel (newFiltered act.ctx source (← part fuel act pred))
  | .list items => do Action.newList (← evalArgs fuel act items).toArray
  | .debug pos x => do
    act.moveTo pos
    .mk <| (part fuel act x).run.inspect fun r => match r with
      | .ok r => return r
      | .error (.missing msg) => Script.act (act.report pos (.missing msg))
      | .error (.plain msg b) => Script.act (act.report pos (.plain msg b))
      | .error e => throw e

end

/-! ### Calls and runs -/

/-- Leave a function: what a panic leaves behind, nothing clears up. -/
def leaving (ctx : Nat) (caller : Option Nat) (name : Bytes) (run : EvalScript Value) :
    Script Value :=
  run.run.inspect fun r => match r with
    | .ok (.ok v) => act (restore ctx caller >>= fun _ => return v)
    | .ok (.error j) => act do
      Action.fault .escapedJump
      restore ctx caller
      throw (.plain (Bytes.ofString "internal error: jump to " ++ j.target.name ++
        " escaped function " ++ name) false)
    | .error e => if e.isError then act (restore ctx caller >>= fun _ => throw e) else throw e

/-- Call a lambda as the function value `f`. -/
def callLambda (g : Lambda) (f : Closure) (fuel ctx : Nat) (args : List Value) : Script Value := do
  if args.length ≠ g.params.length then
    Action.fail (wrongArguments g.name g.params.length args.length)
  Action.checkCancelled ctx
  let c ← Action.context ctx
  if c.depthLimit ≤ c.depth then
    Action.fail (Bytes.ofString "call of " ++ g.name ++
      " exceeds the maximum call depth of " ++ Bytes.ofNat c.depthLimit)
  let frame ← enter ctx f g.name c.frame
    (args.toArray ++ Array.replicate (g.slots - args.length) Value.null)
  leaving ctx c.frame g.name (part fuel ⟨ctx, f.unit, frame⟩ g.body)

/-- Call a function of the language. -/
def callClosure (fuel ctx id : Nat) (args : List Value) : Script Value := .read fun s =>
  match s.closures[id]? with
  | none => (nilDereference : Job Value)
  | some f =>
    match s.lambda? f.unit f.lambda with
    | none => (nilDereference : Job Value)
    | some g => callLambda g f fuel ctx args

/-- Call a value. -/
def callValue [Application] : (fuel ctx : Nat) → (fn : Value) → (args : List Value) → Script Value
  | 0, _, _, _ => throw .exhausted
  | fuel + 1, ctx, fn, args =>
    match fn with
    | .function id _ => callClosure fuel ctx id args
    | fn => (callOther fuel ctx fn args).script fuel

end Script

/-- What is done for a task. -/
def Task.script [Application] : (t : Task) → Script t.Answer
  | .code fuel act c => (Script.eval fuel act c).run
  | .call fuel ctx fn args => Script.callValue fuel ctx fn args

/-- What is done for a run of a program. -/
def Program.script [Application] (fuel : Nat) (p : Program) (ctx : Nat) : Script Unit := do
  let globals ← ensureGlobals ctx
  addMissing globals (sortEntries p.predeclared)
  addMissing globals universalValues
  let depth := (← Action.context ctx).writers.length
  let outcome ← (Script.callLambda p.lambda p.entry fuel ctx [.context ctx]).attempt
  let after := (← Action.context ctx).writers.length
  if after ≠ depth then
    Action.panic (Bytes.ofString "happy: writer depth " ++ Bytes.ofNat after ++
      " after run, want " ++ Bytes.ofNat depth)
  match outcome with
  | .ok _ => return
  | .error e => asEvalError ctx e

/-! ### Carrying out scripts -/

section

variable [Application]

/-- Perform a task. -/
def Task.perform : (t : Task) → Action t.Answer
  | .code fuel act c => (c.eval (callValue fuel) fuel act).run
  | .call fuel ctx fn args => callValue fuel ctx fn args

namespace Script

/-- Carry out a script. -/
def run : Script α → Action α
  | .done a => fun s => .ok a s
  | .fail e => fun s => .error e s
  | .read k => fun s => (k s).run s
  | .update f k => fun s => k.run (f s)
  | .task t k => fun s =>
    match t.perform s with
    | .ok a s => (k (.ok a)).run s
    | .error e s => (k (.error e)).run s

theorem run_read_apply (k : Store → Script α) (s : Store) : (read k).run s = (k s).run s := rfl

theorem run_update_apply (f : Store → Store) (k : Script α) (s : Store) :
    (update f k).run s = k.run (f s) := rfl

@[simp]
theorem run_pure (a : α) : (pure a : Script α).run = pure a := rfl

@[simp]
theorem run_throw (e : Failure) : (throw e : Script α).run = throw e := rfl

@[simp]
theorem run_inspect (m : Script α) (k : Except Failure α → Script β) :
    (m.inspect k).run = Stencil.inspect m.run fun r => (k r).run := by
  funext s
  induction m generalizing s with
  | done a => rfl
  | fail e => rfl
  | read r ih => exact ih s s
  | update f m ih => exact ih (f s)
  | task t r ih =>
    simp only [inspect, run, Stencil.inspect]
    cases t.perform s with
    | ok a s => exact ih (.ok a) s
    | error e s => exact ih (.error e) s

@[simp]
theorem run_bind (m : Script α) (f : α → Script β) :
    (m >>= f).run = m.run >>= fun a => (f a).run := by
  show (m.inspect _).run = _
  rw [run_inspect, bind_eq_inspect]
  congr 1
  funext r
  cases r <;> rfl

@[simp]
theorem run_map (m : Script α) (f : α → β) : (f <$> m).run = f <$> m.run := by
  show (m >>= fun a => pure (f a)).run = _
  rw [run_bind, ← bind_pure_comp]
  rfl

@[simp]
theorem run_act (m : Action α) : (act m).run = m := by
  funext s
  simp only [act, run]
  cases m s <;> rfl

@[simp]
theorem run_lift (m : Action α) : (liftM m : Script α).run = m := run_act m

@[simp]
theorem run_ite {c : Prop} [Decidable c] (m n : Script α) :
    (if c then m else n).run = if c then m.run else n.run := by
  split <;> rfl

@[simp]
theorem run_attempt (m : Script α) : m.attempt.run = Action.attempt m.run := by
  funext s
  rw [attempt, run_inspect, Stencil.inspect, Action.attempt]
  cases m.run s with
  | ok a t => rfl
  | error e t => cases h : e.isError <;> simp [h] <;> rfl

@[simp]
theorem run_ask (t : Task) : t.ask.run = t.perform := by
  funext s
  simp only [Task.ask, run]
  cases t.perform s <;> rfl

end Script

/-- Carrying out a job is what its script says. -/
@[simp]
theorem Job.run_script (fuel : Nat) (j : Job α) : (j.script fuel).run = j.run (callValue fuel) := by
  funext s
  induction j generalizing s with
  | done a => rfl
  | fail e => rfl
  | read k ih => exact ih s.toHeap s
  | update f k ih => exact ih _
  | ask q k ih =>
    have hask : (Job.ask q k).run (callValue fuel) s =
        Stencil.inspect (q.serve (callValue fuel)) (fun r => (k r).run (callValue fuel)) s :=
      congrFun (Stencil.run_ask ..) s
    rw [hask]
    cases q with
    | call ctx fn args =>
      let s₁ : Store := { s with
        tally := { s.tally with callbacks := s.tally.callbacks + fn.isFunction.toNat } }
      have hserve : Query.serve (callValue fuel) (.call ctx fn args) s = callValue fuel ctx fn args s₁ :=
        rfl
      rw [Stencil.inspect, hserve, script]
      simp only [Script.run, Task.perform]
      cases callValue fuel ctx fn args s₁ with
      | ok a t => exact ih (.ok a) t
      | error e t => exact ih (.error e) t
    | _ =>
      rw [script, Script.run_inspect, Script.run_act]
      · congr 1
        funext r t
        exact ih r t
      · rintro _ _ _ _ ⟨⟩

/-! ### The layers of the machine -/

namespace Script

/-- Carry out a script that may jump. -/
def evaluate (m : EvalScript α) : Eval α := .mk m.run.run

@[simp]
theorem run_run (m : EvalScript α) : m.run.run = (evaluate m).run := rfl

@[simp]
theorem evaluate_pure (a : α) : evaluate (pure a) = pure a := rfl

@[simp]
theorem evaluate_throw (j : Jump) : evaluate (throw j : EvalScript α) = throw j := rfl

@[simp]
theorem evaluate_bind (m : EvalScript α) (f : α → EvalScript β) :
    evaluate (m >>= f) = evaluate m >>= fun a => evaluate (f a) := by
  show ExceptT.mk (Script.run (m.run >>= ExceptT.bindCont f)) = _
  rw [run_bind]
  show _ = ExceptT.mk (m.run.run >>= ExceptT.bindCont fun a => evaluate (f a))
  congr 2
  funext r
  cases r <;> rfl

@[simp]
theorem evaluate_act (m : Action α) : evaluate (liftM m) = liftM m := by
  show ExceptT.mk (Script.run (Except.ok <$> act m)) = _
  rw [run_map, run_act]
  rfl

@[simp]
theorem evaluate_steps (m : Eval α) : evaluate (steps m) = m := run_act m.run

@[simp]
theorem evaluate_lift (m : Script α) : evaluate (liftM m) = liftM m.run := by
  show ExceptT.mk (Script.run (Except.ok <$> m)) = _
  rw [run_map]
  rfl

@[simp]
theorem evaluate_job (fuel : Nat) (j : Job α) : evaluate (job fuel j) = j.within (Stencil.callValue fuel) := by
  show ExceptT.mk (Script.run (Except.ok <$> j.script fuel)) = _
  rw [run_map, Job.run_script]
  rfl

@[simp]
theorem evaluate_part (fuel : Nat) (act : Activation) (c : Code) :
    evaluate (part fuel act c) = c.eval (Stencil.callValue fuel) fuel act := run_ask _

@[simp]
theorem evaluate_outcome (m : EvalScript α) : evaluate (outcome m) = Stencil.outcome (evaluate m) := by
  show ExceptT.mk (Script.run (Except.ok <$> m.run)) = _
  rw [run_map]
  rfl

@[simp]
theorem evaluate_evalTest (m : EvalScript Value) :
    evaluate (evalTest m) = Stencil.evalTest (evaluate m) := by
  rw [evalTest, evaluate_bind]
  simp only [evaluate_steps]
  rfl

@[simp]
theorem evaluate_ite {c : Prop} [Decidable c] (m n : EvalScript α) :
    evaluate (if c then m else n) = if c then evaluate m else evaluate n := by
  split <;> rfl

theorem evaluate_runBlock {labels : Target → Option Nat} {run : Nat → Value → EvalScript Value}
    {run' : Nat → Value → Eval Value} (h : ∀ skip last, evaluate (run skip last) = run' skip last)
    (fuel skip : Nat) (last : Value) :
    evaluate (runBlock labels run fuel skip last) = Stencil.runBlock labels run' fuel skip last := by
  induction fuel generalizing skip last with
  | zero =>
    rw [runBlock, Stencil.runBlock, evaluate_bind, evaluate_outcome, h]
    congr 1
    funext r
    cases r with
    | ok v => rfl
    | error j =>
      dsimp only
      rw [evaluate_ite, evaluate_act, evaluate_throw]
  | succ fuel ih =>
    rw [runBlock, Stencil.runBlock, evaluate_bind, evaluate_outcome, h]
    congr 1
    funext r
    cases r with
    | ok v => rfl
    | error j =>
      dsimp only
      cases labels j.target with
      | some k => exact ih _ _
      | none => rfl

theorem evaluate_runLoop (ctx : Nat) (brk : Target) (cont : Option Target) (body : EvalScript Value)
    (fuel : Nat) : evaluate (runLoop ctx brk cont body fuel) =
      Stencil.runLoop ctx brk cont (evaluate body) fuel := by
  induction fuel with
  | zero => exact evaluate_act _
  | succ fuel ih =>
    rw [runLoop, Stencil.runLoop, evaluate_bind, evaluate_act]
    congr 1
    funext _
    rw [evaluate_bind, evaluate_outcome]
    congr 1
    funext r
    cases r with
    | ok v => exact ih
    | error j => simp only [evaluate_ite, evaluate_pure, evaluate_throw, ih]

theorem evaluate_runFinally (m f : EvalScript α) :
    evaluate (runFinally m f) = Stencil.runFinally (evaluate m) (evaluate f) := by
  show _ = ExceptT.mk (Stencil.runFinally (evaluate m) (evaluate f)).run
  rw [runFinally_eq, runFinally, evaluate]
  congr 1
  show Script.run (m.run.inspect _) = _
  rw [run_inspect]
  congr 1
  funext r
  cases r with
  | ok r =>
    dsimp only
    rw [run_bind]
    congr 1
    funext r'
    cases r' <;> rfl
  | error e =>
    dsimp only
    by_cases he : e.isError = true
    · rw [if_pos he, if_pos he, run_bind]
      congr 1
      funext r'
      cases r' <;> rfl
    · rw [if_neg he, if_neg he]
      rfl

/-! ### Jobs and loops over sequences -/

theorem run_searchNext (next : Script (Option Value)) (test : Value → Script Bool) (fuel : Nat) :
    (searchNext next test fuel).run = searchNext next.run (fun x => (test x).run) fuel := by
  induction fuel with
  | zero => rfl
  | succ fuel ih =>
    rw [searchNext, searchNext, run_bind]
    congr 1
    funext x
    cases x with
    | none => rfl
    | some x =>
      dsimp only
      rw [run_bind]
      congr 1
      funext ok
      cases ok with
      | true => rfl
      | false => exact ih

theorem run_passTo (fuel depth id : Nat) :
    (passTo fuel depth id).run = Stencil.passTo (Stencil.callValue fuel) fuel depth id := by
  induction depth generalizing id with
  | zero => rfl
  | succ depth ih =>
    funext s
    have plain (c : Cursor) : ((nextPlain id c).script fuel).run s =
        (nextPlain id c).run (Stencil.callValue fuel) s := congrFun (Job.run_script ..) s
    rw [Stencil.passTo, get_bind_apply, passTo, run_read_apply]
    generalize s.cursors.getD id default = c
    cases c with
    | filtered ctx pred inner ended =>
      cases inner with
      | none => exact plain _
      | some inner =>
        cases ended with
        | some e => exact plain _
        | none =>
          have htest : (fun x => (testBy fuel ctx pred x).run) = fun x => do
              let ok ← Stencil.callValue fuel ctx pred [x]
              return ok.truth (← get).toHeap := by
            funext x
            rw [testBy, run_bind, run_ask]
            rfl
          dsimp only
          rw [run_bind, run_attempt, run_searchNext, ih, htest]
          refine congrFun (congrArg (_ >>= ·) (funext fun r => ?_)) s
          cases r with
          | ok r => rfl
          | error e => exact (run_bind ..).trans (congrArg (· >>= _) (run_act _))
    | _ => exact plain _

theorem run_moveNext (fuel id : Nat) :
    (moveNext fuel id).run = Stencil.moveNext (Stencil.callValue fuel) fuel id := by
  funext s
  rw [Stencil.moveNext, get_bind_apply, moveNext, run_read_apply]
  dsimp only
  cases (s.enumerators.getD id default).done with
  | true => rfl
  | false =>
    rw [if_neg Bool.false_ne_true, if_neg Bool.false_ne_true, run_bind, run_passTo]
    refine congrFun (congrArg (_ >>= ·) (funext fun x => ?_)) s
    cases x with
    | some x => simp only [run_bind, Job.run_script, run_pure]
    | none =>
      simp only [run_bind, Job.run_script, run_lift, run_pure]

/-! ### Dispatch -/

theorem run_carryOut (fuel ctx : Nat) (site : CallSite) (args : List Value) (b : Binding) :
    (carryOut fuel ctx site args b).run =
      site.carryOut (Stencil.callValue fuel) fuel ctx args b := by
  rw [carryOut, CallSite.carryOut, run_bind, Job.run_script]
  congr 1
  funext reply
  cases reply with
  | value v => rfl
  | call fn args => exact run_ask _

theorem run_dispatchOn (fuel ctx unit : Nat) (site : CallSite) (args : List Value) (x y : Value) :
    (dispatchOn fuel ctx unit site args x y).run =
      Stencil.dispatchOn (Stencil.callValue fuel) fuel ctx unit site args x y := by
  funext s
  obtain ⟨hfound, hfails⟩ :=
    dispatchOn_begins (Stencil.callValue fuel) fuel ctx unit site args x y s
  rw [dispatchOn, run_read_apply, run_update_apply]
  cases hb : s.found site unit x y with
  | some b =>
    rw [hfound b hb, ← run_carryOut]
  | none =>
    obtain ⟨e, he, hend⟩ := hfails hb
    have hres : site.resolve ((s.strayed site x y).begun site unit x y).toHeap x y = .error e := he
    dsimp only
    rw [hend, run_bind]
    rw [run_lift, bind_apply, CallSite.bind_apply, hres]

theorem run_dispatch (fuel ctx unit : Nat) (site : CallSite) (args : List Value) :
    (dispatch fuel ctx unit site args).run =
      Stencil.dispatch (Stencil.callValue fuel) fuel ctx unit site args := by
  rw [dispatch, Stencil.dispatch, run_bind]
  congr 1
  · exact run_act _
  funext x
  by_cases hk : site.kind = .binary
  · simp only [hk, if_true, run_bind]
    congr 1
    · exact run_act _
    · funext y
      exact run_dispatchOn ..
  · simp only [hk, if_false]
    exact run_dispatchOn ..

/-! ### Code -/

section

variable (fuel : Nat) (act : Activation)

theorem evaluate_evalFrom (labels : Target → Option Nat) (items : List Code) (i skip : Nat)
    (last : Value) : evaluate (evalFrom fuel act labels items i skip last) =
      Stencil.evalFrom (Stencil.callValue fuel) fuel act labels items i skip last := by
  induction items generalizing i skip last with
  | nil => rfl
  | cons c cs ih =>
    cases skip with
    | succ skip => exact ih _ _ _
    | zero =>
      rw [evalFrom, Stencil.evalFrom, evaluate_bind, evaluate_outcome, evaluate_part]
      congr 1
      funext r
      cases r with
      | ok v => exact ih _ _ _
      | error j =>
        dsimp only
        cases labels j.target with
        | none => rfl
        | some k => simp only [evaluate_ite, evaluate_throw, ih]

theorem evaluate_evalArgs (cs : List Code) : evaluate (evalArgs fuel act cs) =
    Stencil.evalArgs (Stencil.callValue fuel) fuel act cs := by
  induction cs with
  | nil => rfl
  | cons c cs ih =>
    simp only [evalArgs, Stencil.evalArgs, evaluate_bind, evaluate_part, evaluate_pure, ih]

theorem evaluate_evalMatch (equal : CallSite) (v : Value) (cs : List Code) :
    evaluate (evalMatch fuel act equal v cs) =
      Stencil.evalMatch (Stencil.callValue fuel) fuel act equal v cs := by
  induction cs with
  | nil => rfl
  | cons c cs ih =>
    simp only [evalMatch, Stencil.evalMatch, evaluate_bind, evaluate_part, evaluate_lift, run_dispatch,
      evaluate_act, evaluate_ite, evaluate_pure, ih]
    rfl

theorem evaluate_evalCases (equal : CallSite) (v : Value) (cs : List Code) :
    evaluate (evalCases fuel act equal v cs) =
      Stencil.evalCases (Stencil.callValue fuel) fuel act equal v cs := by
  induction cs with
  | nil => rfl
  | cons c cs ih =>
    rw [Stencil.evalCases]
    cases c with
    | case values body =>
      simp only [evalCases, Code.evalCase, evaluate_bind, evaluate_evalMatch, evaluate_ite,
        evaluate_part, evaluate_pure, ih, bind_assoc]
      congr 1
      funext found
      cases found with
      | true => simp only [if_true, bind_assoc, pure_bind]
      | false => rfl
    | _ => exact ih

theorem evaluate_eval (c : Code) :
    evaluate (eval fuel act c) = c.eval (Stencil.callValue fuel) fuel act := by
  cases c with
  | block vars items =>
    rw [eval, Code.eval, evaluate_bind, evaluate_act]
    congr 1
    funext _
    exact evaluate_runBlock (fun _ _ => evaluate_evalFrom ..) _ _ _
  | loop brk cont body => simp only [eval, Code.eval, evaluate_runLoop, evaluate_part]
  | switch x cases dflt equal =>
    rw [eval, Code.eval, evaluate_bind, evaluate_part]
    congr 1
    funext v
    rw [evaluate_bind, evaluate_evalCases]
    congr 1
    funext r
    cases r with
    | some r => rfl
    | none => simp only [evaluate_ite, evaluate_pure, evaluate_part]
  | tryFinally body f => simp only [eval, Code.eval, evaluate_runFinally, evaluate_part]
  | contextCall method ctx args =>
    rw [eval, Code.eval, evaluate_bind, evaluate_part]
    congr 1
    funext target
    cases target with
    | context id =>
      dsimp only
      rw [evaluate_bind, evaluate_evalArgs]
      congr 1
      funext vs
      exact evaluate_act _
    | _ => exact evaluate_act _
  | dynamic site args =>
    rw [eval, Code.eval, evaluate_bind, evaluate_evalArgs]
    congr 1
    funext vs
    have dispatched : evaluate (liftM (dispatch fuel act.ctx act.unit site vs)) =
        liftM (Stencil.dispatch (Stencil.callValue fuel) fuel act.ctx act.unit site vs) := by
      rw [evaluate_lift, run_dispatch]
    generalize site.kind = kind
    cases kind with
    | invoke | call | create =>
      dsimp only
      rw [evaluate_bind, evaluate_act]
      exact congrArg (_ >>= ·) (funext fun _ => dispatched)
    | _ => exact dispatched
  | debug pos x =>
    rw [eval, Code.eval, evaluate_bind, evaluate_act]
    congr 1
    funext _
    show ExceptT.mk (Script.run (Script.inspect _ _)) = _
    rw [run_inspect, run_run, evaluate_part, locate_eq]
    congr 2
    funext r
    cases r with
    | ok r => rfl
    | error e => cases e <;> first | exact run_act _ | rfl
  | label t dflt => simp only [eval, Code.eval, evaluate_ite, evaluate_pure, evaluate_part]
  | goto t value =>
    simp only [eval, Code.eval, evaluate_bind, evaluate_ite, evaluate_pure, evaluate_part,
      evaluate_throw]
  | _ =>
    simp only [eval, Code.eval, evaluate_bind, evaluate_act, evaluate_part, evaluate_pure, evaluate_evalTest, evaluate_ite,
      evaluate_evalArgs, evaluate_job, evaluate_lift, run_moveNext]
    try rfl

end

/-! ### Calls -/

theorem run_leaving (ctx : Nat) (caller : Option Nat) (name : Bytes) (m : EvalScript Value) :
    (leaving ctx caller name m).run = Stencil.leaving ctx caller name (evaluate m) := by
  rw [leaving, run_inspect, run_run, leaving_eq]
  congr 1
  funext r
  cases r with
  | ok r => cases r <;> exact run_act _
  | error e =>
    dsimp only
    by_cases he : e.isError = true
    · rw [if_pos he, if_pos he]
      exact run_act _
    · rw [if_neg he, if_neg he]
      rfl

theorem run_callLambda (g : Lambda) (f : Closure) (fuel ctx : Nat) (args : List Value) :
    (callLambda g f fuel ctx args).run =
      g.routine.call f (Stencil.callValue fuel) fuel ctx args := by
  have body (caller : Option Nat) (frame : Nat) :
      (leaving ctx caller g.name (part fuel ⟨ctx, f.unit, frame⟩ g.body)).run =
        Stencil.leaving ctx caller g.name
          (g.routine.run (Stencil.callValue fuel) fuel ⟨ctx, f.unit, frame⟩) := by
    rw [run_leaving, evaluate_part]
    rfl
  simp only [callLambda, Routine.call, run_ite, run_bind, run_lift, body]
  rfl

theorem run_callClosure (fuel ctx id : Nat) (args : List Value) :
    (callClosure fuel ctx id args).run =
      Stencil.callClosure Store.routine? (Stencil.callValue fuel) fuel ctx id args := by
  funext s
  rw [callClosure, run_read_apply]
  cases h : s.closures[id]? with
  | none =>
    rw [callClosure_none h]
    exact congrFun (run_act _) s
  | some f =>
    dsimp only
    cases hl : s.lambda? f.unit f.lambda with
    | none =>
      have hr : Store.routine? s f.unit f.lambda = none := by rw [Store.routine?, hl]; rfl
      rw [Stencil.callClosure, get_bind_apply, h]
      dsimp only
      rw [hr]
      exact congrFun (run_act _) s
    | some g =>
      have hr : Store.routine? s f.unit f.lambda = some g.routine := by rw [Store.routine?, hl]; rfl
      rw [callClosure_some h hr]
      exact congrFun (run_callLambda ..) s

theorem run_callValue (fuel ctx : Nat) (fn : Value) (args : List Value) :
    (callValue fuel ctx fn args).run = Stencil.callValue fuel ctx fn args := by
  cases fuel with
  | zero => rfl
  | succ fuel =>
    cases fn with
    | function id heading => exact run_callClosure ..
    | _ => exact Job.run_script ..

end Script

/-- Carrying out the script of a task is performing the task. -/
theorem Task.run_script (t : Task) : t.script.run = t.perform := by
  cases t with
  | code fuel act c => exact congrArg ExceptT.run (Script.evaluate_eval fuel act c)
  | call fuel ctx fn args => exact Script.run_callValue ..

/-- Carrying out the script of a run is the run. -/
theorem Program.run_script (p : Program) (fuel ctx : Nat) :
    (p.script fuel ctx).run = p.run fuel ctx := by
  simp only [Program.script, Program.run, Program.runAs, Script.run_bind, Script.run_lift,
    Script.run_attempt, Script.run_callLambda, Script.run_ite]
  refine bind_congr fun globals => bind_congr fun _ => bind_congr fun _ => bind_congr fun before =>
    bind_congr fun outcome => bind_congr fun after => ?_
  cases outcome with
  | ok v => rfl
  | error e => simp only [Script.run_lift]

end

end Stencil
