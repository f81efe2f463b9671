import Stencil.Machine.Job
import Stencil.Dispatch.InlineCache

/-!
# The store

Everything a run can change: the heap, and what the machine keeps for itself. That are
the function values with the frames they close over, the contexts and what they write to,
and the records of the machine: the units of code, the caches of the call sites, the points
of execution and the failures that are kept for later.

A computation of the machine is an `Action`: it changes the store and ends with a value
or a `Failure`. Changes made before a failure remain. A job becomes an action once it is
known what a call does.
-/

namespace Stencil

/-- The variables of one call of a lambda. -/
structure Frame where
  ctx : Nat
  unit : Nat
  lambda : Nat
  name : Bytes
  vars : Array Value
  /-- The frame of the lambda around. -/
  outer : Option Nat
  /-- The frame of the calling function. -/
  caller : Option Nat
  deriving Inhabited

/-- What a function value stands for: a lambda of a unit of code, by its number, and the
frame it closes over. -/
structure Closure where
  unit : Nat
  lambda : Nat
  env : Option Nat
  deriving DecidableEq, Repr, Inhabited

/-- What goes wrong only in code that is not the code of any module. -/
inductive Fault where
  /-- A jump left the function it was made in. -/
  | escapedJump
  /-- A condition was not a boolean. -/
  | notCondition
  /-- The state of a loop was not one. -/
  | notEnumerator
  /-- An operation of the context was applied to something else. -/
  | notContext
  /-- The text to write was not a string. -/
  | notText
  /-- A capture ended that had not begun. -/
  | noWriter
  /-- No frame was found for the lambda of a variable. -/
  | outOfScope
  /-- The frame of a variable has no such slot. -/
  | noSlot
  /-- A node was evaluated that has no value. -/
  | unexpectedNode
  deriving DecidableEq, Repr, Inhabited

/-- The caches of the call sites. -/
structure Caches where
  /-- Those of each unit of code. -/
  entries : Array (Array (InlineCache Binding)) := #[]
  /-- The lookups so far, the last one first: the unit, the call site, and whether an entry
  was found. -/
  lookups : List (Nat × Nat × Bool) := []
  deriving Inhabited

/-- What the machine keeps on record. -/
@[ext]
structure Records where
  /-- The lambdas of each unit of code. -/
  units : Array (List Lambda) := #[]
  caches : Caches := {}
  /-- The points of execution in the frames. -/
  places : Array Position := #[]
  /-- The failures that ended searches, by cursor. -/
  kept : List (Nat × Failure) := []
  deriving Inhabited

/-- How often host and library have done what the machine does not expect of them. -/
structure Tally where
  /-- Calls of functions of the language. -/
  callbacks : Nat := 0
  /-- Looks at the active calls. -/
  glimpses : Nat := 0
  /-- Captures begun. -/
  begun : Nat := 0
  /-- Captures ended. -/
  seized : Nat := 0
  /-- Operations on what no host hands over. -/
  strays : Nat := 0
  deriving DecidableEq, Inhabited

/-- Everything a run can change. -/
structure Store extends Heap, Records where
  closures : Array Closure := #[]
  frames : Array Frame := #[]
  contexts : Array Context := #[]
  sinks : Array Sink := #[]
  /-- The faults met so far, the last one first. -/
  faults : List Fault := []
  tally : Tally := {}
  deriving Inhabited

instance : Coe Store Heap := ⟨Store.toHeap⟩

/-- A computation that may change the store and may fail. -/
abbrev Action := EStateM Failure Store

namespace Action

variable {α : Type}

/-- Fail with an error. -/
def fail (msg : Bytes) : Action α := throw (.plain msg false)

/-- Stop with a panic. -/
def panic (msg : Bytes) : Action α := throw (.panic msg false)

/-- Count something. -/
def count (f : Tally → Tally) : Action Unit := modify fun s => { s with tally := f s.tally }

/-- Note a fault. -/
def fault (f : Fault) : Action Unit := modify fun s => { s with faults := f :: s.faults }

/-- The outcome of a computation that may end with an error; any other failure goes
on. -/
def attempt (act : Action α) : Action (Except Failure α) := fun s =>
  match act s with
  | .ok a s => .ok (.ok a) s
  | .error e s => if e.isError then .ok (.error e) s else .error e s

/-! ### Contexts and writers -/

/-- The state of a context. -/
def context (id : Nat) : Action Context := do return (← get).contexts.getD id {}

/-- Change the state of a context. -/
def modifyContext (id : Nat) (f : Context → Context) : Action Unit :=
  modify fun s => { s with contexts := s.contexts.modify id f }

/-- A new context. -/
def newContext (c : Context) : Action Nat := do
  let s ← get
  set { s with contexts := s.contexts.push c }
  return s.contexts.size

/-- Begin to capture what is written. -/
def pushWriter (ctx : Nat) : Action Unit :=
  modifyContext ctx fun c => { c with writers := [] :: c.writers }

/-- End the innermost capture; the text captured is its outcome. -/
def popWriter (ctx : Nat) : Action Bytes := do
  match (← context ctx).writers with
  | [] => panic "happy: PopWriter without PushWriter"
  | w :: ws =>
    modifyContext ctx fun c => { c with writers := ws }
    return w.reverse.flatten

/-- A new sink that keeps what is written. -/
def newSink (sink : Sink := .collect []) : Action Nat := do
  let s ← get
  set { s with sinks := s.sinks.push sink }
  return s.sinks.size

/-- Change a sink. -/
def modifySink (id : Nat) (f : Sink → Sink) : Action Unit :=
  modify fun s => { s with sinks := s.sinks.modify id f }

/-- Write text to a sink that passes nothing on. -/
def writePlain (id : Nat) (text : Bytes) : Action Unit := do
  match (← get).sinks.getD id default with
  | .collect pieces => modifySink id fun _ => .collect (text :: pieces)
  | .broken reason => fail reason
  | .relay .. => return

/-- Write text to a sink. -/
def writeSink (id : Nat) (text : Bytes) : Action Unit := do
  match (← get).sinks.getD id default with
  | .relay sink last =>
    modifySink id fun _ => .relay sink (text.getLast?.getD last)
    writePlain sink text
  | _ => writePlain id text

/-- Write text to the innermost writer. -/
def write (ctx : Nat) (text : Bytes) : Action Unit := do
  let c ← context ctx
  match c.writers with
  | w :: ws => modifyContext ctx fun c => { c with writers := (text :: w) :: ws }
  | [] =>
    match c.sink with
    | none => return
    | some id => writeSink id text

/-- The active calls of a context, outermost first, found from a frame inwards. -/
def framesFrom (frames : Array Frame) (places : Array Position) :
    Nat → Option Nat → List CallFrame → List CallFrame
  | 0, _, acc => acc
  | _, none, acc => acc
  | fuel + 1, some id, acc =>
    let f := frames.getD id default
    framesFrom frames places fuel f.caller (⟨f.name, places.getD id .unknown⟩ :: acc)

/-- The active calls of a context, outermost first. -/
def callStack (ctx : Nat) : Action (List CallFrame) := do
  let s ← get
  let c := s.contexts.getD ctx {}
  return framesFrom s.frames s.places s.frames.size c.frame []

/-- Ask a context to stop. Only the first reason is kept. -/
def cancel (ctx : Nat) (reason : Bytes) : Action Unit :=
  modifyContext ctx fun c => { c with cancelled := c.cancelled.or (some reason) }

/-- Fail if the context was asked to stop. -/
def checkCancelled (ctx : Nat) : Action Unit := do
  match (← context ctx).cancelled with
  | some reason => fail (Bytes.ofString "execution cancelled: " ++ reason)
  | none => return

end Action

/-! ### Jobs -/

/-- Calls a value with arguments in a context. -/
abbrev Callback := Nat → Value → List Value → Action Value

/-- Answer a query. -/
def Query.serve (call : Callback) : (q : Query) → Action q.Answer
  | .call ctx fn args => do
    Action.count fun t => { t with callbacks := t.callbacks + fn.isFunction.toNat }
    call ctx fn args
  | .context ctx => Action.context ctx
  | .contextCount => return (← get).contexts.size
  | .newContext => Action.newContext {}
  | .cancel ctx reason => Action.cancel ctx reason
  | .pushWriter ctx => do
    Action.count fun t => { t with begun := t.begun + 1 }
    Action.pushWriter ctx
  | .popWriter ctx => do
    Action.count fun t => { t with seized := t.seized + 1 }
    Action.popWriter ctx
  | .write ctx text => Action.write ctx text
  | .callStack ctx => do
    Action.count fun t => { t with glimpses := t.glimpses + 1 }
    Action.callStack ctx

/-- Carry out a job. -/
def Job.run {α : Type} (call : Callback) : Job α → Action α
  | .done a => return a
  | .fail e => throw e
  | .read k => fun s => (k s.toHeap).run call s
  | .update f k => fun s => k.run call { s with toHeap := f s.toHeap }
  | .ask q k => fun s =>
    match q.serve call s with
    | .ok a s => (k (.ok a)).run call s
    | .error e s => (k (.error e)).run call s

/-- Outside a program nothing can be called. -/
instance : MonadLift Job Action where
  monadLift job := job.run fun _ _ _ => Action.panic "call outside a program"

namespace Action

/-- A number not handed out before. -/
def freshStamp : Action Nat := Job.freshStamp

/-- A new list. -/
def newList (items : Array Value) : Action Value := Job.newList items

/-- A new object. -/
def newObject (fields : List (Bytes × Value) := []) : Action Nat := Job.newObject fields

/-- The value of a field of an object. -/
def field? (id : Nat) (name : Bytes) : Action (Option Value) := Job.field? id name

/-- Set a field of an object. -/
def setField (id : Nat) (name : Bytes) (v : Value) : Action Unit := Job.setField id name v

end Action

end Stencil
