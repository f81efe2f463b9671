import Stencil.Machine.Heap

/-!
# Jobs

The library and the host work on the heap by jobs. A job is a tree: it reads and
changes the heap, and where it needs the machine, for instance to call a function of
the language, it puts a query and goes on with the answer. Whatever the host, this
is all that a job can do: frames, closures and caches are out of its reach.
-/

namespace Stencil

/-- What a job asks of the machine that runs it. -/
inductive Query where
  /-- Call a value with arguments in a context. -/
  | call (ctx : Nat) (fn : Value) (args : List Value)
  /-- The state of a context. -/
  | context (ctx : Nat)
  /-- The number of contexts there are. -/
  | contextCount
  /-- A new context with nothing set. -/
  | newContext
  /-- Ask a context to stop. -/
  | cancel (ctx : Nat) (reason : Bytes)
  | pushWriter (ctx : Nat)
  | popWriter (ctx : Nat)
  | write (ctx : Nat) (text : Bytes)
  /-- The active calls of a context, outermost first. -/
  | callStack (ctx : Nat)

/-- What a query is answered with if it does not fail. -/
@[reducible]
def Query.Answer : Query → Type
  | .call .. => Value
  | .context _ => Context
  | .contextCount | .newContext => Nat
  | .cancel .. | .pushWriter _ | .write .. => Unit
  | .popWriter _ => Bytes
  | .callStack _ => List CallFrame

/-- A computation of the library or the host. -/
inductive Job (α : Type) : Type where
  | done (a : α)
  | fail (e : Failure)
  | read (k : Heap → Job α)
  | update (f : Heap → Heap) (k : Job α)
  | ask (q : Query) (k : Except Failure q.Answer → Job α)

namespace Job

variable {α β : Type}

/-- Go on with the outcome of a job. -/
def bind : Job α → (α → Job β) → Job β
  | .done a, g => g a
  | .fail e, _ => .fail e
  | .read k, g => .read fun h => (k h).bind g
  | .update f k, g => .update f (k.bind g)
  | .ask q k, g => .ask q fun r => (k r).bind g

/-- Go on after a failure of a job. -/
def handle : Job α → (Failure → Job α) → Job α
  | .done a, _ => .done a
  | .fail e, g => g e
  | .read k, g => .read fun h => (k h).handle g
  | .update f k, g => .update f (k.handle g)
  | .ask q k, g => .ask q fun r => (k r).handle g

instance : Monad Job where
  pure := .done
  bind := .bind

instance : MonadExceptOf Failure Job where
  throw := .fail
  tryCatch := .handle

instance : MonadStateOf Heap Job where
  get := .read .done
  set h := .update (fun _ => h) (.done ())
  modifyGet f := .read fun h =>
    match f h with
    | (a, h) => .update (fun _ => h) (.done a)

instance : Inhabited (Job α) := ⟨.fail default⟩

/-- Put a query. -/
def query (q : Query) : Job q.Answer :=
  .ask q fun r => match r with
    | .ok a => .done a
    | .error e => .fail e

/-- Change the heap. -/
def modify (f : Heap → Heap) : Job Unit := .update f (.done ())

/-- Fail with an error. -/
def error (msg : Bytes) : Job α := .fail (.plain msg false)

/-- Stop with a panic. -/
def panic (msg : Bytes) : Job α := .fail (.panic msg false)

/-- The outcome of a job that may end with an error; any other failure goes on. -/
def attempt (job : Job α) : Job (Except Failure α) :=
  (Except.ok <$> job).handle fun e => if e.isError then .done (.error e) else .fail e

/-- Put a text in front of the wording of an error. Errors made this way do not keep
their cause. -/
def explaining (before : Bytes) (job : Job α) : Job α := do
  match ← attempt job with
  | .ok a => return a
  | .error e => error (before ++ e.message)

/-! ### The machine -/

/-- Call a value with arguments in a context. -/
def call (ctx : Nat) (fn : Value) (args : List Value) : Job Value := query (.call ctx fn args)

/-- The state of a context. -/
def context (ctx : Nat) : Job Context := query (.context ctx)

/-- Ask a context to stop. -/
def cancel (ctx : Nat) (reason : Bytes) : Job Unit := query (.cancel ctx reason)

/-- Begin to capture what is written. -/
def pushWriter (ctx : Nat) : Job Unit := query (.pushWriter ctx)

/-- End the innermost capture; the text captured is its outcome. -/
def popWriter (ctx : Nat) : Job Bytes := query (.popWriter ctx)

/-- Write text to the innermost writer. -/
def write (ctx : Nat) (text : Bytes) : Job Unit := query (.write ctx text)

/-- The active calls of a context, outermost first. -/
def callStack (ctx : Nat) : Job (List CallFrame) := query (.callStack ctx)

/-! ### Lists and objects -/

/-- A number not handed out before. -/
def freshStamp : Job Nat := do
  let n := (← get).stamps
  modify fun s => { s with stamps := s.stamps + 1 }
  return n

/-- A new list. -/
def newList (items : Array Value) : Job Value := do
  let id := (← get).lists.size
  modify fun s => { s with lists := s.lists.push items }
  return .list id

/-- The elements of a list. -/
def listItems (id : Nat) : Job (Array Value) := do return (← get).list id

/-- Change the elements of a list. -/
def modifyList (id : Nat) (f : Array Value → Array Value) : Job Unit :=
  modify fun s => { s with lists := s.lists.modify id f }

/-- A new object. -/
def newObject (fields : List (Bytes × Value) := []) : Job Nat := do
  let id := (← get).objects.size
  modify fun s => { s with objects := s.objects.push fields }
  return id

/-- The value of a field of an object. -/
def field? (id : Nat) (name : Bytes) : Job (Option Value) := do
  return ((← get).object id).lookup name

/-- Set a field of an object. -/
def setField (id : Nat) (name : Bytes) (v : Value) : Job Unit :=
  modify fun s => { s with objects := s.objects.modify id (setAssoc name v) }

end Job

end Stencil
