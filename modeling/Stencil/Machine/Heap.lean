import Stencil.Catalog.Source
import Stencil.Code.Basic
import Stencil.Schema.Descriptor

/-!
# Failures and the heap

How a computation ends without a value: an error, with or without the place where it
arose; a panic, which no construct of the language handles; or the end of the fuel that
bounds the computation.
-/

namespace Stencil

/-- An active function call: its function and the point of execution in it. -/
structure CallFrame where
  name : Bytes
  pos : Position
  deriving DecidableEq, Repr, Inhabited

/-- The place and the function of a call. -/
def CallFrame.text (f : CallFrame) : Bytes := f.pos.text ++ ": in " ++ f.name

/-- An error with its place and the calls that led to it, outermost first. -/
structure EvalError where
  pos : Position
  msg : Bytes
  stack : List CallFrame
  /-- Whether it was caused by a member that does not exist. -/
  missing : Bool
  deriving Repr, Inhabited

/-- The place, if it is known, and the wording of an error. -/
def EvalError.message (e : EvalError) : Bytes :=
  if e.pos.isValid then e.pos.text ++ ": " ++ e.msg else e.msg

/-- The calls that led to an error, and its wording. -/
def EvalError.backtrace (e : EvalError) : Bytes :=
  Bytes.ofString "Traceback (most recent call last):\n" ++
    e.stack.flatMap (fun f => ("  " ++ f.text ++ "\n" : Bytes)) ++ "Error: " ++ e.msg

/-- How a computation ends without a value. -/
inductive Failure where
  /-- An error that is reported at a place. -/
  | positioned (e : EvalError)
  /-- A member that does not exist. -/
  | missing (msg : Bytes)
  /-- Any other error; `missing` tells that a member that does not exist caused it. -/
  | plain (msg : Bytes) (missing : Bool)
  | panic (msg : Bytes) (missing : Bool)
  | exhausted
  deriving Inhabited

/-- The wording of a failure. -/
def Failure.message : Failure → Bytes
  | .positioned e => e.message
  | .missing msg | .plain msg _ | .panic msg _ => msg
  | .exhausted => "out of fuel"

/-- The wording of the error of a call with the wrong number of arguments. -/
def wrongArguments (name : Bytes) (arity given : Nat) : Bytes :=
  Bytes.ofString "function " ++ name ++ " takes " ++ Bytes.ofNat arity ++ " argument(s) (" ++
    Bytes.ofNat given ++ " given)"

/-- Whether a member that does not exist is among the causes. -/
def Failure.isMissing : Failure → Bool
  | .positioned e => e.missing
  | .missing _ => true
  | .plain _ m | .panic _ m => m
  | .exhausted => false

/-- Whether a failure is an error, which calling code may handle. -/
def Failure.isError : Failure → Bool
  | .positioned _ | .missing _ | .plain .. => true
  | .panic .. | .exhausted => false

/-!
## The heap

The data of a run. Values that have an identity are positions in the arrays of the
heap; nothing is ever removed from them. What the machine keeps for itself, the
frames of calls, the contexts with their output and the caches of call sites, is not part
of the heap.
-/

/-- Where the text goes that is written while nothing is captured. -/
inductive Sink where
  /-- Keeps the pieces written, the last one first. -/
  | collect (pieces : List Bytes)
  /-- Fails on every write. -/
  | broken (reason : Bytes)
  /-- Passes text on to another sink and keeps its last byte, which is zero before the
  first. -/
  | relay (sink : Nat) (last : UInt8)
  deriving Inhabited

/-- The clock of a context. -/
inductive Clock where
  /-- The clock of the host application. -/
  | system
  | fixed (t : Moment)
  | broken (reason : Bytes)
  deriving Inhabited

/-- The state of one execution: the global object, the writers and the calls. -/
structure Context where
  globals : Option Nat := none
  sink : Option Nat := none
  /-- The greatest depth of calls; zero stands for the usual bound. -/
  maxDepth : Nat := 0
  /-- The texts being captured, the innermost first; pieces are kept the last one
  first. -/
  writers : List (List Bytes) := []
  frame : Option Nat := none
  depth : Nat := 0
  cancelled : Option Bytes := none
  clock : Clock := .system
  hasReporter : Bool := false
  deriving Inhabited

/-- A named collection of values. -/
structure ModuleCell where
  name : Bytes
  members : List (Bytes × Value)
  deriving Inhabited

/-- How a search for elements that satisfy a condition was ended before its time. -/
inductive Ending where
  | failed (e : Failure)
  /-- By a failure that the machine keeps. -/
  | interrupted
  deriving Inhabited

/-- The state of an iteration. -/
inductive Cursor where
  /-- The elements of a list from a position on. -/
  | list (id i : Nat)
  /-- The elements of an indexed sequence from a position on. -/
  | sequence (v : Value) (i : Nat)
  /-- The characters of a string. -/
  | text (rest : Bytes)
  /-- The elements of another iteration that satisfy a condition. -/
  | filtered (ctx : Nat) (pred : Value) (inner : Option Nat) (ending : Option Ending)
  /-- The elements of a sequence of the host. -/
  | host (v : Value) (i : Nat)
  deriving Inhabited

/-- The state of a loop over a sequence. -/
structure EnumeratorCell where
  cursor : Nat
  current : Value := .null
  done : Bool := false
  deriving Inhabited

/-- The elements of a sequence that satisfy a condition. -/
structure FilteredCell where
  ctx : Nat
  source : Value
  pred : Value
  deriving Inhabited

/-- What a field of a message holds: a basic value, a message, a list or the entries of
a map. -/
inductive FieldValue where
  | scalar (s : Scalar)
  | message (id : Nat)
  | list (id : Nat)
  | map (entries : List (Scalar × FieldValue))
  deriving Inhabited

/-- A message: the fields that are set, by number, and the fields that are not known. -/
structure MessageCell where
  type : MessageType
  fields : List (Nat × FieldValue) := []
  unknown : Bytes := []
  deriving Inhabited

/-- The data of a run. -/
structure Heap where
  lists : Array (Array Value) := #[]
  objects : Array (List (Bytes × Value)) := #[]
  modules : Array ModuleCell := #[]
  cursors : Array Cursor := #[]
  enumerators : Array EnumeratorCell := #[]
  filtered : Array FilteredCell := #[]
  messages : Array MessageCell := #[]
  fieldLists : Array (Array FieldValue) := #[]
  patterns : Array Bytes := #[]
  /-- What the pointers of the host point to. -/
  cells : Array Datum := #[]
  /-- The elements of the host's sequences. -/
  arrays : Array (Array Datum) := #[]
  maps : Array (List (Datum × Datum)) := #[]
  /-- The collections of message descriptions. -/
  pools : Array Pool := #[]
  /-- The number of distinct identities handed out. -/
  stamps : Nat := 1
  systemClock : Moment := default
  /-- The durations slept, the last one first. -/
  slept : List Int := []
  /-- The failures reported by tests, the last one first. -/
  reports : List Bytes := []
  deriving Inhabited

namespace Heap

/-- The elements of a list. -/
def list (s : Heap) (id : Nat) : Array Value := s.lists.getD id #[]

/-- The fields of an object. -/
def object (s : Heap) (id : Nat) : List (Bytes × Value) := s.objects.getD id []

/-- The pool of a message type. -/
def pool (s : Heap) (t : MessageType) : Pool := s.pools.getD t.pool {}

/-- The description of a message type. -/
def describe (s : Heap) (t : MessageType) : MessageDesc :=
  ((s.pool t).message? t.name).getD { fullName := t.name, fields := [] }

end Heap

end Stencil
