import Stencil.Program.Run
import Stencil.Text.Case

/-!
# Sessions

In a session, programs are entered line by line and run at once. Lines are read until
they make up a module; its last semicolon may be left out. An entry that is a single
expression writes its value. The global variables and the loaded namespaces of an entry
are there for the next ones.
-/

namespace Stencil

/-- What the lines of an entry amount to. -/
inductive Entry where
  /-- A line without anything on it. -/
  | blank
  | complete (m : Module)
  | malformed (e : SyntaxError)
  /-- The end of the input, possibly within an entry. -/
  | ended (unfinished : Bool)

/-- An entry, the number of further lines asked for, and the lines after it. -/
structure EntryReading where
  entry : Entry
  continued : Nat
  rest : List Bytes

/-- The file name of what is entered or read from standard input. -/
def inputName : Bytes := "<stdin>"

/-- The module of an entry, with a semicolon added if that completes it. -/
def parseEntry (src : Bytes) : Except SyntaxError Module :=
  match parseModule inputName src with
  | .ok m => .ok m
  | .error e =>
    if e.atEnd then
      match parseModule inputName (src ++ ";") with
      | .ok m => .ok m
      | .error _ => .error e
    else .error e

/-- Read an entry of which `src` has been read. An entry that is not complete goes on
with the next line unless the last one is blank. -/
def readEntry (src : Bytes) (continued : Nat) : List Bytes → EntryReading
  | [] => ⟨.ended (!src.isEmpty), continued, []⟩
  | line :: rest =>
    let blank := line.trim.isEmpty
    if src.isEmpty && blank then ⟨.blank, continued, rest⟩
    else
      let src := src ++ line ++ [10]
      match parseEntry src with
      | .ok m => ⟨.complete m, continued, rest⟩
      | .error e =>
        if !e.atEnd || blank then ⟨.malformed e, continued, rest⟩
        else readEntry src (continued + 1) rest

/-- An expression that stands alone is written; an assignment is not. -/
def Module.asEntry (m : Module) : Module :=
  match m.loads, m.functions, m.defs, m.stmts with
  | [], [], [], [.expr x] =>
    match x with
    | .assign .. => m
    | _ => { m with stmts := [.output x.start [x]] }
  | _, _, _, _ => m

/-- A session. -/
structure Session where
  /-- The object of the global variables. -/
  globals : Nat
  /-- What all entries write to. -/
  sink : Nat
  maxDepth : Nat := 0
  predeclared : List (Bytes × Value) := []
  catalog : Option TypeSource := none
  /-- The namespaces loaded so far. -/
  loads : List Bytes := []

/-- What one entry leads to. -/
structure SessionStep where
  prompts : List Bytes
  /-- What is written to the output and to the standard error stream. -/
  out : Bytes := []
  err : Bytes := []
  ended : Bool := false

/-- The wording of an error on the standard error stream. -/
def Failure.display : Failure → Bytes
  | .positioned e => e.backtrace ++ "\n"
  | e => e.message ++ "\n"

/-- What was written to a sink. -/
def Store.written (s : Store) (sink : Nat) : Bytes :=
  match s.sinks.getD sink default with
  | .collect pieces => pieces.reverse.flatten
  | .broken _ | .relay .. => []

/-- Add a line end to what was passed on by a sink, unless that is nothing or ends with
one. -/
def endLine (relay : Nat) : Action Unit := do
  match (← get).sinks.getD relay default with
  | .relay _ last =>
    if last ≠ 0 && last ≠ 10 then
      let _ ← Action.attempt (Action.writeSink relay [10])
  | _ => return

namespace Session

/-- What an entry is compiled with. -/
def options (s : Session) (store : Store) : Options where
  predeclared := s.predeclared ++ store.object s.globals
  catalog := s.catalog
  load := s.loads

/-- Compile and run an entry in a context of its own; the text of its error is the outcome. -/
def exec [Application] (s : Session) (m : Module) : Action (Session × Bytes) := do
  let opts := s.options (← get)
  match m.compile opts (← Action.freshStamp) with
  | .error e => return (s, e.message ++ "\n")
  | .ok f =>
    let p ← link m.path opts.predeclared f
    let relay ← Action.newSink (.relay s.sink 0)
    let ctx ← Action.newContext
      { globals := some s.globals, sink := some relay, maxDepth := s.maxDepth }
    let outcome ← Action.attempt (p.run ampleFuel ctx)
    endLine relay
    let s := { s with loads := s.loads ++ m.loads.map (·.name) }
    match outcome with
    | .ok _ => return (s, [])
    | .error e => return (s, e.display)

/-- Deal with the next entry. -/
def step [Application] (s : Session) (lines : List Bytes) :
    Action (Session × SessionStep × List Bytes) := do
  let r := readEntry [] 0 lines
  let prompts : List Bytes :=
    Bytes.ofString ">>> " :: List.replicate r.continued (Bytes.ofString "... ") ++
      [Bytes.ofString ">>> "]
  match r.entry with
  | .blank => return (s, { prompts }, r.rest)
  | .malformed e => return (s, { prompts, err := e.message ++ "\n" }, r.rest)
  | .ended unfinished =>
    let err := if unfinished then inputName ++ ": unexpected end of input\n" else []
    return (s, { prompts, err, ended := true }, r.rest)
  | .complete m =>
    let before := ((← get).written s.sink).length
    let (s, err) ← s.exec m.asEntry
    return (s, { prompts, out := ((← get).written s.sink).drop before, err }, r.rest)

/-- Deal with entries until the input ends; every entry takes a line. -/
def steps [Application] (s : Session) : (fuel : Nat) → List Bytes →
    Action (Session × List SessionStep)
  | 0, _ => return (s, [])
  | fuel + 1, lines => do
    let (s, r, rest) ← s.step lines
    if r.ended then return (s, [r])
    let (s, rs) ← s.steps fuel rest
    return (s, r :: rs)

end Session

end Stencil
