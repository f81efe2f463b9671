import Stencil.Library.Replacement
import Stencil.Machine.Universe
import Stencil.Pattern.Search

/-!
# Regular expressions in programs

A program compiles the text of a regular expression once and then calls its methods.
-/

namespace Stencil

/-! ### Compiled expressions -/

/-- Read a regular expression on behalf of a function. -/
def patternFor (fn text : Bytes) : Job Pattern :=
  match Pattern.parse text with
  | .ok p => return p
  | .error e => Job.error (fn ++ ": " ++ e.message)

/-- Whether an escape for a single byte occurs, after `run` backslashes. -/
def hasByteEscape (run : Nat) : Bytes → Bool
  | [] => false
  | b :: rest =>
    if b = backslash then hasByteEscape (run + 1) rest
    else (b = 67 && run % 2 = 1) || hasByteEscape 0 rest

/-- Compile the text of a regular expression. -/
def newPattern [Host] (args : List Value) : Job Value := do
  let name := Native.compilePattern.name
  let text ← unpackText name args
  if hasByteEscape 0 text then
    Job.error (name ++ ": the byte-oriented pattern \\C is not supported")
  let _ ← patternFor name text
  let s ← get
  set { s with patterns := s.patterns.push text }
  return .pattern s.patterns.size

/-- The texts of a match and its groups. -/
def Extents.texts (e : Extents) (text : Bytes) : List Bytes :=
  (List.range (e.size / 2)).map fun n =>
    match e.span? n with
    | some (i, j) => (text.drop i).take (j - i)
    | none => []

/-- The text of a match. -/
def Extents.text (e : Extents) (text : Bytes) : Bytes := (e.texts text).headD []

/-- The texts that replace matches, as a function gives them. -/
def replaceBy [Host] (ctx : Nat) (fn : Bytes) (f : Value) (text : Bytes) :
    List (Extents × Bool) → Job (List (Extents × Option Bytes))
  | [] => return []
  | (e, false) :: rest => do return (e, none) :: (← replaceBy ctx fn f text rest)
  | (e, true) :: rest => do
    match ← Job.call ctx f [.string (e.text text)] with
    | .string new => return (e, some new) :: (← replaceBy ctx fn f text rest)
    | v =>
      Job.error (fn ++ ": replacement function returned " ++ v.typeName (← get) ++
        ", want string")

/-- Call a method of a regular expression. -/
def PatternMethod.run [Host] (ctx : Nat) (m : PatternMethod) (id : Nat)
    (args : List Value) : Job Value := do
  let name := Bytes.ofString m.name
  let p ← patternFor name ((← get).patterns.getD id [])
  let limited : Job (Bytes × Int) := do
    let xs ← unpack name args 1 [.string, .int]
    return ((xs.headD .null).bytes, (xs.getD 1 (.int (-1))).int64.toInt)
  match m with
  | .matches => return .bool (p.hasMatch (← unpackText name args))
  | .find =>
    let text ← unpackText name args
    return .string (((p.find? (.ofBytes text) 0).map (·.text text)).getD [])
  | .findAll =>
    let (text, limit) ← limited
    stringList ((p.findAll text limit).map (·.text text))
  | .findSubmatches =>
    let text ← unpackText name args
    stringList (((p.find? (.ofBytes text) 0).map (·.texts text)).getD [])
  | .replaceAll =>
    let xs ← unpack name args 2 [.string, .value]
    let text := (xs.headD .null).bytes
    let found := p.replacements text
    match xs.getD 1 .null with
    | .string new =>
      return .string (Pattern.substitute text 0 (found.map fun (e, replaced) =>
        (e, if replaced then some (expandReplacement p.names (e.texts text) new) else none)))
    | f =>
      if f.isCallable then
        return .string (Pattern.substitute text 0 (← replaceBy ctx name f text found))
      else
        Job.error (name ++ ": got " ++ f.typeName (← get) ++ ", want string or function")
  | .split =>
    let (text, limit) ← limited
    stringList (p.split text limit)

/-!
## Functions for tests

A test program states what it expects. What does not hold is reported to the host
application with the calls that led to it, and the program goes on.
-/

/-- Report what does not hold. -/
def report (ctx : Nat) (msg : Bytes) : Job Unit := do
  let calls : Bytes := (← Job.callStack ctx).flatMap fun f => f.text ++ Bytes.ofString "\n"
  if (← Job.context ctx).hasReporter then
    Job.modify fun s => { s with reports := (calls ++ "Error: " ++ msg) :: s.reports }
  else Job.panic "internal error: happytest.SetReporter was not called"

/-- Call a function for tests. -/
def CheckFn.run [Host] (ctx : Nat) (f : CheckFn) (args : List Value) :
    Job Value := do
  let name := Bytes.ofString f.name
  match f with
  | .assertEq =>
    let xs ← unpack name args 2 [.value, .value]
    let x := xs.headD .null
    let y := xs.getD 1 .null
    let s ← get
    if !x.equal s y then report ctx (x.repr s ++ " != " ++ y.repr s)
    return .null
  | .assertTrue =>
    let xs ← unpack name args 1 [.value, .string]
    match xs.headD .null with
    | .bool true => return .null
    | x =>
      let s ← get
      let msg := (xs.getD 1 .null).bytes
      report ctx (if msg.isEmpty then Bytes.ofString "got " ++ x.repr s ++ ", want true" else msg)
      return .null
  | .assertFails =>
    let xs ← unpack name args 2 [.callable, .string]
    let text := (xs.getD 1 .null).bytes
    let p ← patternFor name text
    match ← Job.attempt (Job.call ctx (xs.headD .null) []) with
    | .ok _ =>
      report ctx (Bytes.ofString "evaluation succeeded unexpectedly (want error matching " ++
        text.quote ++ ")")
    | .error e =>
      if !p.hasMatch e.message then
        report ctx (Bytes.ofString "regular expression (" ++ text ++ ") did not match error (" ++
          e.message ++ ")")
    return .null
  | .catch =>
    match ← Job.attempt (Job.call ctx (← unpackOne name args .callable) []) with
    | .ok _ => return .null
    | .error e => return .string e.message
  | .error =>
    let x ← unpackOne name args
    report ctx (x.text (← get))
    return .null
  | .matches =>
    let xs ← unpack name args 2 [.string, .string]
    let p ← patternFor name (xs.headD .null).bytes
    return .bool (p.hasMatch (xs.getD 1 .null).bytes)

end Stencil
