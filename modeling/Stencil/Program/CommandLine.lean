import Stencil.Program.Session
import Stencil.Program.Settings
import Stencil.Code.Printer
import Stencil.Library.Module

/-!
# The command line

The command runs a program given as an argument, in a file or on standard input.
Options come before the name of the file. Whatever the command needs from its
surroundings it asks for, so that what it does is a function of the answers.
-/

namespace Stencil

/-! ### Options -/

/-- What the command is asked to do. -/
structure Invocation where
  /-- The file for a profile of the run, which is created and left empty. -/
  profile : Bytes := []
  showEnv : Bool := false
  /-- The text of a program. -/
  program : Bytes := []
  settings : Bytes := []
  /-- The names of files with descriptions of messages, with commas between them. -/
  descriptors : Bytes := []
  noDebugInfo : Bool := false
  listing : Bool := false
  loads : List Bytes := []
  /-- The arguments after the options. -/
  rest : List Bytes := []
  deriving Repr, Inhabited

/-- An option of the command. -/
inductive Flag where
  | program | settings | profile | descriptors | listing | load | noDebugInfo | showEnv
  deriving DecidableEq, Repr

namespace Flag

/-- The options in the order in which they are explained. -/
def all : List Flag :=
  [.program, .settings, .profile, .descriptors, .listing, .load, .noDebugInfo, .showEnv]

/-- The name of an option. -/
def name : Flag → String
  | .program => "c"
  | .settings => "config"
  | .profile => "cpuprofile"
  | .descriptors => "descriptors"
  | .listing => "disassemble"
  | .load => "load"
  | .noDebugInfo => "nodebuginfo"
  | .showEnv => "showenv"

/-- Whether an option is switched on without a value. -/
def isSwitch : Flag → Bool
  | .listing | .noDebugInfo | .showEnv => true
  | _ => false

/-- What the value of an option is called, and the explanation of the option. -/
def help : Flag → String × String
  | .program => ("prog", "execute program prog")
  | .settings => ("file", "read settings from YAML file")
  | .profile => ("string", "gather Go CPU profile in this file")
  | .descriptors =>
    ("files", "comma-separated FileDescriptorSet files providing loadable message types")
  | .listing => ("", "show generated code of each module")
  | .load => ("namespace", "make namespace visible to the program (repeatable)")
  | .noDebugInfo => ("", "omit source positions from generated code")
  | .showEnv => ("", "on success, print final global environment")

/-- The option with a name. -/
def ofName? (name : Bytes) : Option Flag := all.find? fun f => Bytes.ofString f.name = name

/-- Set an option that takes a value. -/
def set (f : Flag) (value : Bytes) (i : Invocation) : Invocation :=
  match f with
  | .program => { i with program := value }
  | .settings => { i with settings := value }
  | .profile => { i with profile := value }
  | .descriptors => { i with descriptors := value }
  | .load => { i with loads := i.loads ++ [value] }
  | _ => i

/-- Set an option that is on or off. -/
def setSwitch (f : Flag) (on : Bool) (i : Invocation) : Invocation :=
  match f with
  | .listing => { i with listing := on }
  | .noDebugInfo => { i with noDebugInfo := on }
  | .showEnv => { i with showEnv := on }
  | _ => i

end Flag

/-- The explanation of all options. -/
def usage : Bytes :=
  Bytes.ofString "Usage of happy:\n" ++ Flag.all.flatMap fun f =>
    let (value, text) := f.help
    let head := if value.isEmpty then f.name else f.name ++ " " ++ value
    Bytes.ofString ("  -" ++ head ++ "\n    \t" ++ text ++ "\n")

/-- Why the options are not understood. -/
inductive UsageError where
  | malformed (arg : Bytes)
  | unknown (name : Bytes)
  | noValue (name : Bytes)
  | notBool (value name : Bytes)
  /-- The explanation was asked for. -/
  | help
  deriving DecidableEq, Repr

/-- The wording of an error. -/
def UsageError.message : UsageError → Bytes
  | .malformed arg => Bytes.ofString "bad flag syntax: " ++ arg ++ "\n"
  | .unknown name => Bytes.ofString "flag provided but not defined: -" ++ name ++ "\n"
  | .noValue name => Bytes.ofString "flag needs an argument: -" ++ name ++ "\n"
  | .notBool value name =>
    Bytes.ofString "invalid boolean value " ++ value.quote ++ " for -" ++ name ++ ": parse error\n"
  | .help => []

/-- Read a truth value. -/
def readSwitch? (value : Bytes) : Option Bool :=
  if ["1", "t", "T", "true", "TRUE", "True"].any fun w => Bytes.ofString w = value then some true
  else if ["0", "f", "F", "false", "FALSE", "False"].any fun w => Bytes.ofString w = value then
    some false
  else none

/-- The name of an option in an argument, without its hyphens; none if the options end
here. -/
def flagText? (arg : Bytes) : Option Bytes :=
  match arg with
  | 45 :: 45 :: name => some name
  | 45 :: c :: name => some (c :: name)
  | _ => none

/-- Read the options. -/
def readFlags (i : Invocation) : List Bytes → Except UsageError Invocation
  | [] => .ok { i with rest := [] }
  | arg :: rest =>
    match flagText? arg with
    | none => .ok { i with rest := arg :: rest }
    | some [] => .ok { i with rest }
    | some (c :: text) =>
      if c = 45 || c = 61 then .error (.malformed arg)
      else
        let (name, value?) : Bytes × Option Bytes := match Bytes.cut? text "=" with
          | some (before, after) => (c :: before, some after)
          | none => (c :: text, none)
        match Flag.ofName? name with
        | none =>
          if name = Bytes.ofString "help" || name = Bytes.ofString "h" then .error .help
          else .error (.unknown name)
        | some f =>
          if f.isSwitch then
            match value? with
            | none => readFlags (f.setSwitch true i) rest
            | some v =>
              match readSwitch? v with
              | some on => readFlags (f.setSwitch on i) rest
              | none => .error (.notBool v name)
          else
            match value?, rest with
            | some v, rest => readFlags (f.set v i) rest
            | none, v :: rest => readFlags (f.set v i) rest
            | none, [] => .error (.noValue name)

/-! ### The command -/

/-- What the command asks for. -/
inductive Request where
  /-- The content of a file. -/
  | file (path : Bytes)
  /-- What is on standard input. -/
  | input
  /-- That a file be created. -/
  | create (path : Bytes)
  deriving DecidableEq, Repr

/-- The course of the command. -/
inductive Command where
  /-- A question; there is no answer if a file cannot be opened. -/
  | ask (r : Request) (next : Option Bytes → Command)
  /-- The end: the exit status and what is written to the output and error streams. -/
  | exit (status : Nat) (out err : Bytes)

/-- End with an error before the program is run. -/
def Command.fatal (msg : Bytes) : Command := .exit 1 [] (Bytes.ofString "happy: " ++ msg ++ "\n")

/-- Ask for files one after the other and go on with all they hold. -/
def Command.readFiles (next : Bytes → Command) : (data : Bytes) → List Bytes → Command
  | data, [] => next data
  | data, path :: rest => .ask (.file path) fun content? =>
    match content? with
    | some content => readFiles next (data ++ content) rest
    | none => .fatal (missingFile path)

/-- What the program is run with. -/
structure Setup where
  store : Store
  opts : Options
  maxDepth : Nat := 0

/-- Do something with the store before the program is run. -/
def Setup.perform {α : Type} (u : Setup) (act : Action (Except Bytes α)) (next : α → Setup → Command) :
    Command :=
  match act u.store with
  | .ok (.ok a) store => next a { u with store }
  | .ok (.error msg) _ => .fatal msg
  | .error e _ => .fatal e.message

/-- Take the types from files with descriptions of messages. -/
def Setup.withDescriptors (u : Setup) (paths : List Bytes) (next : Setup → Command) : Command :=
  Command.readFiles (fun data => u.perform (loadDescriptors data) fun source u =>
    next { u with opts := { u.opts with catalog := some source } }) [] paths

/-- Take over settings. -/
def Setup.withSettings (u : Setup) (c : Settings) (next : Setup → Command) : Command :=
  u.perform (globalSettings c.globals) fun globals u =>
    let u := { u with
      maxDepth := c.maxCallDepth.toNat
      opts := { u.opts with
        load := u.opts.load ++ c.load.getD []
        debugInfo := u.opts.debugInfo && !c.noDebugInfo
        predeclared := sortEntries (u.opts.predeclared ++ globals) } }
    match c.descriptors.getD [] with
    | [] => next u
    | paths => u.withDescriptors paths next

/-- The libraries programs find under their names. -/
def standardLibraries : Action (List (Bytes × Value)) :=
  ["json", "math", "proto", "regexp", "time"].mapM fun (name : String) => do
    return (Bytes.ofString name, ← newLibrary (Bytes.ofString name))

/-- The code of a program as it is shown on demand. -/
def listingText [Host] (s : Store) (path : Bytes) (f : Lambda) : Bytes :=
  Bytes.ofString "# " ++ path ++ "\n" ++ f.code.render ⟨true, fun v => v.constantText s⟩ 1 ++ "\n"

/-- The global variables that the program has made. -/
def environmentText [Host] (s : Store) (opts : Options) (globals : Nat) : Bytes :=
  (s.object globals).flatMap fun (name, v) =>
    if opts.isPredeclared name then [] else name ++ Bytes.ofString " = " ++ v.repr s ++ "\n"

/-- Run a program and show its variables if that is asked for. -/
def runText [Application] (i : Invocation) (u : Setup) (path src : Bytes) : Command :=
  match compile path src u.opts 0 with
  | .error e => .exit 1 [] (e.message ++ "\n")
  | .ok f =>
    let shown := if i.listing then listingText u.store path f else []
    let act : Action (Nat × Nat × Except Failure Unit) := do
      let globals ← Action.newObject
      let sink ← Action.newSink
      let ctx ← Action.newContext
        { globals := some globals, sink := some sink, maxDepth := u.maxDepth }
      let p ← link path u.opts.predeclared f
      return (globals, sink, ← Action.attempt (p.run ampleFuel ctx))
    match act u.store with
    | .error e _ => .exit 2 [] (shown ++ e.message ++ "\n")
    | .ok (_, sink, .error e) s => .exit 1 (s.written sink) (shown ++ e.display)
    | .ok (globals, sink, .ok _) s =>
      .exit 0 (s.written sink)
        (shown ++ if i.showEnv then environmentText s u.opts globals else [])

/-- Find the program and run it. -/
def Invocation.execute [Application] (i : Invocation) (u : Setup) : Command :=
  if !i.program.isEmpty then runText i u "cmdline" i.program
  else
    match i.rest with
    | [path] => .ask (.file path) fun src? =>
      match src? with
      | some src => runText i u path src
      | none => .exit 1 [] (missingFile path ++ "\n")
    | [] => .ask .input fun src? => runText i u inputName (src?.getD [])
    | _ => .fatal "want at most one Happy file name"

/-- Prepare and run what is asked for. -/
def Invocation.start [Application] (i : Invocation) : Command :=
  let prepare : Command :=
    match standardLibraries { pools := #[Pool.standard] } with
    | .error e _ => .fatal e.message
    | .ok libraries store =>
      let u : Setup := {
        store
        opts := {
          predeclared := libraries
          catalog := some (Pool.standard.source 0)
          load := i.loads
          debugInfo := !i.noDebugInfo } }
      let finish (u : Setup) : Command :=
        if i.descriptors.isEmpty then i.execute u
        else u.withDescriptors (i.descriptors.splitOn ",") i.execute
      if i.settings.isEmpty then finish u
      else .ask (.file i.settings) fun text? =>
        match text? with
        | none => .fatal (missingFile i.settings)
        | some text =>
          match readSettings text with
          | .error msg => .fatal (i.settings ++ ": " ++ msg)
          | .ok c => u.withSettings c finish
  if i.profile.isEmpty then prepare
  else .ask (.create i.profile) fun done? =>
    if done?.isSome then prepare else .fatal (missingFile i.profile)

/-- The command with its arguments. -/
def runCommand [Application] (args : List Bytes) : Command :=
  match readFlags {} args with
  | .ok i => i.start
  | .error .help => .exit 0 [] usage
  | .error e => .exit 2 [] (e.message ++ usage)

/-- Answer the questions of a command from given files and input. Files can be created in
directories that exist. -/
def Command.answer (files : List (Bytes × Bytes)) (input : Bytes) : Command → Nat × Bytes × Bytes
  | .exit status out err => (status, out, err)
  | .ask (.file path) next => (next (files.lookup path)).answer files input
  | .ask .input next => (next (some input)).answer files input
  | .ask (.create path) next =>
    (next (if path.any (· = 47) then none else some [])).answer files input

end Stencil
