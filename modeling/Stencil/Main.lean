import Stencil.Program.CommandLine
import Stencil.Host.Basic

/-!
# The command

Answers the questions of the command from the file system and standard input.
-/

namespace Stencil

/-- Write bytes to a stream. -/
def writeBytes (stream : IO.FS.Stream) (b : Bytes) : IO Unit :=
  stream.write (ByteArray.mk b.toArray)

/-- The outcome of an operation that may not be possible. -/
def attempted {α : Type} (act : IO α) : IO (Option α) :=
  try return some (← act) catch _ => return none

/-- The answer to a question of the command. -/
def Request.answer (r : Request) : IO (Option Bytes) := do
  match r with
  | .file path =>
    let content ← attempted (IO.FS.readBinFile (path.toString?.getD ""))
    return content.map (·.toList)
  | .input => return some (← (← IO.getStdin).readBinToEnd).toList
  | .create path =>
    let done ← attempted (IO.FS.writeFile (path.toString?.getD "") "")
    return done.map fun _ => []

/-- Follow the course of the command to its end. -/
def Command.perform : Command → IO UInt32
  | .exit status out err => do
    writeBytes (← IO.getStdout) out
    writeBytes (← IO.getStderr) err
    return status.toUInt32
  | .ask r next => do (next (← r.answer)).perform

end Stencil

/-- Run the command with the arguments of the process. -/
def main (args : List String) : IO UInt32 :=
  let _ := Stencil.standalone
  (Stencil.runCommand (args.map Stencil.Bytes.ofString)).perform
