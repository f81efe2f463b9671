import Stencil.Machine.Universe
import Stencil.Time.Reading

/-!
# Times in programs

Instants are read and written by layouts, and durations are ints that count
nanoseconds. The clock and the sleep belong to the host application.
-/

namespace Stencil

/-- The zone with a name. Only universal time is known. -/
def zoneNamed (fn name : Bytes) : Job Zone :=
  if name.isEmpty || name = Bytes.ofString "UTC" then return .utc
  else if name.contains ".." || name.startsWith "/" || name.startsWith "\\" then
    Job.error (fn ++ ": time: invalid location name")
  else Job.error (fn ++ ": unknown time zone " ++ name)

/-- The current time of a context. -/
def currentTime (ctx : Nat) (fn : Bytes) : Job Value := do
  match (← Job.context ctx).clock with
  | .fixed t => return .moment t
  | .broken reason => Job.error (fn ++ ": " ++ reason)
  | .system => return .moment (← get).systemClock

/-- Call a function for times. -/
def TimeFn.run [Host] (ctx : Nat) (f : TimeFn) (args : List Value) : Job Value := do
  let name := (Native.time f).name
  match f with
  | .now =>
    let _ ← unpack name args 0 []
    currentTime ctx name
  | .parseTime =>
    let xs ← unpack name args 1 [.string, .string, .string]
    let text := (xs.headD .null).bytes
    let layout := (xs.getD 1 (.string internetLayout)).bytes
    let _ ← zoneNamed name (xs.getD 2 .null).bytes
    match readMoment layout text (← Job.freshStamp) with
    | .ok t => return .moment t
    | .error e => Job.error (name ++ ": " ++ e.message layout text)
  | .fromTimestamp =>
    return .moment ⟨(← unpackOne name args .int).int64.toInt, 0, .utc⟩
  | .parseDuration =>
    let text ← unpackText name args
    match readDuration text with
    | .ok d => return .int (Int64.ofInt d)
    | .error e => Job.error (name ++ ": " ++ e.message text)
  | .formatDuration =>
    return .string (durationText (← unpackOne name args .int).int64.toInt)
  | .sleep =>
    let d := (← unpackOne name args .int).int64.toInt
    Job.modify fun s => { s with slept := d :: s.slept }
    return .null

end Stencil
