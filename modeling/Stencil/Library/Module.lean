import Stencil.Library.Pattern
import Stencil.Library.Json
import Stencil.Library.Math
import Stencil.Library.Time

/-!
# Libraries

The libraries a host application can make available to programs, each a module of
functions, and the functions for writing tests.
-/

namespace Stencil

/-! ### Built-in functions by name -/

/-- Call a built-in function in a context. -/
def Native.run [Application] (fuel : Nat) (ctx : Nat) (fn : Native) (recv : Value)
    (args : List Value) : Job Value := do
  match fn, recv with
  | .universal f, _ => f.run fuel args
  | .text m, .string b => m.run b args
  | .list m, .list id => m.run fuel id args
  | .repeatedAppend, recv =>
    let x ← unpackOne "append" args
    appendRepeated fuel recv x
    return .null
  | .compilePattern, _ => newPattern args
  | .pattern m, .pattern id => m.run ctx id args
  | .json f, _ => f.run fuel args
  | .message f, _ => f.run fuel args
  | .math f, _ => f.run fuel args
  | .time f, _ => f.run ctx args
  | .check f, _ => f.run ctx args
  | .host name, _ => Application.native ctx name args
  | _, _ => return .null

/-! ### Libraries -/

/-- The members of a library. -/
def libraryMembers (name : String) : List (Bytes × Value) :=
  let fn (name : String) (f : Native) : Bytes × Value := (Bytes.ofString name, f.value)
  let float (name : String) (bits : UInt64) : Bytes × Value :=
    (Bytes.ofString name, .float (Float.ofBits bits))
  let span (name : String) (nanoseconds : Int64) : Bytes × Value :=
    (Bytes.ofString name, .int nanoseconds)
  match name with
  | "json" => [JsonFn.decode, .encode, .indent].map fun f => fn f.name (.json f)
  | "math" =>
    ([MathFn.abs, .ceil, .floor, .round, .max, .min, .exp, .log, .pow, .sqrt, .acos, .asin, .atan,
      .atan2, .cos, .hypot, .sin, .tan, .degrees, .radians].map fun f => fn f.name (.math f)) ++
    [float "e" 0x4005BF0A8B145769, float "phi" 0x3FF9E3779B97F4A8,
      float "pi" 0x400921FB54442D18]
  | "proto" =>
    [MessageFn.clear, .has, .marshal .wire, .marshal .json, .marshal .text, .unmarshal .wire,
      .unmarshal .json, .unmarshal .text].map fun f => fn f.name (.message f)
  | "regexp" => [fn "compile" .compilePattern]
  | "time" =>
    ([TimeFn.formatDuration, .fromTimestamp, .now, .parseDuration, .parseTime, .sleep].map
      fun f => fn f.name (.time f)) ++
    [span "nanosecond" 1, span "microsecond" 1000, span "millisecond" 1000000,
      span "second" 1000000000, span "minute" 60000000000, span "hour" 3600000000000]
  | _ => []

/-- A new module with the members of a library. -/
def newLibrary (name : Bytes) : Job Value := do
  let s ← get
  let cell : ModuleCell := ⟨name, libraryMembers (name.toString?.getD "")⟩
  set { s with modules := s.modules.push cell }
  return .module s.modules.size

/-- The functions for writing tests. -/
def checkFunctions : List (Bytes × Value) :=
  [CheckFn.assertEq, .assertFails, .assertTrue, .catch, .error, .matches].map fun f =>
    (Bytes.ofString f.name, (Native.check f).value)

end Stencil
