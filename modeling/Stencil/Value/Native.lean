import Stencil.Text.Bytes

/-!
# Built-in functions

The names of the functions and methods the language and its libraries provide.
What they do is defined with the libraries.
-/

namespace Stencil

/-- The functions every program can use. -/
inductive UniverseFn where
  | join | keys | len | lower | range | repr | str | type | upper
  deriving DecidableEq, Repr, Inhabited

/-- The methods of strings. -/
inductive TextMethod where
  | contains | endsWith | lower | replace | split | startsWith | trim | upper
  deriving DecidableEq, Repr, Inhabited

/-- The methods of lists. -/
inductive ListMethod where
  | append | clear | contains | join
  deriving DecidableEq, Repr, Inhabited

/-- The functions of the library for JSON text. -/
inductive JsonFn where
  | decode | encode | indent
  deriving DecidableEq, Repr, Inhabited

/-- The functions of the mathematical library. -/
inductive MathFn where
  | abs | ceil | floor | round | max | min | exp | log | pow | sqrt | acos | asin | atan | atan2
  | cos | hypot | sin | tan | degrees | radians
  deriving DecidableEq, Repr, Inhabited

/-- The forms in which messages are written and read. -/
inductive MessageForm where
  | wire | json | text
  deriving DecidableEq, Repr, Inhabited

/-- The functions of the library for messages. -/
inductive MessageFn where
  | clear | has | marshal (form : MessageForm) | unmarshal (form : MessageForm)
  deriving DecidableEq, Repr, Inhabited

/-- The methods of regular expressions. -/
inductive PatternMethod where
  | find | findAll | findSubmatches | matches | replaceAll | split
  deriving DecidableEq, Repr, Inhabited

/-- The functions of the library for times. -/
inductive TimeFn where
  | formatDuration | fromTimestamp | now | parseDuration | parseTime | sleep
  deriving DecidableEq, Repr, Inhabited

/-- The functions for writing tests. -/
inductive CheckFn where
  | assertEq | assertFails | assertTrue | catch | error | matches
  deriving DecidableEq, Repr, Inhabited

/-- A built-in function. Those of the host application are known by their names. -/
inductive Native where
  | universal (f : UniverseFn)
  | text (f : TextMethod)
  | list (f : ListMethod)
  | repeatedAppend
  | json (f : JsonFn)
  | math (f : MathFn)
  | message (f : MessageFn)
  | compilePattern
  | pattern (f : PatternMethod)
  | time (f : TimeFn)
  | check (f : CheckFn)
  | host (name : Bytes)
  deriving DecidableEq, Repr, Inhabited

/-- The name of a universal function. -/
def UniverseFn.name : UniverseFn → String
  | .join => "join"
  | .keys => "keys"
  | .len => "len"
  | .lower => "lower"
  | .range => "range"
  | .repr => "repr"
  | .str => "str"
  | .type => "type"
  | .upper => "upper"

/-- The name of a string method. -/
def TextMethod.name : TextMethod → String
  | .contains => "contains"
  | .endsWith => "endsWith"
  | .lower => "lower"
  | .replace => "replace"
  | .split => "split"
  | .startsWith => "startsWith"
  | .trim => "trim"
  | .upper => "upper"

/-- The name of a list method. -/
def ListMethod.name : ListMethod → String
  | .append => "append"
  | .clear => "clear"
  | .contains => "contains"
  | .join => "join"

/-- The name of a function for JSON text. -/
def JsonFn.name : JsonFn → String
  | .decode => "decode"
  | .encode => "encode"
  | .indent => "indent"

/-- The name of a mathematical function. -/
def MathFn.name : MathFn → String
  | .abs => "abs"
  | .ceil => "ceil"
  | .floor => "floor"
  | .round => "round"
  | .max => "max"
  | .min => "min"
  | .exp => "exp"
  | .log => "log"
  | .pow => "pow"
  | .sqrt => "sqrt"
  | .acos => "acos"
  | .asin => "asin"
  | .atan => "atan"
  | .atan2 => "atan2"
  | .cos => "cos"
  | .hypot => "hypot"
  | .sin => "sin"
  | .tan => "tan"
  | .degrees => "degrees"
  | .radians => "radians"

/-- The ending that names a form. -/
def MessageForm.ending : MessageForm → String
  | .wire => ""
  | .json => "JSON"
  | .text => "Text"

/-- The name of a function for messages. -/
def MessageFn.name : MessageFn → String
  | .clear => "clear"
  | .has => "has"
  | .marshal form => "marshal" ++ form.ending
  | .unmarshal form => "unmarshal" ++ form.ending

/-- The name of a method of regular expressions. -/
def PatternMethod.name : PatternMethod → String
  | .find => "find"
  | .findAll => "findAll"
  | .findSubmatches => "findSubmatches"
  | .matches => "matches"
  | .replaceAll => "replaceAll"
  | .split => "split"

/-- The name of a function for times. -/
def TimeFn.name : TimeFn → String
  | .formatDuration => "formatDuration"
  | .fromTimestamp => "fromTimestamp"
  | .now => "now"
  | .parseDuration => "parseDuration"
  | .parseTime => "parseTime"
  | .sleep => "sleep"

/-- The name of a function for tests. -/
def CheckFn.name : CheckFn → String
  | .assertEq => "assertEq"
  | .assertFails => "assertFails"
  | .assertTrue => "assertTrue"
  | .catch => "catch"
  | .error => "error"
  | .matches => "matches"

/-- The name of a built-in function in messages. Some libraries are part of it. -/
def Native.name : Native → Bytes
  | .universal f => f.name
  | .text f => f.name
  | .list f => f.name
  | .repeatedAppend => "append"
  | .json f => Bytes.ofString "json." ++ f.name
  | .math f => f.name
  | .message f => Bytes.ofString "proto." ++ f.name
  | .compilePattern => "regexp.compile"
  | .pattern f => f.name
  | .time f => Bytes.ofString "time." ++ f.name
  | .check f => f.name
  | .host name => name

/-- Every universal function, in the order of their names. -/
def UniverseFn.all : List UniverseFn :=
  [.join, .keys, .len, .lower, .range, .repr, .str, .type, .upper]

/-- Every string method, in the order of their names. -/
def TextMethod.all : List TextMethod :=
  [.contains, .endsWith, .lower, .replace, .split, .startsWith, .trim, .upper]

/-- Every list method, in the order of their names. -/
def ListMethod.all : List ListMethod := [.append, .clear, .contains, .join]

/-- Every method of regular expressions, in the order of their names. -/
def PatternMethod.all : List PatternMethod :=
  [.find, .findAll, .findSubmatches, .matches, .replaceAll, .split]

end Stencil
