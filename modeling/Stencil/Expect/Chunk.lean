import Stencil.Text.Case
import Stencil.Text.Quoted
import Stencil.Pattern.Search

/-!
# Files of test inputs

A file of test inputs is divided into chunks by lines of three hyphens. Each chunk is
one input; empty lines are put in front of it so that its lines have the numbers they
have in the file. A line with three number signs states that an error is expected on
this line: a quoted regular expression follows that matches its message. A chunk also
switches on the options whose names follow `option:` in it.

A chunk keeps the errors it expects. An error that occurs is checked against them and
settles the one on its line, and what is left in the end did not occur.
-/

namespace Stencil

/-- An error that is expected: the text of a regular expression, and what it means. -/
structure ExpectedError where
  text : Bytes
  pattern : Pattern

/-- Whether a message is the expected one. -/
def ExpectedError.accepts (e : ExpectedError) (msg : Bytes) : Bool := e.pattern.hasMatch msg

/-- What is wrong with a chunk. -/
inductive ChunkProblem where
  | unquoted (rest : Bytes)
  | badPattern (reason : Bytes)
  | unexpected (msg : Bytes)
  | mismatch (msg pattern : Bytes)
  | absent (pattern : Bytes)
  deriving DecidableEq, Repr

/-- The wording of a problem. -/
def ChunkProblem.text : ChunkProblem → Bytes
  | .unquoted rest => Bytes.ofString "not a quoted regexp: " ++ rest
  | .badPattern reason => reason
  | .unexpected msg => Bytes.ofString "unexpected error: " ++ msg
  | .mismatch msg pattern =>
    Bytes.ofString "error " ++ msg.quote ++ " does not match pattern " ++ pattern.quote
  | .absent pattern => Bytes.ofString "expected error matching " ++ pattern.quote

/-- A problem with the line it is on. -/
structure ChunkReport where
  line : Int
  problem : ChunkProblem
  deriving DecidableEq, Repr

/-- A report on a file, on a line of its own. -/
def ChunkReport.message (file : Bytes) (r : ChunkReport) : Bytes :=
  Bytes.ofString "\n" ++ file ++ ":" ++ Bytes.ofInt r.line ++ ": " ++ r.problem.text

/-- A part of a file. -/
structure Chunk where
  /-- The text, with empty lines in front. -/
  source : Bytes
  options : List Bytes
  /-- The errors that are still expected, by line. -/
  expected : List (Int × ExpectedError)

/-! ### Reading -/

/-- The lines of a text. -/
def linesOf (text : Bytes) : List Bytes := text.splitOn "\n"

/-- Whether a byte may occur in the name of an option. -/
def isOptionByte (b : UInt8) : Bool := 97 ≤ b && b ≤ 122 || b = 95

/-- The options named in a text. -/
def optionsIn : (fuel : Nat) → Bytes → List Bytes
  | 0, _ => []
  | _, [] => []
  | fuel + 1, b :: rest =>
    match Bytes.dropLeading? "option:" (b :: rest) with
    | none => optionsIn fuel rest
    | some tail =>
      let name := tail.takeWhile isOptionByte
      if name.isEmpty then optionsIn fuel rest
      else name :: optionsIn fuel (tail.dropWhile isOptionByte)

/-- The expectation on a line, if there is one. -/
def expectationIn? (line : Bytes) : Option (Except ChunkProblem ExpectedError) := do
  let (_, after) ← line.cut? "###"
  let rest := after.trim
  some <| match unquote? rest with
    | none => .error (.unquoted rest)
    | some text =>
      match Pattern.parse text with
      | .ok pattern => .ok ⟨text, pattern⟩
      | .error e => .error (.badPattern e.message)

/-- The expectations on lines, the first of which has the given number. -/
def expectationsFrom : (line : Nat) → List Bytes → List (Nat × Except ChunkProblem ExpectedError)
  | _, [] => []
  | n, l :: ls =>
    match expectationIn? l with
    | some e => (n, e) :: expectationsFrom (n + 1) ls
    | none => expectationsFrom (n + 1) ls

/-- The chunk of a text whose first line has the given number. -/
def Chunk.ofText (line : Nat) (text : Bytes) : Chunk where
  source := List.replicate (line - 1) 10 ++ text
  options := optionsIn text.length text
  expected := (expectationsFrom line (linesOf text)).filterMap fun (n, e) =>
    e.toOption.map fun x => ((n : Int), x)

/-- The problems with the expectations of a text. -/
def malformedExpectations (line : Nat) (text : Bytes) : List ChunkReport :=
  (expectationsFrom line (linesOf text)).filterMap fun (n, e) =>
    match e with
    | .ok _ => none
    | .error p => some ⟨n, p⟩

/-- The texts of chunks with the numbers of their first lines; the line between two
chunks counts. -/
def numberChunks : (line : Nat) → List Bytes → List (Nat × Bytes)
  | _, [] => []
  | n, t :: ts => (n, t) :: numberChunks (n + (linesOf t).length + 1) ts

/-- The texts of the chunks of a file, by the numbers of their first lines. -/
def chunkTexts (eol data : Bytes) : List (Nat × Bytes) :=
  numberChunks 1 (data.splitOn (eol ++ "---" ++ eol))

/-- The chunks of a file. -/
def readChunks (eol data : Bytes) : List Chunk :=
  (chunkTexts eol data).map fun (n, t) => .ofText n t

/-- What is wrong with the expectations in a file. -/
def readProblems (eol data : Bytes) : List ChunkReport :=
  (chunkTexts eol data).flatMap fun (n, t) => malformedExpectations n t

namespace Chunk

/-- Whether a chunk switches an option on. -/
def option (c : Chunk) (name : Bytes) : Bool := c.options.contains name

/-- Note an error that occurred. -/
def gotError (c : Chunk) (line : Int) (msg : Bytes) : Chunk × List ChunkReport :=
  match c.expected.lookup line with
  | none => (c, [⟨line, .unexpected msg⟩])
  | some e =>
    ({ c with expected := c.expected.filter fun x => x.1 ≠ line },
     if e.accepts msg then [] else [⟨line, .mismatch msg e.text⟩])

/-- Note errors in turn. -/
def gotErrors (c : Chunk) : List (Int × Bytes) → Chunk × List ChunkReport
  | [] => (c, [])
  | (line, msg) :: rest =>
    let (c, rs) := c.gotError line msg
    let (c, rs') := c.gotErrors rest
    (c, rs ++ rs')

/-- The errors that did not occur. -/
def done (c : Chunk) : List ChunkReport := c.expected.map fun (line, e) => ⟨line, .absent e.text⟩

end Chunk

end Stencil
