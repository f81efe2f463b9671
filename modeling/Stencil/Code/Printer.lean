import Stencil.Code.Basic
import Stencil.Value.Basic

/-!
# The written form of code

Code is written as nested parenthesised lists, either on one line or with every
compound part on a line of its own, indented by its depth.
-/

namespace Stencil

/-- How code is laid out. `other` writes constants that are not basic values. -/
structure CodeLayout where
  indent : Bool
  other : Value → Bytes

/-- A part of a written list: its text, and whether it always stays on the line. -/
structure Piece where
  inline : Bool
  text : Bytes

/-- Whether a node always stays on the line of the list it is part of. -/
def Code.isInline : Code → Bool
  | .constant _ | .var _ | .empty => true
  | _ => false

/-- Code, written as `text`, as a part of a list. -/
def Piece.of (c : Code) (text : Bytes) : Piece := ⟨c.isInline, text⟩

/-- Code that may be missing as part of a list. -/
def Piece.optional (c : Code) (text : Bytes) : List Piece :=
  if c.isAbsent then [] else [.of c text]

/-- A parenthesised list whose parts stand at the given depth. -/
def CodeLayout.compound (l : CodeLayout) (depth : Nat) (head : Bytes) (atoms : List Bytes)
    (parts : List Piece) : Bytes :=
  let front := Bytes.join " " ((if head.isEmpty then [] else [head]) ++ atoms)
  let rec tail (first : Bool) : List Piece → Bytes
    | [] => []
    | p :: ps =>
      let gap : Bytes :=
        if l.indent && !p.inline then Bytes.ofString "\n" ++ Bytes.times "  " depth
        else if first then [] else " "
      gap ++ p.text ++ tail false ps
  Bytes.ofString "(" ++ front ++ tail front.isEmpty parts ++ ")"

/-- The text of a constant. -/
def CodeLayout.constant (l : CodeLayout) : Value → Bytes
  | .null => "null"
  | .string s => s.quote
  | v => v.basicText?.getD (l.other v)

/-- The names of variables in brackets. -/
def variableList (vs : List Variable) : Bytes :=
  Bytes.ofString "[" ++ Bytes.join " " (vs.map (·.name)) ++ "]"

mutual

/-- The text of code whose parts stand at depth `d`. -/
def Code.render (l : CodeLayout) (d : Nat) : Code → Bytes
  | .absent => "<nil>"
  | .constant v => l.constant v
  | .var v => v.name
  | .empty => "(Empty)"
  | .block vars items =>
    l.compound d "Block" (if vars.isEmpty then [] else [variableList vars])
      (renderAll l d items)
  | .assign v x => l.compound d "Assign" [v.name] [.of x (x.render l (d + 1))]
  | .lambda _ name params _ body =>
    l.compound d "Lambda" [name, variableList params] [.of body (body.render l (d + 1))]
  | .cond test yes no =>
    l.compound d "If" []
      (Piece.optional test (test.render l (d + 1)) ++ Piece.optional yes (yes.render l (d + 1)) ++
        Piece.optional no (no.render l (d + 1)))
  | .not x => l.compound d "Not" [] [.of x (x.render l (d + 1))]
  | .toBool x => l.compound d "ToBool" [] [.of x (x.render l (d + 1))]
  | .andAlso x y =>
    l.compound d "AndAlso" [] [.of x (x.render l (d + 1)), .of y (y.render l (d + 1))]
  | .orElse x y =>
    l.compound d "OrElse" [] [.of x (x.render l (d + 1)), .of y (y.render l (d + 1))]
  | .loop brk cont body =>
    l.compound d "Loop" (brk.name :: (cont.map (·.name)).toList)
      [.of body (body.render l (d + 1))]
  | .label t dflt => l.compound d "Label" [t.name] (Piece.optional dflt (dflt.render l (d + 1)))
  | .goto t value => l.compound d "Goto" [t.name] (Piece.optional value (value.render l (d + 1)))
  | .switch x cases dflt _ =>
    l.compound d "Switch" []
      (.of x (x.render l (d + 1)) :: renderAll l d cases ++
        (if dflt.isAbsent then [] else
          [⟨false, l.compound (d + 1) "Default" [] [.of dflt (dflt.render l (d + 2))]⟩]))
  | .case values body =>
    l.compound d "Case" []
      [⟨false, l.compound (d + 1) [] [] (renderAll l (d + 1) values)⟩,
        .of body (body.render l (d + 1))]
  | .tryFinally x y =>
    l.compound d "TryFinally" [] [.of x (x.render l (d + 1)), .of y (y.render l (d + 1))]
  | .contextCall method ctx args =>
    l.compound d method.name [] (.of ctx (ctx.render l (d + 1)) :: renderAll l d args)
  | .dynamic site args => l.compound d site.text [] (renderAll l d args)
  | .iterate x => l.compound d "Iterate" [] [.of x (x.render l (d + 1))]
  | .moveNext x => l.compound d "MoveNext" [] [.of x (x.render l (d + 1))]
  | .current x => l.compound d "Current" [] [.of x (x.render l (d + 1))]
  | .filter x p => l.compound d "Where" [] [.of x (x.render l (d + 1)), .of p (p.render l (d + 1))]
  | .list items => l.compound d "List" [] (renderAll l d items)
  | .debug pos x => l.compound d "Debug" [pos.lineCol] [.of x (x.render l (d + 1))]

/-- Several pieces of code as the parts of a list at depth `d`. -/
def renderAll (l : CodeLayout) (d : Nat) : List Code → List Piece
  | [] => []
  | c :: cs => .of c (c.render l (d + 1)) :: renderAll l d cs

end

end Stencil
