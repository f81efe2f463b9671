import Stencil.Host.Slot

/-!
# Iteration

Lists and the like yield their elements, strings their characters, and the maps of
a host their keys in order. The elements of a sequence that satisfy a condition
are found by calling the condition as the iteration proceeds; a failure of the
condition ends the iteration and is kept.
-/

namespace Stencil

namespace Job

/-- A new cursor. -/
def newCursor (c : Cursor) : Job Nat := do
  let id := (← get).cursors.size
  modify fun s => { s with cursors := s.cursors.push c }
  return id

/-- Move a cursor. -/
def setCursor (id : Nat) (c : Cursor) : Job Unit :=
  Job.modify fun s => { s with cursors := s.cursors.setIfInBounds id c }

end Job

/-- A cursor over a value that is not itself a selection from another. -/
def startPlain [Host] (v : Value) : Job Nat := do
  match v with
  | .list id => Job.newCursor (.list id 0)
  | .repeated .. => Job.newCursor (.sequence v 0)
  | .string s => Job.newCursor (.text s)
  | .null => Job.error "cannot iterate over null"
  | .host t d =>
    if Host.isIterable t then
      Host.start v
      Job.newCursor (.host v 0)
    else if Host.isSequence t then Job.newCursor (.sequence v 0)
    else
      match t.base with
      | .slice _ | .array _ _ => Job.newCursor (.sequence v 0)
      | .map _ _ =>
        let s ← get
        let keys := (d.sortedKeys s t).map (Value.fromSlot t.key)
        match ← Job.newList keys.toArray with
        | .list id => Job.newCursor (.list id 0)
        | _ => Job.newCursor (.text [])
      | _ => Job.error (Bytes.ofString "cannot iterate over " ++ v.typeName (← get))
  | v => Job.error (Bytes.ofString "cannot iterate over " ++ v.typeName (← get))

/-- A cursor over the elements of a value. Selections may be nested up to `fuel` deep. -/
def startCursor [Host] : Nat → Value → Job Nat
  | 0, v => startPlain v
  | fuel + 1, v =>
    match v with
    | .filtered id => do
      let cell := (← get).filtered.getD id default
      match ← Job.attempt (startCursor fuel cell.source) with
      | .ok inner => Job.newCursor (.filtered cell.ctx cell.pred (some inner) none)
      | .error e => Job.newCursor (.filtered cell.ctx cell.pred none (some (.failed e)))
    | v => startPlain v

/-- A cursor over the elements of a value. -/
def iterate [Host] (v : Value) : Job Nat := do
  startCursor ((← get).filtered.size + 1) v

/-- The element of a sequence with positions, or of a host sequence. -/
def sequenceItem [Host] (s : Heap) (v : Value) (i : Nat) : Option Value :=
  match v.length? s with
  | some n => if i < n then some (v.item s i) else none
  | none =>
    match v with
    | .host t d => ((d.items s)[i]?).map (Value.fromSlot t.elem)
    | _ => none

/-- Search a sequence for the next element that satisfies a condition. -/
def searchNext {m : Type → Type} [Monad m] [MonadExceptOf Failure m] (next : m (Option Value))
    (test : Value → m Bool) : Nat → m (Option Value)
  | 0 => throw .exhausted
  | fuel + 1 => do
    match ← next with
    | none => return none
    | some x => if ← test x then return some x else searchNext next test fuel

/-- The next element of a cursor that selects nothing, moving it on. -/
def nextPlain [Host] (id : Nat) : Cursor → Job (Option Value)
  | .list l i => do
    match ((← get).list l)[i]? with
    | some x =>
      Job.setCursor id (.list l (i + 1))
      return some x
    | none => return none
  | .sequence v i => do
    match sequenceItem (← get) v i with
    | some x =>
      Job.setCursor id (.sequence v (i + 1))
      return some x
    | none => return none
  | .text rest => do
    match rest with
    | [] => return none
    | b :: bs =>
      let (g, n) := headGlyph b bs
      Job.setCursor id (.text (rest.drop n))
      return some (.string g.bytes)
  | .host v i => do
    match ← Host.advance v i with
    | some x =>
      Job.setCursor id (.host v (i + 1))
      return some x
    | none => return none
  | .filtered .. => return none

/-- The next element of a cursor, moving it on. `depth` bounds the nesting of selections
and `fuel` the elements passed over. -/
def nextElement [Host] (fuel : Nat) : Nat → Nat → Job (Option Value)
  | 0, _ => return none
  | depth + 1, id => do
    match (← get).cursors.getD id default with
    | .filtered ctx pred (some inner) none =>
      let outcome ← Job.attempt
        (searchNext (nextElement fuel depth inner)
          (fun x => do
            let ok ← Job.call ctx pred [x]
            return ok.truth (← get)) fuel)
      match outcome with
      | .ok r => return r
      | .error e =>
        Job.setCursor id (.filtered ctx pred (some inner) (some (.failed e)))
        return none
    | c => nextPlain id c

/-- The next element of a cursor. -/
def advance [Host] (fuel : Nat) (id : Nat) : Job (Option Value) := do
  nextElement fuel ((← get).cursors.size + 1) id

/-- End an iteration. -/
def closeCursor [Host] : Nat → Nat → Job Unit
  | 0, _ => return
  | depth + 1, id => do
    match (← get).cursors.getD id default with
    | .host v _ => Host.finish v
    | .filtered _ _ (some inner) _ => closeCursor depth inner
    | _ => return

/-- End an iteration. -/
def finish [Host] (id : Nat) : Job Unit := do
  closeCursor ((← get).cursors.size + 1) id

/-- Collect the remaining elements of a cursor, the last one first. A failure that ends
the iteration is not noticed. -/
def collectReversed [Host] (fuel : Nat) (id : Nat) :
    Nat → List Value → Job (List Value)
  | 0, _ => throw .exhausted
  | n + 1, seen => do
    match ← advance fuel id with
    | some x => collectReversed fuel id n (x :: seen)
    | none => return seen

/-- The elements of a value. -/
def Value.elements [Host] (fuel : Nat) (v : Value) : Job (List Value) := do
  let id ← iterate v
  let xs ← collectReversed fuel id fuel []
  finish id
  return xs.reverse

/-! ### The loop of a for statement -/

/-- The state of a loop over a value. -/
def newEnumerator [Host] (v : Value) : Job Value := do
  let cursor ← iterate v
  let s ← get
  set { s with enumerators := s.enumerators.push { cursor } }
  return .enumerator s.enumerators.size

/-- Change the state of a loop. -/
def Job.setEnumerator (id : Nat) (e : EnumeratorCell) : Job Unit :=
  Job.modify fun s => { s with enumerators := s.enumerators.setIfInBounds id e }

/-- The elements of a value that satisfy a condition. The value must be iterable. -/
def newFiltered [Host] (ctx : Nat) (source pred : Value) : Job Value := do
  let cursor ← iterate source
  finish cursor
  let s ← get
  set { s with filtered := s.filtered.push { ctx, source, pred } }
  return .filtered s.filtered.size

end Stencil
