import Stencil.Proofs.Machine.Manners
import Stencil.Library.Module
import Stencil.Dispatch.Invoke
import Stencil.Machine.Evaluate

/-!
# The library minds its manners

No job of the library does anything to the heap, or fails in any way, that the manners of jobs rule
out: lists, objects and messages are made and changed, iterations are begun and moved on, values are
converted and functions are called. A job is made of such parts by the few ways to put jobs
together, so there is one lemma for each, and it follows from those on its parts.

## What is assumed

Whatever the host adds keeps to the manners as well: `Host.Mannered`, `Application.Mannered`.
-/

namespace Stencil

attribute [grind ←] Job.Mannered.bind Job.mannered_pure Job.mannered_error Job.mannered_panic
  Job.mannered_get Job.mannered_query Job.Mannered.explaining Job.mannered_rethrow
  Job.mannered_throw

/-- Whatever the host does of its own keeps to the manners, and so does what it passes on if the
calls do that it is given. -/
class Host.Mannered [Host] (M : Manners) : Prop where
  start : ∀ v, (Host.start v).Mannered M
  advance : ∀ v i, (Host.advance v i).Mannered M
  finish : ∀ v, (Host.finish v).Mannered M
  callMethod : ∀ {call : HostCall}, (∀ fn args, (call fn args).Mannered M) →
    ∀ recv name args, (Host.callMethod call recv name args).Mannered M
  callFunction : ∀ {call : HostCall}, (∀ fn args, (call fn args).Mannered M) →
    ∀ name args, (Host.callFunction call name args).Mannered M
  make : ∀ {name make}, Host.registered? name = some (.maker make) →
    ∀ args, (make args).Mannered M

/-- The functions made for the language keep to the manners, too. -/
class Application.Mannered [Application] (M : Manners) : Prop extends Host.Mannered M where
  native : ∀ ctx name args, (Application.native ctx name args).Mannered M

attribute [grind ←] Host.Mannered.start Host.Mannered.advance Host.Mannered.finish
  Host.Mannered.callMethod Host.Mannered.callFunction Application.Mannered.native

variable {M : Manners}

namespace Job

@[grind ←]
theorem Mannered.attempt {α : Type} {job : Job α} (h : job.Mannered M) :
    (Job.attempt job).Mannered M := by
  intro s
  refine Meets.handle ((h s).bind fun a h' _ => trivial) fun e h' he => ?_
  split
  · trivial
  · exact he

@[grind ←]
theorem mannered_freshStamp : freshStamp.Mannered M := by
  refine mannered_get fun h => Mannered.bind ?_ fun _ => mannered_pure _
  exact mannered_change (fun _ => rfl) fun _ => rfl

@[grind ←]
theorem mannered_newList (items : Array Value) : (newList items).Mannered M := by
  refine mannered_get fun h => Mannered.bind ?_ fun _ => mannered_pure _
  exact mannered_change (fun _ => rfl) fun _ => rfl

@[grind ←]
theorem mannered_listItems (id : Nat) : (listItems id).Mannered M := by
  unfold listItems
  grind

@[grind ←]
theorem mannered_modifyList (id : Nat) (f : Array Value → Array Value) :
    (modifyList id f).Mannered M :=
  mannered_change (fun _ => rfl) fun _ => rfl

@[grind ←]
theorem mannered_newObject (fields : List (Bytes × Value)) : (newObject fields).Mannered M := by
  refine mannered_get fun _ => Mannered.bind ?_ fun _ => mannered_pure _
  exact mannered_modify fun h => M.of_retains (.push h fields) rfl

@[grind ←]
theorem mannered_setField (id : Nat) (name : Bytes) (v : Value) : (setField id name v).Mannered M :=
  mannered_modify fun h => M.of_retains (.setField h id name v) rfl

@[grind ←]
theorem mannered_newArray (items : Array Datum) : (newArray items).Mannered M :=
  mannered_get_at fun _ => meets_set (M.of_eq rfl rfl) (mannered_pure _)

@[grind ←]
theorem mannered_newMap (entries : List (Datum × Datum)) : (newMap entries).Mannered M :=
  mannered_get_at fun _ => meets_set (M.of_eq rfl rfl) (mannered_pure _)

@[grind ←]
theorem mannered_newCell (d : Datum) : (newCell d).Mannered M :=
  mannered_get_at fun _ => meets_set (M.of_eq rfl rfl) (mannered_pure _)

@[grind ←]
theorem mannered_setItem (d : Datum) (i : Nat) (x : Datum) : (setItem d i x).Mannered M := by
  unfold setItem
  split
  · exact mannered_change (fun _ => rfl) fun _ => rfl
  · grind
  · grind

@[grind ←]
theorem mannered_newMessage (t : MessageType) : (newMessage t).Mannered M :=
  mannered_get_at fun _ => meets_set (M.of_eq rfl rfl) (mannered_pure _)

@[grind ←]
theorem mannered_message (id : Nat) : (message id).Mannered M := by
  unfold message
  grind

@[grind ←]
theorem mannered_modifyMessage (id : Nat) (f : MessageCell → MessageCell) :
    (modifyMessage id f).Mannered M :=
  mannered_change (fun _ => rfl) fun _ => rfl

@[grind ←]
theorem mannered_newFieldList (items : Array FieldValue) : (newFieldList items).Mannered M :=
  mannered_get_at fun _ => meets_set (M.of_eq rfl rfl) (mannered_pure _)

@[grind ←]
theorem mannered_modifyFieldList (id : Nat) (f : Array FieldValue → Array FieldValue) :
    (modifyFieldList id f).Mannered M :=
  mannered_change (fun _ => rfl) fun _ => rfl

@[grind ←]
theorem mannered_setEnumerator (id : Nat) (e : EnumeratorCell) : (setEnumerator id e).Mannered M :=
  mannered_change (fun _ => rfl) fun _ => rfl

/-- A cursor that no failure has ended. -/
theorem mannered_newCursor {c : Cursor} (hc : ∀ e, c.EndedBy e → M.failure e) :
    (newCursor c).Mannered M := by
  refine mannered_get fun _ => Mannered.bind ?_ fun _ => mannered_pure _
  exact mannered_modify fun h => M.pushCursor h hc

theorem mannered_setCursor (id : Nat) {c : Cursor} (hc : ∀ e, c.EndedBy e → M.failure e) :
    (setCursor id c).Mannered M :=
  mannered_modify fun h => M.setCursor h id hc

@[grind ←]
theorem mannered_call (ctx : Nat) (fn : Value) (args : List Value) :
    (call ctx fn args).Mannered M :=
  mannered_query _

end Job

/-! ### Operators and arguments -/
@[grind ←]
theorem mannered_repeatString (b : Bytes) (n : Int64) : (repeatString b n).Mannered M := by
  unfold repeatString
  grind

@[grind ←]
theorem mannered_repeatList (id : Nat) (n : Int64) : (repeatList id n).Mannered M := by
  unfold repeatList
  grind

@[grind ←]
theorem mannered_intArithmetic (op : BinaryOp) (x y : Int64) :
    (intArithmetic op x y).Mannered M := by
  unfold intArithmetic
  grind

@[grind ←]
theorem mannered_floatArithmetic (op : BinaryOp) (x y : Float) :
    (floatArithmetic op x y).Mannered M := by
  unfold floatArithmetic
  grind

section

variable [Host]

@[grind ←]
theorem mannered_unknownBinary (op : Operator) (x y : Value) :
    (unknownBinary op x y).Mannered M := by
  unfold unknownBinary
  grind

@[grind ←]
theorem mannered_addValues (x y : Value) : (addValues x y).Mannered M := by
  unfold addValues
  grind

@[grind ←]
theorem mannered_applyBinary (op : Operator) (x y : Value) : (applyBinary op x y).Mannered M := by
  unfold applyBinary
  grind

@[grind ←]
theorem mannered_applyUnary (op : Operator) (x : Value) : (applyUnary op x).Mannered M := by
  unfold applyUnary
  grind

theorem takeArgs_unplaced (s : Heap) (fn : Bytes) (i : Nat) (args : List Value)
    (kinds : List ArgKind) : ∀ e ∈ (takeArgs s fn i args kinds).2, e.isPlaced = false := by
  fun_induction takeArgs s fn i args kinds <;> simp_all [Failure.isPlaced]

theorem takeArguments_unplaced (s : Heap) (fn : Bytes) (args : List Value) (least : Nat)
    (kinds : List ArgKind) : ∀ e ∈ (takeArguments s fn args least kinds).2, e.isPlaced = false := by
  unfold takeArguments
  split
  · simp [Failure.isPlaced]
  · split
    · simp [Failure.isPlaced]
    · exact takeArgs_unplaced _ _ _ _ _

@[grind ←]
theorem mannered_unpack (fn : Bytes) (args : List Value) (least : Nat) (kinds : List ArgKind) :
    (unpack fn args least kinds).Mannered M := by
  unfold unpack
  grind [takeArguments_unplaced]

@[grind ←]
theorem mannered_unpackOne (fn : Bytes) (args : List Value) (kind : ArgKind) :
    (unpackOne fn args kind).Mannered M := by
  unfold unpackOne
  grind

@[grind ←]
theorem mannered_unpackText (fn : Bytes) (args : List Value) : (unpackText fn args).Mannered M := by
  unfold unpackText
  grind

/-! ### Iteration -/

variable [Host.Mannered M]

/-- Whether a cursor is a search that a failure has ended. -/
@[grind]
def Cursor.isEnded : Cursor → Bool
  | .filtered _ _ _ (some (.failed _)) => true
  | _ => false

omit [Host] in
theorem not_endedBy {c : Cursor} (h : c.isEnded = false) (e : Failure) : ¬ c.EndedBy e := by
  rintro ⟨ctx, pred, inner, rfl⟩
  cases h

omit [Host] [Host.Mannered M] in
@[grind ←]
theorem mannered_newPlain {c : Cursor} (h : c.isEnded = false) : (Job.newCursor c).Mannered M :=
  Job.mannered_newCursor fun e he => absurd he (not_endedBy h e)

@[grind ←]
theorem mannered_startPlain (v : Value) : (startPlain v).Mannered M := by
  cases v with
  | host t d =>
    refine Job.mannered_ite (by grind) (Job.mannered_ite (by grind) ?_)
    split
    case h_3 => exact Job.mannered_get fun s => (Job.mannered_newList _).bind (by grind)
    all_goals grind
  | _ =>
    unfold startPlain
    grind

@[grind ←]
theorem mannered_startCursor (fuel : Nat) (v : Value) : (startCursor fuel v).Mannered M := by
  induction fuel generalizing v with
  | zero => exact mannered_startPlain v
  | succ fuel ih =>
    unfold startCursor
    split
    · refine Job.mannered_get fun s => (ih _).attempt_bind (fun _ => ?_) fun e he => ?_
      · grind
      · refine Job.mannered_newCursor ?_
        rintro _ ⟨_, _, _, ⟨⟩⟩
        exact he
    · exact mannered_startPlain v

@[grind ←]
theorem mannered_iterate (v : Value) : (iterate v).Mannered M := by
  unfold iterate
  grind

omit [Host] [Host.Mannered M] in
@[grind ←]
theorem mannered_searchNext {next : Job (Option Value)} {test : Value → Job Bool}
    (hn : next.Mannered M) (ht : ∀ x, (test x).Mannered M) (fuel : Nat) :
    (searchNext next test fuel).Mannered M := by
  induction fuel with
  | zero => exact Job.mannered_throw rfl
  | succ fuel ih =>
    unfold searchNext
    grind

omit [Host] [Host.Mannered M] in
@[grind ←]
theorem mannered_moveCursor (id : Nat) {c : Cursor} (h : c.isEnded = false) :
    (Job.setCursor id c).Mannered M :=
  Job.mannered_setCursor id fun e he => absurd he (not_endedBy h e)

@[grind ←]
theorem mannered_nextPlain (id : Nat) (c : Cursor) : (nextPlain id c).Mannered M := by
  unfold nextPlain
  grind

@[grind ←]
theorem mannered_nextElement (fuel depth id : Nat) : (nextElement fuel depth id).Mannered M := by
  induction depth generalizing id with
  | zero => exact Job.mannered_pure none
  | succ depth ih =>
    refine Job.mannered_get fun s => ?_
    split
    · refine (mannered_searchNext (ih _) (fun x => by grind) fuel).attempt_bind
        (fun _ => Job.mannered_pure _) fun e he => Job.Mannered.bind ?_ fun _ => Job.mannered_pure _
      refine Job.mannered_setCursor id ?_
      rintro _ ⟨_, _, _, ⟨⟩⟩
      exact he
    · exact mannered_nextPlain _ _

@[grind ←]
theorem mannered_advance (fuel id : Nat) : (advance fuel id).Mannered M := by
  unfold advance
  grind

@[grind ←]
theorem mannered_closeCursor (depth id : Nat) : (closeCursor depth id).Mannered M := by
  induction depth generalizing id with
  | zero => exact Job.mannered_pure _
  | succ depth ih =>
    unfold closeCursor
    grind

@[grind ←]
theorem mannered_finish (id : Nat) : (finish id).Mannered M := by
  unfold finish
  grind

@[grind ←]
theorem mannered_collectReversed (fuel id n : Nat) (seen : List Value) :
    (collectReversed fuel id n seen).Mannered M := by
  induction n generalizing seen with
  | zero => exact Job.mannered_throw rfl
  | succ n ih =>
    unfold collectReversed
    grind

@[grind ←]
theorem mannered_elements (fuel : Nat) (v : Value) : (v.elements fuel).Mannered M := by
  unfold Value.elements
  grind

@[grind ←]
theorem mannered_newEnumerator (v : Value) : (newEnumerator v).Mannered M :=
  (mannered_iterate v).bind fun _ => Job.mannered_get_at fun _ => Job.meets_set (M.of_eq rfl rfl)
    (Job.mannered_pure _)

@[grind ←]
theorem mannered_newFiltered (ctx : Nat) (source pred : Value) :
    (newFiltered ctx source pred).Mannered M :=
  (mannered_iterate source).bind fun cursor => (mannered_finish cursor).bind fun _ =>
    Job.mannered_get_at fun _ => Job.meets_set (M.of_eq rfl rfl) (Job.mannered_pure _)

/-! ### Conversions -/

omit [Host.Mannered M] in
@[grind ←]
theorem mannered_cannotConvert (x : Value) (t : HostType) : (cannotConvert x t).Mannered M := by
  unfold cannotConvert
  grind

omit [Host] [Host.Mannered M] in
@[grind ←]
theorem mannered_convertInt (n : Int) (k : IntKind) (t : HostType) :
    (convertInt n k t).Mannered M := by
  unfold convertInt
  grind

omit [Host.Mannered M] in
@[grind ←]
theorem mannered_convertItems {convert : Value → Job Datum} {next : Job (Option Value)}
    (hc : ∀ x, (convert x).Mannered M) (hn : next.Mannered M) (fuel i : Nat) (done : Array Datum) :
    (convertItems convert next fuel i done).Mannered M := by
  induction fuel generalizing i done with
  | zero => exact Job.mannered_throw rfl
  | succ fuel ih =>
    unfold convertItems
    grind

omit [Host.Mannered M] in
@[grind ←]
theorem mannered_convertFields {convert : Value → Job Datum}
    (hc : ∀ x, (convert x).Mannered M) (fields : List (Bytes × Value)) :
    (convertFields convert fields).Mannered M := by
  induction fields with
  | nil => exact Job.mannered_pure _
  | cons f fs ih =>
    unfold convertFields
    grind

@[grind ←]
theorem mannered_convertBase (fuel : Nat) {item : HostType → Value → Job Datum}
    (hi : ∀ t x, (item t x).Mannered M) (t base : HostType) (x : Value) :
    (convertBase fuel item t base x).Mannered M := by
  unfold convertBase
  split
  case h_9 =>
    refine (mannered_iterate x).attempt_bind (fun cursor => ?_) (by grind)
    refine Job.Mannered.attempt_bind (by grind) (fun items => ?_) fun e he => ?_
    · grind
    · grind
  all_goals grind

@[grind ←]
theorem mannered_convertTo (fuel depth : Nat) (t : HostType) (x : Value) :
    (convertTo fuel depth t x).Mannered M := by
  induction depth generalizing t x with
  | zero => exact mannered_cannotConvert x t
  | succ depth ih =>
    have items (u : HostType) (y : Value) :
        (do return (← convertTo fuel depth u y).toSlot u : Job Datum).Mannered M := by
      grind
    unfold convertTo
    grind

@[grind ←]
theorem mannered_convert (fuel : Nat) (x : Value) (t : HostType) :
    (x.convert fuel t).Mannered M := by
  unfold Value.convert
  grind

end

/-! ### Messages -/

@[grind ←]
theorem mannered_mutableList (id : Nat) (f : FieldDesc) : (mutableList id f).Mannered M := by
  unfold mutableList
  grind

@[grind ←]
theorem mannered_clearField (id : Nat) (f : FieldDesc) : (clearField id f).Mannered M := by
  unfold clearField
  grind

@[grind ←]
theorem mannered_putField (id : Nat) (f : FieldDesc) (v : FieldValue) :
    (putField id f v).Mannered M := by
  unfold putField
  grind

@[grind ←]
theorem mannered_mapObject (f key : FieldDesc) (entries : List (Scalar × FieldValue)) :
    (mapObject f key entries).Mannered M := by
  unfold mapObject
  grind

@[grind ←]
theorem mannered_fieldOf (t : MessageType) (name : Bytes) : (fieldOf t name).Mannered M := by
  unfold fieldOf
  grind [Failure.isPlaced]

@[grind ←]
theorem mannered_unsetField (t : MessageType) (f : FieldDesc) : (unsetField t f).Mannered M := by
  unfold unsetField
  grind

@[grind ←]
theorem mannered_getMessageField (v : Value) (name : Bytes) :
    (getMessageField v name).Mannered M := by
  refine Job.mannered_get fun s => ?_
  cases v with
  | noMessage t => grind
  | message id =>
    refine (Job.mannered_message id).bind fun m => (mannered_fieldOf _ _).bind fun f => ?_
    grind
  | _ => grind

section

variable [Host]

@[grind ←]
theorem mannered_misfit (f : FieldDesc) (v : Value) : (misfit f v).Mannered M := by
  unfold misfit
  grind

@[grind ←]
theorem mannered_toScalar (pool : Pool) (f : FieldDesc) (v : Value) :
    (toScalar pool f v).Mannered M := by
  unfold toScalar
  grind

omit [Host]

@[grind ←]
theorem mannered_fillList {convert : Value → Job FieldValue} {next : Job (Option Value)}
    (hc : ∀ x, (convert x).Mannered M) (hn : next.Mannered M) (l fuel i : Nat) :
    (fillList convert next l fuel i).Mannered M := by
  induction fuel generalizing i with
  | zero => exact Job.mannered_throw rfl
  | succ fuel ih =>
    unfold fillList
    grind

@[grind ←]
theorem mannered_fillMap {convert : Value → Job FieldValue}
    (hc : ∀ x, (convert x).Mannered M) (id : Nat) (f : FieldDesc) (entries : List (Bytes × Value)) :
    (fillMap convert id f entries).Mannered M := by
  induction entries with
  | nil => exact Job.mannered_pure _
  | cons e es ih =>
    unfold fillMap
    grind

end

section

variable [Host] [Host.Mannered M]

/-- What is set, one inside the other. -/
theorem mannered_setting (fuel depth : Nat) :
    (∀ owner f v, (toField fuel depth owner f v).Mannered M) ∧
    (∀ id fields, (setFields fuel depth id fields).Mannered M) ∧
    ∀ target name v, (setMessageField fuel depth target name v).Mannered M := by
  induction depth with
  | zero =>
    refine ⟨fun _ _ _ => ?_, fun _ _ => ?_, fun _ _ _ => ?_⟩
    · unfold toField
      exact Job.mannered_throw rfl
    · unfold setFields
      exact Job.mannered_throw rfl
    · unfold setMessageField
      exact Job.mannered_throw rfl
  | succ depth ih =>
    obtain ⟨field, fields, message⟩ := ih
    refine ⟨fun owner f v => ?_, fun id fs => ?_, fun target name v => ?_⟩
    · unfold toField
      refine Job.mannered_get fun s => ?_
      split
      · grind
      · cases v <;> grind
    · cases fs with
      | nil =>
        unfold setFields
        exact Job.mannered_pure _
      | cons f fs =>
        unfold setFields
        grind
    · unfold setMessageField
      refine Job.mannered_get fun s => ?_
      split
      · grind
      · refine (Job.mannered_message _).bind fun m => (mannered_fieldOf _ _).bind fun f => ?_
        refine Job.mannered_ite (mannered_clearField _ _) (Job.mannered_ite ?_ ?_)
        · refine (mannered_iterate v).attempt_bind (fun cursor => ?_) fun _ _ => by grind
          refine (mannered_mutableList _ f).bind fun l =>
    (Job.mannered_modifyFieldList l _).bind fun _ => ?_
          refine
    (mannered_fillList (field _ f) (mannered_advance fuel cursor) l fuel 0).attempt_bind ?_ ?_
          · grind
          · grind
        · grind
      · grind

@[grind ←]
theorem mannered_toField (fuel depth : Nat) (owner : MessageType) (f : FieldDesc) (v : Value) :
    (toField fuel depth owner f v).Mannered M := (mannered_setting fuel depth).1 owner f v

@[grind ←]
theorem mannered_setMessageField (fuel depth : Nat) (target : Value) (name : Bytes) (v : Value) :
    (setMessageField fuel depth target name v).Mannered M :=
    (mannered_setting fuel depth).2.2 target name v

omit [Host] [Host.Mannered M]

@[grind ←]
theorem mannered_repeatedField (owner : MessageType) (number : Nat) :
    (repeatedField owner number).Mannered M := by
  unfold repeatedField
  grind

variable [Host] [Host.Mannered M]

@[grind ←]
theorem mannered_appendRepeated (fuel : Nat) (v x : Value) :
    (appendRepeated fuel v x).Mannered M := by
  unfold appendRepeated
  grind

@[grind ←]
theorem mannered_setRepeated (fuel : Nat) (v : Value) (i : Nat) (x : Value) :
    (setRepeated fuel v i x).Mannered M := by
  unfold setRepeated
  grind

end

/-- Copies of messages and of their parts. -/
theorem mannered_copying (depth : Nat) :
    (∀ id, (copyMessage depth id).Mannered M) ∧ (∀ fields, (copyFields depth fields).Mannered M) ∧
    (∀ x, (copyField depth x).Mannered M) ∧ ∀ xs, (copyItems depth xs).Mannered M := by
  induction depth with
  | zero =>
    refine ⟨fun _ => ?_, fun _ => ?_, fun _ => ?_, fun _ => ?_⟩
    · unfold copyMessage
      exact Job.mannered_throw rfl
    · unfold copyFields
      exact Job.mannered_throw rfl
    · unfold copyField
      exact Job.mannered_throw rfl
    · unfold copyItems
      exact Job.mannered_throw rfl
  | succ depth ih =>
    obtain ⟨message, fields, field, items⟩ := ih
    refine ⟨fun id => ?_, fun fs => ?_, fun x => ?_, fun xs => ?_⟩
    · unfold copyMessage
      grind
    · cases fs <;> unfold copyFields <;> grind
    · unfold copyField
      grind
    · cases xs <;> unfold copyItems <;> grind

@[grind ←]
theorem mannered_copyMessage (depth id : Nat) : (copyMessage depth id).Mannered M :=
    (mannered_copying depth).1 id

@[grind ←]
theorem mannered_constructMessage (fuel : Nat) (t : MessageType) (args : List Value) :
    (constructMessage fuel t args).Mannered M := by
  unfold constructMessage
  grind

@[grind ←]
theorem mannered_messageTree (fuel : Nat) (v : Value) : (messageTree fuel v).Mannered M := by
  unfold messageTree
  grind [Failure.isPlaced]

@[grind ←]
theorem mannered_mapM {α β : Type} {f : α → Job β} (xs : List α) (hf : ∀ x, (f x).Mannered M) :
    (xs.mapM f).Mannered M := by
  have loop (done : List β) : (List.mapM.loop f xs done).Mannered M := by
    induction xs generalizing done with
    | nil => exact Job.mannered_pure _
    | cons x xs ih => exact (hf x).bind fun y => ih (y :: done)
  exact loop []

/-- What a tree is planted as. -/
theorem mannered_planting (fuel : Nat) : (∀ t m, (plant fuel t m).Mannered M) ∧
    ∀ owner kind x, (plantField fuel owner kind x).Mannered M := by
  induction fuel with
  | zero =>
    refine ⟨fun _ _ => ?_, fun _ _ _ => ?_⟩
    · unfold plant
      exact Job.mannered_throw rfl
    · unfold plantField
      exact Job.mannered_throw rfl
  | succ fuel ih =>
    obtain ⟨message, field⟩ := ih
    refine ⟨fun t m => ?_, fun owner kind x => ?_⟩
    · unfold plant
      grind
    · unfold plantField
      grind

@[grind ←]
theorem mannered_plant (fuel : Nat) (t : MessageType) (m : MessageTree) :
    (plant fuel t m).Mannered M := (mannered_planting fuel).1 t m

/-! ### Universal functions and methods -/

@[grind ←]
theorem mannered_getAttr (v : Value) (name : Bytes) : (getAttr v name).Mannered M := by
  unfold getAttr
  grind [Failure.isPlaced]

@[grind ←]
theorem mannered_rangeFrom (stop step : Int64) (fuel : Nat) (i : Int64) (done : Array Value) :
    (rangeFrom stop step fuel i done).Mannered M := by
  induction fuel generalizing i done with
  | zero =>
    unfold rangeFrom
    grind
  | succ fuel ih =>
    unfold rangeFrom
    grind

@[grind ←]
theorem mannered_stringList (bs : List Bytes) : (stringList bs).Mannered M := by
  unfold stringList
  grind

section

variable [Host]

@[grind ←]
theorem mannered_lengthOf (x : Value) : (lengthOf x).Mannered M := by
  unfold lengthOf
  grind

@[grind ←]
theorem mannered_rangeList (args : List Value) : (rangeList args).Mannered M := by
  unfold rangeList
  grind

@[grind ←]
theorem mannered_joinFrom {next : Job (Option Value)} (hn : next.Mannered M) (fuel : Nat)
    (done : List Bytes) :
    (joinFrom next fuel done).Mannered M := by
  induction fuel generalizing done with
  | zero => exact Job.mannered_throw rfl
  | succ fuel ih =>
    unfold joinFrom
    grind

@[grind ←]
theorem mannered_keysOf (x : Value) : (keysOf x).Mannered M := by
  unfold keysOf
  grind

variable [Host.Mannered M]

@[grind ←]
theorem mannered_joinElements (fuel : Nat) (fn : Bytes) (x : Value) (sep : Bytes) :
    (joinElements fuel fn x sep).Mannered M := by
  unfold joinElements
  grind

@[grind ←]
theorem mannered_universeRun (fuel : Nat) (f : UniverseFn) (args : List Value) :
    (f.run fuel args).Mannered M := by
  unfold UniverseFn.run
  grind

omit [Host.Mannered M] in
@[grind ←]
theorem mannered_textRun (m : TextMethod) (recv : Bytes) (args : List Value) :
    (m.run recv args).Mannered M := by
  unfold TextMethod.run
  grind

@[grind ←]
theorem mannered_listRun (fuel : Nat) (m : ListMethod) (id : Nat) (args : List Value) :
    (m.run fuel id args).Mannered M := by
  unfold ListMethod.run
  grind

end

/-! ### Libraries -/
@[grind ←]
theorem mannered_zoneNamed (fn name : Bytes) : (zoneNamed fn name).Mannered M := by
  unfold zoneNamed
  grind

@[grind ←]
theorem mannered_currentTime (ctx : Nat) (fn : Bytes) : (currentTime ctx fn).Mannered M := by
  unfold currentTime Job.context
  grind

@[grind ←]
theorem mannered_patternFor (fn text : Bytes) : (patternFor fn text).Mannered M := by
  unfold patternFor
  grind

@[grind ←]
theorem mannered_report (ctx : Nat) (msg : Bytes) : (report ctx msg).Mannered M := by
  unfold report
  refine (Job.mannered_query _).bind fun calls => (Job.mannered_query _).bind fun c => ?_
  refine Job.mannered_ite ?_ (Job.mannered_panic _)
  exact Job.mannered_change (fun _ => rfl) fun _ => rfl

mutual

theorem mannered_toValue (v : JsonValue) : v.toValue.Mannered M := by
  cases v with
  | array items => exact (mannered_valuesOf items).bind fun _ => Job.mannered_newList _
  | object members =>
    exact (mannered_fieldsOf members).bind fun _ => (Job.mannered_newObject _).bind fun _ =>
      Job.mannered_pure _
  | _ => exact Job.mannered_pure _

theorem mannered_valuesOf (items : List JsonValue) : (valuesOf items).Mannered M := by
  cases items with
  | nil => exact Job.mannered_pure []
  | cons x xs =>
    exact (mannered_toValue x).bind fun _ => (mannered_valuesOf xs).bind fun _ => Job.mannered_pure _

theorem mannered_fieldsOf (members : List (Bytes × JsonValue)) :
    (fieldsOf members).Mannered M := by
  cases members with
  | nil => exact Job.mannered_pure []
  | cons m ms =>
    exact (mannered_toValue m.2).bind fun _ => (mannered_fieldsOf ms).bind fun _ => Job.mannered_pure _

end

attribute [grind ←] mannered_toValue

section

variable [Host]

@[grind ←]
theorem mannered_timeRun (ctx : Nat) (f : TimeFn) (args : List Value) :
    (f.run ctx args).Mannered M := by
  cases f with
  | sleep =>
    refine
    (mannered_unpackOne _ _ _).bind fun _ => Job.Mannered.bind ?_ fun _ => Job.mannered_pure _
    exact Job.mannered_change (fun _ => rfl) fun _ => rfl
  | _ => 
    unfold TimeFn.run
    grind

@[grind ←]
theorem mannered_unpackField (fn : Bytes) (args : List Value) :
    (unpackField fn args).Mannered M := by
  unfold unpackField
  grind

@[grind ←]
theorem mannered_messageRun (fuel : Nat) (f : MessageFn) (args : List Value) :
    (f.run fuel args).Mannered M := by
  cases f with
  | marshal form => exact
    (mannered_unpackOne _ _ _).bind fun x => Job.mannered_get fun s => by grind
  | unmarshal form =>
    refine (mannered_unpack _ _ _ _).bind fun xs => Job.mannered_get fun s => ?_
    dsimp only
    split <;> exact Job.Mannered.bind (by grind) fun t => by grind
  | _ =>
    unfold MessageFn.run
    grind

@[grind ←]
theorem mannered_jsonRun (fuel : Nat) (f : JsonFn) (args : List Value) :
    (f.run fuel args).Mannered M := by
  unfold JsonFn.run
  grind

@[grind ←]
theorem mannered_roundNumber (fn : Bytes) (f : Float → Float) (x : Value) :
    (roundNumber fn f x).Mannered M := by
  unfold roundNumber
  grind

@[grind ←]
theorem mannered_absolute (x : Value) : (absolute x).Mannered M := by
  unfold absolute
  grind

@[grind ←]
theorem mannered_bestOf (fn : Bytes) (op : Operator) (best : Value) (xs : List Value) :
    (bestOf fn op best xs).Mannered M := by
  induction xs generalizing best with
  | nil => exact Job.mannered_pure _
  | cons x xs ih =>
    unfold bestOf
    grind

@[grind ←]
theorem mannered_newPattern (args : List Value) : (newPattern args).Mannered M := by
  have pushed (text : Bytes) : (get >>= fun s => do
      set { s with patterns := s.patterns.push text }
      return .pattern s.patterns.size : Job Value).Mannered M :=
    Job.mannered_get_at fun _ => Job.meets_set (M.of_eq rfl rfl) (Job.mannered_pure _)
  refine (mannered_unpackText _ _).bind fun text => ?_
  have compiled :=
    (mannered_patternFor (M := M) Native.compilePattern.name text).bind fun _ => pushed text
  exact Job.mannered_ite ((Job.mannered_error _).bind fun _ => compiled) compiled

@[grind ←]
theorem mannered_replaceBy (ctx : Nat) (fn : Bytes) (f : Value) (text : Bytes)
    (found : List (Extents × Bool)) :
    (replaceBy ctx fn f text found).Mannered M := by
  induction found with
  | nil => exact Job.mannered_pure _
  | cons e es ih =>
    obtain ⟨e, _ | _⟩ := e <;> unfold replaceBy <;> grind

@[grind ←]
theorem mannered_patternRun (ctx : Nat) (m : PatternMethod) (id : Nat) (args : List Value) :
    (m.run ctx id args).Mannered M := by
  unfold PatternMethod.run
  grind

@[grind ←]
theorem mannered_checkRun (ctx : Nat) (f : CheckFn) (args : List Value) :
    (f.run ctx args).Mannered M := by
  cases f with
  | assertFails =>
    refine (mannered_unpack _ _ _ _).bind fun xs => (mannered_patternFor _ _).bind fun p => ?_
    refine (Job.mannered_call ctx _ _).attempt.bind fun r => ?_
    cases r <;> grind
  | _ =>
    unfold CheckFn.run
    grind

variable [Host.Mannered M]

@[grind ←]
theorem mannered_bestArgument (fuel : Nat) (fn : Bytes) (op : Operator) (args : List Value) :
    (bestArgument fuel fn op args).Mannered M := by
  unfold bestArgument
  split
  · exact (Job.Mannered.explaining (mannered_iterate _) _).bind fun cursor =>
      (mannered_collectReversed _ _ _ _).bind fun xs => (mannered_finish cursor).bind fun _ =>
        (Job.mannered_pure _).bind fun ys => by grind
  · exact (Job.mannered_pure _).bind fun ys => by grind

@[grind ←]
theorem mannered_mathRun (fuel : Nat) (f : MathFn) (args : List Value) :
    (f.run fuel args).Mannered M := by
  unfold MathFn.run
  grind

end

@[grind ←]
theorem mannered_nativeRun [Application] [Application.Mannered M] (fuel ctx : Nat) (fn : Native)
    (recv : Value) (args : List Value) : (fn.run fuel ctx recv args).Mannered M := by
  unfold Native.run
  grind

end Stencil
