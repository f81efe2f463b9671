import Stencil.Proofs.Machine.Way
import Stencil.Proofs.Manners.Library

/-!
# Calls of the host mind their manners

The methods of values, the functions of the host and the operations of call sites keep to the
manners of jobs, as the library does. With that the jobs which the machine runs do, and so does
everything that they may call: `mannersOfAll`.
-/

namespace Stencil

variable {M : Manners}

/-! ### Own methods -/
@[grind ←]
theorem mannered_nilDereference {α : Type} :
    (nilDereference : Job α).Mannered M := Job.mannered_panic _

@[grind ←]
theorem mannered_positionIn (i : Int) (n : Nat) : (positionIn i n).Mannered M := by
  unfold positionIn
  grind

@[grind ←]
theorem mannered_hostBytes (b : Bytes) : (hostBytes b).Mannered M := by
  unfold hostBytes
  grind

@[grind ←]
theorem mannered_callInContext (fn : Value) (args : List Value) :
    (callInContext fn args).Mannered M := by
  unfold callInContext
  grind

@[grind ←]
theorem mannered_interchange (t : Moment) (who : String) : (t.interchange who).Mannered M := by
  unfold Moment.interchange
  grind

@[grind ←]
theorem mannered_momentMethod (t : Moment) (method : String) (args : List Value) :
    (momentMethod t method args).Mannered M := by
  unfold momentMethod
  grind

section

variable [Host]

@[grind ←]
theorem mannered_listMethod (id : Nat) (method : String) (args : List Value) :
    (listMethod id method args).Mannered M := by
  unfold listMethod
  grind

@[grind ←]
theorem mannered_closureMethod (id : Nat) (f : Heading) (method : String) (args : List Value) :
    (closureMethod id f method args).Mannered M := by
  unfold closureMethod
  grind

@[grind ←]
theorem mannered_builtinMethod (fn : Native) (recv : Value) (stamp : Nat) (method : String)
    (args : List Value) : (builtinMethod fn recv stamp method args).Mannered M := by
  unfold builtinMethod
  grind

@[grind ←]
theorem mannered_contextMethod (ctx : Nat) (method : String) (args : List Value) :
    (contextMethod ctx method args).Mannered M := by
  unfold contextMethod Job.cancel Job.context Job.popWriter Job.pushWriter Job.write
  grind

@[grind ←]
theorem mannered_boundMethod (self : Value) (method : String) (args : List Value) :
    (boundMethod self method args).Mannered M := by
  unfold boundMethod
  grind

variable [Host.Mannered M]

@[grind ←]
theorem mannered_repeatedMethod (fuel : Nat) (self : Value) (method : String)
    (args : List Value) : (repeatedMethod fuel self method args).Mannered M := by
  unfold repeatedMethod
  grind

@[grind ←]
theorem mannered_constructRegistered (name : Bytes) (args : List Value) :
    (constructRegistered name args).Mannered M := by
  unfold constructRegistered
  split
  · exact Host.Mannered.make (by assumption) args
  · grind
  · grind

@[grind ←]
theorem mannered_construct (fuel : Nat) (t : TypeRef) (args : List Value) :
    (construct fuel t args).Mannered M := by
  unfold construct
  grind

@[grind ←]
theorem mannered_typeMethod (fuel : Nat) (t : TypeRef) (method : String) (args : List Value) :
    (typeMethod fuel t method args).Mannered M := by
  unfold typeMethod
  grind

@[grind ←]
theorem mannered_ownMethod (fuel : Nat) (self : Value) (method : String) (args : List Value) :
    (ownMethod fuel self method args).Mannered M := by
  unfold ownMethod
  grind

/-! ### Calls of host functions -/
@[grind ←]
theorem mannered_callAdapted (fuel : Nat) (g : Signature) (fn : Value) (args : List Value) :
    (callAdapted fuel g fn args).Mannered M := by
  unfold callAdapted
  refine (Job.mannered_query _).bind fun ctx => Job.Mannered.attempt_bind
    (Job.mannered_call _ _ _) ?_ ?_
  · grind [Failure.isPlaced]
  · grind [Failure.isPlaced]

@[grind ←]
theorem mannered_applyHost (fuel depth : Nat) (fn : Value) (args : List Value) :
    (applyHost fuel depth fn args).Mannered M := by
  induction depth generalizing fn args with
  | zero => exact Job.mannered_throw rfl
  | succ depth ih =>
    unfold applyHost
    grind

omit [Host] [Host.Mannered M] in
@[grind ←]
theorem mannered_protect {α : Type} (name : Bytes) {job : Job α} (h : job.Mannered M) :
    (protect name job).Mannered M := by
  refine fun s => Job.Meets.handle (h s) fun e t he => ?_
  split
  · exact M.plain rfl
  · exact he

@[grind ←]
theorem mannered_convertArgs (fuel : Nat) (name : Bytes) (g : Signature) (i : Nat)
    (args : List Value) : (convertArgs fuel name g i args).Mannered M := by
  induction args generalizing i with
  | nil => exact Job.mannered_pure _
  | cons x xs ih =>
    unfold convertArgs
    grind

@[grind ←]
theorem mannered_hostResults (fuel : Nat) (fn : Value) (g : Signature) (args : List Value) :
    (hostResults fuel fn g args).Mannered M := by
  unfold hostResults
  grind

@[grind ←]
theorem mannered_callHost (fuel : Nat) (fn : Value) (g : Signature) (args : List Value) :
    (callHost fuel fn g args).Mannered M := by
  unfold callHost
  grind

theorem fieldPlace_unplaced {s : Heap} {record : Bytes} {path : List Nat} {id : Nat}
    {inside : List Nat} {e : Failure} (h : fieldPlace s record path id inside = .error e) :
    e.isPlaced = false := by
  induction path generalizing record id inside with
  | nil => cases h
  | cons i path ih =>
    rw [fieldPlace] at h
    split at h
    · cases h
      rfl
    · split at h
      · cases h
      · split at h
        · exact ih h
        · exact ih h
        · cases h
          rfl

omit [Host.Mannered M] in
@[grind ←]
theorem mannered_placeOf (record : Bytes) (path : List Nat) (d : Datum) :
    (placeOf record path d).Mannered M := by
  unfold placeOf nilPointer
  grind [fieldPlace_unplaced]

omit [Host.Mannered M] in
@[grind ←]
theorem mannered_readField (record : Bytes) (path : List Nat) (d : Datum) :
    (readField record path d).Mannered M := by
  induction path generalizing record d with
  | nil => exact Job.mannered_pure _
  | cons i path ih =>
    unfold readField
    grind [Failure.isPlaced, nilEmbedded]

omit [Host.Mannered M] in
@[grind ←]
theorem mannered_getMember (m : MemberPath) (x : Value) : (getMember m x).Mannered M := by
  unfold getMember
  grind

@[grind ←]
theorem mannered_setModuleField (fuel id : Nat) (isName : Bool) (y : Value) :
    (setModuleField fuel id isName y).Mannered M := by
  unfold setModuleField
  refine Job.mannered_ite ?_ ?_
  · refine (mannered_convert _ _ _).bind fun v => ?_
    split
    · exact Job.mannered_change (fun _ => rfl) fun _ => rfl
    · exact Job.mannered_pure _
  · refine (mannered_convert _ _ _).bind fun v => ?_
    split
    · exact Job.mannered_get fun s => Job.mannered_change (fun _ => rfl) fun _ => rfl
    · exact Job.mannered_pure _

@[grind ←]
theorem mannered_setMember (fuel : Nat) (m : MemberPath) (x y : Value) :
    (setMember fuel m x y).Mannered M := by
  unfold setMember
  refine Job.mannered_get fun s => ?_
  split
  · grind
  · grind
  · split
    · grind
    · refine (mannered_placeOf _ _ _).bind fun place => (mannered_convert _ _ _).bind fun v => ?_
      exact Job.mannered_change (fun _ => rfl) fun _ => rfl
    · exact Job.mannered_error _

/-! ### Operations -/
omit [Host] [Host.Mannered M] in
@[grind ←]
theorem mannered_operand (args : List Value) (i : Nat) : (operand args i).Mannered M := by
  unfold operand
  grind

omit [Host.Mannered M] in
@[grind ←]
theorem mannered_indexIn (i : Value) (n : Nat) : (indexIn i n).Mannered M := by
  unfold indexIn
  grind

omit [Host.Mannered M] in
@[grind ←]
theorem mannered_fieldIndex (i : Value) : (fieldIndex i).Mannered M := by
  unfold fieldIndex
  grind

omit [Host] [Host.Mannered M] in
@[grind ←]
theorem mannered_namespaceMember (x : Value) (name : Bytes) :
    (namespaceMember x name).Mannered M := by
  unfold namespaceMember
  grind

omit [Host.Mannered M] in
@[grind ←]
theorem mannered_hashKey (key : Datum) : (hashKey key).Mannered M := by
  unfold hashKey
  split
  · exact Job.mannered_panic _
  · exact Job.mannered_pure _

omit [Host.Mannered M] in
@[grind ←]
theorem mannered_mapEntry (t : HostType) (d key : Datum) : (mapEntry t d key).Mannered M := by
  unfold mapEntry
  grind

omit [Host.Mannered M] in
@[grind ←]
theorem mannered_setMapEntryOf (d key x : Datum) : (setMapEntryOf d key x).Mannered M := by
  unfold setMapEntryOf
  refine (mannered_hashKey key).bind fun _ => ?_
  split
  · exact Job.mannered_change (fun _ => rfl) fun _ => rfl
  · exact Job.mannered_pure _

omit [Host.Mannered M] in
@[grind ←]
theorem mannered_getSequenceItem (x i : Value) : (getSequenceItem x i).Mannered M := by
  unfold getSequenceItem
  grind

@[grind ←]
theorem mannered_setSequenceItem (fuel : Nat) (x i y : Value) :
    (setSequenceItem fuel x i y).Mannered M := by
  unfold setSequenceItem
  grind

@[grind ←]
theorem mannered_getMapItem (fuel : Nat) (x i : Value) : (getMapItem fuel x i).Mannered M := by
  unfold getMapItem
  grind

@[grind ←]
theorem mannered_setMapItem (fuel : Nat) (x i y : Value) : (setMapItem fuel x i y).Mannered M := by
  unfold setMapItem nilMap
  grind

@[grind ←]
theorem mannered_setSliceItem (fuel : Nat) (x i y : Value) :
    (setSliceItem fuel x i y).Mannered M := by
  unfold setSliceItem
  grind

omit [Host.Mannered M] in
@[grind ←]
theorem mannered_getSliceItem (x i : Value) : (getSliceItem x i).Mannered M := by
  unfold getSliceItem
  grind

@[grind ←]
theorem mannered_setMapKey (fuel : Nat) (x : Value) (name : Bytes) (y : Value) :
    (setMapKey fuel x name y).Mannered M := by
  unfold setMapKey nilMap
  grind

omit [Host] [Host.Mannered M] in
@[grind ←]
theorem mannered_bindMethod (x : Value) (name : Bytes) : (bindMethod x name).Mannered M := by
  unfold bindMethod
  grind

@[grind ←]
theorem mannered_invokeType (fuel : Nat) (args : List Value) :
    (invokeType fuel args).Mannered M := by
  unfold invokeType
  grind

@[grind ←]
theorem mannered_compute (fuel : Nat) (site : CallSite) (args : List Value) (x : Value)
    (b : Binding) : (site.compute fuel args x b).Mannered M := by
  cases b <;> unfold CallSite.compute <;> grind

@[grind ←]
theorem mannered_perform (fuel : Nat) (site : CallSite) (args : List Value) (b : Binding) :
    (site.perform fuel args b).Mannered M := by
  unfold CallSite.perform
  grind

end

@[grind ←]
theorem mannered_callOther [Application] [Application.Mannered M] (fuel ctx : Nat) (fn : Value)
    (args : List Value) : (callOther fuel ctx fn args).Mannered M := by
  unfold callOther
  grind

/-- Whatever the machine runs keeps to manners that the application keeps to. -/
theorem mannersOfAll [Application] [Application.Mannered M] : MannersOfAll M where
  newEnumerator := mannered_newEnumerator
  newFiltered := mannered_newFiltered
  nextPlain := mannered_nextPlain
  finish := mannered_finish
  perform := mannered_perform
  callOther := mannered_callOther

end Stencil
