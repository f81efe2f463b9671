import Stencil.Proofs.Association
import Stencil.Proofs.Machine.Service

/-!
# What jobs do to the heap

A job changes the heap step by step, and in between it may ask for calls, which change the heap
too. `Job.Meets` tells what holds of the outcome of a job if all its own changes keep to some
manners, and if those of the calls do: it is the weakest precondition of the job, read off its
tree. The same goes for the failures that a job makes of its own and those it only passes on.

The manners of interest are that no object ever loses a field, and that no failure tells a place
unless it comes from a call.
-/

namespace Stencil

variable {α β : Type}

/-- No object goes, and none loses a field. -/
structure Heap.Retains (h h' : Heap) : Prop where
  size : h.objects.size ≤ h'.objects.size
  fields : ∀ id name, ((h.object id).lookup name).isSome → ((h'.object id).lookup name).isSome

theorem Heap.Retains.refl (h : Heap) : h.Retains h := ⟨Nat.le_refl _, fun _ _ hf => hf⟩

theorem Heap.Retains.trans {h h' h'' : Heap} (hg : h.Retains h') (hg' : h'.Retains h'') : h.Retains h'' :=
  ⟨Nat.le_trans hg.size hg'.size, fun id name hf => hg'.fields id name (hg.fields id name hf)⟩

/-- Something else has changed. -/
theorem Heap.Retains.of_objects {h h' : Heap} (ho : h'.objects = h.objects) : h.Retains h' := by
  constructor
  · exact Nat.le_of_eq (congrArg Array.size ho.symm)
  · intro id name hf
    simpa only [Heap.object, ho] using hf

/-- A new object. -/
theorem Heap.Retains.push (h : Heap) (fields : List (Bytes × Value)) :
    h.Retains { h with objects := h.objects.push fields } := by
  refine ⟨by simp, fun id name hf => ?_⟩
  by_cases hid : id < h.objects.size
  · have hsame : Heap.object { h with objects := h.objects.push fields } id = h.object id := by
      simp only [object, Array.getD_eq_getD_getElem?, Array.getElem?_push, Nat.ne_of_lt hid, if_false]
    rwa [hsame]
  · simp [object, Array.getD_eq_getD_getElem?, Array.getElem?_eq_none (Nat.le_of_not_lt hid)] at hf

/-- A field is set. -/
theorem Heap.Retains.setField (h : Heap) (id : Nat) (name : Bytes) (v : Value) :
    h.Retains { h with objects := h.objects.modify id (setAssoc name v) } := by
  refine ⟨by simp, fun j k hf => ?_⟩
  have hcases := getD_modify h.objects id j (setAssoc name v) []
  show (((h.objects.modify id (setAssoc name v)).getD j []).lookup k).isSome
  rcases hcases with hj | ⟨-, hj⟩
  · rw [hj]
    exact hf
  · rw [hj, lookup_setAssoc]
    split
    · rfl
    · exact hf

/-- A search was ended by a failure. -/
def Cursor.EndedBy (c : Cursor) (e : Failure) : Prop :=
  ∃ ctx pred inner, c = .filtered ctx pred inner (some (.failed e))

/-- One of the searches was ended by a failure. -/
def Heap.EndedBy (h : Heap) (e : Failure) : Prop := ∃ id, (h.cursors.getD id default).EndedBy e

/-- Whether a failure tells a place. -/
def Failure.isPlaced : Failure → Bool
  | .positioned _ => true
  | _ => false

/-- What jobs keep to. -/
structure Manners where
  /-- How they may change the heap. -/
  heap : Heap → Heap → Prop
  /-- How they may fail. -/
  failure : Failure → Prop
  trans : ∀ {h h' h''}, heap h h' → heap h' h'' → heap h h''
  mild : ∀ {h h'}, h.Retains h' → (∀ e, h'.EndedBy e → h.EndedBy e ∨ failure e) → heap h h'
  plain : ∀ {e : Failure}, e.isPlaced = false → failure e

namespace Manners

/-- Anything goes. -/
def none : Manners where
  heap _ _ := True
  failure _ := True
  trans _ _ := trivial
  mild _ _ := trivial
  plain _ := trivial

/-- Objects keep their fields. -/
def retaining : Manners where
  heap := Heap.Retains
  failure _ := True
  trans := Heap.Retains.trans
  mild h _ := h
  plain _ := trivial

/-- Failures tell places only in errors of some kind, also those that ended searches. -/
def placing (φ : EvalError → Prop) : Manners where
  heap h h' := ∀ e, h'.EndedBy e → h.EndedBy e ∨ ∀ p, e = .positioned p → φ p
  failure e := ∀ p, e = .positioned p → φ p
  trans h h' e he := (h' e he).elim (h e) .inr
  mild _ h := h
  plain h p hp := by
    subst hp
    cases h

variable (M : Manners)

theorem refl (h : Heap) : M.heap h h := M.mild (.refl h) fun _ => .inl

/-- Something else has changed than objects and iterations. -/
theorem of_eq {h h' : Heap} (ho : h'.objects = h.objects) (hc : h'.cursors = h.cursors) :
    M.heap h h' := by
  refine M.mild (.of_objects ho) fun e he => .inl ?_
  rwa [Heap.EndedBy, hc] at he

/-- Objects have changed. -/
theorem of_retains {h h' : Heap} (hr : h.Retains h') (hc : h'.cursors = h.cursors) : M.heap h h' := by
  refine M.mild hr fun e he => .inl ?_
  rwa [Heap.EndedBy, hc] at he

/-- A new iteration. -/
theorem pushCursor (h : Heap) {c : Cursor} (hc : ∀ e, c.EndedBy e → M.failure e) :
    M.heap h { h with cursors := h.cursors.push c } := by
  refine M.mild (.of_objects rfl) ?_
  rintro e ⟨id, he⟩
  rw [Array.getD_eq_getD_getElem?, Array.getElem?_push] at he
  split at he
  · exact .inr (hc e he)
  · rw [← Array.getD_eq_getD_getElem?] at he
    exact .inl ⟨id, he⟩

/-- An iteration moves on. -/
theorem setCursor (h : Heap) (id : Nat) {c : Cursor} (hc : ∀ e, c.EndedBy e → M.failure e) :
    M.heap h { h with cursors := h.cursors.setIfInBounds id c } := by
  refine M.mild (.of_objects rfl) ?_
  rintro e ⟨j, he⟩
  change Cursor.EndedBy ((h.cursors.setIfInBounds id c).getD j default) e at he
  rcases getD_setIfInBounds h.cursors id j c default with hj | ⟨-, hj⟩ <;> rw [hj] at he
  · exact .inl ⟨j, he⟩
  · exact .inr (hc e he)

end Manners

/-- Whether a query is for a call. -/
def Query.isCall : Query → Bool
  | .call .. => true
  | _ => false

/-- What a job comes to from a heap: its changes keep to the manners, its failures too, and its
value is as wanted. -/
def Job.Meets (M : Manners) (Q : α → Heap → Prop) : Job α → Heap → Prop
  | .done a, h => Q a h
  | .fail e, _ => M.failure e
  | .read k, h => (k h).Meets M Q h
  | .update f k, h => M.heap h (f h) ∧ k.Meets M Q (f h)
  | .ask q k, h => ∀ h' r, M.heap h h' → (q.isCall = false → h' = h) →
      (∀ e, r = .error e → M.failure e) → (k r).Meets M Q h'

/-- Whatever the heap, a job keeps to the manners. -/
def Job.Mannered (M : Manners) (job : Job α) : Prop := ∀ h, job.Meets M (fun _ _ => True) h

namespace Job

variable {M : Manners} {Q : α → Heap → Prop} {R : β → Heap → Prop} {h : Heap}

theorem Meets.mono {Q' : α → Heap → Prop} {job : Job α} (hj : job.Meets M Q h)
    (hQ : ∀ a h', Q a h' → Q' a h') : job.Meets M Q' h := by
  induction job generalizing h with
  | done a => exact hQ a h hj
  | fail e => exact hj
  | read k ih => exact ih h hj
  | update f k ih => exact ⟨hj.1, ih hj.2⟩
  | ask q k ih => exact fun h' r hm hs he => ih r (hj h' r hm hs he)

/-- One job after the other. -/
theorem Meets.bind {job : Job α} {f : α → Job β} (hj : job.Meets M Q h)
    (hf : ∀ a h', Q a h' → (f a).Meets M R h') : (job >>= f).Meets M R h := by
  show (job.bind f).Meets M R h
  induction job generalizing h with
  | done a => exact hf a h hj
  | fail e => exact hj
  | read k ih => exact ih h hj
  | update g k ih => exact ⟨hj.1, ih hj.2⟩
  | ask q k ih => exact fun h' r hm hs he => ih r (hj h' r hm hs he)

/-- A job, and what is done about its failure. -/
theorem Meets.handle {job : Job α} {g : Failure → Job α} (hj : job.Meets M Q h)
    (hg : ∀ e h', M.failure e → (g e).Meets M Q h') : (job.handle g).Meets M Q h := by
  induction job generalizing h with
  | done a => exact hj
  | fail e => exact hg e h hj
  | read k ih => exact ih h hj
  | update f k ih => exact ⟨hj.1, ih hj.2⟩
  | ask q k ih => exact fun h' r hm hs he => ih r (hj h' r hm hs he)

namespace Mannered

theorem bind {job : Job α} {f : α → Job β} (hj : job.Mannered M) (hf : ∀ a, (f a).Mannered M) :
    (job >>= f).Mannered M := fun h => (hj h).bind fun a h' _ => hf a h'

theorem map {job : Job α} (hj : job.Mannered M) (f : α → β) : (f <$> job).Mannered M :=
  hj.bind fun _ _ => trivial

/-- What fails as wanted may be gone on with. -/
theorem attempt_bind {job : Job α} {f : Except Failure α → Job β} (hj : job.Mannered M)
    (hok : ∀ a, (f (.ok a)).Mannered M) (herror : ∀ e, M.failure e → (f (.error e)).Mannered M) :
    (attempt job >>= f).Mannered M := by
  intro h
  have hattempt : (attempt job).Meets M (fun r _ => ∀ e, r = .error e → M.failure e) h := by
    refine Meets.handle ((hj h).bind fun a h' _ e he => ?_) fun e h' he => ?_
    · cases he
    · split
      · rintro _ ⟨⟩
        exact he
      · exact he
  refine hattempt.bind fun r h' hr => ?_
  cases r with
  | ok a => exact hok a h'
  | error e => exact herror e (hr e rfl) h'

end Mannered

/-! ### The parts of jobs -/

theorem mannered_pure (a : α) : (pure a : Job α).Mannered M := fun _ => trivial

theorem mannered_throw {e : Failure} (he : e.isPlaced = false) : (throw e : Job α).Mannered M :=
  fun _ => M.plain he

theorem mannered_rethrow {e : Failure} (he : M.failure e) : (throw e : Job α).Mannered M :=
  fun _ => he

theorem mannered_error (msg : Bytes) : (error msg : Job α).Mannered M := mannered_throw rfl

theorem mannered_panic (msg : Bytes) : (panic msg : Job α).Mannered M := mannered_throw rfl

/-- What depends on the heap. -/
theorem mannered_get {f : Heap → Job α} (hf : ∀ h, (f h).Mannered M) : (get >>= f).Mannered M :=
  fun h => hf h h

/-- What depends on the heap, and on nothing having changed since it was looked at. -/
theorem mannered_get_at {f : Heap → Job α} (hf : ∀ h, (f h).Meets M (fun _ _ => True) h) :
    (get >>= f).Mannered M := hf

theorem mannered_modify {f : Heap → Heap} (hf : ∀ h, M.heap h (f h)) : (modify f).Mannered M :=
  fun h => ⟨hf h, trivial⟩

/-- A change of the heap that leaves objects and iterations alone. -/
theorem mannered_change {f : Heap → Heap} (ho : ∀ h, (f h).objects = h.objects)
    (hc : ∀ h, (f h).cursors = h.cursors) : (modify f).Mannered M :=
  mannered_modify fun h => M.of_eq (ho h) (hc h)

/-- A new heap, made of the one that was looked at. -/
theorem meets_set {h h' : Heap} {f : PUnit → Job α} (hm : M.heap h h') (hf : (f ⟨⟩).Mannered M) :
    (set h' >>= f).Meets M (fun _ _ => True) h := ⟨hm, hf h'⟩

theorem mannered_query (q : Query) : (query q).Mannered M := by
  intro h h' r hm hs he
  cases r with
  | ok a => trivial
  | error e => exact he e rfl

theorem mannered_ite {c : Prop} [Decidable c] {job job' : Job α} (h : job.Mannered M)
    (h' : job'.Mannered M) : (if c then job else job').Mannered M := by
  split
  · exact h
  · exact h'

theorem Mannered.explaining {job : Job α} (hj : job.Mannered M) (before : Bytes) :
    (explaining before job).Mannered M :=
  hj.attempt_bind mannered_pure fun _ _ => mannered_error _

/-- Where anything goes, every job keeps to it. -/
theorem mannered_none (job : Job α) : job.Mannered Manners.none := by
  intro h
  induction job generalizing h with
  | done a => trivial
  | fail e => trivial
  | read k ih => exact ih h h
  | update f k ih => exact ⟨trivial, ih (f h)⟩
  | ask q k ih => exact fun h' r _ _ _ => ih r h'

end Job

end Stencil
