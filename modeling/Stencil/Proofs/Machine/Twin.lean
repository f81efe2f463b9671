import Stencil.Machine.Evaluate
import Mathlib.Order.Basic

/-!
# Stores that differ in their records

Two stores are twins when they are equal but for the records of the machine, and what is
known of both records holds. Two computations are aligned when from twins they end alike, again
in twins. A computation that does not look at records is aligned with itself, and how
computations are put together keeps them aligned. So it is enough to look at the few places
where records matter.

Failures are alike when they are equal or, where the places of the two sides differ, when they
are equal but for the places they tell. Host and library must not see more of a failure than
that; what they do to see more is counted, and aligned computations need to end alike only
while the tally allows it. This is why it is part of being aligned that nothing counted is
forgotten.
-/

namespace Stencil

/-! ### Tallies -/

instance : Preorder Tally where
  le s t := s.callbacks ≤ t.callbacks ∧ s.glimpses ≤ t.glimpses ∧ s.begun ≤ t.begun ∧
    s.seized ≤ t.seized ∧ s.strays ≤ t.strays
  le_refl _ := by simp
  le_trans := by
    rintro _ _ _ ⟨_, _, _, _, _⟩ ⟨_, _, _, _, _⟩
    refine ⟨?_, ?_, ?_, ?_, ?_⟩ <;> omega

theorem Tally.le_def {s t : Tally} : s ≤ t ↔ s.callbacks ≤ t.callbacks ∧ s.glimpses ≤ t.glimpses ∧
    s.begun ≤ t.begun ∧ s.seized ≤ t.seized ∧ s.strays ≤ t.strays := Iff.rfl

/-! ### Failures -/

/-- A failure without the place it was reported at. -/
def Failure.bare : Failure → Failure
  | .positioned e => .plain e.msg e.missing
  | .missing msg => .plain msg true
  | e => e

/-- What can be told of a failure, with places or without. -/
def Failure.seen (placed : Bool) (e : Failure) : Failure := if placed then e else e.bare

@[simp]
theorem Failure.seen_true (e : Failure) : e.seen true = e := rfl

@[simp]
theorem Failure.seen_false (e : Failure) : e.seen false = e.bare := rfl

variable {ε α β : Type} {p q : Bool}

/-- Failures that look the same are both errors, or equal. -/
theorem Failure.seen_inj {e e' : Failure} (h : e.seen p = e'.seen p) :
    (e.isError = true ∧ e'.isError = true) ∨ (e.isError = false ∧ e = e') := by
  cases p with
  | true =>
    obtain rfl : e = e' := h
    cases e.isError <;> simp
  | false =>
    simp only [seen_false] at h
    cases e <;> cases e' <;> simp_all [isError, bare]

/-- The same value, or failures that look the same. -/
inductive AlikeEnd (p : Bool) : Except Failure α → Except Failure α → Prop where
  | ok {a : α} : AlikeEnd p (.ok a) (.ok a)
  | error {e e' : Failure} (h : e.seen p = e'.seen p) : AlikeEnd p (.error e) (.error e')

/-! ### Twins -/

/-- A store with other records. -/
def Store.withRecords (s : Store) (r : Records) : Store := { s with toRecords := r }

/-- How two stores may differ. -/
structure Likeness where
  /-- Whether places are the same on both sides. -/
  placed : Bool
  /-- The units of code of the first side and of the second. -/
  units : Array (List Lambda)
  units' : Array (List Lambda)
  /-- What is known of the caches. -/
  Rel : Caches → Caches → Prop
  /-- The least tally. -/
  base : Tally
  /-- The tallies for which both sides must end alike. -/
  Allowed : Tally → Prop
  allowed_of_le {s t : Tally} : s ≤ t → Allowed t → Allowed s
  /-- Where places differ, host and library must not have looked. -/
  unseen {t : Tally} : Allowed t → placed = true ∨
    t.callbacks ≤ base.callbacks ∧ t.glimpses ≤ base.glimpses

/-- Equal but for records that are alike. -/
structure Twin (C : Likeness) (s t : Store) : Prop where
  rest : t = s.withRecords t.toRecords
  left : s.units = C.units
  right : t.units = C.units'
  base : C.base ≤ s.tally
  caches : C.Rel s.caches t.caches
  places : C.placed = true → s.places = t.places
  kept : s.kept.map (Prod.map id (·.seen C.placed)) = t.kept.map (Prod.map id (·.seen C.placed))

variable {C : Likeness} {s t : Store}

/-- A change of something that is not on record, on both sides. -/
theorem Twin.change (h : Twin C s t) {s' : Store} (hr : s'.toRecords = s.toRecords)
    (ht : s.tally ≤ s'.tally) : Twin C s' (s'.withRecords t.toRecords) where
  rest := rfl
  left := (congrArg Records.units hr).trans h.left
  right := h.right
  base := le_trans h.base ht
  caches := by
    rw [show s'.caches = s.caches from congrArg Records.caches hr]
    exact h.caches
  places hp := (congrArg Records.places hr).trans (h.places hp)
  kept := by
    rw [show s'.kept = s.kept from congrArg Records.kept hr]
    exact h.kept

/-- Other caches on both sides. -/
theorem Twin.setCaches (h : Twin C s t) {c d : Caches} (hr : C.Rel c d) :
    Twin C { s with caches := c } { t with caches := d } :=
  ⟨by rw [h.rest]; rfl, h.left, h.right, h.base, hr, h.places, h.kept⟩

/-- The same change of the places on both sides. -/
theorem Twin.setPlaces (h : Twin C s t) (f : Array Position → Array Position) :
    Twin C { s with places := f s.places } { t with places := f t.places } :=
  ⟨by rw [h.rest]; rfl, h.left, h.right, h.base, h.caches, fun hp => congrArg f (h.places hp), h.kept⟩

theorem Twin.kept_eq (h : Twin C s t) (hp : C.placed = true) : s.kept = t.kept := by
  have same (kept : List (Nat × Failure)) : kept.map (Prod.map id (·.seen true)) = kept :=
    List.map_id' kept
  have hk := h.kept
  rwa [hp, same, same] at hk

/-- The store a computation ends with. -/
def lastStore : EStateM.Result Failure Store α → Store
  | .ok _ s => s
  | .error _ s => s

@[simp]
theorem lastStore_ok (a : α) (s : Store) : lastStore (.ok a s) = s := rfl

@[simp]
theorem lastStore_error (e : Failure) (s : Store) :
    lastStore (.error e s : EStateM.Result Failure Store α) = s := rfl

theorem lastStore_modify (f : Store → Store) (s : Store) :
    lastStore ((modify f : Action Unit) s) = f s := rfl

theorem get_bind_apply (k : Store → Action α) (s : Store) :
    ((get : Action Store) >>= k) s = k s s := rfl

/-- The same end in twins. -/
inductive Agree (C : Likeness) (p : Bool) :
    EStateM.Result Failure Store α → EStateM.Result Failure Store α → Prop where
  | ok {a : α} {s t : Store} (h : Twin C s t) : Agree C p (.ok a s) (.ok a t)
  | error {e e' : Failure} {s t : Store} (he : e.seen p = e'.seen p) (h : Twin C s t) :
    Agree C p (.error e s) (.error e' t)

theorem Agree.twin {r r' : EStateM.Result Failure Store α} (h : Agree C p r r') :
    Twin C (lastStore r) (lastStore r') := by
  cases h with
  | ok h => exact h
  | error _ h => exact h

/-- A computation that leaves the units of code alone and forgets nothing counted. -/
def Steady (units : Array (List Lambda)) (m : Action α) : Prop :=
  ∀ s, s.units = units →
    (lastStore (m s)).units = units ∧ s.tally ≤ (lastStore (m s)).tally

/-- From twins both computations end alike, in twins, if the tally is allowed in the end. With
`p`, they fail alike with places, and without it, alike but for places. -/
structure Aligned (C : Likeness) (p : Bool) (m m' : Action α) : Prop where
  left : Steady C.units m
  right : Steady C.units' m'
  agree : ∀ s t, Twin C s t → C.Allowed (lastStore (m s)).tally → Agree C p (m s) (m' t)

/-- Equal failures are alike, with places or without. -/
theorem Aligned.loosen {m m' : Action α} (h : Aligned C true m m') : Aligned C p m m' := by
  refine ⟨h.left, h.right, fun s t hst hend => ?_⟩
  have := h.agree s t hst hend
  generalize m s = x, m' t = y at this
  rcases this with h' | ⟨he, h'⟩
  · exact .ok h'
  · obtain rfl : _ = _ := he
    exact .error rfl h'

/-! ### How computations are put together -/

/-- Go on with the end of a computation, whichever it is. -/
def inspect (m : Action α) (k : Except Failure α → Action β) : Action β := fun s =>
  match m s with
  | .ok a s => k (.ok a) s
  | .error e s => k (.error e) s

theorem Steady.inspect {units : Array (List Lambda)} {m : Action α}
    {k : Except Failure α → Action β} (h : Steady units m) (hk : ∀ r, Steady units (k r)) :
    Steady units (inspect m k) := by
  intro s hs
  obtain ⟨hu, hle⟩ := h s hs
  unfold Stencil.inspect
  cases hm : m s with
  | ok a s₁ =>
    rw [hm] at hu hle
    obtain ⟨hu', hle'⟩ := hk (.ok a) s₁ hu
    exact ⟨hu', le_trans hle hle'⟩
  | error e s₁ =>
    rw [hm] at hu hle
    obtain ⟨hu', hle'⟩ := hk (.error e) s₁ hu
    exact ⟨hu', le_trans hle hle'⟩

/-- What was counted in between is still counted in the end. -/
theorem Steady.tally_le_inspect {units : Array (List Lambda)} {m : Action α}
    {k : Except Failure α → Action β} (h : Steady units m) (hk : ∀ r, Steady units (k r))
    (hs : s.units = units) :
    (lastStore (m s)).tally ≤ (lastStore (Stencil.inspect m k s)).tally := by
  have hu := (h s hs).1
  unfold Stencil.inspect
  cases hm : m s with
  | ok a s₁ =>
    rw [hm] at hu
    exact (hk (.ok a) s₁ hu).2
  | error e s₁ =>
    rw [hm] at hu
    exact (hk (.error e) s₁ hu).2

theorem Aligned.inspect {m m' : Action α} {k k' : Except Failure α → Action β}
    (h : Aligned C p m m') (hk : ∀ r r', AlikeEnd p r r' → Aligned C q (k r) (k' r')) :
    Aligned C q (inspect m k) (inspect m' k') := by
  have same (r : Except Failure α) : AlikeEnd p r r := by
    cases r with
    | ok a => exact .ok
    | error e => exact .error rfl
  have steady := fun r => (hk r r (same r)).left
  refine ⟨h.left.inspect steady, h.right.inspect fun r => (hk r r (same r)).right, ?_⟩
  intro s t hst hend
  have hmid := C.allowed_of_le (h.left.tally_le_inspect steady hst.left) hend
  have hm := h.agree s t hst hmid
  unfold Stencil.inspect at hend ⊢
  generalize m s = x, m' t = y at hm hend
  rcases hm with h' | ⟨he, h'⟩
  · exact (hk _ _ .ok).agree _ _ h' hend
  · exact (hk _ _ (.error he)).agree _ _ h' hend

/-- A computation that neither looks at records nor changes them. -/
theorem aligned_self {m : Action α}
    (hm : ∀ s r, m (s.withRecords r) =
      match m s with
      | .ok a s => .ok a (s.withRecords r)
      | .error e s => .error e (s.withRecords r))
    (hs : ∀ s, (lastStore (m s)).toRecords = s.toRecords ∧ s.tally ≤ (lastStore (m s)).tally) :
    Aligned C p m m := by
  have steady (units : Array (List Lambda)) : Steady units m := fun s hu =>
    ⟨(congrArg Records.units (hs s).1).trans hu, (hs s).2⟩
  refine ⟨steady _, steady _, ?_⟩
  intro s t hst _
  obtain ⟨hr, ht⟩ := hs s
  have twin := hst.change hr ht
  rw [hst.rest, hm]
  cases hms : m s with
  | ok a s₁ =>
    rw [hms] at twin
    exact .ok twin
  | error e s₁ =>
    rw [hms] at twin
    exact .error rfl twin

theorem aligned_pure (a : α) : Aligned C p (pure a : Action α) (pure a) :=
  aligned_self (fun _ _ => rfl) fun _ => ⟨rfl, le_rfl⟩

theorem aligned_throw {e e' : Failure} (h : e.seen p = e'.seen p) :
    Aligned C p (throw e : Action α) (throw e') where
  left _ hs := ⟨hs, le_rfl⟩
  right _ hs := ⟨hs, le_rfl⟩
  agree _ _ hst _ := .error h hst

theorem bind_eq_inspect (m : Action α) (f : α → Action β) :
    m >>= f = inspect m fun r => match r with
      | .ok a => f a
      | .error e => throw e := by
  funext s
  show EStateM.bind m f s = _
  unfold EStateM.bind inspect
  cases m s <;> rfl

theorem Steady.bind {units : Array (List Lambda)} {m : Action α} {f : α → Action β}
    (h : Steady units m) (hf : ∀ a, Steady units (f a)) : Steady units (m >>= f) := by
  rw [bind_eq_inspect]
  refine h.inspect fun r => ?_
  cases r with
  | ok a => exact hf a
  | error e => exact fun _ hs => ⟨hs, le_rfl⟩

theorem Aligned.bind {m m' : Action α} {f f' : α → Action β} (h : Aligned C p m m')
    (hf : ∀ a, Aligned C p (f a) (f' a)) : Aligned C p (m >>= f) (m' >>= f') := by
  rw [bind_eq_inspect, bind_eq_inspect]
  refine h.inspect fun r r' hr => ?_
  cases hr with
  | ok => exact hf _
  | error he => exact aligned_throw he

theorem attempt_bind_eq_inspect (m : Action α) (k : Except Failure α → Action β) :
    Action.attempt m >>= k = inspect m fun r => match r with
      | .ok a => k (.ok a)
      | .error e => if e.isError then k (.error e) else throw e := by
  funext s
  show EStateM.bind (Action.attempt m) k s = _
  unfold EStateM.bind Action.attempt inspect
  cases m s with
  | ok a s' => rfl
  | error e s' =>
    dsimp only
    cases e.isError <;> rfl

/-- What goes on with the end of a computation unless this is a panic. -/
theorem Aligned.attempt_bind {m m' : Action α} {k k' : Except Failure α → Action β}
    (h : Aligned C p m m') (hk : ∀ r r', AlikeEnd p r r' → Aligned C p (k r) (k' r')) :
    Aligned C p (Action.attempt m >>= k) (Action.attempt m' >>= k') := by
  rw [attempt_bind_eq_inspect, attempt_bind_eq_inspect]
  refine h.inspect fun r r' hr => ?_
  cases hr with
  | ok => exact hk _ _ .ok
  | error he =>
    dsimp only
    rcases Failure.seen_inj he with ⟨h₁, h₂⟩ | ⟨h₁, rfl⟩
    · rw [if_pos h₁, if_pos h₂]
      exact hk _ _ (.error he)
    · rw [h₁]
      exact aligned_throw rfl

/-- What depends on the store at hand. -/
theorem aligned_choose {f f' : Store → Action α}
    (h : ∀ s t, t = s.withRecords t.toRecords → s.units = C.units → t.units = C.units' →
      Aligned C p (f s) (f' t)) : Aligned C p (get >>= f) (get >>= f') where
  left s hs := (h s (s.withRecords { units := C.units' }) rfl hs rfl).left s hs
  right t ht := (h (t.withRecords { units := C.units }) t rfl rfl ht).right t ht
  agree s t hst hend := (h s t hst.rest hst.left hst.right).agree s t hst hend

/-- What depends on the store at hand, but not on its records. -/
theorem aligned_get {f f' : Store → Action α} (hf : ∀ s r, f' (s.withRecords r) = f' s)
    (h : ∀ s, Aligned C p (f s) (f' s)) : Aligned C p (get >>= f) (get >>= f') := by
  refine aligned_choose fun s t hst _ _ => ?_
  rw [hst, hf]
  exact h s

theorem Aligned.ite {c : Prop} [Decidable c] {m m' n n' : Action α} (h : Aligned C p m m')
    (h' : Aligned C p n n') : Aligned C p (if c then m else n) (if c then m' else n') := by
  split
  · exact h
  · exact h'

theorem aligned_modify {f : Store → Store}
    (hf : ∀ s r, f (s.withRecords r) = (f s).withRecords r ∧ (f s).toRecords = s.toRecords ∧
      s.tally ≤ (f s).tally) :
    Aligned C p (modify f : Action Unit) (modify f) := by
  refine aligned_self (fun s r => ?_) fun s => (hf s s.toRecords).2
  show EStateM.Result.ok () (f (s.withRecords r)) = .ok () ((f s).withRecords r)
  rw [(hf s r).1]

/-- Counting. -/
theorem aligned_count {f : Tally → Tally} (hf : ∀ t, t ≤ f t) :
    Aligned C p (Action.count f) (Action.count f) :=
  aligned_modify fun s _ => ⟨rfl, rfl, hf s.tally⟩

theorem aligned_fail (msg : Bytes) : Aligned C p (Action.fail msg : Action α) (Action.fail msg) :=
  aligned_throw rfl

theorem aligned_panic (msg : Bytes) :
    Aligned C p (Action.panic msg : Action α) (Action.panic msg) := aligned_throw rfl

theorem aligned_fault (f : Fault) : Aligned C p (Action.fault f) (Action.fault f) :=
  aligned_modify fun _ _ => ⟨rfl, rfl, le_rfl⟩

theorem steady_count {units : Array (List Lambda)} {f : Tally → Tally} (hf : ∀ t, t ≤ f t) :
    Steady units (Action.count f) := fun s hs => ⟨hs, hf s.tally⟩

/-- Once what was counted is not allowed, it does not matter how both sides end. -/
theorem aligned_counted {f : Tally → Tally} {m m' : Action α} (hf : ∀ t, t ≤ f t)
    (hl : Steady C.units m) (hr : Steady C.units' m') (h : ∀ t, C.base ≤ t → ¬ C.Allowed (f t)) :
    Aligned C p (Action.count f >>= fun _ => m) (Action.count f >>= fun _ => m') where
  left := (steady_count hf).bind fun _ => hl
  right := (steady_count hf).bind fun _ => hr
  agree s _ hst hend := by
    have hle := (hl { s with tally := f s.tally } hst.left).2
    exact absurd (C.allowed_of_le hle hend) (h s.tally hst.base)

/-! ### Contexts -/

theorem aligned_modifyContext (id : Nat) (f : Context → Context) :
    Aligned C p (Action.modifyContext id f) (Action.modifyContext id f) :=
  aligned_modify fun _ _ => ⟨rfl, rfl, le_rfl⟩

theorem aligned_context (id : Nat) : Aligned C p (Action.context id) (Action.context id) :=
  aligned_self (fun _ _ => rfl) fun _ => ⟨rfl, le_rfl⟩

theorem aligned_newContext (c : Context) :
    Aligned C p (Action.newContext c) (Action.newContext c) :=
  aligned_self (fun _ _ => rfl) fun _ => ⟨rfl, le_rfl⟩

theorem aligned_popWriter (id : Nat) : Aligned C p (Action.popWriter id) (Action.popWriter id) := by
  refine (aligned_context id).bind fun c => ?_
  split
  · exact aligned_panic _
  · exact (aligned_modifyContext _ _).bind fun _ => aligned_pure _

theorem aligned_modifySink (id : Nat) (f : Sink → Sink) :
    Aligned C p (Action.modifySink id f) (Action.modifySink id f) :=
  aligned_modify fun _ _ => ⟨rfl, rfl, le_rfl⟩

theorem aligned_writePlain (id : Nat) (text : Bytes) :
    Aligned C p (Action.writePlain id text) (Action.writePlain id text) := by
  refine aligned_get (fun _ _ => rfl) fun s => ?_
  split
  · exact aligned_modifySink _ _
  · exact aligned_fail _
  · exact aligned_pure _

theorem aligned_writeSink (id : Nat) (text : Bytes) :
    Aligned C p (Action.writeSink id text) (Action.writeSink id text) := by
  refine aligned_get (fun _ _ => rfl) fun s => ?_
  split
  · exact (aligned_modifySink _ _).bind fun _ => aligned_writePlain _ _
  · exact aligned_writePlain _ _

theorem aligned_write (id : Nat) (text : Bytes) :
    Aligned C p (Action.write id text) (Action.write id text) := by
  refine (aligned_context id).bind fun c => ?_
  split
  · exact aligned_modifyContext _ _
  · split
    · exact aligned_pure _
    · exact aligned_writeSink _ _

theorem aligned_checkCancelled (id : Nat) :
    Aligned C p (Action.checkCancelled id) (Action.checkCancelled id) := by
  refine (aligned_context id).bind fun c => ?_
  split
  · exact aligned_fail _
  · exact aligned_pure _

theorem steady_callStack (units : Array (List Lambda)) (id : Nat) :
    Steady units (Action.callStack id) := fun _ hs => ⟨hs, le_rfl⟩

/-- The active calls are the same where places are. -/
theorem aligned_callStack (hp : C.placed = true) (id : Nat) :
    Aligned C p (Action.callStack id) (Action.callStack id) where
  left := steady_callStack _ id
  right := steady_callStack _ id
  agree s t hst _ := by
    have hplaces := hst.places hp
    rw [hst.rest] at hplaces ⊢
    show Agree C p (.ok (Action.framesFrom s.frames s.places _ _ _) s)
      (.ok (Action.framesFrom s.frames _ _ _ _) _)
    rw [hplaces]
    exact .ok (hst.rest ▸ hst)

/-! ### Jobs -/

/-- Both callbacks do the same. Places are seen in the failures of functions only. -/
def AlignedCalls (C : Likeness) (call call' : Callback) : Prop :=
  ∀ ctx fn args, Aligned C (C.placed || !fn.isFunction) (call ctx fn args) (call' ctx fn args)

theorem AlignedCalls.loose {call call' : Callback} (h : AlignedCalls C call call') (ctx : Nat)
    (fn : Value) (args : List Value) : Aligned C C.placed (call ctx fn args) (call' ctx fn args) := by
  have := h ctx fn args
  revert this
  cases hp : C.placed with
  | true => simp
  | false =>
    cases fn.isFunction with
    | true => simp
    | false => exact Aligned.loosen

theorem AlignedCalls.serve {call call' : Callback} (h : AlignedCalls C call call') (q : Query) :
    Aligned C true (q.serve call) (q.serve call') := by
  cases q with
  | call ctx fn args =>
    have hcall := h ctx fn args
    have hcount (t : Tally) : t ≤ { t with callbacks := t.callbacks + fn.isFunction.toNat } :=
      Tally.le_def.2 (by simp)
    cases hp : C.placed || !fn.isFunction with
    | true =>
      rw [hp] at hcall
      exact (aligned_count hcount).bind fun _ => hcall
    | false =>
      refine aligned_counted hcount hcall.left hcall.right fun t ht hallowed => ?_
      have := C.unseen hallowed
      have := (Tally.le_def.1 ht).1
      simp_all
      omega
  | context ctx => exact aligned_context ctx
  | contextCount => exact aligned_self (fun _ _ => rfl) fun _ => ⟨rfl, le_rfl⟩
  | newContext => exact aligned_newContext {}
  | cancel ctx reason => exact aligned_modifyContext _ _
  | pushWriter ctx =>
    refine Aligned.bind (aligned_count fun t => Tally.le_def.2 (by simp)) fun _ => ?_
    exact aligned_modifyContext _ _
  | popWriter ctx =>
    refine Aligned.bind (aligned_count fun t => Tally.le_def.2 (by simp)) fun _ => ?_
    exact aligned_popWriter ctx
  | write ctx text => exact aligned_write ctx text
  | callStack ctx =>
    have hcount (t : Tally) : t ≤ { t with glimpses := t.glimpses + 1 } := Tally.le_def.2 (by simp)
    cases hp : C.placed with
    | true => exact (aligned_count hcount).bind fun _ => aligned_callStack hp ctx
    | false =>
      refine aligned_counted hcount (steady_callStack _ _) (steady_callStack _ _)
        fun t ht hallowed => ?_
      have := C.unseen hallowed
      have := (Tally.le_def.1 ht).2.1
      simp_all
      omega

theorem run_read (call : Callback) (k : Heap → Job α) :
    (Job.read k).run call = (get >>= fun s => (k s.toHeap).run call : Action α) := rfl

theorem run_update (call : Callback) (f : Heap → Heap) (k : Job α) :
    (Job.update f k).run call =
      (modify fun s : Store => { s with toHeap := f s.toHeap } : Action Unit) >>= fun _ =>
        k.run call := rfl

theorem run_ask (call : Callback) (q : Query) (k : Except Failure q.Answer → Job α) :
    (Job.ask q k).run call = inspect (q.serve call) fun r => (k r).run call := by
  funext s
  simp only [Job.run, inspect]
  cases q.serve call s <;> rfl

/-- One job after the other. -/
theorem Job.run_bind (call : Callback) (job : Job α) (f : α → Job β) :
    (job >>= f).run call = job.run call >>= fun a => (f a).run call := by
  show (job.bind f).run call = _
  induction job with
  | done a => rfl
  | fail e => rfl
  | read k ih =>
    funext s
    exact congrFun (ih s.toHeap) s
  | update g k ih =>
    funext s
    exact congrFun ih _
  | ask q k ih =>
    rw [show (Job.ask q k).bind f = .ask q fun r => (k r).bind f from rfl, run_ask, run_ask]
    funext s
    rw [bind_eq_inspect]
    unfold inspect
    cases q.serve call s <;> dsimp only <;> rw [ih, bind_eq_inspect] <;> rfl

/-- A job does the same when the calls it makes do the same. -/
theorem AlignedCalls.run {call call' : Callback} (h : AlignedCalls C call call') (job : Job α) :
    Aligned C true (job.run call) (job.run call') := by
  induction job with
  | done a => exact aligned_pure a
  | fail e => exact aligned_throw rfl
  | read k ih =>
    rw [run_read, run_read]
    exact aligned_get (fun _ _ => rfl) fun s => ih s.toHeap
  | update f k ih =>
    rw [run_update, run_update]
    refine Aligned.bind (aligned_modify fun _ _ => ⟨rfl, rfl, le_rfl⟩) fun _ => ih
  | ask q k ih =>
    rw [run_ask, run_ask]
    refine (h.serve q).inspect fun r r' hr => ?_
    obtain rfl : r = r' := by
      cases hr with
      | ok => rfl
      | error he => exact congrArg Except.error he
    exact ih r

/-- A job that calls nothing. -/
theorem aligned_job (job : Job α) : Aligned C p (liftM job : Action α) (liftM job) :=
  (AlignedCalls.run (fun _ _ _ => aligned_panic _) job).loosen

end Stencil
