import Stencil.Proofs.Machine.Aligned
import Stencil.Proofs.Machine.Service

/-!
# Properties of the way from one store to another

A passage is a relation of the store that a computation begins with and the one that it ends
with. It tells apart whether the computation comes back, with a value or an error, or ends for
good, with a panic or for want of fuel. What library and host do is a passage of every kind, and
passages follow one another; so they hold of computations that are put together if they hold of
the parts. What is left to look at are the variables, the captures and the calls of functions.

A job may go on after any failure of what it asks for. That a call comes back must then be known
in any case, except of the calls that are counted.
-/

namespace Stencil

variable {ε α β : Type}

/-- Whether a computation comes back. -/
def comesBack : EStateM.Result Failure Store α → Bool
  | .ok _ _ => true
  | .error e _ => e.isError

@[simp]
theorem comesBack_ok (a : α) (s : Store) : comesBack (.ok a s : EStateM.Result Failure Store α) = true := rfl

@[simp]
theorem comesBack_error (e : Failure) (s : Store) :
    comesBack (.error e s : EStateM.Result Failure Store α) = e.isError := rfl

/-- What is run finally is run if the computation before comes back. -/
theorem comesBack_runFinally (m f : ExceptT ε Action α) (s : Store) :
    comesBack ((runFinally m f).run s) =
      (comesBack (m.run s) && comesBack (f.run (lastStore (m.run s)))) := by
  rw [run_runFinally_apply]
  rcases m.run s with ⟨r, t⟩ | ⟨e, t⟩
  · rcases hf : f.run t with ⟨_ | _, _⟩ | ⟨_, _⟩ <;> simp [hf]
  · cases e with
    | panic | exhausted => rfl
    | _ => rcases hf : f.run t with ⟨_ | _, _⟩ | ⟨_, _⟩ <;> simp [hf, Failure.isError]

theorem lastStore_runFinally (m f : ExceptT ε Action α) (s : Store) :
    lastStore ((runFinally m f).run s) =
      if comesBack (m.run s) then lastStore (f.run (lastStore (m.run s))) else lastStore (m.run s) := by
  rw [run_runFinally_apply]
  rcases m.run s with ⟨r, t⟩ | ⟨e, t⟩
  · rcases hf : f.run t with ⟨_ | _, _⟩ | ⟨_, _⟩ <;> simp [hf]
  · cases e with
    | panic | exhausted => rfl
    | _ => rcases hf : f.run t with ⟨_ | _, _⟩ | ⟨_, _⟩ <;> simp [hf, Failure.isError]

/-- A property of the way from one store to another. -/
structure Passage where
  /-- Where the way may begin. -/
  Pre : Store → Prop
  /-- What holds of the two stores, if the computation comes back, and if not. -/
  Rel : Bool → Store → Store → Prop
  serve {s t : Store} : Pre s → Serves s t → Rel true s t
  trans {b : Bool} {s t u : Store} : Rel true s t → Rel b t u → Rel b s u
  weaken {s t : Store} : Rel true s t → Rel false s t
  keep {b : Bool} {s t : Store} : Pre s → Rel b s t → Pre t
  /-- After a call that is counted it does not matter whether it comes back. -/
  heard {s t u : Store} : Rel true s t → Rel false t u → s.tally.callbacks < t.tally.callbacks →
    Rel true s u

/-- A computation makes a passage; with `p`, it does not matter whether it comes back. -/
def Passes (P : Passage) (p : Bool) (m : Action α) : Prop :=
  ∀ s, P.Pre s → P.Rel (p || comesBack (m s)) s (lastStore (m s))

variable {P : Passage} {p : Bool}

theorem Passage.weaken' {b : Bool} {s t : Store} (h : P.Rel true s t) : P.Rel b s t := by
  cases b with
  | true => exact h
  | false => exact P.weaken h

theorem Passage.refl {b : Bool} {s : Store} (h : P.Pre s) : P.Rel b s s :=
  P.weaken' (P.serve h (.refl s))

theorem Passes.weaken {m : Action α} (h : Passes P true m) : Passes P p m := fun s hs =>
  P.weaken' (h s hs)

theorem Stays.passes {m : Action α} (h : Stays m) : Passes P p m := fun s hs =>
  P.weaken' (P.serve hs (h s))

/-! ### How computations are put together -/

theorem passes_pure (a : α) : Passes P p (pure a : Action α) := (stays_pure a).passes

theorem passes_throw (e : Failure) : Passes P p (throw e : Action α) := (stays_throw e).passes

theorem passes_fail (msg : Bytes) : Passes P p (Action.fail msg : Action α) := passes_throw _

theorem passes_panic (msg : Bytes) : Passes P p (Action.panic msg : Action α) := passes_throw _

/-- What goes on with any end of a computation, if panics go on as panics. -/
theorem Passes.inspect {m : Action α} {k : Except Failure α → Action β} (h : Passes P p m)
    (hk : ∀ r, Passes P p (k r))
    (hp : p = true ∨ ∀ e : Failure, e.isError = false → k (.error e) = throw e) :
    Passes P p (inspect m k) := by
  intro s hs
  have hm := h s hs
  unfold Stencil.inspect
  cases hms : m s with
  | ok a s₁ =>
    rw [hms] at hm
    simp only [comesBack_ok, Bool.or_true, lastStore_ok] at hm
    exact P.trans hm (hk (.ok a) s₁ (P.keep hs hm))
  | error e s₁ =>
    rw [hms] at hm
    simp only [comesBack_error, lastStore_error] at hm
    cases hb : p || e.isError with
    | true =>
      rw [hb] at hm
      exact P.trans hm (hk (.error e) s₁ (P.keep hs hm))
    | false =>
      simp only [Bool.or_eq_false_iff] at hb
      dsimp only
      rw [hp.resolve_left (by simp [hb.1]) e hb.2]
      exact hm

theorem Passes.bind {m : Action α} {f : α → Action β} (h : Passes P p m)
    (hf : ∀ a, Passes P p (f a)) : Passes P p (m >>= f) := by
  rw [bind_eq_inspect]
  refine h.inspect (fun r => ?_) (.inr fun _ _ => rfl)
  cases r with
  | ok a => exact hf a
  | error e => exact passes_throw e

theorem Passes.attempt_bind {m : Action α} {k : Except Failure α → Action β} (h : Passes P p m)
    (hk : ∀ r, Passes P p (k r)) : Passes P p (Action.attempt m >>= k) := by
  rw [attempt_bind_eq_inspect]
  refine h.inspect (fun r => ?_) (.inr fun e he => by simp [he])
  cases r with
  | ok a => exact hk _
  | error e =>
    dsimp only
    split
    · exact hk _
    · exact passes_throw e

theorem passes_get {f : Store → Action α} (h : ∀ s, Passes P p (f s)) : Passes P p (get >>= f) :=
  fun s hs => h s s hs

/-- What depends on the store at hand, of which something is known. -/
theorem passes_choose {f : Store → Action α} (h : ∀ s, P.Pre s → Passes P p (f s)) :
    Passes P p (get >>= f) := fun s hs => h s hs s hs

theorem Passes.ite {c : Prop} [Decidable c] {m n : Action α} (h : Passes P p m)
    (h' : Passes P p n) : Passes P p (if c then m else n) := by
  split
  · exact h
  · exact h'

theorem Passes.map {m : Action α} (h : Passes P p m) (f : α → β) : Passes P p (f <$> m) := by
  rw [← bind_pure_comp]
  exact h.bind fun a => passes_pure (f a)

theorem Passes.lift {m : Action α} (h : Passes P p m) :
    Passes P p (liftM m : ExceptT ε Action α).run := h.map Except.ok

/-! ### Computations with exits -/

theorem passes_return (a : α) : Passes P p (pure a : ExceptT ε Action α).run := passes_pure (Except.ok a)

theorem passes_exit (e : ε) : Passes P p (throw e : ExceptT ε Action α).run := passes_pure (Except.error e)

/-- What holds of the value of a computation that begins well, if it has one. -/
def Yields (P : Passage) (m : ExceptT ε Action α) (φ : α → Prop) : Prop :=
  ∀ s v t, P.Pre s → m.run s = .ok (.ok v) t → φ v

/-- What goes on from the stores and values that a computation may end with. -/
theorem Passes.exits_bind_at {m : ExceptT ε Action α} {f : α → ExceptT ε Action β}
    (h : Passes P p m.run) (hf : ∀ s a t, P.Pre s → m.run s = .ok (.ok a) t → P.Pre t →
      P.Rel (p || comesBack ((f a).run t)) t (lastStore ((f a).run t))) :
    Passes P p (m >>= f).run := by
  intro s hs
  have hm := h s hs
  rw [run_bind_apply]
  cases hms : m.run s with
  | error e s₁ =>
    rw [hms] at hm
    exact hm
  | ok r s₁ =>
    rw [hms] at hm
    simp only [comesBack_ok, Bool.or_true, lastStore_ok] at hm
    cases r with
    | ok a => exact P.trans hm (hf s a s₁ hs hms (P.keep hs hm))
    | error e => exact P.weaken' hm

theorem Passes.exits_bind_of {m : ExceptT ε Action α} {f : α → ExceptT ε Action β} {φ : α → Prop}
    (h : Passes P p m.run) (hφ : Yields P m φ) (hf : ∀ a, φ a → Passes P p (f a).run) :
    Passes P p (m >>= f).run :=
  h.exits_bind_at fun s a t hs hm ht => hf a (hφ s a t hs hm) t ht

theorem Passes.exits_bind {m : ExceptT ε Action α} {f : α → ExceptT ε Action β}
    (h : Passes P p m.run) (hf : ∀ a, Passes P p (f a).run) : Passes P p (m >>= f).run :=
  h.exits_bind_of (φ := fun _ => True) (fun _ _ _ _ _ => trivial) fun a _ => hf a

theorem Passes.ite_exits {c : Prop} [Decidable c] {m n : ExceptT ε Action α} (h : Passes P p m.run)
    (h' : Passes P p n.run) : Passes P p (if c then m else n).run := by
  split
  · exact h
  · exact h'

theorem passes_get_exits {f : Store → ExceptT ε Action α} (h : ∀ s, Passes P p (f s).run) :
    Passes P p (get >>= f).run := by
  show Passes P p (get >>= fun s => (f s).run)
  exact passes_get h

theorem Passes.outcome {m : ExceptT ε Action α} (h : Passes P p m.run) :
    Passes P p (Stencil.outcome m).run := h.map Except.ok

theorem Passes.runFinally {m f : ExceptT ε Action α} (h : Passes P p m.run) (hf : Passes P p f.run) :
    Passes P p (Stencil.runFinally m f).run := by
  rw [runFinally_eq]
  refine h.inspect (fun r => ?_) (.inr fun e he => by simp [he])
  cases r with
  | ok r =>
    refine hf.bind fun r' => ?_
    cases r' <;> exact passes_pure _
  | error e =>
    dsimp only
    split
    · refine hf.bind fun r' => ?_
      cases r' with
      | ok => exact passes_throw e
      | error => exact passes_pure _
    · exact passes_throw e

/-! ### Places -/

section

variable (act : Activation)

theorem stays_moveTo (pos : Position) : Stays (act.moveTo pos) := fun _ =>
  .of_eq rfl le_rfl rfl rfl rfl rfl rfl

theorem Passes.noted {m : Action α} (h : Passes P p m) (pos : Position) :
    Passes P p (act.moveTo pos >>= fun _ => act.locate pos m) := by
  have report (e : Failure) : Stays (act.report pos e : Action α) :=
    (stays_moveTo act pos).bind fun _ => (stays_callStack _).bind fun _ => stays_throw _
  refine (stays_moveTo act pos).passes.bind fun _ => ?_
  rw [locate_eq]
  refine h.inspect (fun r => ?_) (.inr fun e he => by cases e <;> first | rfl | cases he)
  split
  · exact passes_pure _
  · exact (report _).passes
  · exact (report _).passes
  · exact passes_throw _

end

/-! ### Jobs -/

/-- Calls make a passage. That those of functions come back need not be known. -/
def PassesCalls (P : Passage) (call : Callback) : Prop :=
  ∀ ctx fn args, Passes P (!fn.isFunction) (call ctx fn args)

variable {call : Callback}

theorem PassesCalls.loose (h : PassesCalls P call) (ctx : Nat) (fn : Value) (args : List Value) :
    Passes P false (call ctx fn args) := by
  have := h ctx fn args
  cases hf : fn.isFunction with
  | true => rwa [hf] at this
  | false =>
    rw [hf] at this
    exact this.weaken

theorem PassesCalls.serve (h : PassesCalls P call) (q : Query) : Passes P true (q.serve call) := by
  cases q with
  | call ctx fn args =>
    have hcount : Stays (Action.count fun t =>
        { t with callbacks := t.callbacks + fn.isFunction.toNat }) :=
      stays_count fun t => Tally.le_def.2 (by simp)
    have hcall := h ctx fn args
    cases hf : fn.isFunction with
    | false =>
      rw [hf] at hcall hcount
      rw [Query.serve, hf]
      exact hcount.passes.bind fun _ => hcall
    | true =>
      rw [hf] at hcall hcount
      intro s hs
      let s₁ : Store := { s with tally := { s.tally with callbacks := s.tally.callbacks + 1 } }
      have h₁ : P.Rel true s s₁ := P.serve hs (hcount s)
      have hrel := hcall s₁ (P.keep hs h₁)
      show P.Rel true s (lastStore (Query.serve call (.call ctx fn args) s))
      rw [show Query.serve call (.call ctx fn args) s = call ctx fn args s₁ by
        rw [Query.serve, hf]; rfl]
      cases hb : comesBack (call ctx fn args s₁) with
      | true => exact P.trans h₁ (hb ▸ hrel)
      | false => exact P.heard h₁ (hb ▸ hrel) (Nat.lt_succ_self _)
  | _ => exact (stays_serve call _ fun _ _ _ h => by cases h).passes

theorem PassesCalls.run (h : PassesCalls P call) (job : Job α) : Passes P true (job.run call) := by
  induction job with
  | done a => exact passes_pure a
  | fail e => exact passes_throw e
  | read k ih =>
    rw [run_read]
    exact passes_get fun s => ih s.toHeap
  | update f k ih =>
    rw [run_update]
    exact Passes.bind (Stays.passes fun _ => .of_eq rfl le_rfl rfl rfl rfl rfl rfl) fun _ => ih
  | ask q k ih =>
    rw [run_ask]
    exact (h.serve q).inspect ih (.inl rfl)

theorem passes_job (job : Job α) : Passes P p (liftM job : Action α) :=
  (PassesCalls.run (fun _ _ _ => passes_panic _) job).weaken

theorem PassesCalls.within (h : PassesCalls P call) (job : Job α) :
    Passes P p (job.within call : ExceptT ε Action α).run := (h.run job).weaken.lift

/-! ### Faults -/

/-- Faults do not matter. -/
def Passage.Lenient (P : Passage) : Prop :=
  ∀ s f, P.Pre s → P.Rel true s { s with faults := f :: s.faults }

theorem Passage.Lenient.fault (h : P.Lenient) (f : Fault) : Passes P p (Action.fault f) :=
  fun s hs => P.weaken' (h s f hs)

theorem Passage.Lenient.unexpectedNode (h : P.Lenient) (kind : String) :
    Passes P p (unexpectedNode kind) := (h.fault _).bind fun _ => passes_fail _

end Stencil
