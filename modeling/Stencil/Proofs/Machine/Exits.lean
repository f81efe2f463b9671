import Stencil.Machine.Evaluate
import Stencil.Proofs.Machine.Twin

/-!
# How computations with exits run, and jobs

What a computation with exits does from a given store, for each way in which such computations
are put together; and what becomes of a job that goes on with the outcome of another one, of a
failure that is handled, of an error that is an outcome, and of one whose wording is put into
context.
-/

namespace Stencil

variable {ε α β : Type}

theorem bind_apply (m : Action α) (f : α → Action β) (s : Store) :
    (m >>= f) s =
      match m s with
      | .ok a s' => f a s'
      | .error e s' => .error e s' := by
  show EStateM.bind m f s = _
  unfold EStateM.bind
  cases m s <;> rfl

theorem eq_of_run {ε α : Type} {m m' : ExceptT ε Action α} (h : ∀ s, m.run s = m'.run s) :
    m = m' := funext h

theorem run_pure_apply (a : α) (s : Store) :
    (pure a : ExceptT ε Action α).run s = .ok (.ok a) s := rfl

theorem run_bind_apply (m : ExceptT ε Action α) (f : α → ExceptT ε Action β) (s : Store) :
    (m >>= f).run s =
      match m.run s with
      | .ok (.ok a) s' => (f a).run s'
      | .ok (.error e) s' => .ok (.error e) s'
      | .error e s' => .error e s' := by
  show EStateM.bind m.run (ExceptT.bindCont f) s = _
  unfold EStateM.bind
  cases m.run s with
  | ok r s' => cases r <;> rfl
  | error e s' => rfl

theorem run_lift_apply (m : Action α) (s : Store) :
    (liftM m : ExceptT ε Action α).run s =
      match m s with
      | .ok a s' => .ok (.ok a) s'
      | .error e s' => .error e s' := by
  show EStateM.map Except.ok m s = _
  unfold EStateM.map
  cases m s <;> rfl

theorem run_outcome_apply (m : ExceptT ε Action α) (s : Store) :
    (outcome m).run s =
      match m.run s with
      | .ok r s' => .ok (.ok r) s'
      | .error e s' => .error e s' := by
  show EStateM.map Except.ok m.run s = _
  unfold EStateM.map
  cases m.run s <;> rfl

theorem run_discard_apply (m : ExceptT ε Action α) (s : Store) :
    (Functor.discard m : ExceptT ε Action PUnit).run s =
      match m.run s with
      | .ok (.ok _) s' => .ok (.ok ⟨⟩) s'
      | .ok (.error e) s' => .ok (.error e) s'
      | .error e s' => .error e s' := by
  show EStateM.bind m.run _ s = _
  unfold EStateM.bind
  cases m.run s with
  | ok r s' => cases r <;> rfl
  | error e s' => rfl

theorem run_runFinally_apply (m m' : ExceptT ε Action α) (s : Store) :
    (runFinally m m').run s =
      match m.run s with
      | .error (.panic msg b) s' => .error (.panic msg b) s'
      | .error .exhausted s' => .error .exhausted s'
      | .error e s' =>
        match m'.run s' with
        | .ok (.ok _) s' => .error e s'
        | r => r
      | .ok r s' =>
        match m'.run s' with
        | .ok (.ok _) s' => .ok r s'
        | r => r := rfl

/-- A store after the point of execution in a frame has moved. -/
def Activation.moved (act : Activation) (pos : Position) (s : Store) : Store :=
  { s with places := s.places.setIfInBounds act.frame pos }

theorem Activation.moved_moved (act : Activation) (p q : Position) (s : Store) :
    act.moved q (act.moved p s) = act.moved q s := by
  simp only [moved, Array.setIfInBounds_setIfInBounds]

theorem Activation.moveTo_apply (act : Activation) (pos : Position) (s : Store) :
    act.moveTo pos s = .ok () (act.moved pos s) := rfl

/-- The error that is reported at a place instead of another. -/
def Activation.reported (act : Activation) (pos : Position) (e : Failure) (s : Store) : Failure :=
  let s := act.moved pos s
  .positioned ⟨pos, e.message, Action.framesFrom s.frames s.places s.frames.size
    (s.contexts.getD act.ctx {}).frame [], e.isMissing⟩

theorem run_locate_apply (act : Activation) (pos : Position) (m : ExceptT ε Action α) (s : Store) :
    (ExceptT.mk (act.locate pos m.run) : ExceptT ε Action α).run s =
      match m.run s with
      | .error (.missing msg) s' =>
        .error (act.reported pos (.missing msg) s') (act.moved pos s')
      | .error (.plain msg b) s' =>
        .error (act.reported pos (.plain msg b) s') (act.moved pos s')
      | r => r := by
  show act.locate pos m.run s = _
  unfold Activation.locate
  cases m.run s with
  | ok r s' => rfl
  | error e s' => cases e <;> rfl

/-! ### Blocks without labels -/

/-- Not a label, whatever notes are around. -/
def Code.Plain (c : Code) : Prop := ∀ t d, c.unwrap ≠ .label t d

theorem labelIndex_eq_none {items : List Code} (h : ∀ c ∈ items, c.Plain) :
    labelIndex items = fun _ => none := by
  funext t
  refine List.findIdx?_eq_none_iff.2 fun c hc => ?_
  split
  · rename_i u d hu
    exact absurd hu (h c hc u d)
  · rfl

/-- To look at an outcome and pass on what is not a value changes nothing. -/
theorem outcome_bind (m : ExceptT ε Action α) (f : α → ExceptT ε Action β)
    (g : Except ε α → ExceptT ε Action β) (hv : ∀ v, g (.ok v) = f v)
    (he : ∀ e, g (.error e) = throw e) : (outcome m >>= g) = m >>= f := by
  refine eq_of_run fun s => ?_
  rw [run_bind_apply, run_bind_apply, run_outcome_apply]
  cases m.run s with
  | ok r s' =>
    cases r with
    | ok a => simp [hv]
    | error e => simp [he]; rfl
  | error e s' => rfl

theorem runBlock_unlabelled (run : Nat → Value → Eval Value) (fuel skip : Nat) (last : Value) :
    runBlock (fun _ => none) run fuel skip last = run skip last := by
  have h : (run skip last >>= fun v => pure v) = run skip last := bind_pure _
  rw [← h]
  cases fuel <;> exact outcome_bind _ _ _ (fun _ => rfl) fun _ => rfl

section

variable [Host] {call : Callback} {fuel : Nat} {act : Activation}

theorem evalFrom_cons (c : Code) (cs : List Code) (i : Nat) (last : Value) :
    evalFrom call fuel act (fun _ => none) (c :: cs) i 0 last =
      c.eval call fuel act >>= fun v => evalFrom call fuel act (fun _ => none) cs (i + 1) 0 v := by
  rw [evalFrom]
  exact outcome_bind _ _ _ (fun _ => rfl) fun _ => rfl

theorem evalFrom_nil (labels : Target → Option Nat) (i skip : Nat) (last : Value) :
    evalFrom call fuel act labels [] i skip last = pure last := by
  rw [evalFrom]

end

/-! ### Jobs -/

variable {call : Callback} {s t : Store} {job : Job α}

theorem run_get : (get : Job Heap).run call s = .ok s.toHeap s := rfl

theorem run_bind_ok {a : α} (h : job.run call s = .ok a t) (f : α → Job β) :
    (job >>= f).run call s = (f a).run call t := by
  rw [Job.run_bind, bind_apply, h]

theorem run_bind_error {e : Failure} (h : job.run call s = .error e t) (f : α → Job β) :
    (job >>= f).run call s = .error e t := by
  rw [Job.run_bind, bind_apply, h]

theorem run_handle (job : Job α) (g : Failure → Job α) (s : Store) :
    (job.handle g).run call s =
      match job.run call s with
      | .ok a t => .ok a t
      | .error e t => (g e).run call t := by
  induction job generalizing s with
  | done | fail => rfl
  | read k ih => exact ih s.toHeap s
  | update f k ih => exact ih _
  | ask q k ih =>
    simp only [Job.handle, Job.run]
    cases q.serve call s with
    | ok a u => exact ih (.ok a) u
    | error e u => exact ih (.error e) u

theorem run_attempt {a : α} (h : job.run call s = .ok a t) :
    (Job.attempt job).run call s = .ok (.ok a) t := by
  have hmap : (Except.ok <$> job : Job (Except Failure α)).run call s = .ok (.ok a) t := by
    exact run_bind_ok h (pure ∘ Except.ok : α → Job (Except Failure α))
  rw [Job.attempt, run_handle, hmap]

theorem run_attempt_error {e : Failure} (he : e.isError = true) (h : job.run call s = .error e t) :
    (Job.attempt job).run call s = .ok (.error e) t := by
  have hmap : (Except.ok <$> job : Job (Except Failure α)).run call s = .error e t := by
    exact run_bind_error h (pure ∘ Except.ok : α → Job (Except Failure α))
  rw [Job.attempt, run_handle, hmap]
  dsimp only
  rw [if_pos he]
  rfl

theorem run_explaining {a : α} (before : Bytes) (h : job.run call s = .ok a t) :
    (Job.explaining before job).run call s = .ok a t := by
  rw [Job.explaining, run_bind_ok (run_attempt h)]
  rfl

theorem run_explaining_error {e : Failure} (before : Bytes) (he : e.isError = true)
    (h : job.run call s = .error e t) :
    (Job.explaining before job).run call s = .error (.plain (before ++ e.message) false) t := by
  rw [Job.explaining, run_bind_ok (run_attempt_error he h)]
  rfl

end Stencil
