import Stencil.Proofs.Loops.Search
import Stencil.Proofs.Direct.Semantics

/-!
# The course of a loop

What a loop does, from the first element that it reaches to its end: `Course` tells which elements
are looked at, for which elements the body is run, and how the loop ends. It is told apart whether
the loop comes to its end when it advances, or is ended by something inside.

Every run of a loop follows a course (`LoopParts.Sustains.runs`), as long as the loop can go on after
each element: this and what holds in the end are two properties that the parts of the loop sustain,
by induction on the rounds and on the elements that a `continue` between two elements skips.
-/

namespace Stencil

/-! ### Parts and ends of loops -/

/-- How a loop ends. -/
inductive LoopEnd where
  /-- The sequence has no further element. -/
  | ended
  /-- The search for an element fails. -/
  | failed (e : Failure)
  /-- The loop is left by `break`. -/
  | left
  | returned (v : Value)
  /-- The loop is stopped by a failure inside. -/
  | stopped (e : Failure)

/-- What the loop comes to. -/
def LoopEnd.result : LoopEnd → Store → EStateM.Result Failure Store (Except Exit Unit)
  | .ended, t => .ok (.ok ()) t
  | .failed e, t => .error e t
  | .left, t => .ok (.ok ()) t
  | .returned v, t => .ok (.error (.ret v)) t
  | .stopped e, t => .error e t

/-- The loop has come to its end, or the search for an element has failed. -/
def LoopEnd.IsEnd : LoopEnd → Prop
  | .ended | .failed _ => True
  | .left | .returned _ | .stopped _ => False

/-- Something inside a loop ends it. -/
inductive Cuts : EStateM.Result Failure Store (Except Exit Unit) → LoopEnd → Store → Prop
  | left {t} : Cuts (.ok (.error .leave) t) .left t
  | returned {v t} : Cuts (.ok (.error (.ret v)) t) (.returned v) t
  | stopped {e t} : Cuts (.error e t) (.stopped e) t

/-- The parts of a loop: how it advances, what it does for an element, and what it does between two
elements. -/
structure LoopParts where
  ctx : Nat
  Advances : Store → List Trial → Reach → Store → Prop
  visit : Exec Unit
  between : Exec Unit

/-- Where a loop is: before an advance, which is the first one or not, or at an element. -/
inductive Phase where
  | advance (first : Bool)
  | round (x : Value)

/-- The course of a loop: the elements that are tested, the elements that are visited, and how the
loop ends. -/
inductive LoopParts.Course (L : LoopParts) :
    Phase → Store → List Trial → List Value → LoopEnd → Store → Prop
  | ended {first s trials t} : L.Advances s trials .ended t →
      Course L (.advance first) s trials [] .ended t
  | failed {first s trials e t} : L.Advances s trials (.failed e) t →
      Course L (.advance first) s trials [] (.failed e) t
  | broke {first s trials e t} : L.Advances s trials (.broke e) t →
      Course L (.advance first) s trials [] (.stopped e) t
  | first {s trials x t trials' xs w u} : L.Advances s trials (.element x) t →
      Course L (.round x) t trials' xs w u → Course L (.advance true) s (trials ++ trials') xs w u
  | between {s trials x t u trials' xs w v} : L.Advances s trials (.element x) t →
      L.between.run t = .ok (.ok ()) u → Course L (.round x) u trials' xs w v →
      Course L (.advance false) s (trials ++ trials') xs w v
  /-- A `continue` between two elements goes on to the next one. -/
  | skipped {s trials x t u trials' xs w v} : L.Advances s trials (.element x) t →
      L.between.run t = .ok (.error .again) u → Course L (.advance false) u trials' xs w v →
      Course L (.advance false) s (trials ++ trials') xs w v
  | cut {s trials x t w u} : L.Advances s trials (.element x) t → Cuts (L.between.run t) w u →
      Course L (.advance false) s trials [] w u
  | cancelled {x s e} : Action.checkCancelled L.ctx s = .error e s →
      Course L (.round x) s [] [] (.stopped e) s
  | visited {x s t trials xs w u} : Action.checkCancelled L.ctx s = .ok () s →
      L.visit.run s = .ok (.ok ()) t → Course L (.advance false) t trials xs w u →
      Course L (.round x) s trials (x :: xs) w u
  | left {x s w t} : Action.checkCancelled L.ctx s = .ok () s → Cuts (L.visit.run s) w t →
      Course L (.round x) s [] [x] w t
  /-- The bound on the rounds is reached. -/
  | spent {p s} : Course L p s [] [] (.stopped .exhausted) s

/-- A loop with given parts. -/
def LoopParts.loop (L : LoopParts) (advance : Exec Bool) (fuel : Nat) : Exec Unit := do
  let next : Exec Unit := do if ← advance then L.between else throw .leave
  if ← advance then
    rounds L.ctx (advancing next fuel do
      L.visit
      next) fuel

/-- How an advance ends that cannot be left. -/
def Reach.advanced : Reach → Store → EStateM.Result Failure Store (Except Exit Bool)
  | .element _, t => .ok (.ok true) t
  | .ended, t => .ok (.ok false) t
  | .failed e, t => .error e t
  | .broke e, t => .error e t

/-- What holds after an advance: at an element, that the loop may go on, and otherwise what holds at
the end. -/
def Reach.Leads (ready : Value → Store → Prop) (final : LoopEnd → Store → Prop) :
    Reach → Store → Prop
  | .element x, t => ready x t
  | .ended, t => final .ended t
  | .failed e, t => final (.failed e) t
  | .broke e, t => final (.stopped e) t

/-- What keeps a loop going: `ready` holds at each element, and `final` at the end. -/
structure LoopParts.Sustains (L : LoopParts) (advance : Exec Bool) (ready : Value → Store → Prop)
    (final : LoopEnd → Store → Prop) : Prop where
  advance {x s} : ready x s → ∃ trials r t, L.Advances s trials r t ∧
    advance.run s = r.advanced t ∧ r.Leads ready final t
  visit {x s} : ready x s → ready x (lastStore (L.visit.run s))
  visit_again {s t} : L.visit.run s ≠ .ok (.error .again) t
  between {x s} : ready x s → ready x (lastStore (L.between.run s))
  left {x s} : ready x s → final .left s
  returned {x s v} : ready x s → final (.returned v) s
  stopped {x s e} : ready x s → final (.stopped e) s

section

variable {L : LoopParts} {advance : Exec Bool} {ready : Value → Store → Prop}
  {final : LoopEnd → Store → Prop} {s t : Store} {x : Value} {fuel n : Nat}

/-- From a phase of a loop, a computation follows a course of the loop to its end. -/
def LoopParts.Runs (L : LoopParts) (final : LoopEnd → Store → Prop) (p : Phase) (m : Exec Unit)
    (s : Store) : Prop :=
  ∃ trials xs w t, L.Course p s trials xs w t ∧ m.run s = w.result t ∧ final w t

/-- To advance, and to do what stands between two elements. -/
def LoopParts.next (L : LoopParts) (advance : Exec Bool) : Exec Unit := do
  if ← advance then L.between else throw .leave

/-- What follows a round, as long as `n` rounds are left. -/
def LoopParts.afterRound (L : LoopParts) (advance : Exec Bool) (fuel n : Nat) :
    Except Exit Unit → Exec Unit
  | .ok _ | .error .again =>
    rounds L.ctx (advancing (L.next advance) fuel do
      L.visit
      L.next advance) n
  | .error .leave => return
  | .error (.ret v) => throw (.ret v)

theorem run_outcome_bind {ε α β : Type} (m : ExceptT ε Action α)
    (k : Except ε α → ExceptT ε Action β) (s : Store) :
    (outcome m >>= k).run s =
      match m.run s with
      | .ok r t => (k r).run t
      | .error e t => .error e t := by
  rw [run_bind_apply, run_outcome_apply]
  cases m.run s <;> rfl

/-- What is run with a way to go on when it asks for it. -/
theorem run_advancing (next run : Exec Unit) (n : Nat) (s : Store) :
    (advancing next n run).run s =
      match run.run s with
      | .ok (.ok _) t => .ok (.ok ()) t
      | .ok (.error .again) t =>
        match n with
        | 0 => .error .exhausted t
        | n + 1 => (advancing next n next).run t
      | .ok (.error e) t => .ok (.error e) t
      | .error e t => .error e t := by
  cases n <;>
  · rw [advancing, run_outcome_bind]
    cases run.run s with
    | error => rfl
    | ok r t =>
      cases r with
      | ok => rfl
      | error x => cases x <;> rfl

theorem run_next (L : LoopParts) (advance : Exec Bool) (s : Store) :
    (L.next advance).run s =
      match advance.run s with
      | .ok (.ok true) t => L.between.run t
      | .ok (.ok false) t => .ok (.error .leave) t
      | .ok (.error e) t => .ok (.error e) t
      | .error e t => .error e t := by
  rw [LoopParts.next, run_bind_apply]
  cases advance.run s with
  | error => rfl
  | ok r t =>
    cases r with
    | ok b => cases b <;> rfl
    | error => rfl

/-- What a `continue` between two elements leads to, if it may be followed by `m` others. -/
def LoopParts.skipped (L : LoopParts) (advance : Exec Bool) (fuel n : Nat) : Nat → Exec Unit
  | 0 => (throw .exhausted : Action Unit)
  | m + 1 => outcome (advancing (L.next advance) m (L.next advance)) >>= L.afterRound advance fuel n

/-- An advance after a round, and what follows. -/
theorem LoopParts.Sustains.afterNext (h : L.Sustains advance ready final)
    (hround : ∀ y t, ready y t → L.Runs final (.round y) (L.afterRound advance fuel n (.ok ())) t)
    {m : Nat}
    (hskipped : ∀ y t, ready y t → L.Runs final (.advance false) (L.skipped advance fuel n m) t)
    (hs : ready x s) :
    L.Runs final (.advance false)
      (outcome (advancing (L.next advance) m (L.next advance)) >>= L.afterRound advance fuel n) s := by
  obtain ⟨trials, r, t, hadvances, hrun, hleads⟩ := h.advance hs
  unfold LoopParts.Runs
  rw [run_outcome_bind, run_advancing, run_next, hrun]
  cases r with
  | ended => exact ⟨_, _, _, t, .ended hadvances, rfl, hleads⟩
  | failed e => exact ⟨_, _, _, t, .failed hadvances, rfl, hleads⟩
  | broke e => exact ⟨_, _, _, t, .broke hadvances, rfl, hleads⟩
  | element y =>
    have hbetween : ready y (lastStore (L.between.run t)) := h.between hleads
    dsimp only [Reach.advanced]
    cases hr : L.between.run t with
    | error e u =>
      rw [hr] at hbetween
      exact ⟨_, _, _, u, .cut hadvances (hr ▸ .stopped), rfl, h.stopped hbetween⟩
    | ok r u =>
      rw [hr] at hbetween
      cases r with
      | ok =>
        obtain ⟨trials', xs, w, v, hcourse, hresult, hfinal⟩ := hround y u hbetween
        exact ⟨_, xs, w, v, .between hadvances hr hcourse, hresult, hfinal⟩
      | error x =>
        cases x with
        | leave => exact ⟨_, _, _, u, .cut hadvances (hr ▸ .left), rfl, h.left hbetween⟩
        | ret z => exact ⟨_, _, _, u, .cut hadvances (hr ▸ .returned), rfl, h.returned hbetween⟩
        | again =>
          obtain ⟨trials', xs, w, v, hcourse, hresult, hfinal⟩ := hskipped y u hbetween
          refine ⟨_, xs, w, v, .skipped hadvances hr hcourse, ?_, hfinal⟩
          rw [← hresult]
          cases m with
          | zero => rfl
          | succ m => exact (run_outcome_bind _ _ u).symm

/-- A computation that gives up for want of fuel. -/
theorem LoopParts.Sustains.spent (h : L.Sustains advance ready final) (p : Phase)
    (hs : ready x s) : L.Runs final p (throw .exhausted : Action Unit) s :=
  ⟨[], [], .stopped .exhausted, s, .spent, rfl, h.stopped hs⟩

/-- A `continue` between two elements, and what follows. -/
theorem LoopParts.Sustains.skipped (h : L.Sustains advance ready final)
    (hround : ∀ y t, ready y t → L.Runs final (.round y) (L.afterRound advance fuel n (.ok ())) t)
    (m : Nat) (hs : ready x s) :
    L.Runs final (.advance false) (L.skipped advance fuel n m) s := by
  induction m generalizing x s with
  | zero => exact h.spent _ hs
  | succ m ih => exact h.afterNext hround (fun _ _ hy => ih hy) hs

theorem checkCancelled_cases (ctx : Nat) (s : Store) :
    Action.checkCancelled ctx s = .ok () s ∨ ∃ e, Action.checkCancelled ctx s = .error e s := by
  rw [Action.checkCancelled, context_bind_apply]
  cases (s.context ctx).cancelled with
  | none => exact .inl rfl
  | some reason => exact .inr ⟨_, rfl⟩

theorem rounds_succ (L : LoopParts) (advance : Exec Bool) (fuel n : Nat) :
    L.afterRound advance fuel (n + 1) (.ok ()) =
      (liftM (Action.checkCancelled L.ctx) : Exec Unit) >>= fun _ =>
        outcome (advancing (L.next advance) fuel (L.visit >>= fun _ => L.next advance)) >>=
          L.afterRound advance fuel n := by
  rw [LoopParts.afterRound, Stencil.rounds]
  refine bind_congr fun _ => bind_congr fun r => ?_
  cases r with
  | ok => rfl
  | error x => cases x <;> rfl

/-- At an element, the rounds that are left follow a course of the loop. -/
theorem LoopParts.Sustains.rounds (h : L.Sustains advance ready final) (n : Nat) (hs : ready x s) :
    L.Runs final (.round x) (L.afterRound advance fuel n (.ok ())) s := by
  induction n generalizing x s with
  | zero => exact h.spent _ hs
  | succ n ih =>
    unfold LoopParts.Runs
    rw [rounds_succ, run_bind_apply, run_lift_apply]
    obtain hgoes | ⟨e, hcancelled⟩ := checkCancelled_cases L.ctx s
    · have hvisit : ready x (lastStore (L.visit.run s)) := h.visit hs
      rw [hgoes]
      dsimp only
      rw [run_outcome_bind, run_advancing, run_bind_apply]
      cases hr : L.visit.run s with
      | error e t =>
        rw [hr] at hvisit
        exact ⟨_, _, _, t, .left hgoes (hr ▸ .stopped), rfl, h.stopped hvisit⟩
      | ok r t =>
        rw [hr] at hvisit
        cases r with
        | ok =>
          obtain ⟨trials, xs, w, u, hcourse, hresult, hfinal⟩ :=
            h.afterNext (fun _ _ hy => ih hy) (fun _ _ hy => h.skipped (fun _ _ hz => ih hz) fuel hy)
              hvisit
          refine ⟨trials, _, w, u, .visited hgoes hr hcourse, ?_, hfinal⟩
          rw [← hresult, run_outcome_bind, run_advancing]
          rfl
        | error x =>
          cases x with
          | again => exact absurd hr h.visit_again
          | leave => exact ⟨_, _, _, t, .left hgoes (hr ▸ .left), rfl, h.left hvisit⟩
          | ret v => exact ⟨_, _, _, t, .left hgoes (hr ▸ .returned), rfl, h.returned hvisit⟩
    · rw [hcancelled]
      exact ⟨_, _, _, s, .cancelled hcancelled, rfl, h.stopped hs⟩

/-- A loop follows a course to its end. -/
theorem LoopParts.Sustains.runs (h : L.Sustains advance ready final) (fuel : Nat)
    (hs : ready x s) : L.Runs final (.advance true) (L.loop advance fuel) s := by
  obtain ⟨trials, r, t, hadvances, hrun, hleads⟩ := h.advance hs
  unfold LoopParts.Runs
  rw [LoopParts.loop, run_bind_apply, hrun]
  cases r with
  | ended => exact ⟨_, _, _, t, .ended hadvances, rfl, hleads⟩
  | failed e => exact ⟨_, _, _, t, .failed hadvances, rfl, hleads⟩
  | broke e => exact ⟨_, _, _, t, .broke hadvances, rfl, hleads⟩
  | element y =>
    obtain ⟨trials', xs, w, u, hcourse, hresult, hfinal⟩ := h.rounds fuel hleads
    exact ⟨_, xs, w, u, .first hadvances hcourse, hresult, hfinal⟩

end

/-! ### What a course tests and visits -/

/-- The element that is about to be visited, if there is one. -/
def Phase.pending : Phase → List Value
  | .advance _ => []
  | .round x => [x]

/-- A test fails at the end of the trials, and nowhere before. -/
def FailsLast (trials : List Trial) (x : Value) (e : Failure) : Prop :=
  ∃ before, trials = before ++ [(x, .error e)] ∧ ∀ trial ∈ before, ∃ b, trial.2 = .ok b

/-- An advance looks at elements until one passes or a test fails. -/
def LoopParts.Tests (L : LoopParts) : Prop :=
  ∀ ⦃s trials r t⦄, L.Advances s trials r t → passing trials = r.elements ∧
    ∀ ⦃x e⦄, (x, .error e) ∈ trials → (r = .failed e ∨ r = .broke e) ∧ FailsLast trials x e

section

variable {L : LoopParts} {p : Phase} {s t : Store} {trials trials' : List Trial} {xs : List Value}
  {w : LoopEnd} {x y : Value} {e : Failure}

theorem passing_append (trials trials' : List Trial) :
    passing (trials ++ trials') = passing trials ++ passing trials' := by
  induction trials with
  | nil => rfl
  | cons trial trials ih =>
    obtain ⟨x, e | b⟩ := trial
    · exact ih
    · cases b with
      | false => exact ih
      | true => exact congrArg (x :: ·) ih

/-- Before an element is reached no test fails. -/
theorem LoopParts.Tests.exists_ok (hL : L.Tests) (h : L.Advances s trials (.element x) t) :
    ∀ trial ∈ trials, ∃ b, trial.2 = .ok b := by
  rintro ⟨y, e | b⟩ hmem
  · obtain ⟨hr | hr, -⟩ := (hL h).2 hmem <;> cases hr
  · exact ⟨b, rfl⟩

theorem FailsLast.append (h : FailsLast trials' x e)
    (hbefore : ∀ trial ∈ trials, ∃ b, trial.2 = .ok b) : FailsLast (trials ++ trials') x e := by
  obtain ⟨before, rfl, hb⟩ := h
  exact ⟨trials ++ before, (List.append_assoc ..).symm, List.forall_mem_append.2 ⟨hbefore, hb⟩⟩

/-- The body is run for elements that pass, in order. -/
theorem LoopParts.Course.sublist (hL : L.Tests) (h : L.Course p s trials xs w t) :
    xs.Sublist (p.pending ++ passing trials) := by
  induction h with
  | first hadvances _ ih =>
    rw [passing_append, (hL hadvances).1]
    exact ih
  | between hadvances _ _ ih =>
    rw [passing_append, (hL hadvances).1]
    exact ih
  | skipped hadvances _ _ ih =>
    rw [passing_append]
    exact ih.trans (List.sublist_append_right _ _)
  | visited _ _ _ ih => exact ih.cons_cons _
  | left => exact List.sublist_append_left _ _
  | _ => exact List.nil_sublist _

/-- A test that fails is the last one, and ends the loop. If no `continue` stands between two
elements, the body has been run for all elements that passed. -/
theorem LoopParts.Course.failing (hL : L.Tests) (h : L.Course p s trials xs w t)
    (hx : (x, .error e) ∈ trials) :
    FailsLast trials x e ∧ (w = .failed e ∨ w = .stopped e) ∧
      ((∀ s t, L.between.run s ≠ .ok (.error .again) t) → xs = p.pending ++ passing trials) := by
  have later {s trials trials' y t} (hadvances : L.Advances s trials (.element y) t)
      (hmem : (x, .error e) ∈ trials ++ trials') : (x, .error e) ∈ trials' := by
    refine (List.mem_append.1 hmem).resolve_left fun hmem => ?_
    obtain ⟨b, hb⟩ := hL.exists_ok hadvances _ hmem
    cases hb
  induction h with
  | ended hadvances =>
    obtain ⟨hr | hr, -⟩ := (hL hadvances).2 hx <;> cases hr
  | @failed _ _ _ e' _ hadvances =>
    obtain ⟨hr | hr, hlast⟩ := (hL hadvances).2 hx
    · cases hr
      exact ⟨hlast, .inl rfl, fun _ => (hL hadvances).1.symm⟩
    · cases hr
  | broke hadvances =>
    obtain ⟨hr | hr, hlast⟩ := (hL hadvances).2 hx
    · cases hr
    · cases hr
      exact ⟨hlast, .inr rfl, fun _ => (hL hadvances).1.symm⟩
  | first hadvances _ ih =>
    obtain ⟨hlast, hend, hvisited⟩ := ih (later hadvances hx)
    refine ⟨hlast.append (hL.exists_ok hadvances), hend, fun hagain => ?_⟩
    rw [passing_append, (hL hadvances).1]
    exact hvisited hagain
  | between hadvances _ _ ih =>
    obtain ⟨hlast, hend, hvisited⟩ := ih (later hadvances hx)
    refine ⟨hlast.append (hL.exists_ok hadvances), hend, fun hagain => ?_⟩
    rw [passing_append, (hL hadvances).1]
    exact hvisited hagain
  | skipped hadvances hskip _ ih =>
    obtain ⟨hlast, hend, -⟩ := ih (later hadvances hx)
    exact ⟨hlast.append (hL.exists_ok hadvances), hend, fun hagain => absurd hskip (hagain _ _)⟩
  | cut hadvances =>
    obtain ⟨b, hb⟩ := hL.exists_ok hadvances _ hx
    cases hb
  | visited _ _ _ ih =>
    obtain ⟨hlast, hend, hvisited⟩ := ih hx
    exact ⟨hlast, hend, fun hagain => congrArg (_ :: ·) (hvisited hagain)⟩
  | _ => cases hx

end

/-! ### Rounds of a loop that comes to its end -/

/-- The rounds of a loop up to its end: the elements that it reaches, each with whether the body is
run for it. Before each but the first, what stands between two elements is run, and the body is not
run if a `continue` ends that. -/
inductive LoopParts.Rounds (L : LoopParts) :
    Bool → Store → List Trial → List (Value × Bool) → Store → Prop
  | ended {first s trials t} : L.Advances s trials .ended t → Rounds L first s trials [] t
  | first {s trials x t u trials' steps v} : L.Advances s trials (.element x) t →
      Action.checkCancelled L.ctx t = .ok () t → L.visit.run t = .ok (.ok ()) u →
      Rounds L false u trials' steps v →
      Rounds L true s (trials ++ trials') ((x, true) :: steps) v
  | between {s trials x t u v trials' steps w} : L.Advances s trials (.element x) t →
      L.between.run t = .ok (.ok ()) u → Action.checkCancelled L.ctx u = .ok () u →
      L.visit.run u = .ok (.ok ()) v → Rounds L false v trials' steps w →
      Rounds L false s (trials ++ trials') ((x, true) :: steps) w
  | skipped {s trials x t u trials' steps v} : L.Advances s trials (.element x) t →
      L.between.run t = .ok (.error .again) u → Rounds L false u trials' steps v →
      Rounds L false s (trials ++ trials') ((x, false) :: steps) v

/-- The elements for which the body is run. -/
def bodies (steps : List (Value × Bool)) : List Value := (steps.filter (·.2)).map (·.1)

/-- The rounds that are left in a phase of a loop. -/
def LoopParts.RoundsFrom (L : LoopParts) (t : Store) :
    Phase → Store → List Trial → List Value → Prop
  | .advance first, s, trials, xs => ∃ steps, L.Rounds first s trials steps t ∧ xs = bodies steps
  | .round x, s, trials, xs => ∃ u steps, Action.checkCancelled L.ctx s = .ok () s ∧
      L.visit.run s = .ok (.ok ()) u ∧ L.Rounds false u trials steps t ∧ xs = x :: bodies steps

section

variable {L : LoopParts} {p : Phase} {s t : Store} {trials : List Trial} {xs : List Value}
  {steps : List (Value × Bool)} {first : Bool}

theorem Cuts.ne_ended {r : EStateM.Result Failure Store (Except Exit Unit)} {w : LoopEnd}
    (h : Cuts r w t) : w ≠ .ended := by
  cases h <;> nofun

/-- A course that comes to its end is made of rounds. -/
theorem LoopParts.Course.rounds {w : LoopEnd} (h : L.Course p s trials xs w t) (hw : w = .ended) :
    L.RoundsFrom t p s trials xs := by
  induction h with
  | ended hadvances => exact ⟨[], .ended hadvances, rfl⟩
  | first hadvances _ ih =>
    obtain ⟨u, steps, hgoes, hvisit, hrounds, rfl⟩ := ih hw
    exact ⟨_, .first hadvances hgoes hvisit hrounds, rfl⟩
  | between hadvances hbetween _ ih =>
    obtain ⟨u, steps, hgoes, hvisit, hrounds, rfl⟩ := ih hw
    exact ⟨_, .between hadvances hbetween hgoes hvisit hrounds, rfl⟩
  | skipped hadvances hskip _ ih =>
    obtain ⟨steps, hrounds, rfl⟩ := ih hw
    exact ⟨_, .skipped hadvances hskip hrounds, rfl⟩
  | visited hgoes hvisit _ ih =>
    obtain ⟨steps, hrounds, rfl⟩ := ih hw
    exact ⟨_, steps, hgoes, hvisit, hrounds, rfl⟩
  | cut _ hcuts | left _ hcuts => exact absurd hw hcuts.ne_ended
  | _ => cases hw

/-- Every element that passes is reached once, in order. -/
theorem LoopParts.Rounds.reached (hL : L.Tests) (h : L.Rounds first s trials steps t) :
    steps.map (·.1) = passing trials := by
  induction h with
  | ended hadvances => exact (hL hadvances).1.symm
  | first hadvances _ _ _ ih | between hadvances _ _ _ _ ih | skipped hadvances _ _ ih =>
    rw [passing_append, (hL hadvances).1, List.map_cons, ih]
    rfl

/-- The body is run for the first element that is reached. -/
theorem LoopParts.Rounds.head (h : L.Rounds true s trials steps t) :
    ∀ step ∈ steps.head?, step.2 = true := by
  cases h with
  | ended => nofun
  | first =>
    rintro step ⟨⟩
    rfl

/-- The body is run for every element that passes, unless a `continue` between two of them has
skipped one. -/
theorem LoopParts.Rounds.bodies_eq_iff (hL : L.Tests) (h : L.Rounds first s trials steps t) :
    bodies steps = passing trials ↔ ∀ step ∈ steps, step.2 = true := by
  rw [← h.reached hL, bodies]
  refine ⟨fun heq => ?_, fun hall => by rw [List.filter_eq_self.2 hall]⟩
  have hlength : (steps.filter (·.2)).length = steps.length := by
    simpa only [List.length_map] using congrArg List.length heq
  exact List.length_filter_eq_length_iff.1 hlength

end

end Stencil
