import Stencil.Program.Run
import Stencil.Proofs.Machine.Aligned
import Stencil.Proofs.Machine.Service

/-!
# Runs

What a run does before and after the code of its program: it sees to it that the context has its
global object, and in the end it looks whether all captures are ended. A program does the same from
stores that differ in their records, if its code does.
-/

namespace Stencil

/-! ### Before and after -/

/-- Between two stores nothing has changed but the heap and the global objects of contexts. -/
structure Prepared (s t : Store) : Prop where
  rest : t = { s with toHeap := t.toHeap, contexts := t.contexts }
  size : t.contexts.size = s.contexts.size
  context : ∀ id, ∃ g, t.context id = { s.context id with globals := g }

namespace Prepared

variable {s t u : Store}

theorem refl (s : Store) : Prepared s s := ⟨rfl, rfl, fun id => ⟨(s.context id).globals, rfl⟩⟩

theorem trans (h : Prepared s t) (h' : Prepared t u) : Prepared s u := by
  refine ⟨?_, h'.size.trans h.size, fun id => ?_⟩
  · rw [h'.rest, h.rest]
  · obtain ⟨g, hg⟩ := h.context id
    obtain ⟨g', hg'⟩ := h'.context id
    exact ⟨g', by rw [hg', hg]⟩

theorem sinks (h : Prepared s t) : t.sinks = s.sinks := by rw [h.rest]

theorem writers (h : Prepared s t) (id : Nat) : (t.context id).writers = (s.context id).writers := by
  obtain ⟨g, hg⟩ := h.context id
  rw [hg]

end Prepared

theorem ensureGlobals_ok (ctx : Nat) (s : Store) :
    ∃ id t, ensureGlobals ctx s = .ok id t ∧ Prepared s t := by
  rw [ensureGlobals, context_bind_apply]
  cases (s.context ctx).globals with
  | some id => exact ⟨id, s, rfl, .refl s⟩
  | none =>
    refine ⟨_, _, rfl, rfl, Array.size_modify, fun id => ?_⟩
    rcases context_modify { s with toHeap := _ } ctx id
      (fun c => { c with globals := some s.objects.size }) with h | ⟨-, h⟩
    · exact ⟨(s.context id).globals, h⟩
    · exact ⟨some s.objects.size, h⟩

theorem addMissing_ok (id : Nat) (entries : List (Bytes × Value)) (s : Store) :
    ∃ t, addMissing id entries s = .ok () t ∧ Prepared s t := by
  induction entries generalizing s with
  | nil => exact ⟨s, rfl, .refl s⟩
  | cons e entries ih =>
    obtain ⟨name, v⟩ := e
    cases hb : ((s.object id).lookup name).isNone with
    | true =>
      let s₁ : Store := { s with objects := s.objects.modify id (setAssoc name v) }
      obtain ⟨t, ht, hp⟩ := ih s₁
      have hp₁ : Prepared s s₁ := ⟨rfl, rfl, fun id => ⟨(s.context id).globals, rfl⟩⟩
      refine ⟨t, ?_, hp₁.trans hp⟩
      show (if ((s.object id).lookup name).isNone then _ else _ : Action Unit) s = _
      rw [hb]
      exact ht
    | false =>
      obtain ⟨t, ht, hp⟩ := ih s
      refine ⟨t, ?_, hp⟩
      show (if ((s.object id).lookup name).isNone then _ else _ : Action Unit) s = _
      rw [hb]
      exact ht

/-- What is done before the body of a module is entered. -/
def Program.prelude (p : Program) (ctx : Nat) : Action Unit := do
  let globals ← ensureGlobals ctx
  addMissing globals (sortEntries p.predeclared)
  addMissing globals universalValues

theorem Program.prelude_ok (p : Program) (ctx : Nat) (s : Store) :
    ∃ t, p.prelude ctx s = .ok () t ∧ Prepared s t := by
  obtain ⟨id, s₁, h₁, hp₁⟩ := ensureGlobals_ok ctx s
  obtain ⟨s₂, h₂, hp₂⟩ := addMissing_ok id (sortEntries p.predeclared) s₁
  obtain ⟨s₃, h₃, hp₃⟩ := addMissing_ok id universalValues s₂
  refine ⟨s₃, ?_, (hp₁.trans hp₂).trans hp₃⟩
  rw [prelude, bind_apply, h₁]
  dsimp only
  rw [bind_apply, h₂]
  exact h₃

/-- The error of evaluation that a failure is reported as. -/
def Failure.evaluated (e : Failure) (ctx : Nat) (s : Store) : Failure :=
  match e with
  | .missing _ | .plain .. => .positioned ⟨.unknown, e.message,
      Action.framesFrom s.frames s.places s.frames.size (s.contexts.getD ctx {}).frame [], e.isMissing⟩
  | e => e

theorem asEvalError_apply {α : Type} (ctx : Nat) (e : Failure) (s : Store) :
    (asEvalError ctx e : Action α) s = .error (e.evaluated ctx s) s := by
  cases e <;> rfl

theorem Failure.bare_evaluated (e : Failure) (ctx : Nat) (s : Store) :
    (e.evaluated ctx s).bare = e.bare := by
  cases e <;> rfl

/-- The panic at the end of a run that has left captures, or ended some it had not begun. -/
def wrongDepth (after before : Nat) : Failure :=
  .panic (Bytes.ofString "happy: writer depth " ++ Bytes.ofNat after ++
    " after run, want " ++ Bytes.ofNat before) false

/-- How a run ends that began with so many captures, by the end of its code. -/
def runEnd (ctx depth : Nat) :
    EStateM.Result Failure Store Value → EStateM.Result Failure Store Unit
  | .ok _ t =>
    if (t.context ctx).writers.length = depth then .ok () t
    else .error (wrongDepth (t.context ctx).writers.length depth) t
  | .error e t =>
    if e.isError = false then .error e t
    else if (t.context ctx).writers.length = depth then .error (e.evaluated ctx t) t
    else .error (wrongDepth (t.context ctx).writers.length depth) t

/-- What is done after the prelude. The captures are counted before the code is run, and after. -/
def Action.counted (ctx : Nat) (run : Action Value) : Action Unit := do
  let depth := (← Action.context ctx).writers.length
  let outcome ← Action.attempt run
  let after := (← Action.context ctx).writers.length
  if after ≠ depth then
    Action.panic (Bytes.ofString "happy: writer depth " ++ Bytes.ofNat after ++
      " after run, want " ++ Bytes.ofNat depth)
  match outcome with
  | .ok _ => return
  | .error e => asEvalError ctx e

theorem Action.counted_apply (ctx : Nat) (run : Action Value) (t : Store) :
    Action.counted ctx run t = runEnd ctx (t.context ctx).writers.length (run t) := by
  rw [counted, context_bind_apply, bind_apply, Action.attempt]
  cases run t with
  | ok v u =>
    dsimp only
    rw [context_bind_apply, runEnd]
    by_cases h : (u.context ctx).writers.length = (t.context ctx).writers.length
    · rw [if_pos h, if_neg (not_not_intro h)]
      rfl
    · rw [if_neg h, if_pos h]
      rfl
  | error e u =>
    dsimp only
    cases he : e.isError with
    | false =>
      rw [runEnd, if_pos he]
      rfl
    | true =>
      rw [if_pos rfl, runEnd, if_neg (by simp [he])]
      dsimp only
      rw [context_bind_apply]
      by_cases h : (u.context ctx).writers.length = (t.context ctx).writers.length
      · rw [if_pos h, if_neg (not_not_intro h)]
        exact asEvalError_apply ctx e u
      · rw [if_neg h, if_pos h]
        rfl

/-- A run is the evaluation of its code between prelude and end. -/
theorem Program.runAs_of_prelude {p : Program} {ctx : Nat} {s t : Store}
    (h : p.prelude ctx s = .ok () t) (run : List Value → Action Value) :
    p.runAs ctx run s = runEnd ctx (t.context ctx).writers.length (run [.context ctx] t) := by
  have split : p.runAs ctx run =
      p.prelude ctx >>= fun _ => Action.counted ctx (run [.context ctx]) := by
    simp only [runAs, prelude, bind_assoc]
    rfl
  rw [split, bind_apply, h]
  exact Action.counted_apply ctx (run [.context ctx]) t

/-- A run is the evaluation of its code between preparation and end. -/
theorem Program.runAs_apply (p : Program) (ctx : Nat) (s : Store) :
    ∃ t, Prepared s t ∧ ∀ run : List Value → Action Value,
      p.runAs ctx run s = runEnd ctx (s.context ctx).writers.length (run [.context ctx] t) := by
  obtain ⟨t, ht, hp⟩ := p.prelude_ok ctx s
  refine ⟨t, hp, fun run => ?_⟩
  rw [← hp.writers ctx]
  exact runAs_of_prelude ht run

/-! ### Linking -/

/-- A store with one more unit of code. -/
def Store.linked (s : Store) (f : Lambda) : Store :=
  let size := f.code.sites.foldl (fun n site => max n (site.id + 1)) 0
  { s with
    units := s.units.push f.lambdas
    caches.entries := s.caches.entries.push (Array.replicate size {}) }

theorem getD_push_unit (units : Array (List Lambda)) (fs : List Lambda) (unit : Nat) :
    (units.push fs).getD unit [] = if unit = units.size then fs else units.getD unit [] := by
  rw [Array.getD_eq_getD_getElem?, Array.getD_eq_getD_getElem?, Array.getElem?_push]
  split <;> rfl

/-- Link code and run it. -/
def runLinked [Application] (path : Bytes) (predeclared : List (Bytes × Value)) (fuel ctx : Nat)
    (f : Lambda) : Action Unit := do
  (← link path predeclared f).run fuel ctx

theorem runLinked_apply [Application] (path : Bytes) (predeclared : List (Bytes × Value))
    (fuel ctx : Nat) (f : Lambda) (s : Store) :
    runLinked path predeclared fuel ctx f s =
      Program.run fuel ⟨path, predeclared, s.units.size, f⟩ ctx (s.linked f) := rfl

/-! ### Runs from twins -/

variable {C : Likeness} {p : Bool}

theorem aligned_ensureGlobals (ctx : Nat) : Aligned C p (ensureGlobals ctx) (ensureGlobals ctx) := by
  refine (aligned_context ctx).bind fun c => ?_
  split
  · exact aligned_pure _
  · exact (aligned_job _).bind fun _ => (aligned_modifyContext _ _).bind fun _ => aligned_pure _

theorem aligned_addMissing (id : Nat) (entries : List (Bytes × Value)) :
    Aligned C p (addMissing id entries) (addMissing id entries) := by
  induction entries with
  | nil => exact aligned_pure ()
  | cons e entries ih =>
    refine (aligned_job (Job.field? id e.1)).bind fun found => Aligned.ite ?_ ih
    exact (aligned_job (Job.setField id e.1 e.2)).bind fun _ => ih

theorem aligned_asEvalError {α : Type} (ctx : Nat) {e e' : Failure}
    (he : e.seen C.placed = e'.seen C.placed) :
    Aligned C C.placed (asEvalError ctx e : Action α) (asEvalError ctx e') where
  left s hs := by rw [asEvalError_apply]; exact ⟨hs, le_rfl⟩
  right s hs := by rw [asEvalError_apply]; exact ⟨hs, le_rfl⟩
  agree s t hst _ := by
    rw [asEvalError_apply, asEvalError_apply]
    refine .error ?_ hst
    cases hp : C.placed with
    | true =>
      rw [hp] at he
      obtain rfl : e = e' := he
      have hplaces := hst.places hp
      rw [hst.rest] at hplaces ⊢
      simp only [Failure.evaluated, hplaces]
      rfl
    | false =>
      rw [hp] at he
      simpa only [Failure.seen_false, Failure.bare_evaluated] using he

theorem Program.aligned_runAs {prog prog' : Program} (hd : prog'.predeclared = prog.predeclared)
    (ctx : Nat) {run run' : List Value → Action Value}
    (h : ∀ args, Aligned C C.placed (run args) (run' args)) :
    Aligned C C.placed (prog.runAs ctx run) (prog'.runAs ctx run') := by
  unfold Program.runAs
  rw [hd]
  refine (aligned_ensureGlobals ctx).bind fun globals => ?_
  refine (aligned_addMissing _ _).bind fun _ => (aligned_addMissing _ _).bind fun _ => ?_
  refine (aligned_context ctx).bind fun before => (h _).attempt_bind fun r r' hr => ?_
  refine (aligned_context ctx).bind fun after => ?_
  cases hr with
  | ok => exact ((aligned_panic _).bind fun _ => aligned_pure ()).ite (aligned_pure ())
  | error he =>
    exact ((aligned_panic _).bind fun _ => aligned_asEvalError ctx he).ite (aligned_asEvalError ctx he)

end Stencil
