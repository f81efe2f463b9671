import Stencil.Proofs.Balance.Calls
import Stencil.Proofs.Machine.Inside
import Stencil.Proofs.Machine.Reach
import Stencil.Proofs.Machine.Runs

/-!
# The way of the machine

A `Way` is a relation between the stores that one call passes through: steps inside the call are on
it, and so is the beginning of a dispatch; and what is on it can be gone on with. Whatever code is
evaluated, whatever is called and whichever jobs are carried out, all of it goes such a way if the
tasks that it begins do, and if code assigns to variables and makes functions as the way wants it.
Tasks that end for good, with a panic or for want of fuel, may leave it where no job goes on after
them.

With that, what holds of all tasks follows by induction, as the tasks that a task begins are
smaller.
-/

namespace Stencil

variable {ε α β : Type}

/-- Whether a computation that ended in a certain way can be gone on with. -/
def comesBackWith : Except Failure α → Bool
  | .ok _ => true
  | .error e => e.isError

/-- What the machine keeps to between the stores of a call. -/
structure Way [Host] where
  manners : Manners
  /-- Where the way may begin. -/
  Pre : Store → Prop
  /-- What holds of two stores, one of which comes after the other. -/
  Rel : Store → Store → Prop
  /-- The call sites that dispatches are expected of, with the unit of their code and the first
  operand. -/
  Site : Nat → CallSite → Value → Prop
  trans : ∀ {s t u}, Rel s t → Rel t u → Rel s u
  keep : ∀ {s t}, Pre s → Rel s t → Pre t
  heap : ∀ {s t}, Rel s t → manners.heap s.toHeap t.toHeap
  inside : ∀ {s t}, Pre s → Inside manners s t → Rel s t
  begins : ∀ {s unit site x} y, Pre s → Site unit site x →
    Rel s ((s.strayed site x y).begun site unit x y)
  /-- The failures that ended searches are in order. -/
  kept : ∀ {s e}, Pre s → s.EndedBy e ∨ s.Holds e → manners.failure e
  /-- Whether no task ends for good, with a panic or for want of fuel. -/
  calm : Prop

namespace Way

section

variable [Application] (W : Way)

theorem refl {s : Store} (h : W.Pre s) : W.Rel s s := W.inside h (.refl s)

/-- A computation that ended in a certain way has kept to the way, and fails as wanted if it
does. -/
structure After (s : Store) (r : Except Failure α) (u : Store) : Prop where
  rel : W.Rel s u
  failure : ∀ e, r = .error e → W.manners.failure e

/-- A task has ended in a certain way and has kept to the way. -/
structure Ends (t : Task) (s : Store) (r : Except Failure t.Answer) (u : Store) : Prop
    extends W.After s r u where
  ending : r = ending (t.perform s)
  last : u = lastStore (t.perform s)
  calm : W.calm → comesBackWith r = true

namespace Ends

variable {W} {t : Task} {s u : Store}

theorem eq_ok {a : t.Answer} (h : W.Ends t s (.ok a) u) : t.perform s = .ok a u := by
  obtain ⟨-, hending, hlast, -⟩ := h
  cases hr : t.perform s with
  | ok a' t =>
    rw [hr] at hending hlast
    cases hending
    cases hlast
    rfl
  | error e t =>
    rw [hr] at hending
    cases hending

theorem eq_error {e : Failure} (h : W.Ends t s (.error e) u) : t.perform s = .error e u := by
  obtain ⟨-, hending, hlast, -⟩ := h
  cases hr : t.perform s with
  | ok a t =>
    rw [hr] at hending
    cases hending
  | error e' t =>
    rw [hr] at hending hlast
    cases hending
    cases hlast
    rfl

end Ends

/-- A script keeps to the way, from wherever this may begin, if the tasks do that it begins, which
are as given. -/
def Keeps (Ok : Task → Prop) (m : Script α) : Prop :=
  ∀ s, W.Pre s → m.Meets W.manners (fun t u => W.Rel s u ∧ Ok t) W.Ends (W.After s) s

variable {W} {Ok : Task → Prop} {s t u : Store}

theorem After.of_rel {r : Except Failure α} (h : W.Rel s t) (h' : W.After t r u) :
    W.After s r u := ⟨W.trans h h'.rel, h'.failure⟩

theorem After.ok {r : Except Failure α} (h : W.After s r u) (b : β) : W.After s (.ok b) u :=
  ⟨h.rel, fun _ he => by cases he⟩

theorem After.error {e : Failure} (h : W.After s (.error e : Except Failure α) u) :
    W.After s (.error e : Except Failure β) u := by
  refine ⟨h.rel, ?_⟩
  rintro _ ⟨⟩
  exact h.failure e rfl

theorem After.of_last {m : Action α} (h : W.Rel s (lastStore (m t)))
    (hf : ∀ e u, m t = .error e u → W.manners.failure e) :
    W.After s (ending (m t)) (lastStore (m t)) := by
  refine ⟨h, fun e he => ?_⟩
  cases hr : m t with
  | ok a u =>
    rw [hr] at he
    cases he
  | error e' u =>
    rw [hr] at he
    cases he
    exact hf e u hr

/-- What is done after something else. -/
theorem Keeps.from {m : Script α} (hm : W.Keeps Ok m) (hs : W.Pre s) (h : W.Rel s t) :
    m.Meets W.manners (fun t u => W.Rel s u ∧ Ok t) W.Ends (W.After s) t := by
  refine (hm t (W.keep hs h)).mono ?_ (fun _ _ _ _ _ h => h) ?_
  · rintro t' u ⟨hu, hok⟩
    exact ⟨W.trans h hu, hok⟩
  · exact fun r u => After.of_rel h

/-! ### How scripts are put together -/

theorem keeps_pure (a : α) : W.Keeps Ok (pure a : Script α) := fun _ hs =>
  ⟨W.refl hs, fun _ he => by cases he⟩

theorem keeps_throw {e : Failure} (he : W.manners.failure e) : W.Keeps Ok (throw e : Script α) := by
  intro s hs
  refine ⟨W.refl hs, ?_⟩
  rintro _ ⟨⟩
  exact he

theorem keeps_read {k : Store → Script α} (h : ∀ s, W.Pre s → W.Keeps Ok (k s)) :
    W.Keeps Ok (.read k) := fun s hs => h s hs s hs

/-- What goes on with any end of a script. -/
theorem Keeps.inspect {m : Script α} {k : Except Failure α → Script β} (h : W.Keeps Ok m)
    (hk : ∀ r, (∀ e, r = .error e → W.manners.failure e) → W.Keeps Ok (k r)) :
    W.Keeps Ok (m.inspect k) := fun s hs =>
  (h s hs).inspect fun r _ hr => (hk r hr.failure).from hs hr.rel

theorem Keeps.bind {m : Script α} {f : α → Script β} (h : W.Keeps Ok m)
    (hf : ∀ a, W.Keeps Ok (f a)) : W.Keeps Ok (m >>= f) := by
  refine h.inspect fun r hr => ?_
  cases r with
  | ok a => exact hf a
  | error e => exact keeps_throw (hr e rfl)

theorem Keeps.map {m : Script α} (h : W.Keeps Ok m) (f : α → β) : W.Keeps Ok (f <$> m) :=
  h.bind fun a => keeps_pure (f a)

theorem Keeps.attempt_bind {m : Script α} {k : Except Failure α → Script β} (h : W.Keeps Ok m)
    (hk : ∀ r, (∀ e, r = .error e → W.manners.failure e) → W.Keeps Ok (k r)) :
    W.Keeps Ok (m.attempt >>= k) := by
  intro s hs
  refine (h s hs).attempt_bind (fun a u hr => ?_) (fun e u hr he => ?_) fun e u hr he => ?_
  · exact (hk (.ok a) fun _ he => by cases he).from hs hr.rel
  · refine (hk (.error e) ?_).from hs hr.rel
    rintro _ ⟨⟩
    exact hr.failure e rfl
  · refine ⟨hr.rel, ?_⟩
    rintro _ ⟨⟩
    exact hr.failure e rfl

theorem Keeps.ite {c : Prop} [Decidable c] {m n : Script α} (h : W.Keeps Ok m)
    (h' : W.Keeps Ok n) : W.Keeps Ok (if c then m else n) := by
  split
  · exact h
  · exact h'

/-- Steps inside the call. -/
theorem keeps_act {m : Action α} (h : Mild W.manners m) : W.Keeps Ok (Script.act m) := fun s hs =>
  .of_act (.of_idle (h.inside s).toIdle) (.of_last (W.inside hs (h.inside s)) (h.failure s))

/-- What is found without any change. -/
theorem Keeps.found {m : Action α} {a : α} {f : α → Script β} (hm : ∀ s, m s = .ok a s)
    (hf : W.Keeps Ok (f a)) : W.Keeps Ok ((liftM m : Script α) >>= f) := fun s hs =>
  .act_bind (hm s) (.refl s) (hf s hs)

theorem keeps_ask {t : Task} (h : Ok t) : W.Keeps Ok t.ask := by
  intro s hs
  refine ⟨⟨W.refl hs, h⟩, fun r u hr => ?_⟩
  cases r <;> exact hr.toAfter

/-! ### Scripts that may jump -/

theorem Keeps.lift {m : Script α} (h : W.Keeps Ok m) : W.Keeps Ok (liftM m : EvalScript α).run :=
  h.map Except.ok

theorem keeps_lift {m : Action α} (h : Mild W.manners m) :
    W.Keeps Ok (liftM m : EvalScript α).run := (keeps_act h).lift

theorem keeps_return (a : α) : W.Keeps Ok (pure a : EvalScript α).run := keeps_pure (Except.ok a)

theorem keeps_exit (j : Jump) : W.Keeps Ok (throw j : EvalScript α).run := keeps_pure (Except.error j)

theorem Keeps.exits_bind {m : EvalScript α} {f : α → EvalScript β} (h : W.Keeps Ok m.run)
    (hf : ∀ a, W.Keeps Ok (f a).run) : W.Keeps Ok (m >>= f).run := by
  show W.Keeps Ok (m.run >>= ExceptT.bindCont fun a => f a)
  refine h.bind fun r => ?_
  cases r with
  | ok a => exact hf a
  | error e => exact keeps_pure _

theorem Keeps.ite_exits {c : Prop} [Decidable c] {m n : EvalScript α} (h : W.Keeps Ok m.run)
    (h' : W.Keeps Ok n.run) : W.Keeps Ok (if c then m else n).run := by
  split
  · exact h
  · exact h'

theorem keeps_get {f : Store → EvalScript α} (h : ∀ s, W.Keeps Ok (f s).run) :
    W.Keeps Ok ((liftM (get : Action Store) : EvalScript Store) >>= f).run :=
  (keeps_lift (mild_of_ok fun s => ⟨s, s, rfl, .refl s⟩)).exits_bind h

theorem Keeps.outcome {m : EvalScript α} (h : W.Keeps Ok m.run) :
    W.Keeps Ok (Script.outcome m).run := h.map Except.ok

theorem Keeps.runFinally {m f : EvalScript α} (h : W.Keeps Ok m.run) (hf : W.Keeps Ok f.run) :
    W.Keeps Ok (Script.runFinally m f).run := by
  refine h.inspect fun r hr => ?_
  cases r with
  | ok r =>
    refine hf.bind fun r' => ?_
    cases r' <;> exact keeps_pure _
  | error e =>
    dsimp only
    split
    · refine hf.bind fun r' => ?_
      cases r' with
      | ok => exact keeps_throw (hr e rfl)
      | error => exact keeps_pure _
    · exact keeps_throw (hr e rfl)

/-! ### Jobs and loops over sequences -/

variable {fuel : Nat} (hcall : ∀ ctx fn args, Ok (.call fuel ctx fn args))

include hcall

/-- A job that keeps to the manners keeps to the way. -/
theorem meets_job {job : Job α} {Q : α → Heap → Prop} (hs : W.Pre s)
    (hj : job.Meets W.manners Q s.toHeap) :
    (job.script fuel).Meets W.manners (fun t u => W.Rel s u ∧ Ok t) W.Ends (W.After s) s := by
  -- The rest of a job, after something that it has done.
  have rest {m : Script α} {s t : Store} (h : W.Rel s t)
      (hm : m.Meets W.manners (fun t' u => W.Rel t u ∧ Ok t') W.Ends (W.After t) t) :
      m.Meets W.manners (fun t' u => W.Rel s u ∧ Ok t') W.Ends (W.After s) t := by
    refine hm.mono ?_ (fun _ _ _ _ _ h => h) ?_
    · rintro t' u ⟨hu, hok⟩
      exact ⟨W.trans h hu, hok⟩
    · exact fun r u => After.of_rel h
  induction job generalizing s with
  | done a => exact ⟨W.refl hs, fun _ he => by cases he⟩
  | fail e =>
    refine ⟨W.refl hs, ?_⟩
    rintro _ ⟨⟩
    exact hj
  | read k ih => exact ih s.toHeap hs hj
  | update f k ih =>
    obtain ⟨hm, hk⟩ := hj
    have hinside : Inside W.manners s { s with toHeap := f s.toHeap } := .of_heap hm
    have hrel := W.inside hs hinside
    rw [Job.script, Script.Meets]
    exact ⟨.of_idle hinside.toIdle, rest hrel (ih (W.keep hs hrel) hk)⟩
  | ask q k ih =>
    by_cases hq : q.isCall = false
    · have hserve : (Job.ask q k).script fuel = (Script.act (q.serve fun _ _ _ =>
          Action.panic "call outside a program")).inspect fun r => (k r).script fuel := by
        cases q with
        | call => cases hq
        | _ => rfl
      rw [hserve]
      have served : Mild W.manners (q.serve fun _ _ _ => Action.panic "call outside a program") :=
        mild_serve _ hq
      have hheap := toHeap_serve (fun _ _ _ => Action.panic "call outside a program") hq s
      have hinside := served.inside s
      have hfailure := served.failure s
      refine .act_inspect (.of_idle hinside.toIdle) ?_
      have hrel := W.inside hs hinside
      have hk := hj _ (ending (q.serve (fun _ _ _ => Action.panic "call outside a program") s))
        hinside.heap (fun _ => hheap) (After.of_last hrel hfailure).failure
      exact rest hrel (ih _ (W.keep hs hrel) hk)
    · cases q with
      | call ctx fn args =>
        rw [Job.script, Script.Meets]
        have hinside : Inside W.manners s { s with
            tally := { s.tally with callbacks := s.tally.callbacks + fn.isFunction.toNat } } :=
          .of_eq rfl rfl rfl rfl rfl (Tally.le_def.2 (by simp)) rfl rfl rfl
        have hcount := W.inside hs hinside
        refine ⟨.of_idle hinside.toIdle, ⟨hcount, hcall ctx fn args⟩, fun r u hr => ?_⟩
        have hk := hj u.toHeap r (W.heap (W.trans hcount hr.rel)) (fun h => by cases h) hr.failure
        have hrel := W.trans hcount hr.rel
        exact rest hrel (ih r (W.keep hs hrel) hk)
      | _ => exact absurd rfl hq

theorem keeps_job {job : Job α} (hj : job.Mannered W.manners) : W.Keeps Ok (job.script fuel) :=
  fun s hs => meets_job hcall hs (hj s.toHeap)

theorem keeps_within {job : Job α} (hj : job.Mannered W.manners) :
    W.Keeps Ok (Script.job fuel job).run := (keeps_job hcall hj).lift

theorem keeps_testBy (ctx : Nat) (pred x : Value) : W.Keeps Ok (Script.testBy fuel ctx pred x) :=
  (keeps_ask (hcall ctx pred [x])).bind fun _ => keeps_read fun _ _ => keeps_pure _

omit hcall in
theorem keeps_searchNext {next : Script (Option Value)} {test : Value → Script Bool}
    (hn : W.Keeps Ok next) (ht : ∀ x, W.Keeps Ok (test x)) (n : Nat) :
    W.Keeps Ok (searchNext next test n) := by
  induction n with
  | zero => exact keeps_throw (W.manners.plain rfl)
  | succ n ih =>
    refine hn.bind fun x => ?_
    cases x with
    | none => exact keeps_pure _
    | some x => exact (ht x).bind fun ok => (keeps_pure _).ite ih

variable (hM : MannersOf W.manners)

include hM

theorem keeps_passTo (depth id : Nat) : W.Keeps Ok (Script.passTo fuel depth id) := by
  induction depth generalizing id with
  | zero => exact keeps_pure _
  | succ depth ih =>
    refine keeps_read fun s hs => ?_
    split
    · refine (keeps_searchNext (ih _) (keeps_testBy hcall _ _) fuel).attempt_bind fun r hr => ?_
      cases r with
      | ok r => exact keeps_pure r
      | error e => exact (keeps_act (mild_interrupt _ (hr e rfl))).bind fun _ => keeps_pure _
    · exact keeps_job hcall (hM.nextPlain _ _)

omit hcall hM in
/-- The failure that ended a search arises. -/
theorem keeps_endSearch (id : Nat) : W.Keeps Ok (Script.act (Action.endSearch id)) := by
  intro s hs
  rw [Script.act, Script.Meets, endSearch_apply]
  cases he : s.endingOf id with
  | none => exact ⟨.refl s, W.refl hs, fun _ h => by cases h⟩
  | some e =>
    refine ⟨.refl s, W.refl hs, ?_⟩
    rintro _ ⟨⟩
    refine W.kept hs ?_
    unfold Store.endingOf at he
    split at he
    · rename_i ctx pred inner e' hcursor
      cases he
      exact .inl ⟨id, ctx, pred, inner, hcursor⟩
    · obtain ⟨before, after, hkept, -⟩ := List.lookup_eq_some_iff.1 he
      exact .inr ⟨id, hkept ▸ List.mem_append_right _ List.mem_cons_self⟩
    · cases he

theorem keeps_moveNext (id : Nat) : W.Keeps Ok (Script.moveNext fuel id) := by
  have set (e : EnumeratorCell) : W.Keeps Ok ((Job.setEnumerator id e).script fuel) :=
    keeps_job hcall (Job.mannered_change (fun _ => rfl) fun _ => rfl)
  refine keeps_read fun s hs => (keeps_pure _).ite ?_
  refine (keeps_passTo hcall hM _ _).bind fun x => ?_
  cases x with
  | some x => exact (set _).bind fun _ => keeps_pure _
  | none =>
    refine (set _).bind fun _ => (keeps_job hcall (hM.finish _)).bind fun _ => ?_
    exact (keeps_endSearch _).bind fun _ => keeps_pure _

/-! ### Dispatches -/

theorem keeps_carryOut (ctx : Nat) (site : CallSite) (args : List Value) (b : Binding) :
    W.Keeps Ok (Script.carryOut fuel ctx site args b) := by
  refine (keeps_job hcall (hM.perform _ _ _ _)).bind fun reply => ?_
  cases reply with
  | value v => exact keeps_pure v
  | call fn args => exact keeps_ask (hcall ctx fn args)

theorem keeps_dispatchOn {unit : Nat} {site : CallSite} {x : Value} (hsite : W.Site unit site x)
    (ctx : Nat) (args : List Value) (y : Value) :
    W.Keeps Ok (Script.dispatchOn fuel ctx unit site args x y) := by
  intro s hs
  have hbegun := W.begins y hs hsite
  rw [Script.dispatchOn, Script.Meets, Script.Meets]
  refine ⟨⟨W.heap hbegun, fun _ _ h => h⟩, ?_⟩
  split
  · exact (keeps_carryOut hcall hM ctx site args _).from hs hbegun
  · refine Keeps.from ?_ hs hbegun
    exact (keeps_act (mild_bindSite site x y)).bind fun b => keeps_carryOut hcall hM ctx site args b

theorem keeps_dispatch {unit : Nat} {site : CallSite} {x : Value} (hsite : W.Site unit site x)
    (ctx : Nat) (args : List Value) :
    W.Keeps Ok (Script.dispatch fuel ctx unit site (x :: args)) := by
  have on := keeps_dispatchOn hcall hM hsite ctx (x :: args)
  refine Keeps.found (fun s => rfl) (Keeps.ite ?_ ?_)
  · exact (keeps_act (mild_operand _ _)).bind fun y => on y
  · exact (keeps_pure _).bind fun y => on y

omit hcall hM in
/-- Without operands nothing is dispatched. -/
theorem keeps_dispatch_nil (unit : Nat) (site : CallSite) (ctx : Nat) :
    W.Keeps Ok (Script.dispatch fuel ctx unit site []) := fun s hs =>
  .act_bind_error rfl (.refl s) ⟨W.refl hs, fun e he => by
    cases he
    exact W.manners.plain rfl⟩

/-! ### Control -/

omit hcall hM

theorem keeps_part {act : Activation} {c : Code} (h : Ok (.code fuel act c)) :
    W.Keeps Ok (Script.part fuel act c).run := keeps_ask h

/-- A part of code ends as its evaluation does. -/
theorem meets_part {act : Activation} {c : Code} (h : Ok (.code fuel act c)) (hs : W.Pre s) :
    (Script.part fuel act c).run.Meets W.manners (fun t u => W.Rel s u ∧ Ok t) W.Ends
      (W.Ends (.code fuel act c) s) s := by
  refine ⟨⟨W.refl hs, h⟩, fun r u hr => ?_⟩
  cases r <;> exact hr

theorem Keeps.test {m : EvalScript Value} (h : W.Keeps Ok m.run) :
    W.Keeps Ok (Script.evalTest m).run := by
  exact h.exits_bind fun v => keeps_act (Mild.test (mild_pure _))

theorem keeps_runBlock {labels : Target → Option Nat} {run : Nat → Value → EvalScript Value}
    (h : ∀ skip last, W.Keeps Ok (run skip last).run) (n skip : Nat) (last : Value) :
    W.Keeps Ok (Script.runBlock labels run n skip last).run := by
  induction n generalizing skip last with
  | zero =>
    refine (h skip last).outcome.exits_bind fun r => ?_
    cases r with
    | ok v => exact keeps_return v
    | error j => exact (keeps_lift (mild_throw (W.manners.plain rfl))).ite_exits (keeps_exit j)
  | succ n ih =>
    refine (h skip last).outcome.exits_bind fun r => ?_
    cases r with
    | ok v => exact keeps_return v
    | error j =>
      dsimp only
      split
      · exact ih _ _
      · exact keeps_exit j

theorem keeps_runLoop {ctx : Nat} {brk : Target} {cont : Option Target} {body : EvalScript Value}
    (h : W.Keeps Ok body.run) (n : Nat) : W.Keeps Ok (Script.runLoop ctx brk cont body n).run := by
  induction n with
  | zero => exact keeps_lift (mild_throw (W.manners.plain rfl))
  | succ n ih =>
    refine (keeps_lift (mild_checkCancelled ctx)).exits_bind fun _ => h.outcome.exits_bind fun r => ?_
    cases r with
    | ok v => exact ih
    | error j => exact (keeps_return _).ite_exits (ih.ite_exits (keeps_exit j))

/-! ### Code -/

variable {act : Activation}

theorem keeps_evalFrom {labels : Target → Option Nat} {items : List Code}
    (h : ∀ c ∈ items, Ok (.code fuel act c)) (i skip : Nat) (last : Value) :
    W.Keeps Ok (Script.evalFrom fuel act labels items i skip last).run := by
  induction items generalizing i skip last with
  | nil => exact keeps_return last
  | cons c cs ih =>
    have rest := ih fun c hc => h c (List.mem_cons_of_mem _ hc)
    cases skip with
    | succ skip => exact rest _ _ _
    | zero =>
      refine (keeps_part (h c List.mem_cons_self)).outcome.exits_bind fun r => ?_
      cases r with
      | ok v => exact rest _ _ _
      | error j =>
        dsimp only
        split
        · exact (rest _ _ _).ite_exits (keeps_exit j)
        · exact keeps_exit j

theorem keeps_evalArgs {cs : List Code} (h : ∀ c ∈ cs, Ok (.code fuel act c)) :
    W.Keeps Ok (Script.evalArgs fuel act cs).run := by
  induction cs with
  | nil => exact keeps_return []
  | cons c cs ih =>
    refine (keeps_part (h c List.mem_cons_self)).exits_bind fun v => ?_
    exact (ih fun c hc => h c (List.mem_cons_of_mem _ hc)).exits_bind fun vs => keeps_return _

include hcall hM

theorem keeps_evalMatch {equal : CallSite} {v : Value} (hsite : W.Site act.unit equal v)
    {cs : List Code} (h : ∀ c ∈ cs, Ok (.code fuel act c)) :
    W.Keeps Ok (Script.evalMatch fuel act equal v cs).run := by
  induction cs with
  | nil => exact keeps_return false
  | cons c cs ih =>
    refine (keeps_part (h c List.mem_cons_self)).exits_bind fun w => ?_
    refine (keeps_dispatch hcall hM hsite _ _).lift.exits_bind fun eq => keeps_get fun s => ?_
    exact (keeps_return _).ite_exits (ih fun c hc => h c (List.mem_cons_of_mem _ hc))

theorem keeps_evalCases {equal : CallSite} {v : Value} (hsite : W.Site act.unit equal v)
    {cs : List Code} (h : ∀ c ∈ cs, ∀ d ∈ c.clause, Ok (.code fuel act d)) :
    W.Keeps Ok (Script.evalCases fuel act equal v cs).run := by
  induction cs with
  | nil => exact keeps_return none
  | cons c cs ih =>
    have rest := ih fun c hc => h c (List.mem_cons_of_mem _ hc)
    have parts := h c List.mem_cons_self
    cases c with
    | case values body =>
      have matched := keeps_evalMatch hcall hM hsite fun d hd =>
        parts d (List.mem_cons_of_mem _ hd)
      refine matched.exits_bind fun found => Keeps.ite_exits ?_ rest
      exact (keeps_part (parts body List.mem_cons_self)).exits_bind fun _ => keeps_return _
    | _ => exact rest

/-- What code asks of the way where its evaluation begins. Its call sites are expected, of whatever
their first operands come to; so are its assignments and the function that it makes. An error that
arises in a part and has no place is reported at the one that is noted. -/
structure Suits (W : Way) (fuel : Nat) (act : Activation) (c : Code) (s : Store) : Prop where
  site : ∀ site, c.site? = some site → ∀ x, (∀ first rest, c = .dynamic site (first :: rest) →
    ∃ u u', W.Rel s u ∧ (Task.code fuel act first).perform u = .ok (.ok x) u') →
      W.Site act.unit site x
  write : ∀ v ∈ c.written, ∀ u x, W.Rel s u → W.Rel s (lastStore (act.write v x u))
  close : ∀ id name params size body, c = .lambda id name params size body →
    W.Rel s (s.closed act id)
  report : ∀ pos x, c = .debug pos x → ∀ e u, e.isError = true → e.isPlaced = false →
    (Task.code fuel act x).perform (act.moved pos s) = .error e u →
      W.manners.failure (act.reported pos e u)

omit hcall hM in
/-- Code with a note of its place: an error that has none is reported there. -/
theorem meets_debug {pos : Position} {x : Code} (hx : Ok (.code fuel act x)) (hs : W.Pre s)
    (hreport : ∀ e u, e.isError = true → e.isPlaced = false →
      (Task.code fuel act x).perform (act.moved pos s) = .error e u →
        W.manners.failure (act.reported pos e u)) :
    (Script.eval fuel act (.debug pos x)).run.Meets W.manners (fun t u => W.Rel s u ∧ Ok t) W.Ends
      (W.After s) s := by
  have hinside : Inside W.manners s (act.moved pos s) := (mild_moveTo act pos).inside s
  have hmoved := W.inside hs hinside
  refine Script.Meets.steps_bind (act.moveTo_apply pos s) (.of_idle hinside.toIdle) ?_
  refine ⟨⟨hmoved, hx⟩, fun r u hr => ?_⟩
  have report (e : Failure) (he : e.isError = true) (hp : e.isPlaced = false)
      (hre : r = .error e) : Script.Meets W.manners (fun t u => W.Rel s u ∧ Ok t) W.Ends
        (W.After s) (Script.act (act.report pos e) : Script (Except Jump Value)) u := by
    subst hre
    have hrel := W.trans hmoved hr.rel
    have hnoted : Inside W.manners u (act.moved pos u) := (mild_moveTo act pos).inside u
    refine ⟨.of_idle hnoted.toIdle, W.trans hrel (W.inside (W.keep hs hrel) hnoted), ?_⟩
    rintro _ ⟨⟩
    exact hreport e u he hp hr.eq_error
  cases r with
  | ok r => exact hr.toAfter.of_rel hmoved
  | error e =>
    cases e with
    | missing msg => exact report _ rfl rfl rfl
    | plain msg b => exact report _ rfl rfl rfl
    | _ => exact hr.toAfter.of_rel hmoved

omit hcall hM in
/-- A block: its variables are cleared first. -/
theorem meets_block {vars : List Variable} {items : List Code}
    (hitems : ∀ d ∈ items, Ok (.code fuel act d)) (hs : W.Pre s)
    (hwrite : ∀ v ∈ vars, ∀ u x, W.Rel s u → W.Rel s (lastStore (act.write v x u))) :
    (Script.eval fuel act (.block vars items)).run.Meets W.manners (fun t u => W.Rel s u ∧ Ok t)
      W.Ends (W.After s) s := by
  have cleared : (W.Rel s (lastStore (act.clear vars s)) ∧
      Onward W.manners s (lastStore (act.clear vars s))) ∧
        ∀ e t, act.clear vars s = .error e t → W.manners.failure e :=
    clear_induction (φ := fun u => W.Rel s u ∧ Onward W.manners s u)
      (fun v hv u hu => ⟨hwrite v hv u .null hu.1, hu.2.trans (.of_idle (idle_write v .null u))⟩)
      ⟨W.refl hs, .refl s⟩
  obtain ⟨⟨hrel, onward⟩, hfailure⟩ := cleared
  have items : W.Keeps Ok (Script.runBlock (labelIndex items)
      (Script.evalFrom fuel act (labelIndex items) items 0) fuel 0 .null).run :=
    keeps_runBlock (fun _ _ => keeps_evalFrom hitems _ _ _) fuel 0 .null
  cases hclear : act.clear vars s with
  | ok a u =>
    rw [hclear] at hrel onward
    exact Script.Meets.steps_bind hclear onward (items.from hs hrel)
  | error e u =>
    rw [hclear] at hrel onward
    refine Script.Meets.steps_bind_error hclear onward ⟨hrel, ?_⟩
    rintro _ ⟨⟩
    exact hfailure e u hclear

omit hcall hM in
theorem meets_assign {v : Variable} {x : Code} (hx : Ok (.code fuel act x)) (hs : W.Pre s)
    (hwrite : ∀ u y, W.Rel s u → W.Rel s (lastStore (act.write v y u))) :
    (Script.eval fuel act (.assign v x)).run.Meets W.manners (fun t u => W.Rel s u ∧ Ok t) W.Ends
      (W.After s) s := by
  refine (keeps_part hx s hs).exits_bind (fun e u hr => hr.error) (fun j u hr => hr.ok _)
    fun y u hr => ?_
  have hrel := hwrite u y hr.rel
  have onward : Onward W.manners u (lastStore (act.write v y u)) := .of_idle (idle_write v y u)
  cases hwrite : act.write v y u with
  | ok a t =>
    rw [hwrite] at hrel onward
    exact Script.Meets.steps_bind hwrite onward ⟨hrel, fun _ he => by cases he⟩
  | error e t =>
    rw [hwrite] at hrel onward
    refine Script.Meets.steps_bind_error hwrite onward ⟨hrel, ?_⟩
    rintro _ ⟨⟩
    exact failure_write hwrite

/-- The operands of a call site: what they come to may be dispatched. -/
theorem meets_operands {site : CallSite} {args : List Code}
    (hargs : ∀ d ∈ args, Ok (.code fuel act d)) (hs : W.Pre s)
    (hsite : ∀ x, (∀ first rest, args = first :: rest →
      ∃ u u', W.Rel s u ∧ (Task.code fuel act first).perform u = .ok (.ok x) u') →
        W.Site act.unit site x) :
    (Script.evalArgs fuel act args).run.Meets W.manners (fun t u => W.Rel s u ∧ Ok t) W.Ends
      (fun r u => W.After s r u ∧ ∀ vs, r = .ok (.ok vs) →
        W.Keeps Ok (Script.dispatch fuel act.ctx act.unit site vs)) s := by
  cases args with
  | nil =>
    refine ⟨⟨W.refl hs, by simp⟩, ?_⟩
    rintro _ ⟨⟩
    exact keeps_dispatch_nil act.unit site act.ctx
  | cons first rest =>
    refine (meets_part (hargs first List.mem_cons_self) hs).exits_bind
      (fun e u hu => ⟨hu.toAfter.error, by simp⟩) (fun j u hu => ⟨hu.toAfter.ok _, by simp⟩)
      fun x u hu => ?_
    have hsite : W.Site act.unit site x := by
      refine hsite x ?_
      rintro _ _ ⟨⟩
      exact ⟨s, u, W.refl hs, hu.eq_ok⟩
    have others := keeps_evalArgs (W := W) fun c hc => hargs c (List.mem_cons_of_mem _ hc)
    refine (others.from hs hu.rel).exits_bind (fun e t ht => ⟨ht.error, by simp⟩)
      (fun j t ht => ⟨ht.ok _, by simp⟩) fun xs t ht => ⟨ht.ok _, ?_⟩
    rintro _ ⟨⟩
    exact keeps_dispatch hcall hM hsite act.ctx xs

theorem meets_dynamic {site : CallSite} {args : List Code}
    (hargs : ∀ d ∈ args, Ok (.code fuel act d)) (hs : W.Pre s)
    (hsite : ∀ x, (∀ first rest, args = first :: rest →
      ∃ u u', W.Rel s u ∧ (Task.code fuel act first).perform u = .ok (.ok x) u') →
        W.Site act.unit site x) :
    (Script.eval fuel act (.dynamic site args)).run.Meets W.manners
      (fun t u => W.Rel s u ∧ Ok t) W.Ends (W.After s) s := by
  refine (meets_operands hcall hM hargs hs hsite).exits_bind (fun e u hu => hu.1.error)
    (fun j u hu => hu.1.ok _) fun vs u hu => ?_
  have dispatched := (hu.2 vs rfl).lift
  refine Keeps.from ?_ hs hu.1.rel
  generalize site.kind = kind
  cases kind with
  | invoke | call | create =>
    exact (keeps_lift (mild_moveTo act site.pos)).exits_bind fun _ => dispatched
  | _ => exact dispatched

/-- The evaluation of code keeps to the way if that of its parts does. -/
theorem meets_eval {c : Code} (hpart : ∀ d ∈ c.parts, Ok (.code fuel act d)) (hs : W.Pre s)
    (hc : W.Suits fuel act c s) : (Script.eval fuel act c).run.Meets W.manners
      (fun t u => W.Rel s u ∧ Ok t) W.Ends (W.After s) s := by
  have part {x : Code} (hx : x ∈ c.parts) : W.Keeps Ok (Script.part fuel act x).run :=
    keeps_part (hpart x hx)
  have optional {x : Code} (hx : x ∈ c.parts) {m : EvalScript Value} (hm : W.Keeps Ok m.run) :
      W.Keeps Ok (if x.isAbsent then m else Script.part fuel act x).run := hm.ite_exits (part hx)
  have here {m : EvalScript Value} (hm : W.Keeps Ok m.run) : m.run.Meets W.manners
      (fun t u => W.Rel s u ∧ Ok t) W.Ends (W.After s) s := hm s hs
  cases c with
  | absent => exact here (keeps_lift (mild_unexpectedNode _))
  | case values body => exact here (keeps_lift (mild_unexpectedNode _))
  | constant v => exact here (keeps_return v)
  | empty => exact here (keeps_return _)
  | var v => exact here (keeps_lift (mild_read v))
  | debug pos x => exact meets_debug (hpart x List.mem_cons_self) hs (hc.report pos x rfl)
  | block vars items => exact meets_block hpart hs hc.write
  | assign v x =>
    exact meets_assign (hpart x List.mem_cons_self) hs (hc.write v List.mem_cons_self)
  | lambda id name params size body =>
    refine Script.Meets.inspect (Script.Meets.of_act (m := newClosure act id _)
      (Q := W.After s) (.of_idle (.of_eq rfl rfl rfl rfl)) ?_) fun r u hr => ?_
    · exact ⟨hc.close id name params size body rfl, fun _ he => by cases he⟩
    · cases r with
      | ok v => exact hr.ok _
      | error e => exact hr.error
  | dynamic site args =>
    exact meets_dynamic hcall hM hpart hs fun x hx =>
      hc.site site rfl x fun first rest hfirst => hx first rest (Code.dynamic.inj hfirst).2
  | cond test yes no =>
    refine here ?_
    refine (part (by simp [Code.parts])).test.exits_bind fun b => Keeps.ite_exits ?_ ?_
    · exact part (by simp [Code.parts])
    · exact optional (by simp [Code.parts]) (keeps_return _)
  | not x => exact here ((part List.mem_cons_self).test.exits_bind fun b => keeps_return _)
  | toBool x =>
    refine here ?_
    exact (part List.mem_cons_self).exits_bind fun y => keeps_get fun _ => keeps_return _
  | andAlso x y =>
    refine here ?_
    refine (part (by simp [Code.parts])).test.exits_bind fun b => Keeps.ite_exits ?_ (keeps_return _)
    exact (part (by simp [Code.parts])).test.exits_bind fun b => keeps_return _
  | orElse x y =>
    refine here ?_
    refine (part (by simp [Code.parts])).test.exits_bind fun b => (keeps_return _).ite_exits ?_
    exact (part (by simp [Code.parts])).test.exits_bind fun b => keeps_return _
  | loop brk cont body => exact here (keeps_runLoop (part List.mem_cons_self) fuel)
  | label t dflt => exact here (optional List.mem_cons_self (keeps_return _))
  | goto t value =>
    refine here ?_
    refine Keeps.ite_exits ?_ ?_
    · exact (keeps_return _).exits_bind fun _ => keeps_exit _
    · exact (part List.mem_cons_self).exits_bind fun _ => keeps_exit _
  | switch x cases dflt equal =>
    refine here ?_
    refine (part List.mem_cons_self).exits_bind fun v => ?_
    have clauses := keeps_evalCases hcall hM (hc.site equal rfl v (by simp)) fun c hc d hd =>
      hpart d (List.mem_cons_of_mem _ (List.mem_cons_of_mem _ (List.mem_flatMap.2 ⟨c, hc, hd⟩)))
    refine clauses.exits_bind fun r => ?_
    cases r with
    | some r => exact keeps_return r
    | none => exact optional (by simp [Code.parts]) (keeps_return _)
  | tryFinally body f =>
    refine here ?_
    exact (part (by simp [Code.parts])).runFinally (part (by simp [Code.parts]))
  | contextCall method x args =>
    refine here ?_
    refine (part List.mem_cons_self).exits_bind fun target => ?_
    cases target with
    | context id =>
      have operands := keeps_evalArgs (W := W) fun c hc => hpart c (List.mem_cons_of_mem _ hc)
      exact operands.exits_bind fun vs => keeps_lift (mild_callContext _ _ _)
    | _ => exact keeps_lift (mild_callContext _ _ _)
  | iterate x =>
    refine here ?_
    exact (part List.mem_cons_self).exits_bind fun v => keeps_within hcall (hM.newEnumerator v)
  | moveNext x =>
    refine here ?_
    refine (part List.mem_cons_self).exits_bind fun v => ?_
    refine (keeps_lift (mild_asEnumerator v)).exits_bind fun id => ?_
    exact (keeps_moveNext hcall hM id).lift.exits_bind fun _ => keeps_return _
  | current x =>
    refine here ?_
    refine (part List.mem_cons_self).exits_bind fun v => ?_
    exact (keeps_lift (mild_asEnumerator v)).exits_bind fun id => keeps_get fun _ => keeps_return _
  | filter x pred =>
    refine here ?_
    refine (part (by simp [Code.parts])).exits_bind fun v => ?_
    refine (part (by simp [Code.parts])).exits_bind fun p => ?_
    exact keeps_within hcall (hM.newFiltered _ _ _)
  | list items =>
    refine here ?_
    exact (keeps_evalArgs hpart).exits_bind fun vs => keeps_lift (mild_newList _)

end

/-! ### Calls -/

section

variable [Application] {W : Way}

/-- A function may be entered and left. -/
structure Turn (W : Way) (s : Store) (ctx : Nat) (f : Closure) (name : Bytes) (vars : Array Value) :
    Prop where
  enter : W.Pre (s.entered ctx f name vars)
  leave : ∀ t, W.Rel (s.entered ctx f name vars) t → W.Rel s (t.left ctx (s.context ctx).frame)
  /-- What ended for good is not left. -/
  remain : W.calm ∨ ∀ t, W.Rel (s.entered ctx f name vars) t → W.Rel s t

/-- A way on which the functions that there are may be entered and left. -/
def Turns (W : Way) : Prop :=
  ∀ {s : Store} {ctx id : Nat} {f : Closure} {name : Bytes} {vars : Array Value}, W.Pre s →
    s.closures[id]? = some f → W.Turn s ctx f name vars

omit [Application] in
theorem onward_entered {M : Manners} (s : Store) (ctx : Nat) (f : Closure) (name : Bytes)
    (vars : Array Value) : Onward M s (s.entered ctx f name vars) := by
  refine ⟨M.refl _, fun id g hg => ?_⟩
  rcases context_entered s ctx f name vars id with h | ⟨-, h⟩ <;> rwa [h]

omit [Application] in
theorem onward_left {M : Manners} (s : Store) (ctx : Nat) (caller : Option Nat) :
    Onward M s (s.left ctx caller) := by
  refine ⟨M.refl _, fun id g hg => ?_⟩
  rcases context_left s ctx caller id with h | ⟨-, h⟩ <;> rwa [h]

/-- A function is left after its body, unless this ended for good. -/
theorem meets_leaving {s : Store} {P : Task → Store → Prop} {ctx : Nat} {f : Closure} {name : Bytes}
    {vars : Array Value} (hW : W.Turn s ctx f name vars) {m : EvalScript Value}
    (hm : m.run.Meets W.manners P W.Ends (fun r u => W.After (s.entered ctx f name vars) r u ∧
      (W.calm → comesBackWith r = true)) (s.entered ctx f name vars)) :
    (Script.leaving ctx (s.context ctx).frame name m).Meets W.manners P W.Ends (W.After s)
      (s.entered ctx f name vars) := by
  refine hm.inspect fun r u hr => ?_
  obtain ⟨hr, hcalm⟩ := hr
  have left : Onward W.manners u (u.left ctx (s.context ctx).frame) := onward_left ..
  cases r with
  | ok r =>
    cases r with
    | ok v => exact ⟨left, hW.leave u hr.rel, by simp⟩
    | error j =>
      have hinside : Inside W.manners u _ := (mild_fault .escapedJump).inside u
      have hfault := W.trans hr.rel (W.inside (W.keep hW.enter hr.rel) hinside)
      refine ⟨(Onward.of_idle hinside.toIdle).trans (onward_left ..), hW.leave _ hfault, ?_⟩
      rintro _ ⟨⟩
      exact W.manners.plain rfl
  | error e =>
    have hfailure : ∀ e', (.error e : Except Failure Value) = .error e' → W.manners.failure e' := by
      rintro _ ⟨⟩
      exact hr.failure e rfl
    dsimp only
    cases he : e.isError with
    | true =>
      rw [if_pos rfl]
      exact ⟨left, hW.leave u hr.rel, hfailure⟩
    | false =>
      rw [if_neg Bool.false_ne_true]
      refine ⟨?_, hfailure⟩
      rcases hW.remain with hc | hremain
      · have hb : e.isError = true := hcalm hc
        rw [he] at hb
        cases hb
      · exact hremain u hr.rel

omit [Application] in
/-- A call of a lambda is refused, or the function is entered, and left after its body. -/
theorem meets_entering {M : Manners} {P : Task → Store → Prop} {E : Endings}
    {Q : Except Failure Value → Store → Prop} {s : Store} {g : Lambda} {f : Closure}
    {fuel ctx : Nat} {args : List Value} (hrefused : ∀ msg, Q (.error (.plain msg false)) s)
    (hentered : (Script.leaving ctx (s.context ctx).frame g.name
      (Script.part fuel ⟨ctx, f.unit, s.frames.size⟩ g.body)).Meets M P E Q
        (s.entered ctx f g.name (g.variables args))) :
    (Script.callLambda g f fuel ctx args).Meets M P E Q s := by
  rw [Script.callLambda]
  by_cases hargs : args.length = g.params.length
  · rw [if_neg (not_not_intro hargs)]
    cases hc : (s.context ctx).cancelled with
    | some reason =>
      exact Script.Meets.act_bind_error (checkCancelled_of_some hc) (.refl s) (hrefused _)
    | none =>
      refine Script.Meets.act_bind (checkCancelled_of_none hc) (.refl s) ?_
      refine Script.Meets.act_bind (rfl : Action.context ctx s = .ok (s.context ctx) s) (.refl s) ?_
      show Script.Meets _ _ _ _
        (if (s.context ctx).depthLimit ≤ (s.context ctx).depth then _ else _) s
      by_cases hd : (s.context ctx).depthLimit ≤ (s.context ctx).depth
      · rw [if_pos hd]
        exact Script.Meets.act_bind_error rfl (.refl s) (hrefused _)
      · rw [if_neg hd]
        exact Script.Meets.act_bind (rfl : enter ctx f g.name (s.context ctx).frame _ s =
          .ok s.frames.size (s.entered ctx f g.name (g.variables args))) (onward_entered ..) hentered
  · rw [if_pos hargs]
    exact Script.Meets.act_bind_error rfl (.refl s) (hrefused _)

/-- A call of a lambda begins with its body, in a new frame. -/
theorem meets_callLambda {s : Store} (hs : W.Pre s) (g : Lambda) (f : Closure) (fuel ctx : Nat)
    (args : List Value) (hW : W.Turn s ctx f g.name (g.variables args)) :
    (Script.callLambda g f fuel ctx args).Meets W.manners
      (fun t u => t = .code fuel ⟨ctx, f.unit, s.frames.size⟩ g.body ∧
        u = s.entered ctx f g.name (g.variables args)) W.Ends (W.After s) s := by
  refine meets_entering (fun msg => ⟨W.refl hs, ?_⟩) (meets_leaving hW ⟨⟨rfl, rfl⟩, fun r u hr => ?_⟩)
  · rintro _ ⟨⟩
    exact W.manners.plain rfl
  · cases r <;> exact ⟨hr.toAfter, hr.calm⟩

/-! ### Tasks -/

/-- How a task from a store begins another, on the way or where a function is entered. -/
inductive Leads (W : Way) : Task → Store → Task → Store → Prop where
  | part {fuel : Nat} {act : Activation} {c d : Code} {s u : Store} (hd : d ∈ c.parts)
    (h : W.Rel s u) : Leads W (.code fuel act c) s (.code fuel act d) u
  | call {fuel : Nat} {act : Activation} {c : Code} {ctx : Nat} {fn : Value} {args : List Value}
    {s u : Store} (h : W.Rel s u) : Leads W (.code fuel act c) s (.call fuel ctx fn args) u
  | callback {fuel ctx ctx' : Nat} {fn fn' : Value} {args args' : List Value} {s u : Store}
    (h : W.Rel s u) : Leads W (.call (fuel + 1) ctx fn args) s (.call fuel ctx' fn' args') u
  | enter {fuel ctx id : Nat} {heading : Heading} {args : List Value} {s : Store} {f : Closure}
    {g : Lambda} (hf : s.closures[id]? = some f) (hg : s.lambda? f.unit f.lambda = some g) :
    Leads W (.call (fuel + 1) ctx (.function id heading) args) s
      (.code fuel ⟨ctx, f.unit, s.frames.size⟩ g.body) (s.entered ctx f g.name (g.variables args))

/-- What a task asks of the way. -/
inductive Admits (W : Way) : Task → Store → Prop where
  | code {fuel : Nat} {act : Activation} {c : Code} {s : Store} (h : W.Suits fuel act c s) :
    Admits W (.code fuel act c) s
  | call {fuel ctx : Nat} {fn : Value} {args : List Value} {s : Store} :
    Admits W (.call fuel ctx fn args) s

/-- Whatever is done for a task keeps to the way. -/
theorem meets_script (hW : W.Turns) (hM : MannersOfAll W.manners) {t : Task} {s : Store}
    (hs : W.Pre s) (ht : W.Admits t s) :
    t.script.Meets W.manners (W.Leads t s) W.Ends (W.After s) s := by
  cases ht with
  | @code fuel act c _ hc =>
    let Ok (t : Task) := (∃ d ∈ c.parts, t = .code fuel act d) ∨ ∃ ctx fn args, t = .call fuel ctx fn args
    have hcall (ctx : Nat) (fn : Value) (args : List Value) : Ok (.call fuel ctx fn args) :=
      .inr ⟨ctx, fn, args, rfl⟩
    have hpart : ∀ d ∈ c.parts, Ok (.code fuel act d) := fun d hd => .inl ⟨d, hd, rfl⟩
    refine (meets_eval hcall hM.toMannersOf hpart hs hc).mono ?_ (fun _ _ _ _ _ h => h)
      fun _ _ h => h
    rintro t u ⟨hu, ⟨d, hd, rfl⟩ | ⟨ctx, fn, args, rfl⟩⟩
    · exact .part hd hu
    · exact .call hu
  | @call fuel ctx fn args =>
    cases fuel with
    | zero =>
      refine ⟨W.refl hs, ?_⟩
      rintro _ ⟨⟩
      exact W.manners.plain rfl
    | succ fuel =>
      let Ok (t : Task) := ∃ ctx fn args, t = Task.call fuel ctx fn args
      have weaken {m : Script Value} (hm : W.Keeps Ok m) :
          m.Meets W.manners (W.Leads (.call (fuel + 1) ctx fn args) s) W.Ends (W.After s) s := by
        refine (hm s hs).mono ?_ (fun _ _ _ _ _ h => h) fun _ _ h => h
        rintro t u ⟨hu, ctx', fn', args', rfl⟩
        exact .callback hu
      have missing : W.Keeps Ok (liftM (liftM (nilDereference : Job Value) : Action Value)) :=
        keeps_act (mild_job (Job.mannered_panic _))
      by_cases hfn : ∃ id heading, fn = .function id heading
      · obtain ⟨id, heading, rfl⟩ := hfn
        show Script.Meets _ _ _ _ (Script.callClosure fuel ctx id args) s
        rw [Script.callClosure, Script.Meets]
        cases hf : s.closures[id]? with
        | none => exact weaken missing
        | some f =>
          dsimp only
          cases hg : s.lambda? f.unit f.lambda with
          | none => exact weaken missing
          | some g =>
            refine (meets_callLambda hs g f fuel ctx args (hW hs hf)).mono ?_ (fun _ _ _ _ _ h => h)
              fun _ _ h => h
            rintro _ _ ⟨rfl, rfl⟩
            exact .enter hf hg
      · have job : W.Keeps Ok ((callOther fuel ctx fn args).script fuel) :=
          keeps_job (fun ctx fn args => ⟨ctx, fn, args, rfl⟩) (hM.callOther fuel ctx fn args)
        cases fn with
        | function id heading => exact absurd ⟨id, heading, rfl⟩ hfn
        | _ => exact weaken job

end

/-! ### Induction on tasks -/

/-- Anything may happen on this way. -/
def any [Host] : Way where
  manners := .none
  Pre _ := True
  Rel _ _ := True
  Site _ _ _ := True
  trans _ _ := trivial
  keep _ _ := trivial
  heap _ := trivial
  inside _ _ := trivial
  begins _ _ _ := trivial
  kept _ _ := trivial
  calm := False

theorem turns_any [Application] : any.Turns := fun _ _ =>
  ⟨trivial, fun _ _ => trivial, .inr fun _ _ => trivial⟩

theorem suits_any [Application] (fuel : Nat) (act : Activation) (c : Code) (s : Store) :
    any.Suits fuel act c s :=
  ⟨fun _ _ _ _ => trivial, fun _ _ _ _ _ => trivial, fun _ _ _ _ _ _ => trivial,
    fun _ _ _ _ _ _ _ _ => trivial⟩

end Way

/-- Tasks get smaller: calls use up fuel, and code has parts. -/
noncomputable def Task.size : Task → Nat × Nat
  | .call fuel _ _ _ => (2 * fuel, 0)
  | .code fuel _ c => (2 * fuel + 1, sizeOf c)

section

variable [Application]

/-- What a task begins. -/
theorem Task.leads {t t' : Task} {s u : Store} (h : t.script.Begins s t' u) : Way.any.Leads t s t' u := by
  have admits : Way.any.Admits t s := by
    cases t with
    | code => exact .code (Way.suits_any ..)
    | call => exact .call
  refine (Script.Meets.sound (Way.meets_script Way.turns_any mannersOfAll_none trivial admits)
    fun t u _ _ => ?_).2 t' u h
  exact ⟨⟨trivial, fun _ _ => trivial⟩, rfl, rfl, False.elim⟩

theorem Task.size_lt {t t' : Task} {s u : Store} (h : t.script.Begins s t' u) :
    Prod.Lex (· < ·) (· < ·) t'.size t.size := by
  cases Task.leads h with
  | part hd => exact .right _ (Code.sizeOf_lt_of_mem_parts hd)
  | call => exact .left _ _ (Nat.lt_succ_self _)
  | callback => exact .left _ _ (by omega)
  | enter => exact .left _ _ (by omega)

/-- What holds of a task if it holds of those it begins, holds of all. -/
theorem Task.induction {P : Task → Store → Prop}
    (h : ∀ t s, (∀ t' u, t.script.Begins s t' u → P t' u) → P t s) (t : Task) (s : Store) : P t s := by
  have wf : WellFounded (Prod.Lex (fun a b : Nat => a < b) fun a b : Nat => a < b) :=
    WellFounded.prod_lex Nat.lt_wfRel.wf Nat.lt_wfRel.wf
  refine (InvImage.wf Task.size wf).induction (C := fun t => ∀ s, P t s) t (fun t ih s => ?_) s
  exact h t s fun t' u hb => ih t' (Task.size_lt hb) u

namespace Way

variable {W : Way}

/-- Tasks that are fit to begin: the way may begin there and admits them, and what they begin on it
is fit too. -/
structure Carries (W : Way) (Fit : Task → Store → Prop) : Prop where
  pre : ∀ {t s}, Fit t s → W.Pre s
  admits : ∀ {t s}, Fit t s → W.Admits t s
  begins : ∀ {t s t' u}, Fit t s → t.script.Begins s t' u → W.Leads t s t' u → Fit t' u
  calm : W.calm → ∀ {t s}, Fit t s → comesBackWith (ending (t.perform s)) = true

variable {Fit : Task → Store → Prop} {t : Task} {s : Store}

/-- Tasks that are fit to begin keep to the way, and so does what they begin. -/
theorem Carries.sound (hW : W.Turns) (hM : MannersOfAll W.manners) (hF : W.Carries Fit) (h : Fit t s) :
    W.Ends t s (ending (t.perform s)) (lastStore (t.perform s)) ∧
      ∀ t' u, t.script.Begins s t' u → W.Leads t s t' u := by
  induction t, s using Task.induction with
  | h t s ih =>
    obtain ⟨hafter, hleads⟩ := (meets_script hW hM (hF.pre h) (hF.admits h)).sound fun t' u hb hl =>
      (ih t' u hb (hF.begins h hb hl)).1
    rw [t.run_script] at hafter
    exact ⟨⟨hafter, rfl, rfl, fun hc => hF.calm hc h⟩, hleads⟩

/-- A script keeps to the way if the tasks do. -/
theorem Keeps.sound {Ok : Task → Prop} {m : Script α} (hm : W.Keeps Ok m) {s : Store} (hs : W.Pre s)
    (h : ∀ t u, Ok t → W.Pre u → W.Ends t u (ending (t.perform u)) (lastStore (t.perform u))) :
    W.After s (ending (m.run s)) (lastStore (m.run s)) := by
  refine (Script.Meets.sound (hm s hs) fun t u _ ht => ?_).1
  exact h t u ht.2 (W.keep hs ht.1)

end Way

/-- The call of the body of a module. -/
def Program.body (p : Program) (fuel ctx : Nat) (s : Store) : Task :=
  .code fuel ⟨ctx, p.unit, s.frames.size⟩ p.lambda.body

/-- A store in which the body of a module is entered. -/
def Program.opened (p : Program) (ctx : Nat) (s : Store) : Store :=
  s.entered ctx p.entry p.lambda.name (p.lambda.variables [.context ctx])

namespace Way

variable {W : Way}

/-- What is done for a run is the prelude, and then the call of the code of the module. -/
theorem meets_running {M : Manners} {P : Task → Store → Prop} {E : Endings} {Q : Store → Prop}
    {p : Program} {fuel ctx : Nat} {s s₁ : Store} (hprelude : p.prelude ctx s = .ok () s₁)
    (hcall : (Script.callLambda p.lambda p.entry fuel ctx [.context ctx]).Meets M P E
      (fun _ u => Q u) s₁) : (p.script fuel ctx).Meets M P E (fun _ u => Q u) s := by
  obtain ⟨id, t₁, h₁, -⟩ := ensureGlobals_ok ctx s
  obtain ⟨t₂, h₂, -⟩ := addMissing_ok id (sortEntries p.predeclared) t₁
  obtain ⟨t₃, h₃, -⟩ := addMissing_ok id universalValues t₂
  obtain rfl : t₃ = s₁ := by
    rw [Program.prelude, bind_apply, h₁] at hprelude
    dsimp only at hprelude
    rw [bind_apply, h₂] at hprelude
    dsimp only at hprelude
    rw [h₃] at hprelude
    cases hprelude
    rfl
  have onward {α : Type} {m : Action α} {a : α} {t u : Store} (hm : Mild M m) (h : m t = .ok a u) :
      Onward M t u := by
    have := (hm.inside t).toIdle
    rw [h] at this
    exact .of_idle this
  refine Script.Meets.act_bind h₁ (onward (mild_ensureGlobals ctx) h₁) ?_
  refine Script.Meets.act_bind h₂ (onward (mild_addMissing id _) h₂) ?_
  refine Script.Meets.act_bind h₃ (onward (mild_addMissing id _) h₃) ?_
  refine Script.Meets.act_bind (rfl : Action.context ctx t₃ = .ok (t₃.context ctx) t₃) (.refl t₃) ?_
  refine hcall.attempt_bind (fun v u hu => ?_) (fun e u hu he => ?_) fun e u hu he => hu
  · refine Script.Meets.act_bind (rfl : Action.context ctx u = .ok (u.context ctx) u) (.refl u) ?_
    dsimp only
    split
    · exact Script.Meets.act_bind_error rfl (.refl u) hu
    · exact hu
  · refine Script.Meets.act_bind (rfl : Action.context ctx u = .ok (u.context ctx) u) (.refl u) ?_
    dsimp only
    split
    · exact Script.Meets.act_bind_error rfl (.refl u) hu
    · refine Script.Meets.of_act (m := asEvalError ctx e) ?_ ?_ <;> rw [asEvalError_apply]
      · exact .refl u
      · exact hu

/-- A run begins with the body of the module, after the prelude. -/
theorem meets_run (p : Program) (fuel ctx : Nat) (s : Store) (hs : W.Pre s)
    (hW : ∀ s₁, p.prelude ctx s = .ok () s₁ → W.Rel s s₁ →
      W.Turn s₁ ctx p.entry p.lambda.name (p.lambda.variables [.context ctx])) :
    (p.script fuel ctx).Meets W.manners (fun t u => ∃ s₁, p.prelude ctx s = .ok () s₁ ∧ W.Rel s s₁ ∧
        t = p.body fuel ctx s₁ ∧ u = p.opened ctx s₁)
      W.Ends (fun _ u => W.Rel s u) s := by
  obtain ⟨s₁, hprelude, -⟩ := p.prelude_ok ctx s
  have hinside : Inside W.manners s (lastStore (p.prelude ctx s)) := (mild_prelude p ctx).inside s
  rw [hprelude] at hinside
  have hrel := W.inside hs hinside
  refine meets_running hprelude ((meets_callLambda (W.keep hs hrel) p.lambda p.entry fuel ctx
    [.context ctx] (hW s₁ hprelude hrel)).mono ?_ (fun _ _ _ _ _ h => h) fun _ _ h =>
      W.trans hrel h.rel)
  rintro _ _ ⟨rfl, rfl⟩
  exact ⟨s₁, hprelude, hrel, rfl, rfl⟩

end Way

end

end Stencil
