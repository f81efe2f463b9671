import Mathlib
import Stencil.Proofs.Machine.Twin
import Stencil.Proofs.Machine.Exits
import Stencil.Proofs.Machine.Notes

/-!
# Evaluation from twins

Code is evaluated alike from stores that differ in their records, if the calls it makes and
the operations of its call sites are. So are the calls of functions of the language. Where the
places of the two sides differ, one of them may do without the notes of places.
-/

namespace Stencil

variable {ε α β : Type} {C : Likeness} {p : Bool}

/-! ### Computations with exits -/

theorem run_bind_eq (m : ExceptT ε Action α) (f : α → ExceptT ε Action β) :
    (m >>= f).run = inspect m.run fun r => match r with
      | .ok (.ok a) => (f a).run
      | .ok (.error e) => pure (.error e)
      | .error e => throw e := by
  funext s
  rw [run_bind_apply]
  unfold inspect
  cases m.run s with
  | ok r s' => cases r <;> rfl
  | error e s' => rfl

theorem Aligned.exits_bind {m m' : ExceptT ε Action α} {f f' : α → ExceptT ε Action β}
    (h : Aligned C p m.run m'.run) (hf : ∀ a, Aligned C p (f a).run (f' a).run) :
    Aligned C p (m >>= f).run (m' >>= f').run := by
  rw [run_bind_eq, run_bind_eq]
  refine h.inspect fun r r' hr => ?_
  cases hr with
  | @ok r =>
    cases r with
    | ok a => exact hf a
    | error e => exact aligned_pure _
  | error he => exact aligned_throw he

theorem Aligned.map {m m' : Action α} (h : Aligned C p m m') (f : α → β) :
    Aligned C p (f <$> m) (f <$> m') := by
  rw [← bind_pure_comp, ← bind_pure_comp]
  exact h.bind fun a => aligned_pure (f a)

theorem Aligned.lift {m m' : Action α} (h : Aligned C p m m') :
    Aligned C p (liftM m : ExceptT ε Action α).run (liftM m' : ExceptT ε Action α).run :=
  h.map Except.ok

theorem aligned_return (a : α) :
    Aligned C p (pure a : ExceptT ε Action α).run (pure a : ExceptT ε Action α).run :=
  aligned_pure (Except.ok a)

theorem aligned_exit (e : ε) :
    Aligned C p (throw e : ExceptT ε Action α).run (throw e : ExceptT ε Action α).run :=
  aligned_pure (Except.error e)

theorem Aligned.ite_exits {c : Prop} [Decidable c] {m m' n n' : ExceptT ε Action α}
    (h : Aligned C p m.run m'.run) (h' : Aligned C p n.run n'.run) :
    Aligned C p (if c then m else n).run (if c then m' else n').run := by
  split
  · exact h
  · exact h'

theorem aligned_get_exits {f f' : Store → ExceptT ε Action α}
    (hf : ∀ s r, f' (s.withRecords r) = f' s) (h : ∀ s, Aligned C p (f s).run (f' s).run) :
    Aligned C p (get >>= f).run (get >>= f').run := by
  show Aligned C p (get >>= fun s => (f s).run) (get >>= fun s => (f' s).run)
  exact aligned_get (fun s r => congrArg ExceptT.run (hf s r)) h

theorem Aligned.outcome {m m' : ExceptT ε Action α} (h : Aligned C p m.run m'.run) :
    Aligned C p (Stencil.outcome m).run (Stencil.outcome m').run :=
  h.map Except.ok

/-- Leave a function or a block, whichever way it ends, unless by a panic. -/
theorem runFinally_eq (m m' : ExceptT ε Action α) :
    (runFinally m m').run = inspect m.run fun r => match r with
      | .error e =>
        if e.isError then m'.run >>= fun r => match r with
          | .ok _ => throw e
          | r => pure r
        else throw e
      | .ok r => m'.run >>= fun r' => match r' with
        | .ok _ => pure r
        | r' => pure r' := by
  funext s
  rw [run_runFinally_apply]
  unfold inspect
  cases m.run s with
  | ok r s₁ =>
    show _ = EStateM.bind m'.run _ s₁
    unfold EStateM.bind
    dsimp only
    cases m'.run s₁ with
    | ok r' s₂ => cases r' <;> rfl
    | error e s₂ => rfl
  | error e s₁ =>
    cases e with
    | panic | exhausted => rfl
    | _ =>
      show _ = EStateM.bind m'.run _ s₁
      unfold EStateM.bind
      dsimp only
      cases m'.run s₁ with
      | ok r' s₂ => cases r' <;> rfl
      | error e s₂ => rfl

theorem Aligned.runFinally {m m' f f' : ExceptT ε Action α} (h : Aligned C p m.run m'.run)
    (hf : Aligned C p f.run f'.run) :
    Aligned C p (Stencil.runFinally m f).run (Stencil.runFinally m' f').run := by
  rw [runFinally_eq, runFinally_eq]
  refine h.inspect fun r r' hr => ?_
  cases hr with
  | ok =>
    refine hf.bind fun r' => ?_
    cases r' <;> exact aligned_pure _
  | error he =>
    dsimp only
    rcases Failure.seen_inj he with ⟨h₁, h₂⟩ | ⟨h₁, rfl⟩
    · rw [if_pos h₁, if_pos h₂]
      refine hf.bind fun r' => ?_
      cases r' with
      | ok => exact aligned_throw he
      | error => exact aligned_pure _
    · rw [h₁]
      exact aligned_throw rfl

/-! ### Variables -/

section

variable (act : Activation)

theorem aligned_modifyFrame (id : Nat) (f : Frame → Frame) :
    Aligned C p (Action.modifyFrame id f) (Action.modifyFrame id f) :=
  aligned_modify fun _ _ => ⟨rfl, rfl, le_rfl⟩

theorem aligned_home (v : Variable) : Aligned C p (act.home v) (act.home v) := by
  refine aligned_get (fun _ _ => rfl) fun s => ?_
  split
  · exact (aligned_pure _).ite ((aligned_fault _).bind fun _ => aligned_panic _)
  · exact (aligned_fault _).bind fun _ => aligned_panic _

theorem aligned_read (v : Variable) : Aligned C p (act.read v) (act.read v) := by
  refine (aligned_home act v).bind fun id => ?_
  exact aligned_get (fun _ _ => rfl) fun _ => aligned_pure _

theorem aligned_assign (v : Variable) (x : Value) : Aligned C p (act.write v x) (act.write v x) :=
  (aligned_home act v).bind fun _ => aligned_modifyFrame _ _

theorem aligned_clear (vs : List Variable) : Aligned C p (act.clear vs) (act.clear vs) := by
  induction vs with
  | nil => exact aligned_pure ()
  | cons v vs ih => exact (aligned_assign act v .null).bind fun _ => ih

/-! ### Places -/

theorem aligned_moveTo (pos : Position) : Aligned C p (act.moveTo pos) (act.moveTo pos) where
  left _ hs := ⟨hs, le_rfl⟩
  right _ hs := ⟨hs, le_rfl⟩
  agree _ _ hst _ := .ok (hst.setPlaces fun places => places.setIfInBounds act.frame pos)

theorem locate_eq (pos : Position) (m : Action α) : act.locate pos m = inspect m fun r => match r with
    | .ok a => pure a
    | .error (.missing msg) => act.report pos (.missing msg)
    | .error (.plain msg b) => act.report pos (.plain msg b)
    | .error e => throw e := by
  funext s
  unfold Activation.locate Stencil.inspect
  cases m s with
  | ok a s' => rfl
  | error e s' => cases e <;> rfl

/-- Both sides note a place, where places are the same. -/
theorem Aligned.noted_placed (hp : C.placed = true) {m m' : Action α} (h : Aligned C C.placed m m')
    (pos : Position) :
    Aligned C C.placed (act.moveTo pos >>= fun _ => act.locate pos m)
      (act.moveTo pos >>= fun _ => act.locate pos m') := by
  refine (aligned_moveTo act pos).bind fun _ => ?_
  rw [locate_eq, locate_eq]
  refine h.inspect fun r r' hr => ?_
  have report (e : Failure) : Aligned C C.placed (act.report pos e : Action α) (act.report pos e) :=
    (aligned_moveTo act pos).bind fun _ =>
      (aligned_callStack hp _).bind fun _ => aligned_throw rfl
  cases hr with
  | ok => exact aligned_pure _
  | @error e e' he =>
    rw [hp] at he
    obtain rfl : e = e' := he
    cases e with
    | missing | plain => exact report _
    | _ => exact aligned_throw rfl

/-- A note of a place tells where a failure arose, and changes nothing else about the end of a
computation but the point of execution. -/
theorem locate_cases (pos : Position) (m : Action α) (s : Store) :
    act.locate pos m s = m s ∨
      ∃ e e' s', e'.bare = e.bare ∧ m s = .error e s' ∧
        act.locate pos m s = .error e' (act.moved pos s') := by
  unfold Activation.locate
  cases m s with
  | ok a s' => exact .inl rfl
  | error e s' =>
    cases e with
    | missing msg => exact .inr ⟨.missing msg, act.reported pos (.missing msg) s', s', rfl, rfl, rfl⟩
    | plain msg b => exact .inr ⟨.plain msg b, act.reported pos (.plain msg b) s', s', rfl, rfl, rfl⟩
    | _ => exact .inl rfl

theorem Steady.noted {units : Array (List Lambda)} {m : Action α} (h : Steady units m)
    (pos : Position) : Steady units (act.moveTo pos >>= fun _ => act.locate pos m) := by
  refine Steady.bind (fun _ hs => ⟨hs, le_rfl⟩) fun _ => ?_
  rw [locate_eq]
  refine h.inspect fun r => ?_
  split <;> exact fun _ hs => ⟨hs, le_rfl⟩

theorem Twin.moved_left (hp : C.placed = false) {s t : Store} (h : Twin C s t) (pos : Position) :
    Twin C (act.moved pos s) t :=
  ⟨by rw [h.rest]; rfl, h.left, h.right, h.base, h.caches,
    fun hp' => Bool.noConfusion (hp.symm.trans hp'), h.kept⟩

theorem Twin.moved_right (hp : C.placed = false) {s t : Store} (h : Twin C s t) (pos : Position) :
    Twin C s (act.moved pos t) :=
  ⟨by rw [h.rest]; rfl, h.left, h.right, h.base, h.caches,
    fun hp' => Bool.noConfusion (hp.symm.trans hp'), h.kept⟩

/-- One side notes a place, where places differ. -/
theorem Aligned.noted_left (hp : C.placed = false) {m m' : Action α} (h : Aligned C C.placed m m')
    (pos : Position) : Aligned C C.placed (act.moveTo pos >>= fun _ => act.locate pos m) m' := by
  refine ⟨h.left.noted act pos, h.right, fun s t hst hend => ?_⟩
  change C.Allowed (lastStore (act.locate pos m (act.moved pos s))).tally at hend
  change Agree C C.placed (act.locate pos m (act.moved pos s)) (m' t)
  have hm := h.agree _ t (hst.moved_left act hp pos)
  rcases locate_cases act pos m (act.moved pos s) with hl | ⟨e, e', s₁, hbare, hms, hl⟩
  · rw [hl] at hend ⊢
    exact hm hend
  · rw [hl] at hend ⊢
    rw [hms] at hm
    have hm := hm hend
    generalize m' t = y at hm ⊢
    cases hm with
    | error he hst' =>
      refine .error ?_ (hst'.moved_left act hp pos)
      rw [hp] at he ⊢
      exact hbare.trans he

/-- The other side does, where places differ. -/
theorem Aligned.noted_right (hp : C.placed = false) {m m' : Action α} (h : Aligned C C.placed m m')
    (pos : Position) : Aligned C C.placed m (act.moveTo pos >>= fun _ => act.locate pos m') := by
  refine ⟨h.left, h.right.noted act pos, fun s t hst hend => ?_⟩
  change Agree C C.placed (m s) (act.locate pos m' (act.moved pos t))
  have hm := h.agree s _ (hst.moved_right act hp pos) hend
  rcases locate_cases act pos m' (act.moved pos t) with hl | ⟨e, e', t₁, hbare, hmt, hl⟩
  · rw [hl]
    exact hm
  · rw [hl]
    rw [hmt] at hm
    generalize m s = x at hm ⊢
    cases hm with
    | error he hst' =>
      refine .error ?_ (hst'.moved_right act hp pos)
      rw [hp] at he ⊢
      exact he.trans hbare.symm

/-- Both sides note a place. -/
theorem Aligned.noted {m m' : Action α} (h : Aligned C C.placed m m') (pos : Position) :
    Aligned C C.placed (act.moveTo pos >>= fun _ => act.locate pos m)
      (act.moveTo pos >>= fun _ => act.locate pos m') := by
  cases hp : C.placed with
  | true => exact hp ▸ h.noted_placed act hp pos
  | false => exact hp ▸ (h.noted_left act hp pos).noted_right act hp pos

end

/-! ### Forms of evaluation -/

theorem aligned_runBlock {labels : Target → Option Nat} {run run' : Nat → Value → Eval Value}
    (h : ∀ skip last, Aligned C p (run skip last).run (run' skip last).run) (fuel skip : Nat)
    (last : Value) :
    Aligned C p (runBlock labels run fuel skip last).run
      (runBlock labels run' fuel skip last).run := by
  induction fuel generalizing skip last with
  | zero =>
    refine (h skip last).outcome.exits_bind fun r => ?_
    cases r with
    | ok v => exact aligned_return v
    | error j =>
      dsimp only
      split
      · exact (aligned_throw rfl).lift
      · exact aligned_exit j
  | succ fuel ih =>
    refine (h skip last).outcome.exits_bind fun r => ?_
    cases r with
    | ok v => exact aligned_return v
    | error j =>
      dsimp only
      split
      · exact ih _ _
      · exact aligned_exit j

theorem aligned_runLoop {ctx : Nat} {brk : Target} {cont : Option Target} {body body' : Eval Value}
    (h : Aligned C p body.run body'.run) (fuel : Nat) :
    Aligned C p (runLoop ctx brk cont body fuel).run (runLoop ctx brk cont body' fuel).run := by
  induction fuel with
  | zero => exact (aligned_throw rfl).lift
  | succ fuel ih =>
    refine (aligned_checkCancelled ctx).lift.exits_bind fun _ => h.outcome.exits_bind fun r => ?_
    cases r with
    | ok v => exact ih
    | error j =>
      dsimp only
      split
      · exact aligned_return _
      · split
        · exact ih
        · exact aligned_exit j

section

variable [Host]

omit [Host] in
theorem aligned_unexpectedNode (kind : String) :
    Aligned C p (unexpectedNode kind) (unexpectedNode kind) :=
  (aligned_fault _).bind fun _ => aligned_fail _

theorem Aligned.test {m m' : Eval Value} (h : Aligned C p m.run m'.run) :
    Aligned C p (evalTest m).run (evalTest m').run := by
  refine h.exits_bind fun v => ?_
  cases v with
  | bool b => exact aligned_return b
  | _ =>
    refine (aligned_fault _).lift.exits_bind fun _ => ?_
    exact aligned_get_exits (fun _ _ => rfl) fun _ => (aligned_fail _).lift

theorem aligned_asEnumerator (v : Value) : Aligned C p (asEnumerator v) (asEnumerator v) := by
  cases v with
  | enumerator id => exact aligned_pure id
  | _ =>
    refine (aligned_fault _).bind fun _ => ?_
    exact aligned_get (fun _ _ => rfl) fun _ => aligned_fail _

omit [Host] in
theorem aligned_newClosure (act : Activation) (lambda : Nat) (heading : Heading) :
    Aligned C p (newClosure act lambda heading) (newClosure act lambda heading) :=
  aligned_self (fun _ _ => rfl) fun _ => ⟨rfl, le_rfl⟩

theorem aligned_callContext (m : ContextMethod) (target : Value) (args : List Value) :
    Aligned C p (callContext m target args) (callContext m target args) := by
  cases target with
  | context ctx =>
    cases m with
    | pushWriter => exact (aligned_modifyContext _ _).bind fun _ => aligned_pure _
    | popWriter =>
      refine (aligned_context ctx).bind fun c => Aligned.ite ?_ ?_
      · exact (aligned_fault _).bind fun _ => aligned_fail _
      · exact (aligned_popWriter ctx).bind fun _ => aligned_pure _
    | write =>
      refine (aligned_job (operand args 0)).bind fun v => ?_
      cases v with
      | string text => exact (aligned_write ctx text).bind fun _ => aligned_pure _
      | _ =>
        refine (aligned_fault _).bind fun _ => ?_
        exact aligned_get (fun _ _ => rfl) fun _ => aligned_fail _
    | safeWrite =>
      refine (aligned_job (operand args 0)).bind fun v => ?_
      refine aligned_get (fun _ _ => rfl) fun s => ?_
      exact (aligned_write ctx _).bind fun _ => aligned_pure _
    | getGlobals =>
      refine (aligned_context ctx).bind fun c => ?_
      split
      · exact aligned_pure _
      · refine (aligned_job _).bind fun id => ?_
        exact (aligned_modifyContext _ _).bind fun _ => aligned_pure _
  | _ =>
    refine (aligned_fault _).bind fun _ => ?_
    exact aligned_get (fun _ _ => rfl) fun _ => aligned_fail _

/-! ### Loops over sequences -/

section

variable {call call' : Callback}

omit [Host] in
theorem aligned_searchNext {next next' : Action (Option Value)} {test test' : Value → Action Bool}
    (hn : Aligned C p next next') (ht : ∀ x, Aligned C p (test x) (test' x)) (fuel : Nat) :
    Aligned C p (searchNext next test fuel) (searchNext next' test' fuel) := by
  induction fuel with
  | zero => exact aligned_throw rfl
  | succ fuel ih =>
    refine hn.bind fun x => ?_
    cases x with
    | none => exact aligned_pure _
    | some x => exact (ht x).bind fun ok => (aligned_pure _).ite ih

omit [Host] in
theorem steady_interrupt (units : Array (List Lambda)) (id : Nat) (e : Failure) :
    Steady units (Action.interrupt id e) := by
  intro s hs
  rw [Action.interrupt, lastStore_modify]
  split <;> exact ⟨hs, le_rfl⟩

omit [Host] in
/-- Both sides keep failures that are alike. -/
theorem aligned_interrupt (id : Nat) {e e' : Failure} (h : e.seen C.placed = e'.seen C.placed) :
    Aligned C p (Action.interrupt id e) (Action.interrupt id e') where
  left := steady_interrupt _ id e
  right := steady_interrupt _ id e'
  agree s t hst _ := by
    have hcursors : t.cursors = s.cursors := by rw [hst.rest]; rfl
    refine .ok ?_
    dsimp only
    rw [hcursors]
    split
    · exact ⟨by rw [hst.rest]; rfl, hst.left, hst.right, hst.base, hst.caches, hst.places,
        by simp [hst.kept, h]⟩
    · exact hst

theorem aligned_passTo (hcall : AlignedCalls C call call') (fuel depth id : Nat) :
    Aligned C C.placed (passTo call fuel depth id) (passTo call' fuel depth id) := by
  induction depth generalizing id with
  | zero => exact aligned_pure _
  | succ depth ih =>
    refine aligned_get (fun _ _ => rfl) fun s => ?_
    split
    · refine Aligned.attempt_bind (aligned_searchNext (ih _) (fun x => ?_) fuel) fun r r' hr => ?_
      · refine (hcall.loose _ _ _).bind fun ok => ?_
        exact aligned_get (fun _ _ => rfl) fun _ => aligned_pure _
      · cases hr with
        | ok => exact aligned_pure _
        | error he => exact (aligned_interrupt _ he).bind fun _ => aligned_pure _
    · exact (hcall.run _).loosen

omit [Host] in
theorem lookup_map_snd (f : Failure → Failure) (cursor : Nat) (kept : List (Nat × Failure)) :
    (kept.map (Prod.map id f)).lookup cursor = (kept.lookup cursor).map f := by
  induction kept with
  | nil => rfl
  | cons k kept ih =>
    simp only [List.map_cons, Prod.map, List.lookup, id]
    cases cursor == k.1 with
    | true => rfl
    | false => exact ih

omit [Host] in
/-- The failures that both sides have kept are alike. -/
theorem Twin.endingOf {s t : Store} (h : Twin C s t) (cursor : Nat) :
    (s.endingOf cursor).map (·.seen C.placed) = (t.endingOf cursor).map (·.seen C.placed) := by
  have hcursors : t.cursors = s.cursors := by rw [h.rest]; rfl
  unfold Store.endingOf
  rw [hcursors]
  split
  · rfl
  · rw [← lookup_map_snd, ← lookup_map_snd, h.kept]
  · rfl

omit [Host] in
theorem endSearch_apply (cursor : Nat) (s : Store) :
    Action.endSearch cursor s = match s.endingOf cursor with
      | some e => .error e s
      | none => .ok () s := by
  show (match s.endingOf cursor with | some failure => throw failure | none => return : Action Unit) s = _
  cases s.endingOf cursor <;> rfl

omit [Host] in
theorem aligned_endSearch (cursor : Nat) :
    Aligned C C.placed (Action.endSearch cursor) (Action.endSearch cursor) := by
  have steady (units : Array (List Lambda)) : Steady units (Action.endSearch cursor) := by
    intro s hs
    rw [endSearch_apply]
    cases s.endingOf cursor <;> exact ⟨hs, le_rfl⟩
  refine ⟨steady _, steady _, fun s t hst _ => ?_⟩
  have hend := hst.endingOf cursor
  rw [endSearch_apply, endSearch_apply]
  cases hs : s.endingOf cursor <;> cases ht : t.endingOf cursor <;> rw [hs, ht] at hend
  · exact .ok hst
  · cases hend
  · cases hend
  · exact .error (Option.some.inj hend) hst

theorem aligned_moveNext (hcall : AlignedCalls C call call') (fuel id : Nat) :
    Aligned C C.placed (moveNext call fuel id) (moveNext call' fuel id) := by
  refine aligned_get (fun _ _ => rfl) fun s => Aligned.ite (aligned_pure _) ?_
  refine (aligned_passTo hcall fuel _ _).bind fun x => ?_
  cases x with
  | some x => exact (hcall.run _).loosen.bind fun _ => aligned_pure _
  | none =>
    refine (hcall.run _).loosen.bind fun _ => (hcall.run _).loosen.bind fun _ => ?_
    exact (aligned_endSearch _).bind fun _ => aligned_pure _

end

/-! ### Code -/

section

variable {call call' : Callback} {fuel : Nat} {act : Activation} {keep : Bool}

/-- The operation of a call site does the same on both sides. -/
def AlignedSite (C : Likeness) (call call' : Callback) (fuel : Nat) (act : Activation)
    (site : CallSite) : Prop :=
  ∀ vs, Aligned C C.placed (dispatch call fuel act.ctx act.unit site vs)
    (dispatch call' fuel act.ctx act.unit site vs)

/-- What both sides need of a node: its call site does the same, and the other side does without
notes only where places differ and they may be left out. -/
def AlignedNode (C : Likeness) (keep : Bool) (call call' : Callback) (fuel : Nat) (act : Activation)
    (c : Code) : Prop :=
  (∀ site, c.site? = some site → AlignedSite C call call' fuel act site) ∧
    (keep = false → C.placed = false ∧ c.Loose)

omit [Host] in
theorem AlignedCalls.within (hcall : AlignedCalls C call call') (job : Job α) :
    Aligned C p (job.within call : ExceptT ε Action α).run
      (job.within call' : ExceptT ε Action α).run :=
  (hcall.run job).loosen.lift

/-- Leaving out notes does not make code missing that is there. -/
theorem isAbsent_of_aligned {c : Code}
    (h : ∀ d ∈ c.nodes, AlignedNode C keep call call' fuel act d) :
    (c.withNotes keep).isAbsent = c.isAbsent := by
  cases c with
  | absent => rfl
  | _ => exact Code.isAbsent_withNotes fun hk => ((h _ (List.mem_cons_self ..)).2 hk).2

theorem aligned_dynamic {site : CallSite} {args args' : List Code}
    (hsite : AlignedSite C call call' fuel act site)
    (hargs : Aligned C C.placed (evalArgs call fuel act args).run
      (evalArgs call' fuel act args').run) :
    Aligned C C.placed ((Code.dynamic site args).eval call fuel act).run
      ((Code.dynamic site args').eval call' fuel act).run := by
  rw [Code.eval, Code.eval]
  refine hargs.exits_bind fun vs => ?_
  generalize site.kind = kind
  cases kind with
  | invoke | call | create =>
    exact (aligned_moveTo act site.pos).lift.exits_bind fun _ => (hsite vs).lift
  | _ => exact (hsite vs).lift

theorem aligned_contextCall {method : ContextMethod} {x x' : Code} {args args' : List Code}
    (hx : Aligned C C.placed (x.eval call fuel act).run (x'.eval call' fuel act).run)
    (hargs : Aligned C C.placed (evalArgs call fuel act args).run
      (evalArgs call' fuel act args').run) :
    Aligned C C.placed ((Code.contextCall method x args).eval call fuel act).run
      ((Code.contextCall method x' args').eval call' fuel act).run := by
  rw [Code.eval, Code.eval]
  refine hx.exits_bind fun target => ?_
  cases target with
  | context id => exact hargs.exits_bind fun vs => (aligned_callContext _ _ _).lift
  | _ => exact (aligned_callContext _ _ _).lift

mutual

theorem aligned_eval (hcall : AlignedCalls C call call') : (c : Code) →
    (∀ d ∈ c.nodes, AlignedNode C keep call call' fuel act d) →
    Aligned C C.placed (c.eval call fuel act).run ((c.withNotes keep).eval call' fuel act).run
  | .absent | .case _ _ => fun _ => by
    rw [Code.withNotes, Code.eval, Code.eval]
    exact (aligned_unexpectedNode _).lift
  | .constant v | .empty => fun _ => by
    rw [Code.withNotes, Code.eval, Code.eval]
    exact aligned_return _
  | .var v => fun _ => by
    rw [Code.withNotes, Code.eval, Code.eval]
    exact (aligned_read act v).lift
  | .block vars items => fun h => by
    obtain ⟨-, h⟩ := List.forall_mem_cons.1 h
    rw [Code.withNotes, Code.eval, Code.eval, labelIndex_withNotes]
    refine (aligned_clear act vars).lift.exits_bind fun _ => ?_
    exact aligned_runBlock (fun _ _ => aligned_evalFrom hcall _ items h _ _ _) fuel 0 .null
  | .assign v x => fun h => by
    obtain ⟨-, h⟩ := List.forall_mem_cons.1 h
    rw [Code.withNotes, Code.eval, Code.eval]
    refine (aligned_eval hcall x h).exits_bind fun y => ?_
    exact (aligned_assign act v y).lift.exits_bind fun _ => aligned_return _
  | .lambda id name params _ _ => fun _ => by
    rw [Code.withNotes, Code.eval, Code.eval]
    exact (aligned_newClosure _ _ _).lift
  | .cond test yes no => fun h => by
    obtain ⟨-, h⟩ := List.forall_mem_cons.1 h
    obtain ⟨h, hn⟩ := List.forall_mem_append.1 h
    obtain ⟨ht, hy⟩ := List.forall_mem_append.1 h
    rw [Code.withNotes, Code.eval, Code.eval, isAbsent_of_aligned hn]
    refine (aligned_eval hcall test ht).test.exits_bind fun b => ?_
    exact (aligned_eval hcall yes hy).ite_exits ((aligned_return _).ite_exits (aligned_eval hcall no hn))
  | .not x => fun h => by
    obtain ⟨-, h⟩ := List.forall_mem_cons.1 h
    rw [Code.withNotes, Code.eval, Code.eval]
    exact (aligned_eval hcall x h).test.exits_bind fun b => aligned_return _
  | .toBool x => fun h => by
    obtain ⟨-, h⟩ := List.forall_mem_cons.1 h
    rw [Code.withNotes, Code.eval, Code.eval]
    refine (aligned_eval hcall x h).exits_bind fun y => ?_
    exact aligned_get_exits (fun _ _ => rfl) fun _ => aligned_return _
  | .andAlso x y => fun h => by
    obtain ⟨-, h⟩ := List.forall_mem_cons.1 h
    obtain ⟨hx, hy⟩ := List.forall_mem_append.1 h
    rw [Code.withNotes, Code.eval, Code.eval]
    refine (aligned_eval hcall x hx).test.exits_bind fun b => Aligned.ite_exits ?_ (aligned_return _)
    exact (aligned_eval hcall y hy).test.exits_bind fun b => aligned_return _
  | .orElse x y => fun h => by
    obtain ⟨-, h⟩ := List.forall_mem_cons.1 h
    obtain ⟨hx, hy⟩ := List.forall_mem_append.1 h
    rw [Code.withNotes, Code.eval, Code.eval]
    refine (aligned_eval hcall x hx).test.exits_bind fun b => (aligned_return _).ite_exits ?_
    exact (aligned_eval hcall y hy).test.exits_bind fun b => aligned_return _
  | .loop brk cont body => fun h => by
    obtain ⟨-, h⟩ := List.forall_mem_cons.1 h
    rw [Code.withNotes, Code.eval, Code.eval]
    exact aligned_runLoop (aligned_eval hcall body h) fuel
  | .label _ dflt => fun h => by
    obtain ⟨-, h⟩ := List.forall_mem_cons.1 h
    rw [Code.withNotes, Code.eval, Code.eval, isAbsent_of_aligned h]
    exact (aligned_return _).ite_exits (aligned_eval hcall dflt h)
  | .goto t value => fun h => by
    obtain ⟨-, h⟩ := List.forall_mem_cons.1 h
    rw [Code.withNotes, Code.eval, Code.eval, isAbsent_of_aligned h]
    exact (aligned_exit _).ite_exits ((aligned_eval hcall value h).exits_bind fun v => aligned_exit _)
  | .switch x cases dflt equal => fun h => by
    obtain ⟨hnode, h⟩ := List.forall_mem_cons.1 h
    obtain ⟨h, hd⟩ := List.forall_mem_append.1 h
    obtain ⟨hx, hcs⟩ := List.forall_mem_append.1 h
    rw [Code.withNotes, Code.eval, Code.eval, isAbsent_of_aligned hd]
    refine (aligned_eval hcall x hx).exits_bind fun v => ?_
    refine (aligned_cases hcall (hnode.1 _ rfl) v cases (fun hk => (hnode.2 hk).2) hcs).exits_bind fun r => ?_
    cases r with
    | some r => exact aligned_return r
    | none => exact (aligned_return _).ite_exits (aligned_eval hcall dflt hd)
  | .tryFinally body finally_ => fun h => by
    obtain ⟨-, h⟩ := List.forall_mem_cons.1 h
    obtain ⟨hb, hf⟩ := List.forall_mem_append.1 h
    rw [Code.withNotes, Code.eval, Code.eval]
    exact (aligned_eval hcall body hb).runFinally (aligned_eval hcall finally_ hf)
  | .contextCall method ctx args => fun h => by
    obtain ⟨-, h⟩ := List.forall_mem_cons.1 h
    obtain ⟨hc, ha⟩ := List.forall_mem_append.1 h
    rw [Code.withNotes]
    exact aligned_contextCall (aligned_eval hcall ctx hc) (aligned_args hcall args ha)
  | .dynamic site args => fun h => by
    obtain ⟨hnode, ha⟩ := List.forall_mem_cons.1 h
    rw [Code.withNotes]
    exact aligned_dynamic (hnode.1 site rfl) (aligned_args hcall args ha)
  | .iterate x => fun h => by
    obtain ⟨-, h⟩ := List.forall_mem_cons.1 h
    rw [Code.withNotes, Code.eval, Code.eval]
    exact (aligned_eval hcall x h).exits_bind fun _ => hcall.within _
  | .moveNext x => fun h => by
    obtain ⟨-, h⟩ := List.forall_mem_cons.1 h
    rw [Code.withNotes, Code.eval, Code.eval]
    refine (aligned_eval hcall x h).exits_bind fun v => ?_
    refine (aligned_asEnumerator v).lift.exits_bind fun id => ?_
    exact (aligned_moveNext hcall fuel id).lift.exits_bind fun _ => aligned_return _
  | .current x => fun h => by
    obtain ⟨-, h⟩ := List.forall_mem_cons.1 h
    rw [Code.withNotes, Code.eval, Code.eval]
    refine (aligned_eval hcall x h).exits_bind fun v => ?_
    refine (aligned_asEnumerator v).lift.exits_bind fun id => ?_
    exact aligned_get_exits (fun _ _ => rfl) fun _ => aligned_return _
  | .filter x pred => fun h => by
    obtain ⟨-, h⟩ := List.forall_mem_cons.1 h
    obtain ⟨hx, hp⟩ := List.forall_mem_append.1 h
    rw [Code.withNotes, Code.eval, Code.eval]
    refine (aligned_eval hcall x hx).exits_bind fun v => ?_
    exact (aligned_eval hcall pred hp).exits_bind fun _ => hcall.within _
  | .list items => fun h => by
    obtain ⟨-, h⟩ := List.forall_mem_cons.1 h
    rw [Code.withNotes, Code.eval, Code.eval]
    exact (aligned_args hcall items h).exits_bind fun vs => (aligned_job _).lift
  | .debug pos x => fun h => by
    obtain ⟨hnode, h⟩ := List.forall_mem_cons.1 h
    have hx := aligned_eval hcall x h
    rw [Code.withNotes, Code.eval]
    cases keep with
    | true =>
      rw [if_pos rfl, Code.eval]
      exact hx.noted act pos
    | false =>
      rw [if_neg Bool.false_ne_true]
      exact hx.noted_left act (hnode.2 rfl).1 pos

theorem aligned_evalFrom (hcall : AlignedCalls C call call') (labels : Target → Option Nat) :
    (items : List Code) → (∀ d ∈ nodesOf items, AlignedNode C keep call call' fuel act d) →
    ∀ i skip last, Aligned C C.placed (evalFrom call fuel act labels items i skip last).run
      (evalFrom call' fuel act labels (listWithNotes keep items) i skip last).run
  | [], _, i, skip, last => by
    rw [listWithNotes, evalFrom, evalFrom]
    exact aligned_return last
  | c :: cs, h, i, skip + 1, last => by
    obtain ⟨-, hcs⟩ := List.forall_mem_append.1 h
    rw [listWithNotes, evalFrom, evalFrom]
    exact aligned_evalFrom hcall labels cs hcs _ _ _
  | c :: cs, h, i, 0, last => by
    obtain ⟨hc, hcs⟩ := List.forall_mem_append.1 h
    rw [listWithNotes, evalFrom, evalFrom]
    refine (aligned_eval hcall c hc).outcome.exits_bind fun r => ?_
    cases r with
    | ok v => exact aligned_evalFrom hcall labels cs hcs _ _ _
    | error j =>
      dsimp only
      split
      · split
        · exact aligned_evalFrom hcall labels cs hcs _ _ _
        · exact aligned_exit j
      · exact aligned_exit j

theorem aligned_args (hcall : AlignedCalls C call call') : (cs : List Code) →
    (∀ d ∈ nodesOf cs, AlignedNode C keep call call' fuel act d) →
    Aligned C C.placed (evalArgs call fuel act cs).run
      (evalArgs call' fuel act (listWithNotes keep cs)).run
  | [] => fun _ => by
    rw [listWithNotes, evalArgs, evalArgs]
    exact aligned_return []
  | c :: cs => fun h => by
    obtain ⟨hc, hcs⟩ := List.forall_mem_append.1 h
    rw [listWithNotes, evalArgs, evalArgs]
    refine (aligned_eval hcall c hc).exits_bind fun v => ?_
    exact (aligned_args hcall cs hcs).exits_bind fun vs => aligned_return _

theorem aligned_match (hcall : AlignedCalls C call call') {equal : CallSite}
    (heq : AlignedSite C call call' fuel act equal) (v : Value) :
    (cs : List Code) → (∀ d ∈ nodesOf cs, AlignedNode C keep call call' fuel act d) →
    Aligned C C.placed (evalMatch call fuel act equal v cs).run
      (evalMatch call' fuel act equal v (listWithNotes keep cs)).run
  | [] => fun _ => by
    rw [listWithNotes, evalMatch, evalMatch]
    exact aligned_return false
  | c :: cs => fun h => by
    obtain ⟨hc, hcs⟩ := List.forall_mem_append.1 h
    rw [listWithNotes, evalMatch, evalMatch]
    refine (aligned_eval hcall c hc).exits_bind fun w => ?_
    refine (heq [v, w]).lift.exits_bind fun eq => ?_
    refine aligned_get_exits (fun _ _ => rfl) fun s => ?_
    exact (aligned_return _).ite_exits (aligned_match hcall heq v cs hcs)

theorem aligned_cases (hcall : AlignedCalls C call call') {equal : CallSite}
    (heq : AlignedSite C call call' fuel act equal) (v : Value) :
    (cs : List Code) → (keep = false → ∀ c ∈ cs, c.unwrap = c) →
    (∀ d ∈ nodesOf cs, AlignedNode C keep call call' fuel act d) →
    Aligned C C.placed (evalCases call fuel act equal v cs).run
      (evalCases call' fuel act equal v (listWithNotes keep cs)).run
  | [] => fun _ _ => by
    rw [listWithNotes, evalCases, evalCases]
    exact aligned_return none
  | c :: cs => fun hu h => by
    obtain ⟨hc, hcs⟩ := List.forall_mem_append.1 h
    rw [listWithNotes, evalCases, evalCases]
    refine (aligned_case hcall heq v c (fun hp => hu hp c (List.mem_cons_self ..)) hc).exits_bind
      fun r => ?_
    cases r with
    | some r => exact aligned_return _
    | none =>
      exact aligned_cases hcall heq v cs (fun hp d hd => hu hp d (List.mem_cons_of_mem _ hd)) hcs

theorem aligned_case (hcall : AlignedCalls C call call') {equal : CallSite}
    (heq : AlignedSite C call call' fuel act equal) (v : Value) :
    (c : Code) → (keep = false → c.unwrap = c) →
    (∀ d ∈ c.nodes, AlignedNode C keep call call' fuel act d) →
    Aligned C C.placed (c.evalCase call fuel act equal v).run
      ((c.withNotes keep).evalCase call' fuel act equal v).run
  | .case values body => fun _ h => by
    obtain ⟨-, h⟩ := List.forall_mem_cons.1 h
    obtain ⟨hv, hb⟩ := List.forall_mem_append.1 h
    rw [Code.withNotes, Code.evalCase, Code.evalCase]
    refine (aligned_match hcall heq v values hv).exits_bind fun found => ?_
    exact ((aligned_eval hcall body hb).exits_bind fun _ => aligned_return _).ite_exits (aligned_return none)
  | .debug pos x => fun hu _ => by
    cases keep with
    | true => exact aligned_return none
    | false => exact absurd (hu rfl) (Code.unwrap_ne_debug _ pos x)
  | .absent | .constant _ | .empty | .block .. | .var _ | .assign .. | .lambda .. | .cond ..
  | .not _ | .toBool _ | .andAlso .. | .orElse .. | .loop .. | .label .. | .goto .. | .switch ..
  | .tryFinally .. | .contextCall .. | .dynamic .. | .iterate _ | .moveNext _ | .current _
  | .filter .. | .list _ => fun _ _ =>
    aligned_return none

end

end

/-! ### Dispatch -/

theorem aligned_bindSite (site : CallSite) (x y : Value) :
    Aligned C p (site.bind x y) (site.bind x y) := by
  refine aligned_get (fun _ _ => rfl) fun s => ?_
  split
  · exact aligned_pure _
  · exact aligned_fail _

theorem aligned_carryOut {call call' : Callback} (hcall : AlignedCalls C call call')
    (fuel ctx : Nat) (site : CallSite) (args : List Value) (b : Binding) :
    Aligned C C.placed (site.carryOut call fuel ctx args b) (site.carryOut call' fuel ctx args b) := by
  refine (hcall.run _).loosen.bind fun reply => ?_
  cases reply with
  | value v => exact aligned_pure v
  | call fn args => exact hcall.loose ctx fn args

omit [Host] in
theorem steady_lookupCache (units : Array (List Lambda)) (unit site : Nat) (shape : Shape) :
    Steady units (lookupCache unit site shape) := fun _ hs => ⟨hs, le_rfl⟩

omit [Host] in
theorem steady_modifyCache (units : Array (List Lambda)) (unit site : Nat)
    (f : InlineCache Binding → InlineCache Binding) :
    Steady units (modifyCache unit site f) := fun _ hs => ⟨hs, le_rfl⟩

/-- A call site whose cache is the same on both sides. -/
theorem AlignedCalls.dispatch (hC : ∀ {c d}, C.Rel c d ↔ c = d) {call call' : Callback}
    (h : AlignedCalls C call call') (fuel : Nat) (act : Activation) (site : CallSite) :
    AlignedSite C call call' fuel act site := by
  have lookup (unit id : Nat) (shape : Shape) :
      Aligned C C.placed (lookupCache unit id shape) (lookupCache unit id shape) := by
    refine ⟨steady_lookupCache _ _ _ _, steady_lookupCache _ _ _ _, fun s t hst _ => ?_⟩
    have hcaches := hC.1 hst.caches
    show Agree C C.placed (.ok (s.caches.lookup unit id shape).1 _)
      (.ok (t.caches.lookup unit id shape).1 _)
    rw [← hcaches]
    exact .ok (hst.setCaches (hC.2 rfl))
  have change (unit id : Nat) (f : InlineCache Binding → InlineCache Binding) :
      Aligned C C.placed (modifyCache unit id f) (modifyCache unit id f) := by
    refine ⟨steady_modifyCache _ _ _ _, steady_modifyCache _ _ _ _, fun s t hst _ => ?_⟩
    have hcaches := hC.1 hst.caches
    refine .ok ?_
    dsimp only
    rw [← hcaches]
    exact hst.setCaches (hC.2 rfl)
  have on (vs : List Value) (x y : Value) : Aligned C C.placed
      (dispatchOn call fuel act.ctx act.unit site vs x y)
      (dispatchOn call' fuel act.ctx act.unit site vs x y) := by
    refine Aligned.bind (aligned_count fun t => Tally.le_def.2 (by simp)) fun _ => ?_
    refine aligned_get (fun _ _ => rfl) fun s => (lookup _ _ _).bind fun found => ?_
    cases found with
    | some b => exact aligned_carryOut h _ _ _ _ _
    | none =>
      refine (aligned_bindSite site x y).bind fun b => (change _ _ _).bind fun _ => ?_
      exact aligned_carryOut h _ _ _ _ _
  intro vs
  refine (aligned_job _).bind fun x => Aligned.ite ?_ (on vs x .null)
  exact (aligned_job _).bind fun y => on vs x y

end

/-! ### Calls -/

/-- A new frame, with the same places. -/
theorem aligned_enter (ctx : Nat) (f : Closure) (name : Bytes) (caller : Option Nat)
    (vars : Array Value) :
    Aligned C p (enter ctx f name caller vars) (enter ctx f name caller vars) where
  left _ hs := ⟨hs, le_rfl⟩
  right _ hs := ⟨hs, le_rfl⟩
  agree s t hst _ := by
    have moved := hst.setPlaces (·.push .unknown)
    let entered : Store := { s with
      places := s.places.push .unknown
      frames := s.frames.push { ctx, unit := f.unit, lambda := f.lambda, name, vars, outer := f.env, caller }
      contexts := s.contexts.modify ctx fun c =>
        { c with frame := some s.frames.size, depth := c.depth + 1 } }
    have twin : Twin C entered _ := moved.change rfl le_rfl
    rw [hst.rest] at twin ⊢
    exact .ok twin

/-- The end of a call: the context is as before it. -/
def restore (ctx : Nat) (caller : Option Nat) : Action Unit :=
  Action.modifyContext ctx fun c => { c with depth := c.depth - 1, frame := caller }

theorem leaving_eq (ctx : Nat) (caller : Option Nat) (name : Bytes) (run : Eval Value) :
    leaving ctx caller name run = inspect run.run fun r => match r with
      | .error e => if e.isError then restore ctx caller >>= fun _ => throw e else throw e
      | .ok (.ok v) => restore ctx caller >>= fun _ => pure v
      | .ok (.error j) => Action.fault .escapedJump >>= fun _ =>
        restore ctx caller >>= fun _ => throw (.plain (Bytes.ofString "internal error: jump to " ++
          j.target.name ++ " escaped function " ++ name) false) := by
  funext s
  unfold leaving inspect
  cases run.run s with
  | ok r s' => cases r <;> rfl
  | error e s' => cases e <;> rfl

theorem Aligned.leaving {m m' : Eval Value} (h : Aligned C p m.run m'.run) (ctx : Nat)
    (caller : Option Nat) (name : Bytes) :
    Aligned C p (Stencil.leaving ctx caller name m) (Stencil.leaving ctx caller name m') := by
  have restore : Aligned C p (restore ctx caller) (restore ctx caller) := aligned_modifyContext _ _
  rw [leaving_eq, leaving_eq]
  refine h.inspect fun r r' hr => ?_
  cases hr with
  | @ok r =>
    cases r with
    | ok v => exact restore.bind fun _ => aligned_pure v
    | error j => exact (aligned_fault _).bind fun _ => restore.bind fun _ => aligned_throw rfl
  | error he =>
    dsimp only
    rcases Failure.seen_inj he with ⟨h₁, h₂⟩ | ⟨h₁, rfl⟩
    · rw [if_pos h₁, if_pos h₂]
      exact restore.bind fun _ => aligned_throw he
    · rw [h₁]
      exact aligned_throw rfl

/-- Two routines do the same for the code of a unit. -/
structure Routine.Alike (C : Likeness) (unit : Nat) (r r' : Routine) : Prop where
  name : r'.name = r.name
  arity : r'.arity = r.arity
  slots : r'.slots = r.slots
  run : ∀ call call' fuel, AlignedCalls C call call' → ∀ act : Activation, act.unit = unit →
    Aligned C C.placed (r.run call fuel act).run (r'.run call' fuel act).run

theorem Routine.Alike.call {r r' : Routine} {f : Closure} (h : r.Alike C f.unit r')
    {call call' : Callback} (hcall : AlignedCalls C call call') (fuel ctx : Nat)
    (args : List Value) :
    Aligned C C.placed (r.call f call fuel ctx args) (r'.call f call' fuel ctx args) := by
  have body := fun caller : Option Nat =>
    (aligned_enter (C := C) ctx f r.name caller
      (args.toArray ++ Array.replicate (r.slots - args.length) Value.null)).bind
      fun frame => (h.run call call' fuel hcall ⟨ctx, f.unit, frame⟩ rfl).leaving ctx caller r.name
  unfold Routine.call
  rw [h.name, h.arity, h.slots]
  refine Aligned.ite ((aligned_fail _).bind fun _ => ?_) ?_ <;>
  · refine (aligned_checkCancelled ctx).bind fun _ => (aligned_context ctx).bind fun c => ?_
    exact ((aligned_fail _).bind fun _ => body c.frame).ite (body c.frame)

/-- Calls do the same when routines are found that do the same. -/
theorem aligned_callWith [Application] {link link' : Linkage}
    (hlink : ∀ s t : Store, s.units = C.units → t.units = C.units' → ∀ unit id,
      Option.Rel (Routine.Alike C unit) (link s unit id) (link' t unit id)) (fuel : Nat) :
    AlignedCalls C (callWith link fuel) (callWith link' fuel) := by
  induction fuel with
  | zero => exact fun _ _ _ => aligned_throw rfl
  | succ fuel ih =>
    intro ctx fn args
    cases fn with
    | function id heading =>
      simp only [Value.isFunction, Bool.not_true, Bool.or_false]
      refine aligned_choose fun s t hst hs ht => ?_
      have hclosures : t.closures = s.closures := by rw [hst]; rfl
      rw [hclosures]
      cases s.closures[id]? with
      | none => exact aligned_job _
      | some f =>
        dsimp only
        have hl := hlink s t hs ht f.unit f.lambda
        generalize link s f.unit f.lambda = r, link' t f.unit f.lambda = r' at hl
        cases hl with
        | none => exact aligned_job _
        | some h => exact h.call ih fuel ctx args
    | _ => exact (ih.run _).loosen

end Stencil
