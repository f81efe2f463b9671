import Stencil.Code.Lowering
import Stencil.Proofs.Machine.Passage

/-!
# Passages of the forms of code

Whether code makes a passage follows from whether its parts do. A fault is met only by code that
is not well-formed; where faults matter, it must be known of a part what its value is.
-/

namespace Stencil

variable {P : Passage} {p : Bool}

/-! ### Control -/

/-- A block passes if what is run from its start does, and what is run from after its labels. -/
theorem passes_runBlock_of {labels : Target → Option Nat} {run : Nat → Value → Eval Value} {skip : Nat}
    (h : ∀ last, Passes P p (run skip last).run)
    (hl : ∀ t k, labels t = some k → ∀ last, Passes P p (run (k + 1) last).run) (fuel : Nat)
    (last : Value) : Passes P p (runBlock labels run fuel skip last).run := by
  induction fuel generalizing skip last with
  | zero =>
    refine (h last).outcome.exits_bind fun r => ?_
    cases r with
    | ok v => exact passes_return v
    | error j => exact (passes_throw _).lift.ite_exits (passes_exit j)
  | succ fuel ih =>
    refine (h last).outcome.exits_bind fun r => ?_
    cases r with
    | ok v => exact passes_return v
    | error j =>
      dsimp only
      split
      · rename_i k hk
        exact ih (hl _ k hk) _
      · exact passes_exit j

theorem passes_runBlock {labels : Target → Option Nat} {run : Nat → Value → Eval Value}
    (h : ∀ skip last, Passes P p (run skip last).run) (fuel skip : Nat) (last : Value) :
    Passes P p (runBlock labels run fuel skip last).run :=
  passes_runBlock_of (h skip) (fun _ _ _ => h _) fuel last

theorem passes_runLoop {ctx : Nat} {brk : Target} {cont : Option Target} {body : Eval Value}
    (h : Passes P p body.run) (fuel : Nat) : Passes P p (runLoop ctx brk cont body fuel).run := by
  induction fuel with
  | zero => exact (passes_throw _).lift
  | succ fuel ih =>
    refine (stays_checkCancelled ctx).passes.lift.exits_bind fun _ => h.outcome.exits_bind fun r => ?_
    cases r with
    | ok v => exact ih
    | error j => exact (passes_return _).ite_exits (ih.ite_exits (passes_exit j))

section

variable [Host]

/-- A condition, which has a truth value where faults matter. -/
theorem Passes.test {m : Eval Value} (h : Passes P p m.run)
    (hb : P.Lenient ∨ Yields P m fun v => ∃ b, v = .bool b) : Passes P p (evalTest m).run := by
  refine h.exits_bind_of (φ := fun v => P.Lenient ∨ ∃ b, v = .bool b) (fun s v t hs hm => ?_) fun v hv => ?_
  · exact hb.imp_right fun hy => hy s v t hs hm
  · rcases hv with hl | ⟨b, rfl⟩
    · cases v with
      | bool b => exact passes_return b
      | _ => exact (hl.fault _).lift.exits_bind fun _ => passes_get_exits fun _ => (passes_fail _).lift
    · exact passes_return b

theorem passes_asEnumerator {v : Value} (hb : P.Lenient ∨ ∃ id, v = .enumerator id) :
    Passes P p (asEnumerator v) := by
  rcases hb with hl | ⟨id, rfl⟩
  · cases v with
    | enumerator id => exact passes_pure id
    | _ => exact (hl.fault _).bind fun _ => passes_get fun _ => passes_fail _
  · exact passes_pure id

/-! ### Loops over sequences -/

variable {call : Callback}

omit [Host] in
theorem passes_searchNext {next : Action (Option Value)} {test : Value → Action Bool}
    (hn : Passes P p next) (ht : ∀ x, Passes P p (test x)) (fuel : Nat) :
    Passes P p (searchNext next test fuel) := by
  induction fuel with
  | zero => exact passes_throw _
  | succ fuel ih =>
    refine hn.bind fun x => ?_
    cases x with
    | none => exact passes_pure _
    | some x => exact (ht x).bind fun ok => (passes_pure _).ite ih

omit [Host] in
theorem stays_interrupt (id : Nat) (e : Failure) : Stays (Action.interrupt id e) := by
  intro s
  rw [Action.interrupt, lastStore_modify]
  split <;> exact .of_eq rfl le_rfl rfl rfl rfl rfl rfl

theorem passes_passTo (hcall : PassesCalls P call) (fuel depth id : Nat) :
    Passes P false (passTo call fuel depth id) := by
  induction depth generalizing id with
  | zero => exact passes_pure _
  | succ depth ih =>
    refine passes_get fun s => ?_
    split
    · refine Passes.attempt_bind (passes_searchNext (ih _) (fun x => ?_) fuel) fun r => ?_
      · exact (hcall.loose _ _ _).bind fun ok => passes_get fun _ => passes_pure _
      · cases r with
        | ok r => exact passes_pure r
        | error e => exact (stays_interrupt _ e).passes.bind fun _ => passes_pure _
    · exact (hcall.run _).weaken

omit [Host] in
theorem stays_endSearch (id : Nat) : Stays (Action.endSearch id) := by
  intro s
  rw [endSearch_apply]
  cases s.endingOf id <;> exact .refl s

theorem passes_moveNext (hcall : PassesCalls P call) (fuel id : Nat) :
    Passes P false (moveNext call fuel id) := by
  refine passes_get fun s => (passes_pure _).ite ?_
  refine (passes_passTo hcall fuel _ _).bind fun x => ?_
  cases x with
  | some x => exact (hcall.run _).weaken.bind fun _ => passes_pure _
  | none =>
    refine (hcall.run _).weaken.bind fun _ => (hcall.run _).weaken.bind fun _ => ?_
    exact (stays_endSearch _).passes.bind fun _ => passes_pure _

/-! ### Call sites -/

omit [Host] in
theorem stays_lookupCache (unit site : Nat) (shape : Shape) : Stays (lookupCache unit site shape) :=
  fun _ => .of_eq rfl le_rfl rfl rfl rfl rfl rfl

omit [Host] in
theorem stays_modifyCache (unit site : Nat) (f : InlineCache Binding → InlineCache Binding) :
    Stays (modifyCache unit site f) := fun _ => .of_eq rfl le_rfl rfl rfl rfl rfl rfl

theorem stays_bindSite (site : CallSite) (x y : Value) : Stays (site.bind x y) := by
  intro s
  rw [CallSite.bind, get_bind_apply]
  cases site.resolve s.toHeap x y <;> exact .refl s

theorem passes_carryOut (hcall : PassesCalls P call) (fuel ctx : Nat) (site : CallSite)
    (args : List Value) (b : Binding) : Passes P false (site.carryOut call fuel ctx args b) := by
  refine (hcall.run _).weaken.bind fun reply => ?_
  cases reply with
  | value v => exact passes_pure v
  | call fn args => exact hcall.loose ctx fn args

theorem passes_dispatch (hcall : PassesCalls P call) (fuel ctx unit : Nat) (site : CallSite)
    (args : List Value) : Passes P false (dispatch call fuel ctx unit site args) := by
  have on (x y : Value) : Passes P false (dispatchOn call fuel ctx unit site args x y) := by
    refine Passes.bind (stays_count fun t => Tally.le_def.2 (by simp)).passes fun _ => ?_
    refine passes_get fun s => (stays_lookupCache _ _ _).passes.bind fun found => ?_
    cases found with
    | some b => exact passes_carryOut hcall _ _ _ _ _
    | none =>
      refine (stays_bindSite site x y).passes.bind fun b => ?_
      exact (stays_modifyCache _ _ _).passes.bind fun _ => passes_carryOut hcall _ _ _ _ _
  refine (passes_job _).bind fun x => Passes.ite ?_ (on x .null)
  exact (passes_job _).bind fun y => on x y

/-! ### Code -/

section

variable {fuel : Nat} {act : Activation}

theorem passes_evalFrom {labels : Target → Option Nat} {items : List Code}
    (h : ∀ c ∈ items, Passes P p (c.eval call fuel act).run) (i skip : Nat) (last : Value) :
    Passes P p (evalFrom call fuel act labels items i skip last).run := by
  induction items generalizing i skip last with
  | nil =>
    rw [evalFrom]
    exact passes_return last
  | cons c cs ih =>
    obtain ⟨hc, hcs⟩ := List.forall_mem_cons.1 h
    cases skip with
    | succ skip =>
      rw [evalFrom]
      exact ih hcs _ _ _
    | zero =>
      rw [evalFrom]
      refine hc.outcome.exits_bind fun r => ?_
      cases r with
      | ok v => exact ih hcs _ _ _
      | error j =>
        dsimp only
        split
        · exact (ih hcs _ _ _).ite_exits (passes_exit j)
        · exact passes_exit j

theorem passes_evalArgs {cs : List Code} (h : ∀ c ∈ cs, Passes P p (c.eval call fuel act).run) :
    Passes P p (evalArgs call fuel act cs).run := by
  induction cs with
  | nil =>
    rw [evalArgs]
    exact passes_return []
  | cons c cs ih =>
    obtain ⟨hc, hcs⟩ := List.forall_mem_cons.1 h
    rw [evalArgs]
    exact hc.exits_bind fun v => (ih hcs).exits_bind fun vs => passes_return _

theorem passes_evalMatch (hcall : PassesCalls P call) {equal : CallSite} (v : Value) {cs : List Code}
    (h : ∀ c ∈ cs, Passes P false (c.eval call fuel act).run) :
    Passes P false (evalMatch call fuel act equal v cs).run := by
  induction cs with
  | nil =>
    rw [evalMatch]
    exact passes_return false
  | cons c cs ih =>
    obtain ⟨hc, hcs⟩ := List.forall_mem_cons.1 h
    rw [evalMatch]
    refine hc.exits_bind fun w => (passes_dispatch hcall _ _ _ _ _).lift.exits_bind fun eq => ?_
    exact passes_get_exits fun s => (passes_return _).ite_exits (ih hcs)

theorem passes_evalCases {equal : CallSite} (v : Value) {cs : List Code}
    (h : ∀ c ∈ cs, Passes P p (c.evalCase call fuel act equal v).run) :
    Passes P p (evalCases call fuel act equal v cs).run := by
  induction cs with
  | nil =>
    rw [evalCases]
    exact passes_return none
  | cons c cs ih =>
    obtain ⟨hc, hcs⟩ := List.forall_mem_cons.1 h
    rw [evalCases]
    refine hc.exits_bind fun r => ?_
    cases r with
    | some r => exact passes_return _
    | none => exact ih hcs

variable {x y z : Code}

theorem passes_assign {v : Variable} (hx : Passes P p (x.eval call fuel act).run)
    (hw : ∀ a, Passes P p (act.write v a)) :
    Passes P p ((Code.assign v x).eval call fuel act).run := by
  rw [Code.eval]
  exact hx.exits_bind fun a => (hw a).lift.exits_bind fun _ => passes_return a

theorem passes_block {vars : List Variable} {items : List Code} (hc : Passes P p (act.clear vars))
    (h : ∀ c ∈ items, Passes P p (c.eval call fuel act).run) :
    Passes P p ((Code.block vars items).eval call fuel act).run := by
  rw [Code.eval]
  exact hc.lift.exits_bind fun _ => passes_runBlock (passes_evalFrom h _) fuel 0 .null

/-- A part that may be missing. -/
theorem passes_part (hx : x.isAbsent = true ∨ Passes P p (x.eval call fuel act).run) {m : Eval Value}
    (hm : Passes P p m.run) :
    Passes P p (if x.isAbsent then m else x.eval call fuel act).run := by
  split
  · exact hm
  · rename_i h
    exact hx.resolve_left h

theorem passes_cond (hx : Passes P p (evalTest (x.eval call fuel act)).run)
    (hy : Passes P p (y.eval call fuel act).run)
    (hz : z.isAbsent = true ∨ Passes P p (z.eval call fuel act).run) :
    Passes P p ((Code.cond x y z).eval call fuel act).run := by
  rw [Code.eval]
  exact hx.exits_bind fun b => hy.ite_exits (passes_part hz (passes_return _))

theorem passes_not (hx : Passes P p (evalTest (x.eval call fuel act)).run) :
    Passes P p ((Code.not x).eval call fuel act).run := by
  rw [Code.eval]
  exact hx.exits_bind fun b => passes_return _

theorem passes_toBool (hx : Passes P p (x.eval call fuel act).run) :
    Passes P p ((Code.toBool x).eval call fuel act).run := by
  rw [Code.eval]
  exact hx.exits_bind fun v => passes_get_exits fun _ => passes_return _

theorem passes_andAlso (hx : Passes P p (evalTest (x.eval call fuel act)).run)
    (hy : Passes P p (evalTest (y.eval call fuel act)).run) :
    Passes P p ((Code.andAlso x y).eval call fuel act).run := by
  rw [Code.eval]
  exact hx.exits_bind fun b =>
    Passes.ite_exits (hy.exits_bind fun _ => passes_return _) (passes_return _)

theorem passes_orElse (hx : Passes P p (evalTest (x.eval call fuel act)).run)
    (hy : Passes P p (evalTest (y.eval call fuel act)).run) :
    Passes P p ((Code.orElse x y).eval call fuel act).run := by
  rw [Code.eval]
  exact hx.exits_bind fun b =>
    (passes_return _).ite_exits (hy.exits_bind fun _ => passes_return _)

theorem passes_loop {brk : Target} {cont : Option Target} (hx : Passes P p (x.eval call fuel act).run) :
    Passes P p ((Code.loop brk cont x).eval call fuel act).run := by
  rw [Code.eval]
  exact passes_runLoop hx fuel

theorem passes_label {t : Target} (hx : x.isAbsent = true ∨ Passes P p (x.eval call fuel act).run) :
    Passes P p ((Code.label t x).eval call fuel act).run := by
  rw [Code.eval]
  exact passes_part hx (passes_return _)

theorem passes_goto {t : Target} (hx : x.isAbsent = true ∨ Passes P p (x.eval call fuel act).run) :
    Passes P p ((Code.goto t x).eval call fuel act).run := by
  rw [Code.eval]
  split
  · exact (passes_return _).exits_bind fun _ => passes_exit _
  · rename_i h
    exact (hx.resolve_left h).exits_bind fun _ => passes_exit _

theorem passes_switch {cs : List Code} {equal : CallSite} (hx : Passes P p (x.eval call fuel act).run)
    (hcs : ∀ v, ∀ c ∈ cs, Passes P p (c.evalCase call fuel act equal v).run)
    (hz : z.isAbsent = true ∨ Passes P p (z.eval call fuel act).run) :
    Passes P p ((Code.switch x cs z equal).eval call fuel act).run := by
  rw [Code.eval]
  refine hx.exits_bind fun v => (passes_evalCases v (hcs v)).exits_bind fun r => ?_
  cases r with
  | some r => exact passes_return r
  | none => exact passes_part hz (passes_return _)

theorem passes_case (hcall : PassesCalls P call) {equal : CallSite} (v : Value) {cs : List Code}
    (h : ∀ c ∈ cs, Passes P false (c.eval call fuel act).run)
    (hx : Passes P false (x.eval call fuel act).run) :
    Passes P false ((Code.case cs x).evalCase call fuel act equal v).run := by
  rw [Code.evalCase]
  refine (passes_evalMatch hcall v h).exits_bind fun found => ?_
  exact Passes.ite_exits (hx.exits_bind fun _ => passes_return _) (passes_return none)

theorem passes_dynamic (hcall : PassesCalls P call) {site : CallSite} {cs : List Code}
    (h : ∀ c ∈ cs, Passes P false (c.eval call fuel act).run) :
    Passes P false ((Code.dynamic site cs).eval call fuel act).run := by
  rw [Code.eval]
  refine (passes_evalArgs h).exits_bind fun vs => ?_
  have dispatched := (passes_dispatch hcall fuel act.ctx act.unit site vs).lift (ε := Jump)
  generalize site.kind = kind
  cases kind with
  | invoke | call | create =>
    exact (stays_moveTo act site.pos).passes.lift.exits_bind fun _ => dispatched
  | _ => exact dispatched

theorem passes_iterate (hcall : PassesCalls P call) (hx : Passes P p (x.eval call fuel act).run) :
    Passes P p ((Code.iterate x).eval call fuel act).run := by
  rw [Code.eval]
  exact hx.exits_bind fun _ => hcall.within _

theorem passes_filter (hcall : PassesCalls P call) (hx : Passes P p (x.eval call fuel act).run)
    (hy : Passes P p (y.eval call fuel act).run) :
    Passes P p ((Code.filter x y).eval call fuel act).run := by
  rw [Code.eval]
  exact hx.exits_bind fun v => hy.exits_bind fun _ => hcall.within _

theorem passes_list {cs : List Code} (h : ∀ c ∈ cs, Passes P p (c.eval call fuel act).run) :
    Passes P p ((Code.list cs).eval call fuel act).run := by
  rw [Code.eval]
  exact (passes_evalArgs h).exits_bind fun vs => (passes_job _).lift

theorem passes_debug {pos : Position} (hx : Passes P p (x.eval call fuel act).run) :
    Passes P p ((Code.debug pos x).eval call fuel act).run := by
  rw [Code.eval]
  exact hx.noted act pos

/-! ### States of loops -/

theorem passes_moveNextCode (hcall : PassesCalls P call) (hx : Passes P false (x.eval call fuel act).run)
    (hb : P.Lenient ∨ Yields P (x.eval call fuel act) fun v => ∃ id, v = .enumerator id) :
    Passes P false ((Code.moveNext x).eval call fuel act).run := by
  rw [Code.eval]
  refine hx.exits_bind_of (φ := fun v => P.Lenient ∨ ∃ id, v = .enumerator id)
    (fun s v t hs hm => hb.imp_right fun hy => hy s v t hs hm) fun v hv => ?_
  refine (passes_asEnumerator hv).lift.exits_bind fun id => ?_
  exact (passes_moveNext hcall fuel id).lift.exits_bind fun _ => passes_return _

theorem passes_currentCode (hx : Passes P p (x.eval call fuel act).run)
    (hb : P.Lenient ∨ Yields P (x.eval call fuel act) fun v => ∃ id, v = .enumerator id) :
    Passes P p ((Code.current x).eval call fuel act).run := by
  rw [Code.eval]
  refine hx.exits_bind_of (φ := fun v => P.Lenient ∨ ∃ id, v = .enumerator id)
    (fun s v t hs hm => hb.imp_right fun hy => hy s v t hs hm) fun v hv => ?_
  exact (passes_asEnumerator hv).lift.exits_bind fun id => passes_get_exits fun _ => passes_return _

/-! ### Operations of the context -/

theorem passes_contextCode {m : ContextMethod} {cs : List Code}
    (hr : Passes P p (act.read contextVariable))
    (hb : P.Lenient ∨ Yields P ((Code.var contextVariable).eval call fuel act) fun v =>
      ∃ ctx, v = .context ctx)
    (hcs : Passes P p (evalArgs call fuel act cs).run)
    (hm : ∀ ctx, Yields P (evalArgs call fuel act cs) fun vs => Passes P p (callContext m (.context ctx) vs)) :
    Passes P p ((contextCode m cs).eval call fuel act).run := by
  have hvar : Passes P p ((Code.var contextVariable).eval call fuel act).run := by
    rw [Code.eval]
    exact hr.lift
  rw [contextCode, Code.eval]
  refine hvar.exits_bind_of (φ := fun v => P.Lenient ∨ ∃ ctx, v = .context ctx)
    (fun s v t hs hv => hb.imp_right fun hy => hy s v t hs hv) fun target ht => ?_
  cases target with
  | context ctx => exact hcs.exits_bind_of (hm ctx) fun vs hvs => hvs.lift
  | _ =>
    have hl : P.Lenient := ht.resolve_right (by
      rintro ⟨ctx, h⟩
      cases h)
    exact Passes.lift ((hl.fault _).bind fun _ => passes_get fun _ => passes_fail _)

end

end

/-! ### Calls -/

theorem callClosure_none {link : Linkage} {call : Callback} {fuel ctx id : Nat}
    {args : List Value} {s : Store} (h : s.closures[id]? = none) :
    callClosure link call fuel ctx id args s = ((nilDereference : Job Value) : Action Value) s := by
  simp [callClosure, bind, EStateM.bind, get, getThe, MonadStateOf.get, EStateM.get, h]

theorem callClosure_some {link : Linkage} {call : Callback} {fuel ctx id : Nat}
    {args : List Value} {s : Store} {f : Closure} {r : Routine} (h : s.closures[id]? = some f)
    (hr : link s f.unit f.lambda = some r) :
    callClosure link call fuel ctx id args s = r.call f call fuel ctx args s := by
  simp [callClosure, bind, EStateM.bind, get, getThe, MonadStateOf.get, EStateM.get, h, hr]

/-- Calls make a passage if those of functions do. -/
theorem passes_callWith [Application] {link : Linkage}
    (h : ∀ fuel, PassesCalls P (callWith link fuel) → ∀ ctx id args,
      Passes P false (callClosure link (callWith link fuel) fuel ctx id args)) (fuel : Nat) :
    PassesCalls P (callWith link fuel) := by
  induction fuel with
  | zero => exact fun _ _ _ => passes_throw _
  | succ fuel ih =>
    intro ctx fn args
    cases fn with
    | function id heading => exact h fuel ih ctx id args
    | _ => exact ih.run _

end Stencil
