import Stencil.Proofs.Balance.Calls
import Stencil.Code.Lowering
import Stencil.Proofs.Typing.Judgement

/-!
# Captures are balanced

The code of a template begins a capture, runs its body, and ends the capture on every way out but
a panic. Both ends ask the same context, since the slot that holds it is not assigned to. So
afterwards that context has the captures it had before, and what was captured has reached
nothing else.

## Well-formed code is balanced

Each form of well-formed code makes a balanced passage if its parts do. Only the slots of names
and the states of loops are assigned to, none of which is the slot of the context.
-/

namespace Stencil

/-- A store after a context began to capture. -/
def Store.pushed (s : Store) (ctx : Nat) : Store :=
  { s with contexts := s.contexts.modify ctx fun c => { c with writers := [] :: c.writers } }

/-- A store after a capture has ended. -/
def Store.popped (s : Store) (ctx : Nat) (ws : List (List Bytes)) : Store :=
  { s with contexts := s.contexts.modify ctx fun c => { c with writers := ws } }

section

variable {s t : Store} {ctx : Nat} {ws : List (List Bytes)}

theorem context_pushed (s : Store) (ctx id : Nat) :
    (s.pushed ctx).context id = s.context id ∨
      id = ctx ∧ (s.pushed ctx).context id = { s.context id with writers := [] :: (s.context id).writers } :=
  context_modify s ctx id _

theorem context_popped (s : Store) (ctx : Nat) (ws : List (List Bytes)) (id : Nat) :
    (s.popped ctx ws).context id = s.context id ∨
      id = ctx ∧ (s.popped ctx ws).context id = { s.context id with writers := ws } :=
  context_modify s ctx id _

theorem sameCall_pushed (s : Store) (ctx id : Nat) :
    (s.context id).SameCall ((s.pushed ctx).context id) := by
  rcases context_pushed s ctx id with h | ⟨-, h⟩ <;> rw [h] <;> exact ⟨rfl, rfl⟩

theorem sameCall_popped (s : Store) (ctx : Nat) (ws : List (List Bytes)) (id : Nat) :
    (s.context id).SameCall ((s.popped ctx ws).context id) := by
  rcases context_popped s ctx ws id with h | ⟨-, h⟩ <;> rw [h] <;> exact ⟨rfl, rfl⟩

theorem keeps_pushed : Keeps s (s.pushed ctx) := by
  refine .of_contexts rfl le_rfl rfl (by simp [Store.pushed]) (fun id => ?_) fun _ id => ?_
  · rcases context_pushed s ctx id with h | ⟨-, h⟩ <;> rw [h] <;> exact ⟨rfl, rfl, rfl⟩
  · rcases context_pushed s ctx id with h | ⟨-, h⟩ <;> simp [h]

variable {b : Bool}

theorem chained_pushed (hs : s.Chained) : (s.pushed ctx).Chained := by
  intro id
  rcases context_pushed s ctx id with h | ⟨-, h⟩ <;> rw [h]
  · exact hs id
  · exact hs id

/-- A capture was begun and not ended. -/
theorem Balance.pushed (h : Balance b (s.pushed ctx) t) : Balance false s t where
  toKeeps := keeps_pushed.trans h.toKeeps
  frames := h.frames
  entered i g hg := by
    rcases h.entered i g hg with hi | hnone
    · exact .inl hi
    · refine .inr ?_
      rcases context_pushed s ctx g.ctx with h' | ⟨-, h'⟩ <;> rwa [h'] at hnone
  chained hq hs := h.chained hq (chained_pushed hs)
  calls h := by cases h
  writers h := by cases h

/-- The captures of a context while it is capturing. -/
theorem writers_pushed (hin : ctx < s.contexts.size) :
    ((s.pushed ctx).context ctx).writers = [] :: (s.context ctx).writers :=
  congrArg Context.writers (context_modify_self hin _)

theorem Quiet.pushed (h : Quiet s t) : Quiet (s.pushed ctx) t := ⟨h.callbacks, h.begun, h.seized⟩

/-- Under a capture that was begun there are the captures from before. -/
theorem Balance.below_capture (h : Balance true (s.pushed ctx) t) (hq : Quiet s t) {w : List Bytes}
    (hw : (t.context ctx).writers = w :: ws) :
    ctx < s.contexts.size ∧ ws = (s.context ctx).writers := by
  have hwriters := h.writers rfl hq.pushed ctx
  by_cases hin : ctx < s.contexts.size
  · have htail := hwriters.tail_eq
    rw [writers_pushed hin, hw] at htail
    exact ⟨hin, htail⟩
  · -- A context that is not there does not capture.
    have hsize : (s.pushed ctx).contexts.size ≤ ctx := by simpa [Store.pushed] using hin
    rw [context_of_size_le hsize, hw] at hwriters
    cases hwriters

/-- A capture was begun and ended. -/
theorem Balance.popped (h : Balance true (s.pushed ctx) t) {w : List Bytes}
    (hw : (t.context ctx).writers = w :: ws) : Balance true s (t.popped ctx ws) := by
  have keeps : Keeps s t := keeps_pushed.trans h.toKeeps
  have hsize : (s.pushed ctx).contexts.size = s.contexts.size := by simp [Store.pushed]
  have length (hs : t.tally.seized = s.tally.seized) : (s.context ctx).writers.length ≤ ws.length := by
    by_cases hin : ctx < s.contexts.size
    · have hle := h.depth hs ctx
      rw [writers_pushed hin, hw] at hle
      exact Nat.le_of_succ_le_succ hle
    · rw [context_of_size_le (Nat.le_of_not_lt hin)]
      exact Nat.zero_le _
  have calls (hq : t.tally.callbacks = s.tally.callbacks) (id : Nat) :
      (s.context id).SameCall ((t.popped ctx ws).context id) :=
    ((sameCall_pushed s ctx id).trans (h.calls rfl hq id)).trans (sameCall_popped t ctx ws id)
  have keeps' : Keeps s (t.popped ctx ws) :=
    { units := keeps.units, tally := keeps.tally, target := keeps.target, shut := keeps.shut
      size := by simpa [Store.popped] using keeps.size
      sink := fun id => by
        rcases context_popped t ctx ws id with h | ⟨-, h⟩ <;> rw [h] <;> exact keeps.sink id
      limit := fun id => by
        rcases context_popped t ctx ws id with h | ⟨-, h⟩ <;> rw [h] <;> exact keeps.limit id
      cancelled := fun id => by
        rcases context_popped t ctx ws id with h | ⟨-, h⟩ <;> rw [h] <;> exact keeps.cancelled id
      depth := fun hs id => by
        rcases context_popped t ctx ws id with h | ⟨rfl, h⟩ <;> rw [h]
        · exact keeps.depth hs id
        · exact length hs }
  exact
    { toKeeps := keeps'
      frames := h.frames
      entered := h.pushed.entered
      chained := fun hq hs id => chain_of_sameCall keeps' h.frames (calls hq id) hs
      calls := fun _ => calls
      writers := fun _ hq id => by
        have hwriters := h.writers rfl ⟨hq.callbacks, hq.begun, hq.seized⟩ id
        by_cases hid : id = ctx
        · subst hid
          obtain ⟨hin, hws⟩ := h.below_capture ⟨hq.callbacks, hq.begun, hq.seized⟩ hw
          have hin' : id < t.contexts.size := Nat.lt_of_lt_of_le (hsize ▸ hin) h.size
          have hpopped : (t.popped id ws).context id = _ := context_modify_self hin' _
          rw [hpopped, hws]
          exact .refl _
        · rw [(context_popped t ctx ws id).resolve_right fun h => hid h.1]
          rwa [(context_pushed s ctx id).resolve_right fun h => hid h.1] at hwriters }

/-! ### The code of a template -/

variable [Host] {units : Array (List Lambda)} {call : Callback} {fuel : Nat} {act : Activation}

/-- An operation without operands of the context that a module finds in its slot. -/
theorem eval_contextCode_nil (m : ContextMethod) :
    (contextCode m []).eval call fuel act =
      (act.read contextVariable >>= fun target => callContext m target [] : Action Value) := by
  refine eq_of_run fun s => ?_
  rw [contextCode, Code.eval, Code.eval, run_bind_apply, run_lift_apply, run_lift_apply, bind_apply]
  cases act.read contextVariable s with
  | error e s₁ => rfl
  | ok target s₁ =>
    cases target with
    | context ctx =>
      dsimp only
      rw [run_bind_apply, evalArgs, run_pure_apply]
      exact run_lift_apply _ _
    | _ => exact run_lift_apply _ _

/-- An operation without operands finds its context, or meets a fault. -/
theorem eval_contextCode_cases (m : ContextMethod) (s : Store) :
    (∃ ctx, act.read contextVariable s = .ok (.context ctx) s) ∨
      ∃ e f, ((contextCode m []).eval call fuel act).run s =
        .error e { s with faults := f :: s.faults } := by
  rw [eval_contextCode_nil, run_lift_apply, bind_apply]
  rcases home_cases act contextVariable s with ⟨id, h, -, -⟩ | ⟨msg, f, h⟩
  · rw [read_apply h]
    cases (s.frames.getD id default).vars.getD contextVariable.index .null with
    | context ctx => exact .inl ⟨ctx, rfl⟩
    | _ => exact .inr ⟨_, _, rfl⟩
  · rw [Activation.read, bind_apply, h]
    exact .inr ⟨_, f, rfl⟩

/-- The body of a template between the two ends of its capture. -/
def captured (call : Callback) (fuel : Nat) (act : Activation) (tmp : Variable) (body : Code) :
    Eval Value := do
  let _ ← (contextCode .pushWriter []).eval call fuel act
  runFinally (body.eval call fuel act)
    ((Code.assign tmp (contextCode .popWriter [])).eval call fuel act)

/-- The value of a template is what its capture leaves in its slot. -/
theorem eval_templateCode (tmp : Variable) (body : Code) :
    (templateCode tmp body).eval call fuel act = (do
      act.clear [tmp]
      let _ ← captured call fuel act tmp body
      act.read tmp) := by
  have plain : ∀ c ∈ [contextCode .pushWriter [],
      .tryFinally body (.assign tmp (contextCode .popWriter [])), .var tmp], c.Plain := by
    simp [Code.Plain, Code.unwrap, contextCode]
  rw [templateCode, Code.eval, labelIndex_eq_none plain, runBlock_unlabelled]
  have finish (c : Code) : (Code.tryFinally body c).eval call fuel act =
      runFinally (body.eval call fuel act) (c.eval call fuel act) := by rw [Code.eval]
  have value : (Code.var tmp).eval call fuel act = liftM (act.read tmp) := by rw [Code.eval]
  simp only [evalFrom_cons, evalFrom_nil, bind_pure, finish, value, captured, bind_assoc]

omit [Host] in
/-- What the slot of the context holds does not change. -/
theorem read_contextVariable (h : FramesPersist s.frames t.frames) {v : Value}
    (hr : act.read contextVariable s = .ok v s) : act.read contextVariable t = .ok v t := by
  rcases home_cases act contextVariable s with ⟨id, hhome, hfind, hi⟩ | ⟨msg, f, hhome⟩
  · rw [read_apply hhome] at hr
    have hid : id < s.frames.size := by
      by_contra hid
      simp only [Array.getD_eq_getD_getElem?, Array.getElem?_eq_none (Nat.le_of_not_lt hid),
        Option.getD_none] at hi
      exact absurd hi (Nat.not_lt_zero _)
    obtain ⟨g, hg, hfg⟩ := h id _ (Array.getElem?_eq_getElem hid)
    have hs : s.frames.getD id default = s.frames[id] := by
      simp [Array.getD_eq_getD_getElem?, hid]
    have ht : t.frames.getD id default = g := by simp [Array.getD_eq_getD_getElem?, hg]
    have hlambda := findFrame_lambda hfind
    rw [hs] at hr hi hlambda
    have hfind' := h.findFrame h.size hid hfind
    rw [read_apply (home_of_found hfind' (by rw [ht, hfg.size]; exact hi)), ht, hfg.home hlambda]
    cases hr
    rfl
  · rw [Activation.read, bind_apply, hhome] at hr
    cases hr

omit [Host] in
/-- An assignment leaves contexts, sinks and tally alone. -/
theorem lastStore_write (act : Activation) (v : Variable) (x : Value) (s : Store) :
    (lastStore (act.write v x s)).contexts = s.contexts ∧
      (lastStore (act.write v x s)).sinks = s.sinks ∧
      (lastStore (act.write v x s)).tally = s.tally := by
  rcases home_cases act v s with ⟨id, h, -, -⟩ | ⟨msg, f, h⟩ <;>
  · rw [Activation.write, bind_apply, h]
    exact ⟨rfl, rfl, rfl⟩

/-- A capture begins. -/
theorem eval_opening (hr : act.read contextVariable s = .ok (.context ctx) s) :
    ((contextCode .pushWriter []).eval call fuel act).run s = .ok (.ok .null) (s.pushed ctx) := by
  rw [eval_contextCode_nil, run_lift_apply, bind_apply, hr]
  rfl

/-- A capture ends. -/
theorem eval_closing (hr : act.read contextVariable t = .ok (.context ctx) t) :
    ((contextCode .popWriter []).eval call fuel act).run t =
      match (t.context ctx).writers with
      | [] => .error (.plain "internal error: writer stack underflow" false)
          { t with faults := .noWriter :: t.faults }
      | w :: ws => .ok (.ok (.string w.reverse.flatten)) (t.popped ctx ws) := by
  have popping : callContext .popWriter (.context ctx) [] t = match (t.context ctx).writers with
      | [] => .error (.plain "internal error: writer stack underflow" false)
          { t with faults := .noWriter :: t.faults }
      | w :: ws => .ok (.string w.reverse.flatten) (t.popped ctx ws) := by
    show (if (t.context ctx).writers.isEmpty then _ else _ : Action Value) t = _
    cases hw : (t.context ctx).writers with
    | nil => rfl
    | cons w ws =>
      show (Action.popWriter ctx >>= fun w => pure (Value.string w)) t = _
      have pop : Action.popWriter ctx t = .ok w.reverse.flatten (t.popped ctx ws) := by
        show (match (t.context ctx).writers with | [] => _ | w :: ws => _ : Action Bytes) t = _
        rw [hw]
        rfl
      rw [bind_apply, pop]
      rfl
  rw [eval_contextCode_nil, run_lift_apply, bind_apply, hr]
  dsimp only
  rw [popping]
  cases (t.context ctx).writers <;> rfl

/-- A capture ends, and its text is kept. -/
theorem eval_ending (tmp : Variable) (hr : act.read contextVariable t = .ok (.context ctx) t) :
    ((Code.assign tmp (contextCode .popWriter [])).eval call fuel act).run t =
      match (t.context ctx).writers with
      | [] => .error (.plain "internal error: writer stack underflow" false)
          { t with faults := .noWriter :: t.faults }
      | w :: ws =>
        match act.write tmp (.string w.reverse.flatten) (t.popped ctx ws) with
        | .ok _ u => .ok (.ok (.string w.reverse.flatten)) u
        | .error e u => .error e u := by
  rw [Code.eval, run_bind_apply, eval_closing hr]
  cases (t.context ctx).writers with
  | nil => rfl
  | cons w ws =>
    dsimp only
    rw [run_bind_apply, run_lift_apply]
    cases act.write tmp (.string w.reverse.flatten) (t.popped ctx ws) <;> rfl

omit [Host] in
/-- The end of a capture that was not begun. -/
theorem Balance.uncaptured (h : Balance true (s.pushed ctx) t) (hw : (t.context ctx).writers = []) :
    Balance true s t :=
  { h.pushed with
    calls := fun _ hq id => (sameCall_pushed s ctx id).trans (h.calls rfl hq id)
    writers := fun _ hq id => by
      have hwriters := h.writers rfl hq.pushed id
      rcases context_pushed s ctx id with h' | ⟨rfl, h'⟩ <;> rw [h'] at hwriters
      · exact hwriters
      · rw [hw] at hwriters
        cases hwriters }

/-- What has happened to a context that has captured, and what has not happened to others. -/
structure Captured (ctx : Nat) (s t : Store) : Prop where
  writers : (t.context ctx).writers = (s.context ctx).writers
  sinks : ∀ k, ¬ (s.pushed ctx).Reaches k → t.sink k = s.sink k

omit [Host] in
/-- The end of a capture leaves nothing of it. -/
theorem Balance.captured (h : Balance true (s.pushed ctx) t) (hq : Quiet s t) {w : List Bytes}
    (hw : (t.context ctx).writers = w :: ws) {u : Store}
    (hcontexts : u.contexts = (t.popped ctx ws).contexts) (hsinks : u.sinks = t.sinks) :
    Captured ctx s u := by
  obtain ⟨hin, hws⟩ := h.below_capture hq hw
  have hin' : ctx < t.contexts.size :=
    Nat.lt_of_lt_of_le (by simpa [Store.pushed] using hin) h.size
  have hcontext : u.context ctx = (t.popped ctx ws).context ctx := by
    simp only [Store.context, hcontexts]
  have hpopped : (t.popped ctx ws).context ctx = _ := context_modify_self hin' _
  refine ⟨?_, fun k hk => ?_⟩
  · rw [hcontext, hpopped]
    exact hws
  · have hsink : u.sink k = t.sink k := by simp only [Store.sink, hsinks]
    exact hsink.trans (h.shut hq.seized k hk)

omit [Host] in
/-- A capture that had not begun leaves nothing. -/
theorem Balance.not_captured (h : Balance true (s.pushed ctx) t) (hq : Quiet s t)
    (hw : (t.context ctx).writers = []) : Captured ctx s t := by
  refine ⟨?_, fun k hk => h.shut hq.seized k hk⟩
  have hlength := ((h.uncaptured hw).writers rfl hq ctx).length_eq
  rw [hw] at hlength ⊢
  exact (List.eq_nil_of_length_eq_zero hlength.symm).symm

/-- A capture ends balanced if what has happened in it is, and nothing of it is left. -/
theorem balance_ending (hs : s.units = units) {tmp : Variable} (hv : tmp.key ≠ contextVariable.key)
    (h : Balance true (s.pushed ctx) t) (hr : act.read contextVariable t = .ok (.context ctx) t) :
    let r := ((Code.assign tmp (contextCode .popWriter [])).eval call fuel act).run t
    Balance (comesBack r) s (lastStore r) ∧
      (comesBack r = true → Quiet s (lastStore r) → Captured ctx s (lastStore r)) := by
  rw [eval_ending tmp hr]
  cases hw : (t.context ctx).writers with
  | nil =>
    have faulted : Balance true t { t with faults := .noWriter :: t.faults } :=
      @lenient_balance units t .noWriter (h.units.trans hs)
    refine ⟨(h.uncaptured hw).trans faulted, fun _ hq => ?_⟩
    obtain ⟨hwriters, hsinks⟩ := h.not_captured ⟨hq.callbacks, hq.begun, hq.seized⟩ hw
    exact ⟨hwriters, hsinks⟩
  | cons w ws =>
    have hwrite : Balance (comesBack (act.write tmp (.string w.reverse.flatten) (t.popped ctx ws)))
        (t.popped ctx ws) (lastStore (act.write tmp (.string w.reverse.flatten) (t.popped ctx ws))) := by
      have := @passes_write units false act _ hv (.string w.reverse.flatten)
        (t.popped ctx ws) (h.units.trans hs)
      rwa [Bool.false_or] at this
    obtain ⟨hcontexts, hsinks, -⟩ :=
      lastStore_write act tmp (.string w.reverse.flatten) (t.popped ctx ws)
    dsimp only
    generalize act.write tmp (.string w.reverse.flatten) (t.popped ctx ws) = result
      at hwrite hcontexts hsinks ⊢
    have whole := (h.popped hw).trans hwrite
    have nothing (hq : Quiet s (lastStore result)) : Captured ctx s (lastStore result) :=
      h.captured (hq.split h.pushed.tally hwrite.tally).1 hw hcontexts hsinks
    cases result with
    | error e u => exact ⟨whole, fun _ => nothing⟩
    | ok a u => exact ⟨whole, fun _ => nothing⟩

/-- A capture is balanced if what happens in it is. If it comes back, nothing of what was captured
is left. -/
theorem balance_captured (hs : s.units = units) {tmp : Variable} (hv : tmp.key ≠ contextVariable.key)
    {body : Code} (hb : Passes (balance units) false (body.eval call fuel act).run)
    (hr : act.read contextVariable s = .ok (.context ctx) s) :
    let r := (captured call fuel act tmp body).run s
    Balance (comesBack r) s (lastStore r) ∧
      (comesBack r = true → Quiet s (lastStore r) → Captured ctx s (lastStore r)) := by
  have hbody : Balance (comesBack ((body.eval call fuel act).run (s.pushed ctx))) (s.pushed ctx)
      (lastStore ((body.eval call fuel act).run (s.pushed ctx))) := by
    have := hb (s.pushed ctx) hs
    rwa [Bool.false_or] at this
  have finish (t : Store) (h : Balance true (s.pushed ctx) t) :=
    @balance_ending s t ctx _ units call fuel act hs tmp hv h
      (read_contextVariable (s := s) h.frames hr)
  rw [captured, run_bind_apply, eval_opening hr]
  dsimp only
  rw [comesBack_runFinally, lastStore_runFinally]
  cases hback : comesBack ((body.eval call fuel act).run (s.pushed ctx)) with
  | false => exact ⟨(hback ▸ hbody).pushed, fun h => by cases h⟩
  | true => exact finish _ (hback ▸ hbody)

/-- A capture makes a balanced passage if what happens in it does. -/
theorem passes_captured {tmp : Variable} (hv : tmp.key ≠ contextVariable.key) {body : Code}
    (hb : Passes (balance units) false (body.eval call fuel act).run) :
    Passes (balance units) false (captured call fuel act tmp body).run := by
  intro s hs
  rw [Bool.false_or]
  rcases eval_contextCode_cases .pushWriter s with ⟨ctx, hr⟩ | ⟨e, f, h⟩
  · exact (balance_captured hs hv hb hr).1
  · rw [captured, run_bind_apply, h]
    exact (balance units).weaken' (lenient_balance s f hs)

theorem passes_templateCode {tmp : Variable} (hv : tmp.key ≠ contextVariable.key) {body : Code}
    (hb : Passes (balance units) false (body.eval call fuel act).run) :
    Passes (balance units) false ((templateCode tmp body).eval call fuel act).run := by
  rw [eval_templateCode]
  refine (passes_clear (by simpa using hv)).lift.exits_bind fun _ => ?_
  exact (passes_captured hv hb).exits_bind fun _ => (passes_read tmp).lift

omit [Host] in
theorem Captured.of_eq {s' : Store} (h : Captured ctx s' t) (hc : s'.contexts = s.contexts)
    (hs : s'.sinks = s.sinks) : Captured ctx s t where
  writers := by
    rw [h.writers]
    simp only [Store.context, hc]
  sinks k hk := by
    have hreach : (s'.pushed ctx).Reaches k → (s.pushed ctx).Reaches k := by
      simp only [Store.Reaches, Store.pushed, Store.context, Store.sink, hc, hs, imp_self]
    rw [h.sinks k (mt hreach hk), Store.sink, hs, Store.sink]

omit [Host] in
theorem Captured.trans_eq {u : Store} (h : Captured ctx s t) (hc : u.contexts = t.contexts)
    (hs : u.sinks = t.sinks) : Captured ctx s u where
  writers := by
    rw [← h.writers]
    simp only [Store.context, hc]
  sinks k hk := by rw [← h.sinks k hk, Store.sink, hs, Store.sink]

/-- A context has ended its innermost capture, and nothing else has happened to the contexts. -/
structure Ended (ctx : Nat) (s t : Store) : Prop where
  calls : ∀ id, (t.context id).frame = (s.context id).frame ∧
    (t.context id).depth = (s.context id).depth
  writers : (t.context ctx).writers = (s.context ctx).writers.tail
  others : ∀ id, id ≠ ctx → (s.context id).Level (t.context id)

end

/-! ## Well-formed code is balanced -/

section

variable [Host] {units : Array (List Lambda)} {call : Callback} {fuel : Nat} {act : Activation}
  {p : Bool} {P : Passage}

/-- What a context does but to begin and to end a capture. Where faults matter, what it writes as
a text must be one. -/
theorem passes_callContext {m : ContextMethod} (hpush : m ≠ .pushWriter) (hpop : m ≠ .popWriter)
    (ctx : Nat) {args : List Value}
    (ht : P.Lenient ∨ (m = .write → ∃ text, args = [.string text])) :
    Passes P p (callContext m (.context ctx) args) := by
  have operand : Passes P p (liftM (operand args 0) : Action Value) := passes_job _
  have written (text : Bytes) : Passes P p (do
      Action.write ctx text
      return Value.null) := (stays_write ctx text).passes.bind fun _ => passes_pure _
  cases m with
  | pushWriter => exact absurd rfl hpush
  | popWriter => exact absurd rfl hpop
  | write =>
    rcases ht with hl | ht
    · refine operand.bind fun v => ?_
      cases v with
      | string text => exact written text
      | _ => exact (hl.fault _).bind fun _ => passes_get fun _ => passes_fail _
    · obtain ⟨text, rfl⟩ := ht rfl
      exact written text
  | safeWrite => exact operand.bind fun v => passes_get fun s => written (v.text s.toHeap)
  | getGlobals =>
    refine (stays_context ctx).passes.bind fun c => ?_
    cases c.globals with
    | some id => exact passes_pure _
    | none =>
      refine (passes_job _).bind fun id => ?_
      refine (stays_modifyContext fun c => ?_).passes.bind fun _ => passes_pure _
      exact ⟨rfl, rfl, rfl, rfl, fun _ h => h, .refl _⟩

theorem passes_var (v : Variable) :
    Passes (balance units) p ((Code.var v).eval call fuel act).run := by
  rw [Code.eval]
  exact (passes_read v).lift

theorem passes_lambda (id : Nat) (name : Bytes) (params : List Variable) (size : Nat) (body : Code) :
    Passes (balance units) p ((Code.lambda id name params size body).eval call fuel act).run := by
  rw [Code.eval]
  exact Passes.lift (passes_newClosure id ⟨name, params.map (·.name)⟩)

/-- Code makes a balanced passage, in the way that it is used. -/
def Role.Passes (P : Passage) (call : Callback) (fuel : Nat) (act : Activation) (r : Role)
    (c : Code) : Prop :=
  match r with
  | .arm => ∀ equal v, Stencil.Passes P false (c.evalCase call fuel act equal v).run
  | .part => c.isAbsent = true ∨ Stencil.Passes P false (c.eval call fuel act).run
  | _ => Stencil.Passes P false (c.eval call fuel act).run

variable {user : Nat × Nat → Prop} {Γ : Setting} {r : Role} {c : Code}

theorem Code.Typed.passes (h : c.Typed user Γ r)
    (huser : ∀ k, user k → k ≠ contextVariable.key) (hcall : PassesCalls (balance units) call) :
    r.Passes (balance units) call fuel act c := by
  have lenient : (balance units).Lenient := lenient_balance
  have test {x : Code} (hx : Stencil.Passes (balance units) false (x.eval call fuel act).run) :
      Stencil.Passes (balance units) false (evalTest (x.eval call fuel act)).run :=
    hx.test (.inl lenient)
  have context {m : ContextMethod} {cs : List Code} (hpush : m ≠ .pushWriter) (hpop : m ≠ .popWriter)
      (hcs : ∀ c ∈ cs, Stencil.Passes (balance units) false (c.eval call fuel act).run) :
      Stencil.Passes (balance units) false ((contextCode m cs).eval call fuel act).run :=
    passes_contextCode (passes_read _) (.inl lenient) (passes_evalArgs hcs) fun ctx _ _ _ _ _ =>
      passes_callContext hpush hpop ctx (.inl lenient)
  induction h with
  | constant v => exact passes_return v
  | empty => exact passes_return _
  | var hv => exact passes_var _
  | assign hv hu hx ih => exact passes_assign ih fun a => passes_write (huser _ hu) a
  | block hv hi ih => exact passes_block (passes_clear fun v hm => huser _ (hv v hm).2) ih
  | lambda hp hb ih => exact passes_lambda _ _ _ _ _
  | cond ht hy hn iht ihy ihn => exact passes_cond (test iht) ihy ihn
  | loop hb ih => exact passes_loop ih
  | label hd ih => exact passes_label ih
  | goto ht hx ih => exact passes_goto ih
  | switch hx hc hd ihx ihc ihd => exact passes_switch ihx (fun v c hm => ihc c hm _ v) ihd
  | arm hv hb ihv ihb => exact fun equal v => passes_case hcall v ihv ihb
  | write hc text => exact context (by decide) (by decide) (List.forall_mem_singleton.2 (passes_return _))
  | safeWrite hc hx ih => exact context (by decide) (by decide) (List.forall_mem_singleton.2 ih)
  | globals hc => exact context (by decide) (by decide) (fun _ h => absurd h List.not_mem_nil)
  | template hc hv hu hb ih => exact passes_templateCode (huser _ hu) ih
  | dynamic ha ih => exact passes_dynamic hcall ih
  | filter hx hp ihx ihp => exact passes_filter hcall ihx ihp
  | list hi ih => exact passes_list ih
  | current hv hh => exact passes_currentCode (passes_var _) (.inl lenient)
  | not hx ih => exact passes_not (test ih)
  | toBool hx ih => exact passes_toBool ih
  | andAlso hx hy ihx ihy => exact passes_andAlso (test ihx) (test ihy)
  | orElse hx hy ihx ihy => exact passes_orElse (test ihx) (test ihy)
  | moveNext hv hh => exact passes_moveNextCode hcall (passes_var _) (.inl lenient)
  | iterate hx ih => exact passes_iterate hcall ih
  | start hs hx ih =>
    exact passes_assign (passes_iterate hcall ih) fun a => passes_write hs.ne_context a
  | @each _ _ state _ _ hv hs hf hx hb ihx ihb =>
    refine passes_block (passes_clear (List.forall_mem_append.2 ⟨fun v hm => huser _ (hv v hm).2,
      List.forall_mem_singleton.2 hs.ne_context⟩)) ?_
    refine List.forall_mem_cons.2 ⟨?_, List.forall_mem_singleton.2 ihb⟩
    exact passes_assign (passes_iterate hcall ihx) fun a => passes_write hs.ne_context a
  | noted hx ih => exact passes_debug ih
  | missing => exact .inl rfl
  | present hx ih => exact .inr ih
  | asValue hx ih => exact ih

/-- However code is used, it makes a balanced passage where it is evaluated on its own. -/
theorem Code.Typed.passes_eval (h : c.Typed user Γ r)
    (huser : ∀ k, user k → k ≠ contextVariable.key) (hcall : PassesCalls (balance units) call) :
    Stencil.Passes (balance units) false (c.eval call fuel act).run := by
  have hp : r.Passes (balance units) call fuel act c := h.passes huser hcall
  have unexpected (kind : String) : Stencil.Passes (balance units) false
      (liftM (unexpectedNode kind) : Eval Value).run := (lenient_balance.unexpectedNode kind).lift
  cases r with
  | value | test | state => exact hp
  | part =>
    rcases hp with hc | hp
    · cases c with
      | absent =>
        rw [Code.eval]
        exact unexpected _
      | _ => cases hc
    · exact hp
  | arm =>
    cases h with
    | arm =>
      rw [Code.eval]
      exact unexpected _

end

end Stencil
