import Stencil.Code.Generator
import Stencil.Proofs.Nodes

/-!
# The assembly stack

What a step of generation does to the stack, whatever else the state holds. A step takes a
number of items, and what it puts there instead is saturated: every operation in it that is
resolved at run time has as many operands as its call site asks for. From the steps follows
the effect of the visit of every node.
-/

namespace Stencil

/-! ### Saturated code -/

/-- The operands of a node are as many as its call site asks for. -/
def Code.Fits : Code → Prop
  | .dynamic site args => args.length = site.kind.operands site.arity
  | _ => True

/-- Every node of the code fits. -/
def Code.Saturated (c : Code) : Prop := ∀ x ∈ c.nodes, x.Fits

theorem Saturated.noteAt {c : Code} (h : c.Saturated) (debug : Bool) (pos : Position) :
    (noteAt debug pos c).Saturated := by
  unfold Stencil.noteAt
  split
  · exact h
  · split
    · exact h
    · simpa [Code.Saturated, Code.nodes, Code.Fits] using h

theorem Saturated.unwrap {c : Code} (h : c.Saturated) : c.unwrap.Saturated := by
  induction c using Code.unwrap.induct with
  | case1 pos x ih =>
    apply ih
    intro y hy
    exact h y (by simp [Code.nodes, hy])
  | case2 c hc => simpa [Code.unwrap] using h
theorem saturated_dynamic {site : CallSite} {args : List Code}
    (h : args.length = site.kind.operands site.arity) (ha : ∀ c ∈ args, c.Saturated) :
    (Code.dynamic site args).Saturated := by
  intro x hx
  rcases List.mem_cons.1 (by simpa [Code.nodes] using hx) with rfl | hx
  · exact h
  · exact forall_nodesOf.2 ha x hx

theorem saturated_block {vars : List Variable} {items : List Code} (h : ∀ c ∈ items, c.Saturated) :
    (Code.block vars items).Saturated := by
  intro x hx
  rcases List.mem_cons.1 (by simpa [Code.nodes] using hx) with rfl | hx
  · trivial
  · exact forall_nodesOf.2 h x hx

theorem saturated_contextCode {m : ContextMethod} {args : List Code} (h : ∀ c ∈ args, c.Saturated) :
    (contextCode m args).Saturated := by
  intro x hx
  simp only [contextCode, Code.nodes, List.mem_cons, List.mem_append, List.not_mem_nil,
    or_false] at hx
  rcases hx with rfl | rfl | hx
  · trivial
  · trivial
  · exact forall_nodesOf.2 h x hx

theorem saturated_globalsCode : globalsCode.Saturated := saturated_contextCode (by simp)

theorem saturated_constant (v : Value) : (Code.constant v).Saturated := by
  simp [Code.Saturated, Code.nodes, Code.Fits]

theorem saturated_unaryCode {p : Position} {op : UnaryOp} {x : Code} {site : Nat}
    (hx : x.Saturated) (h : (unaryCode p op x site).Fits) : (unaryCode p op x site).Saturated := by
  cases op with
  | not => simpa [unaryCode, Code.Saturated, Code.nodes, Code.Fits] using hx
  | negate => exact saturated_dynamic h (by simpa using hx)

theorem saturated_binaryCode {p : Position} {op : BinaryOp} {x y : Code} {site : Nat}
    (hx : x.Saturated) (hy : y.Saturated) (h : (binaryCode p op x y site).Fits) :
    (binaryCode p op x y site).Saturated := by
  have both : ∀ c ∈ [x, y], c.Saturated := by simp [hx, hy]
  unfold binaryCode at h ⊢
  split at h
  · simpa [Code.Saturated, Code.nodes, Code.Fits, or_imp, forall_and] using ⟨hx, hy⟩
  · simpa [Code.Saturated, Code.nodes, Code.Fits, or_imp, forall_and] using ⟨hx, hy⟩
  · exact saturated_dynamic h both

theorem saturated_assignCode {p : Position} {target value : Code} {site : Nat}
    (ht : target.Saturated) (hv : value.Saturated) (h : (assignCode p target value site).Fits) :
    (assignCode p target value site).Saturated := by
  have args {read : CallSite} {args : List Code} (hu : target.unwrap = .dynamic read args) :
      ∀ c ∈ args ++ [value], c.Saturated := by
    have hs := Saturated.unwrap ht
    rw [hu] at hs
    intro c hc
    rcases List.mem_append.1 hc with hc | hc
    · intro x hx
      exact hs x (by simp only [Code.nodes, List.mem_cons]; exact .inr (mem_nodesOf.2 ⟨c, hc, hx⟩))
    · simpa [List.mem_singleton.1 hc] using hv
  unfold assignCode at h ⊢
  split at h
  · rename_i read cs hu
    split at h
    · exact saturated_dynamic h (args hu)
    · exact saturated_dynamic h (args hu)
    · simp [Code.Saturated, Code.nodes]
  · simp [Code.Saturated, Code.nodes]

theorem saturated_sequenceCode {cs : List Code} (h : ∀ c ∈ cs, c.Saturated) :
    (sequenceCode cs).Saturated := by
  unfold sequenceCode
  split
  · simp [Code.Saturated, Code.nodes, Code.Fits]
  · exact h _ (by simp)
  · exact saturated_block h

theorem saturated_outputCode {c : Code} (h : c.Saturated) : (outputCode c).Saturated := by
  have hc : (contextCode .safeWrite [c]).Saturated := saturated_contextCode (by simpa using h)
  unfold outputCode
  split
  · split
    · exact saturated_contextCode (by simp [saturated_constant])
    · exact hc
  · exact hc

theorem saturated_filterCode {source : Code} {pred : Option Code} (hs : source.Saturated)
    (hp : ∀ c ∈ pred, c.Saturated) : (filterCode source pred).Saturated := by
  cases pred with
  | none => exact hs
  | some p =>
    have hp := hp p rfl
    simpa [filterCode, Code.Saturated, Code.nodes, Code.Fits, or_imp, forall_and] using ⟨hs, hp⟩

theorem saturated_forCode {t : LoopTargets} {vars : List Variable} {enum : Variable}
    {source body between : Code} (hs : source.Saturated) (hb : body.Saturated)
    (hw : between.Saturated) : (forCode t vars enum source body between).Saturated := by
  simp only [Code.Saturated] at hs hb hw
  simp only [forCode, Code.Saturated, Code.nodes, Code.Fits, nodesOf, forall_nodesOf, List.mem_cons,
    List.mem_append, List.mem_map, List.not_mem_nil, or_imp, forall_and, forall_eq, or_false,
    List.append_nil, and_true, true_and]
  refine ⟨hs, ⟨?_, ?_⟩, hb, hw⟩
  · rintro c ⟨v, _, rfl⟩ x hx
    rcases (by simpa [Code.nodes] using hx : _ ∨ _) with rfl | rfl <;> trivial
  · rintro c ⟨v, _, rfl⟩ x hx
    rcases (by simpa [Code.nodes] using hx : _ ∨ _ ∨ _) with rfl | rfl | rfl <;> trivial

theorem saturated_whileCode {t : LoopTargets} {test body : Code} (ht : test.Saturated)
    (hb : body.Saturated) : (whileCode t test body).Saturated := by
  simpa [whileCode, Code.Saturated, Code.nodes, nodesOf, Code.Fits, or_imp, forall_and]
    using ⟨ht, hb⟩

theorem saturated_templateCode {tmp : Variable} {body : Code} (hb : body.Saturated) :
    (templateCode tmp body).Saturated := by
  simpa [templateCode, contextCode, Code.Saturated, Code.nodes, nodesOf, Code.Fits, or_imp,
    forall_and] using hb

theorem saturated_getD {o : Option Code} {c : Code} (ho : ∀ x ∈ o, x.Saturated)
    (hc : c.Saturated) : (o.getD c).Saturated := by
  cases o with
  | none => exact hc
  | some x => exact ho x rfl

theorem saturated_switchCode {p : Position} {x : Code} {arms : List Code} {dflt : Option Code}
    {site : Nat} (hx : x.Saturated) (ha : ∀ c ∈ arms, c.Saturated) (hd : ∀ c ∈ dflt, c.Saturated) :
    (switchCode p x arms dflt site).Saturated := by
  unfold switchCode
  split
  · apply saturated_block
    intro c hc
    rcases List.mem_cons.1 hc with rfl | hc
    · exact hx
    · exact hd c (by simpa using hc)
  · have hd : (dflt.getD .absent).Saturated := saturated_getD hd (by simp [Code.Saturated, Code.nodes])
    intro y hy
    simp only [Code.nodes, List.mem_cons, List.mem_append] at hy
    rcases hy with rfl | (hy | hy) | hy
    · trivial
    · exact hx y hy
    · exact forall_nodesOf.2 ha y hy
    · exact hd y hy

/-! ### What a computation takes from the stack -/

/-- Every item of the stack is saturated. -/
def Generator.Sound (g : Generator) : Prop := ∀ i ∈ g.stack, i.code.Saturated

/-- Code whose nodes all fit together has them in every part. -/
theorem Item.saturated_noted {i : Item} (h : i.code.Saturated) (debug : Bool) :
    (i.noted debug).Saturated :=
  Saturated.noteAt h debug i.pos

namespace Gen

variable {α β : Type}

/-- From a sound stack the computation takes the `k` topmost items, and its answer
satisfies `Q`. -/
def Takes (m : Gen α) (k : Nat) (Q : α → Prop) : Prop :=
  ∀ g a g', g.Sound → m.run g = .ok (a, g') →
    k ≤ g.stack.length ∧ g'.stack = g.stack.drop k ∧ Q a

/-- From a sound stack the computation takes the `k` topmost items and puts `j` saturated
ones there. -/
def Leaves (m : Gen Unit) (k j : Nat) : Prop :=
  ∀ g g', g.Sound → m.run g = .ok ((), g') →
    k ≤ g.stack.length ∧ ∃ items : List Item, items.length = j ∧
      g'.stack = items ++ g.stack.drop k ∧ ∀ i ∈ items, i.code.Saturated

theorem sound_of_drop {g g' : Generator} {k : Nat} (hg : g.Sound)
    (h : g'.stack = g.stack.drop k) : g'.Sound := by
  intro i hi
  rw [h] at hi
  exact hg i (List.mem_of_mem_drop hi)

/-- The outcome of a computation that goes on with another. -/
theorem run_bind_ok {m : Gen α} {f : α → Gen β} {g g' : Generator} {b : β}
    (h : (m >>= f).run g = .ok (b, g')) :
    ∃ a g₁, m.run g = .ok (a, g₁) ∧ (f a).run g₁ = .ok (b, g') := by
  rw [StateT.run_bind] at h
  cases hm : m.run g with
  | error e => simp [hm, bind, Except.bind] at h
  | ok p =>
    obtain ⟨a, g₁⟩ := p
    exact ⟨a, g₁, rfl, by simpa [hm, bind, Except.bind] using h⟩

theorem Takes.bind {m : Gen α} {f : α → Gen β} {k l : Nat} {Q : α → Prop} {R : β → Prop}
    (hm : m.Takes k Q) (hf : ∀ a, Q a → (f a).Takes l R) : Takes (m >>= f) (k + l) R := by
  intro g b g' hg h
  obtain ⟨a, g₁, h₁, h₂⟩ := run_bind_ok h
  obtain ⟨hk, hs, ha⟩ := hm g a g₁ hg h₁
  obtain ⟨hl, hs', hb⟩ := hf a ha g₁ b g' (sound_of_drop hg hs) h₂
  rw [hs, List.length_drop] at hl
  exact ⟨by omega, by rw [hs', hs, List.drop_drop], hb⟩

theorem Takes.then_leaves {m : Gen α} {f : α → Gen Unit} {k l j : Nat} {Q : α → Prop}
    (hm : m.Takes k Q) (hf : ∀ a, Q a → (f a).Leaves l j) : Leaves (m >>= f) (k + l) j := by
  intro g g' hg h
  obtain ⟨a, g₁, h₁, h₂⟩ := run_bind_ok h
  obtain ⟨hk, hs, ha⟩ := hm g a g₁ hg h₁
  obtain ⟨hl, items, hj, hs', hi⟩ := hf a ha g₁ g' (sound_of_drop hg hs) h₂
  rw [hs, List.length_drop] at hl
  exact ⟨by omega, items, hj, by rw [hs', hs, List.drop_drop], hi⟩

theorem Takes.mono {m : Gen α} {k : Nat} {Q R : α → Prop} (hm : m.Takes k Q)
    (h : ∀ a, Q a → R a) : m.Takes k R := by
  intro g a g' hg hr
  obtain ⟨hk, hs, ha⟩ := hm g a g' hg hr
  exact ⟨hk, hs, h a ha⟩

theorem takes_pure {Q : α → Prop} {a : α} (h : Q a) : (pure a : Gen α).Takes 0 Q := by
  intro g b g' _ hr
  cases hr
  exact ⟨Nat.zero_le _, rfl, h⟩

theorem takes_throw {k : Nat} {Q : α → Prop} (e : GenerateError) : (throw e : Gen α).Takes k Q := by
  intro g a g' _ hr
  simp [throw, throwThe, MonadExceptOf.throw, StateT.run, StateT.lift, bind, Except.bind] at hr

/-- A computation that keeps the stack takes nothing from it. -/
theorem takes_of_stack_eq {m : Gen α} {Q : α → Prop}
    (h : ∀ g a g', m.run g = .ok (a, g') → g'.stack = g.stack ∧ Q a) : m.Takes 0 Q := by
  intro g a g' _ hr
  obtain ⟨hs, ha⟩ := h g a g' hr
  exact ⟨Nat.zero_le _, by simpa using hs, ha⟩

/-! ### The primitive steps -/

theorem run_push (pos : Position) (c : Code) (g : Generator) :
    (push pos c).run g = .ok ((), { g with stack := ⟨pos, c⟩ :: g.stack }) := rfl

theorem run_popRaw {g : Generator} {i : Item} {is : List Item} (hs : g.stack = i :: is) :
    popRaw.run g = .ok (i, { g with stack := is }) := by
  simp [popRaw, hs]
  rfl

theorem run_popRaw_nil {g : Generator} (hs : g.stack = []) :
    popRaw.run g = .error (.underflow 1 0) := by
  simp [popRaw, hs]
  rfl

theorem run_popN {g : Generator} {debug : Bool} {k : Nat} (hk : k ≤ g.stack.length) :
    (popN debug k).run g =
      .ok ((g.stack.take k).reverse.map (·.noted debug), { g with stack := g.stack.drop k }) := by
  simp [popN, Nat.not_lt.2 hk]
  rfl

theorem run_popN_short {g : Generator} {debug : Bool} {k : Nat} (hk : g.stack.length < k) :
    (popN debug k).run g = .error (.underflow k g.stack.length) := by
  simp [popN, hk]
  rfl

theorem run_declare (names : List Bytes) (g : Generator) :
    (declare names).run g = .ok (slotsFrom g.fn.owner g.fn.ownerName g.next.slots names,
      { g with next := g.next.declare names.length }) := rfl

theorem run_leaveRegion {g : Generator} {vars : List Variable} {rs : List (List Variable)}
    (h : g.regions = vars :: rs) : leaveRegion.run g = .ok (vars, { g with regions := rs }) := by
  simp [leaveRegion, h]
  rfl

theorem run_topLoop {g : Generator} {t : LoopTargets} {ts : List LoopTargets}
    (h : g.fn.loops = t :: ts) : topLoop.run g = .ok (t, g) := by
  simp [topLoop, h]
  rfl

theorem run_leaveLoop {g : Generator} {t : LoopTargets} {ts : List LoopTargets}
    (h : g.fn.loops = t :: ts) :
    leaveLoop.run g = .ok (t, { g with fn := { g.fn with loops := ts } }) := by
  obtain rfl : ts = g.fn.loops.tail := by rw [h]; rfl
  simp only [leaveLoop, StateT.run_bind, run_topLoop h]
  rfl

theorem run_leaveState {g : Generator} {st : LoopState} {sts : List LoopState}
    (h : g.states = st :: sts) : leaveState.run g = .ok (st, { g with states := sts }) := by
  simp [leaveState, h]
  rfl

theorem run_leaveLambda {g : Generator} {body : Code} {vars : List Variable}
    {rs : List (List Variable)} {fn : LambdaState} {slots : Nat} {outer : List (LambdaState × Nat)}
    (hr : g.regions = vars :: rs) (ho : g.outer = (fn, slots) :: outer) :
    (leaveLambda body).run g =
      .ok (.lambda g.fn.owner g.fn.ownerName g.fn.params g.next.slots body,
        { g with regions := rs, fn, outer, next := g.next.leave slots }) := by
  simp only [leaveLambda, StateT.run_bind]
  simp only [StateT.run_get, pure_bind, ho, run_leaveRegion hr]
  exact rfl

theorem takes_popRaw : popRaw.Takes 1 (·.code.Saturated) := by
  intro g i g' hg hr
  cases hs : g.stack with
  | nil => simp [run_popRaw_nil hs] at hr
  | cons j js =>
    rw [run_popRaw hs] at hr
    cases hr
    exact ⟨by simp, by simp, hg _ (by simp [hs])⟩

theorem takes_pop (debug : Bool) : (pop debug).Takes 1 Code.Saturated :=
  takes_popRaw.bind fun _ h => takes_pure (Item.saturated_noted h debug)

theorem takes_popN (debug : Bool) (k : Nat) :
    (popN debug k).Takes k fun cs => cs.length = k ∧ ∀ c ∈ cs, c.Saturated := by
  intro g cs g' hg hr
  by_cases hk : g.stack.length < k
  · simp [run_popN_short hk] at hr
  · rw [run_popN (Nat.not_lt.1 hk)] at hr
    cases hr
    refine ⟨by omega, rfl, by simp; omega, ?_⟩
    intro c hc
    obtain ⟨i, hi, rfl⟩ := List.mem_map.1 hc
    exact Item.saturated_noted (hg i (List.mem_of_mem_take (List.mem_reverse.1 hi))) debug

theorem takes_popIf (debug present : Bool) :
    (popIf debug present).Takes (if present then 1 else 0) fun o => ∀ c ∈ o, c.Saturated := by
  cases present with
  | false => exact takes_pure (by simp)
  | true => exact (takes_pop debug).bind fun c h => takes_pure (by simpa using h)

theorem takes_popArms (pos : Position) (k : Nat) :
    (popArms pos k).Takes k fun cs => ∀ c ∈ cs, c.Saturated := by
  refine (takes_popN false k).bind (l := 0) fun cs h => ?_
  split
  · exact takes_pure h.2
  · exact takes_throw _

theorem takes_checked (c : Code) : (checked c).Takes 0 fun d => d = c ∧ c.Fits := by
  unfold checked
  split
  · split
    · exact takes_pure ⟨rfl, by assumption⟩
    · exact takes_throw _
  · exact takes_pure ⟨rfl, by simp [Code.Fits]⟩

theorem takes_get : (get : Gen Generator).Takes 0 fun _ => True :=
  takes_of_stack_eq fun g a g' hr => by
    cases hr
    exact ⟨rfl, trivial⟩

theorem takes_modify {f : Generator → Generator} (h : ∀ g, (f g).stack = g.stack) :
    (modify f : Gen PUnit).Takes 0 fun _ => True :=
  takes_of_stack_eq fun g a g' hr => by
    cases hr
    exact ⟨h g, trivial⟩

theorem takes_newSite : newSite.Takes 0 fun _ => True :=
  takes_of_stack_eq fun g a g' hr => by
    cases hr
    exact ⟨rfl, trivial⟩

theorem takes_declare (names : List Bytes) : (declare names).Takes 0 fun _ => True :=
  takes_of_stack_eq fun g a g' hr => by
    cases hr
    exact ⟨rfl, trivial⟩

theorem takes_leaveRegion : leaveRegion.Takes 0 fun _ => True := by
  refine takes_get.bind (l := 0) fun g _ => ?_
  split
  · exact takes_throw _
  · exact Takes.bind (l := 0) (takes_modify fun _ => rfl) fun _ _ => takes_pure trivial

theorem takes_variableOf (sym : Symbol) : (variableOf sym).Takes 0 fun _ => True := by
  refine takes_get.bind (l := 0) fun g _ => ?_
  split
  · exact takes_pure trivial
  · exact takes_throw _

theorem takes_topLoop : topLoop.Takes 0 fun _ => True := by
  refine takes_get.bind (l := 0) fun g _ => ?_
  split
  · exact takes_pure trivial
  · exact takes_throw _

theorem takes_leaveLoop : leaveLoop.Takes 0 fun _ => True :=
  takes_topLoop.bind (l := 0) fun _ _ =>
    Takes.bind (l := 0) (takes_modify fun _ => rfl) fun _ _ => takes_pure trivial

theorem takes_leaveState : leaveState.Takes 0 fun _ => True := by
  refine takes_get.bind (l := 0) fun g _ => ?_
  split
  · exact takes_throw _
  · exact Takes.bind (l := 0) (takes_modify fun _ => rfl) fun _ _ => takes_pure trivial

end Gen

end Stencil
