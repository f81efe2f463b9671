import Stencil.Proofs.Direct.Evaluation

/-!
# Control

The code of templates, loops and functions follows the direct computation. A loop over a
sequence is the one construct whose code jumps to a label in the middle of a block: a
`continue` in the body goes forward to the label in front of the advance, one in what stands
between two rounds goes back to it.
-/

namespace Stencil

section

variable [Host] {call : Callback} {fuel : Nat} {act : Activation} {aim inner : Exit → Option Jump}

/-! ### Templates -/

theorem Follows.capture {c : Code} {d : Exec Unit}
    (h : Follows aim Anything (c.eval call fuel act) d) (tmp : Variable) :
    Follows aim Eq ((templateCode tmp c).eval call fuel act) (act.capture tmp d) := by
  have plain : ∀ c' ∈ [contextCode .pushWriter [],
      .tryFinally c (.assign tmp (contextCode .popWriter [])), .var tmp], c'.Plain := by
    simp [Code.Plain, Code.unwrap, contextCode]
  rw [templateCode, Code.eval, labelIndex_eq_none plain, runBlock_unlabelled]
  simp only [evalFrom_cons, evalFrom_nil, bind_pure]
  have finish : Follows aim Anything
      ((Code.assign tmp (contextCode .popWriter [])).eval call fuel act)
      (do act.write tmp (← act.onContext .popWriter (return []))) := by
    rw [Code.eval]
    refine (follows_args_nil.onContext .popWriter).bind ?_
    rintro v _ rfl
    exact (follows_lift _).returning _ fun _ _ _ => trivial
  refine (follows_lift _).bind fun _ _ _ => ?_
  refine (follows_args_nil.onContext .pushWriter).bind fun _ _ _ => ?_
  refine Follows.bind (R := Anything) ?_ fun _ _ _ => ?_
  · rw [Code.eval]
    exact h.runFinally finish
  · exact follows_var tmp

/-! ### Rounds -/

omit [Host] in
/-- Rounds of a loop: a `break` ends it, a `continue` starts the next round where the loop
has a target for it, and a `return` goes further. -/
theorem follows_rounds {ctx : Nat} {brk : Target} {cont : Option Target} {c : Eval Value}
    {d : Exec Unit} (h : Follows inner Anything c d)
    (hleave : ∀ j, inner .leave = some j → j.target.id = brk.id)
    (hagain : ∀ j, inner .again = some j →
      j.target.id ≠ brk.id ∧ cont.map (·.id) = some j.target.id)
    (hret : ∀ v j, inner (.ret v) = some j →
      j.target.id ≠ brk.id ∧ cont.map (·.id) ≠ some j.target.id ∧ aim (.ret v) = some j) :
    Follows aim Anything (runLoop ctx brk cont c fuel) (rounds ctx d fuel) := by
  induction fuel with
  | zero => exact fun _ => .error
  | succ fuel ih =>
    rw [runLoop, rounds]
    refine (follows_lift _).bind fun _ _ _ => h.outcome.bind ?_
    rintro _ _ (_ | @⟨e, j, he⟩)
    · exact ih
    · cases e with
      | leave =>
        simp only [hleave j he, if_true]
        exact follows_pure trivial
      | again =>
        obtain ⟨hb, hc⟩ := hagain j he
        simp only [hb, hc, if_true, if_false]
        exact ih
      | ret v =>
        obtain ⟨hb, hc, ha⟩ := hret v j he
        simp only [hb, hc, if_false]
        exact follows_throw ha

omit [Host] in
/-- A block with one label: an `again` goes on after it. -/
theorem follows_runBlock {labels : Target → Option Nat} {run : Nat → Value → Eval Value}
    {next d : Exec Unit} {k skip : Nat} {last : Value} (h : Follows inner Anything (run skip last) d)
    (hnext : ∀ v, Follows inner Anything (run (k + 1) v) next)
    (hagain : ∀ j, inner .again = some j → labels j.target = some k)
    (hleave : ∀ j, inner .leave = some j → labels j.target = none ∧ aim .leave = some j)
    (hret : ∀ v j, inner (.ret v) = some j → labels j.target = none ∧ aim (.ret v) = some j) :
    Follows aim Anything (runBlock labels run fuel skip last) (advancing next fuel d) := by
  induction fuel generalizing skip last d with
  | zero =>
    rw [runBlock, advancing]
    refine h.outcome.bind ?_
    rintro _ _ (_ | @⟨e, j, he⟩)
    · exact follows_pure trivial
    · cases e with
      | leave =>
        simp only [(hleave j he).1, Option.isSome_none]
        exact follows_throw (hleave j he).2
      | again =>
        simp only [hagain j he, Option.isSome_some, if_true]
        exact fun _ => .error
      | ret v =>
        simp only [(hret v j he).1, Option.isSome_none]
        exact follows_throw (hret v j he).2
  | succ fuel ih =>
    rw [runBlock, advancing]
    refine h.outcome.bind ?_
    rintro _ _ (_ | @⟨e, j, he⟩)
    · exact follows_pure trivial
    · cases e with
      | leave =>
        simp only [(hleave j he).1]
        exact follows_throw (hleave j he).2
      | again =>
        simp only [hagain j he]
        exact ih (hnext j.value)
      | ret v =>
        simp only [(hret v j he).1]
        exact follows_throw (hret v j he).2

/-! ### Loops with a condition -/

theorem eval_goto (t : Target) :
    (Code.goto t .absent).eval call fuel act = throw ⟨t, .null⟩ := by
  rw [Code.eval]
  simp [Code.isAbsent]

theorem evalTest_not (x : Code) :
    evalTest ((Code.not x).eval call fuel act) =
      evalTest (x.eval call fuel act) >>= fun b => pure (!b) := by
  rw [Code.eval, evalTest]
  simp only [bind_assoc, pure_bind]

omit [Host] in
theorem clear_nil_bind {ε α : Type} (f : Unit → ExceptT ε Action α) :
    ((liftM (act.clear []) : ExceptT ε Action Unit) >>= f) = f () := eq_of_run fun _ => rfl

/-- One round of a loop with a condition. -/
theorem follows_whileRound {t : LoopTargets} {test body : Code} {d : Exec Value} {e : Exec Unit}
    (ht : Follows inner Eq (test.eval call fuel act) d) (hp : body.Plain)
    (hb : Follows inner Anything (body.eval call fuel act) e)
    (hl : inner .leave = some ⟨t.brk, .null⟩) :
    Follows inner Anything
      ((Code.block [] [.cond (.not (.toBool test)) (.goto t.brk .absent) .absent, body]).eval
        call fuel act)
      (do if ← Activation.test d then e else throw .leave) := by
  have plain : ∀ c ∈ [Code.cond (.not (.toBool test)) (.goto t.brk .absent) .absent, body],
      c.Plain := by
    simpa [Code.Plain, Code.unwrap] using hp
  rw [Code.eval, labelIndex_eq_none plain, runBlock_unlabelled]
  simp only [evalFrom_cons, evalFrom_nil, bind_pure, clear_nil_bind]
  rw [Code.eval, evalTest_not]
  simp only [bind_assoc, pure_bind]
  refine ht.test.bind ?_
  rintro b _ rfl
  cases b with
  | true => simpa [Code.isAbsent] using hb
  | false =>
    simp only [Bool.not_false, if_true, eval_goto]
    exact follows_throw hl

/-! ### Loops over a sequence -/

theorem follows_advance (enum : Variable) :
    Follows aim Eq (evalTest ((Code.moveNext (.var enum)).eval call fuel act))
      (act.advance call fuel enum) := by
  rw [Code.eval, evalTest]
  simp only [bind_assoc, pure_bind]
  refine (follows_var enum).bind ?_
  rintro v _ rfl
  refine (follows_lift (asEnumerator v)).bind ?_
  rintro id _ rfl
  exact (follows_lift _).returning _ fun _ _ h => h

theorem follows_element (enum : Variable) :
    Follows aim Eq ((Code.current (.var enum)).eval call fuel act) (act.element enum) := by
  rw [Code.eval]
  refine (follows_var enum).bind ?_
  rintro v _ rfl
  refine (follows_lift (asEnumerator v)).bind ?_
  rintro id _ rfl
  refine (follows_lift get).bind ?_
  rintro s _ rfl
  exact follows_pure rfl

/-- What comes after the body of a round. -/
theorem Follows.next {t : LoopTargets} {c : Code} {d : Exec Unit}
    (h : Follows inner Anything (c.eval call fuel act) d)
    (hl : inner .leave = some ⟨t.brk, .null⟩) (enum : Variable) :
    Follows inner Anything
      ((Code.cond (.moveNext (.var enum)) c (.goto t.brk .absent)).eval call fuel act)
      (act.proceed call fuel enum d) := by
  rw [Code.eval, Activation.proceed]
  refine (follows_advance enum).bind ?_
  rintro b _ rfl
  cases b with
  | true => simpa using h
  | false =>
    simp only [Code.isAbsent, eval_goto]
    exact follows_throw hl

/-- An item of a block with labels that does not jump. -/
theorem follows_evalFrom_quiet {α β : Type} {R : Value → α → Prop} {S : Value → β → Prop}
    {labels : Target → Option Nat} {c : Code} {cs : List Code} {i : Nat} {last : Value}
    {d : Exec α} {ds : Exec β} (h : Follows (fun _ => none) R (c.eval call fuel act) d)
    (hs : ∀ v, Follows aim S (evalFrom call fuel act labels cs (i + 1) 0 v) ds) :
    Follows aim S (evalFrom call fuel act labels (c :: cs) i 0 last) (d >>= fun _ => ds) := by
  have hd : (outcome d >>= fun r => match r with | .ok _ => ds | .error e => throw e) =
      (d >>= fun _ => ds) := outcome_bind _ _ _ (fun _ => rfl) fun _ => rfl
  rw [evalFrom, ← hd]
  refine h.outcome.bind ?_
  rintro _ _ (_ | he)
  · exact hs _
  · simp at he

theorem follows_resets {labels : Target → Option Nat} (vs : List Variable) {cs : List Code}
    {i : Nat} {last : Value} {ds : Exec Unit}
    (hs : ∀ v, Follows aim Anything
      (evalFrom call fuel act labels cs (i + vs.length) 0 v) ds) :
    Follows aim Anything
      (evalFrom call fuel act labels (vs.map (fun v => Code.assign v (.constant .null)) ++ cs) i 0 last)
      (do act.clear vs; ds) := by
  induction vs generalizing i last with
  | nil =>
    rw [clear_nil_bind]
    exact hs last
  | cons v vs ih =>
    have write : Follows (fun _ => none) Anything
        ((Code.assign v (.constant .null)).eval call fuel act) (act.write v .null : Exec Unit) := by
      simp only [Code.eval, pure_bind]
      exact (follows_lift _).returning _ fun _ _ _ => trivial
    rw [Activation.clear, liftM_bind, bind_assoc]
    refine follows_evalFrom_quiet write fun _ => ih fun v => ?_
    simpa [Nat.add_comm, Nat.add_left_comm] using hs v

theorem evalFrom_skip (labels : Target → Option Nat) (pre cs : List Code) (i : Nat) (last : Value) :
    evalFrom call fuel act labels (pre ++ cs) i pre.length last =
      evalFrom call fuel act labels cs (i + pre.length) 0 last := by
  induction pre generalizing i with
  | nil => rfl
  | cons c pre ih =>
    rw [List.cons_append, List.length_cons, evalFrom, ih, Nat.add_right_comm, Nat.add_assoc]

/-- The last item of a block: there is no label further on. -/
theorem evalFrom_last {labels : Target → Option Nat} {i : Nat}
    (h : ∀ t k, labels t = some k → k ≤ i) (c : Code) (last : Value) :
    evalFrom call fuel act labels [c] i 0 last = c.eval call fuel act := by
  rw [evalFrom]
  simp only [evalFrom_nil]
  refine (outcome_bind _ (fun v => pure v) _ (fun _ => rfl) fun j => ?_).trans (bind_pure _)
  dsimp only
  split
  · rename_i k hk
    rw [if_neg (Nat.not_lt.2 (h _ k hk))]
  · rfl

/-- The end of a round: the body, the label for a `continue`, and what comes after it. -/
theorem follows_roundEnd {labels : Target → Option Nat} {cont : Target} {i : Nat}
    (hlab : ∀ t, labels t = if t.id = cont.id then some (i + 1) else none)
    {body c : Code} {b next : Exec Unit} (hb : Follows inner Anything (body.eval call fuel act) b)
    (hn : Follows inner Anything (c.eval call fuel act) next)
    (hagain : ∀ j, inner .again = some j → j.target.id = cont.id)
    (hleave : ∀ j, inner .leave = some j → j.target.id ≠ cont.id)
    (hret : ∀ v j, inner (.ret v) = some j → j.target.id ≠ cont.id) (last : Value) :
    Follows inner Anything
      (evalFrom call fuel act labels [body, .label cont .absent, c] i 0 last)
      (do untilAgain b; next) := by
  have le : ∀ t k, labels t = some k → k ≤ i + 1 + 1 := by
    intro t k h
    rw [hlab] at h
    split at h
    · cases h
      omega
    · cases h
  have fall : ∀ v, Follows inner Anything
      (evalFrom call fuel act labels [.label cont .absent, c] (i + 1) 0 v) next := by
    intro v
    have label : Follows (fun _ => none) Anything
        ((Code.label cont .absent).eval call fuel act) (pure () : Exec Unit) := by
      rw [Code.eval]
      exact follows_pure trivial
    rw [← pure_bind () fun _ => next]
    refine follows_evalFrom_quiet label fun v => ?_
    rwa [evalFrom_last le]
  rw [evalFrom, untilAgain, bind_assoc]
  refine hb.outcome.bind ?_
  rintro _ _ (_ | @⟨e, j, he⟩)
  · simpa only [pure_bind] using fall _
  · cases e with
    | again =>
      have skip : evalFrom call fuel act labels [.label cont .absent, c] (i + 1) 1 j.value =
          evalFrom call fuel act labels [c] (i + 1 + 1) 0 j.value :=
        evalFrom_skip labels [.label cont .absent] [c] (i + 1) j.value
      have hk : i + 1 - i = 1 := by omega
      simp only [hlab, hagain j he, if_true, Nat.lt_succ_self, hk, pure_bind]
      rwa [skip, evalFrom_last le]
    | leave =>
      simp only [hlab, hleave j he, if_false]
      exact follows_throw he
    | ret v =>
      simp only [hlab, hret v j he, if_false]
      exact follows_throw he

omit [Host] in
theorem labelIndex_label {cont : Target} {pre cs : List Code} {dflt : Code}
    (hpre : ∀ x ∈ pre, x.Plain) (hcs : ∀ x ∈ cs, x.Plain) (t : Target) :
    labelIndex (pre ++ .label cont dflt :: cs) t =
      if t.id = cont.id then some pre.length else none := by
  have h₁ := congrFun (labelIndex_eq_none hpre) t
  have h₂ := congrFun (labelIndex_eq_none hcs) t
  unfold labelIndex at *
  rw [List.findIdx?_append, h₁, List.findIdx?_cons, h₂]
  by_cases h : t.id = cont.id
  · simp [Code.unwrap, h]
  · simp [Code.unwrap, h, Ne.symm h]

omit [Host] in
theorem plain_of_mem_assigns {vs : List Variable} {x c : Code} (h : c ∈ vs.map (.assign · x)) :
    c.Plain := by
  obtain ⟨v, -, rfl⟩ := List.mem_map.1 h
  simp [Code.Plain, Code.unwrap]

omit [Host] in
theorem plain_of_mem_round (vars : List Variable) (enum : Variable) :
    ∀ c ∈ (vars.drop 1).map (fun v => Code.assign v (.constant .null)) ++
      (vars.take 1).map (fun v => Code.assign v (.current (.var enum))), c.Plain := by
  intro c hc
  rcases List.mem_append.1 hc with h | h
  · exact plain_of_mem_assigns h
  · exact plain_of_mem_assigns h

/-- The start of a round. -/
theorem follows_startRound {labels : Target → Option Nat} (vars : List Variable) (enum : Variable)
    {cs : List Code} {i : Nat} {last : Value} {ds : Exec Unit}
    (hs : ∀ v, Follows aim Anything
      (evalFrom call fuel act labels cs (i + (vars.drop 1).length + (vars.take 1).length) 0 v) ds) :
    Follows aim Anything
      (evalFrom call fuel act labels ((vars.drop 1).map (fun v => Code.assign v (.constant .null)) ++
        ((vars.take 1).map (fun v => .assign v (.current (.var enum))) ++ cs)) i 0 last)
      (do act.startRound vars enum; ds) := by
  unfold Activation.startRound
  rw [bind_assoc]
  refine follows_resets _ fun v => ?_
  cases vars with
  | nil => simpa using hs v
  | cons var vars =>
    have write : Follows (fun _ => none) Anything
        ((Code.assign var (.current (.var enum))).eval call fuel act)
        (do act.write var (← act.element enum) : Exec Unit) := by
      rw [Code.eval]
      refine (follows_element enum).bind ?_
      rintro y _ rfl
      exact (follows_lift _).returning _ fun _ _ _ => trivial
    exact follows_evalFrom_quiet write hs

/-- The jumps for the exits that a round does not deal with itself. -/
def pastRound (aim : Exit → Option Jump) : Exit → Option Jump
  | .again => none
  | e => aim e

/-- A round of a loop over a sequence with all that comes after it. -/
theorem follows_round {t : LoopTargets} {pre : List Code} {body between : Code} {enum : Variable}
    {start b w : Exec Unit} (hpre : ∀ x ∈ pre, x.Plain)
    (hstart : ∀ {labels : Target → Option Nat} {cs : List Code} {ds : Exec Unit},
      (∀ v, Follows inner Anything (evalFrom call fuel act labels cs pre.length 0 v) ds) →
      Follows inner Anything (evalFrom call fuel act labels (pre ++ cs) 0 0 .null) (do start; ds))
    (hp : body.Plain) (hb : Follows inner Anything (body.eval call fuel act) b)
    (hw : Follows inner Anything (between.eval call fuel act) w)
    (ht : t.brk.id ≠ t.cont.id) (hleave : inner .leave = some ⟨t.brk, .null⟩)
    (hagain : inner .again = some ⟨t.cont, .null⟩)
    (hret : ∀ v j, inner (.ret v) = some j → j.target.id ≠ t.cont.id) :
    Follows (pastRound inner) Anything
      ((Code.block [] (pre ++ [body, .label t.cont .absent,
        .cond (.moveNext (.var enum)) between (.goto t.brk .absent)])).eval call fuel act)
      (advancing (act.proceed call fuel enum w) fuel
        (do start; untilAgain b; act.proceed call fuel enum w)) := by
  have hn := hw.next hleave enum
  generalize hc : Code.cond (.moveNext (.var enum)) between (.goto t.brk .absent) = c at hn
  have hlab : ∀ u, labelIndex (pre ++ [body, .label t.cont .absent, c]) u =
      if u.id = t.cont.id then some (pre.length + 1) else none := by
    intro u
    have plain : ∀ x ∈ pre ++ [body], x.Plain := by
      simpa [or_imp, forall_and] using ⟨hpre, hp⟩
    have plain' : ∀ x ∈ [c], x.Plain := by
      simp [← hc, Code.Plain, Code.unwrap]
    simpa using labelIndex_label plain plain' u
  rw [Code.eval, clear_nil_bind]
  generalize labelIndex _ = labels at hlab
  have again : ∀ j, inner .again = some j → j.target.id = t.cont.id := by
    intro j hj
    rw [← Option.some.inj (hagain.symm.trans hj)]
  have leave : ∀ j, inner .leave = some j → j.target.id ≠ t.cont.id := by
    intro j hj
    rwa [← Option.some.inj (hleave.symm.trans hj)]
  have first := hstart fun v => follows_roundEnd hlab hb hn again leave hret v
  have next : ∀ v, Follows inner Anything (evalFrom call fuel act labels
      (pre ++ [body, .label t.cont .absent, c]) 0 (pre.length + 1 + 1) v)
      (act.proceed call fuel enum w) := by
    intro v
    have le : ∀ u k, labels u = some k → k ≤ 0 + (pre ++ [body, .label t.cont .absent]).length := by
      intro u k hk
      rw [hlab] at hk
      split at hk
      · cases hk
        simp
      · cases hk
    have skip : evalFrom call fuel act labels (pre ++ [body, .label t.cont .absent, c]) 0
        (pre.length + 1 + 1) v = c.eval call fuel act := by
      rw [← evalFrom_last le c v, ← evalFrom_skip]
      simp
    rwa [skip]
  refine follows_runBlock first next ?_ ?_ ?_
  · intro j hj
    simp [hlab, again j hj]
  · intro j hj
    simp [hlab, leave j hj, hj, pastRound]
  · intro v j hj
    simp [hlab, hret v j hj, hj, pastRound]

/-- A loop over the elements of a sequence. The targets of the loop are told apart from
where a `return` goes. -/
theorem Follows.forEach {t : LoopTargets} {vars : List Variable} {enum : Variable}
    {source body between : Code} {x : Exec Value} {b w : Exec Unit}
    (hx : Follows aim Eq (source.eval call fuel act) x)
    (hp : body.Plain) (hb : Follows inner Anything (body.eval call fuel act) b)
    (hw : Follows inner Anything (between.eval call fuel act) w)
    (ht : t.brk.id ≠ t.cont.id) (hleave : inner .leave = some ⟨t.brk, .null⟩)
    (hagain : inner .again = some ⟨t.cont, .null⟩)
    (hret : ∀ v j, inner (.ret v) = some j →
      j.target.id ≠ t.brk.id ∧ j.target.id ≠ t.cont.id ∧ aim (.ret v) = some j) :
    Follows aim Anything ((forCode t vars enum source body between).eval call fuel act)
      (act.forEach call fuel vars enum x b w) := by
  have first : Follows aim Anything ((Code.assign enum (.iterate source)).eval call fuel act)
      (do let v ← x; act.write enum (← (newEnumerator v).within call) : Exec Unit) := by
    simp only [Code.eval, bind_assoc]
    refine hx.bind ?_
    rintro v _ rfl
    refine (follows_lift _).bind ?_
    rintro e _ rfl
    exact (follows_lift _).returning _ fun _ _ _ => trivial
  have second : Follows aim Anything ((Code.cond (.moveNext (.var enum)) (.loop t.brk none
      (.block [] ((vars.drop 1).map (fun v => Code.assign v (.constant .null)) ++
        (vars.take 1).map (fun v => .assign v (.current (.var enum))) ++
        [body, .label t.cont .absent,
          .cond (.moveNext (.var enum)) between (.goto t.brk .absent)]))) .absent).eval call fuel act)
      (do
        if ← act.advance call fuel enum then
          rounds act.ctx (advancing (act.proceed call fuel enum w) fuel
            (do act.startRound vars enum; untilAgain b; act.proceed call fuel enum w)) fuel) := by
    rw [Code.eval]
    refine (follows_advance enum).bind ?_
    rintro more _ rfl
    cases more with
    | false => exact follows_pure trivial
    | true =>
      simp only [if_true]
      rw [Code.eval]
      refine follows_rounds (follows_round (plain_of_mem_round vars enum) ?_ hp hb hw ht hleave
        hagain fun v j hj => (hret v j hj).2.1) ?_ ?_ ?_
      · intro labels cs ds hs
        rw [List.append_assoc]
        exact follows_startRound vars enum (by simpa using hs)
      · intro j hj
        rw [← Option.some.inj (hleave.symm.trans hj)]
      · intro j hj
        simp [pastRound] at hj
      · intro v j hj
        exact ⟨(hret v j hj).1, by simp, (hret v j hj).2.2⟩
  have all := ((followsAll_nil.cons (by simp [Code.Plain, Code.unwrap]) second).cons
    (by simp [Code.Plain, Code.unwrap]) first).block (vars ++ [enum])
  simp only [bind_assoc, bind_pure_unit] at all
  exact all

/-! ### Functions -/

omit [Host] in
theorem run_asFunction_apply {ε : Type} (d : Exec Unit) (s : Store) :
    (asFunction d : ExceptT ε Action Value).run s =
      match d.run s with
      | .ok (.error (.ret v)) s' => .ok (.ok v) s'
      | .ok _ s' => .ok (.ok .null) s'
      | .error e s' => .error e s' := by
  show EStateM.bind d.run _ s = _
  unfold EStateM.bind
  cases d.run s with
  | ok r s' =>
    rcases r with (_ | _ | _) | _ <;> rfl
  | error e s' => rfl

omit [Host] in
theorem run_asValue_apply {ε : Type} (d : Exec Value) (s : Store) :
    (asValue d : ExceptT ε Action Value).run s =
      match d.run s with
      | .ok (.ok v) s' => .ok (.ok v) s'
      | .ok (.error _) s' => .ok (.ok .null) s'
      | .error e s' => .error e s' := by
  show EStateM.bind d.run _ s = _
  unfold EStateM.bind
  cases d.run s with
  | ok r s' => cases r <;> rfl
  | error e s' => rfl

omit [Host] in
/-- Nothing leaves an expression with nothing around it, and its value is that of the code. -/
theorem eq_asValue {c : Eval Value} {d : Exec Value} (h : Follows (fun _ => none) Eq c d) :
    c = asValue d := by
  refine eq_of_run fun s => ?_
  have hs := h s
  rw [run_asValue_apply]
  generalize c.run s = x, d.run s = y at hs
  rcases hs with ⟨⟨rfl⟩ | hj⟩ | _
  · rfl
  · simp at hj
  · rfl

omit [Host] in
/-- Labels do not matter to what never jumps. -/
theorem runBlock_of_quiet {labels : Target → Option Nat} {run : Nat → Value → Eval Value}
    {skip : Nat} {last : Value} (h : ∀ s j s', (run skip last).run s ≠ .ok (.error j) s') :
    runBlock labels run fuel skip last = run skip last := by
  refine eq_of_run fun s => ?_
  cases fuel <;>
  · rw [runBlock, run_bind_apply, run_outcome_apply]
    have hs := h s
    generalize (run skip last).run s = r at hs
    match r with
    | .ok (.ok _) _ => rfl
    | .ok (.error j) s' => exact absurd rfl (hs j s')
    | .error _ _ => rfl

/-- The body of a function: a `return` goes to its end. -/
theorem eval_functionBody {ret : Target} {c : Code} {d : Exec Unit} (hp : c.Plain)
    (h : Follows aim Anything (c.eval call fuel act) d)
    (hret : ∀ e j, aim e = some j → ∃ v, e = .ret v ∧ j = ⟨ret, v⟩) :
    (functionBody ret c).eval call fuel act = asFunction d := by
  have hlab : ∀ u, labelIndex [c, .label ret (.constant .null)] u =
      if u.id = ret.id then some 1 else none := by
    intro u
    have plain : ∀ x ∈ [c], x.Plain := by simpa using hp
    have none : ∀ x ∈ ([] : List Code), x.Plain := by simp
    simpa using labelIndex_label plain none u
  rw [functionBody, Code.eval, clear_nil_bind]
  generalize labelIndex _ = labels at hlab
  have le : ∀ u k, labels u = some k → k ≤ 0 + 1 := by
    intro u k hk
    rw [hlab] at hk
    split at hk <;> cases hk
    exact Nat.le_refl 1
  have skip : ∀ v, evalFrom call fuel act labels [.label ret (.constant .null)] (0 + 1) 1 v =
      pure v := by
    intro v
    rw [evalFrom, evalFrom_nil]
  have body : evalFrom call fuel act labels [c, .label ret (.constant .null)] 0 0 .null =
      asFunction d := by
    refine eq_of_run fun s => ?_
    have hs := h s
    rw [evalFrom, run_bind_apply, run_outcome_apply, run_asFunction_apply]
    generalize (c.eval call fuel act).run s = x, d.run s = y at hs
    rcases hs with ⟨_ | @⟨e, j, hj⟩⟩ | _
    · dsimp only
      rw [evalFrom_last le]
      simp only [Code.eval, Code.isAbsent]
      rfl
    · obtain ⟨v, rfl, rfl⟩ := hret e j hj
      simp only [hlab, if_true, Nat.zero_lt_one, skip, run_pure_apply, Nat.sub_zero]
    · rfl
  rw [runBlock_of_quiet, body]
  intro s j s' hj
  rw [body, run_asFunction_apply] at hj
  split at hj <;> cases hj

/-- The body of a module: nothing leaves it before its end. -/
theorem eval_moduleBody {items : List Code} {d : Exec Unit}
    (h : FollowsAll call fuel act (fun _ => none) items d) :
    (Code.block [] (items ++ [Code.empty])).eval call fuel act = asFunction d := by
  have plain : ∀ c ∈ items ++ [Code.empty], c.Plain := by
    simpa [or_imp, forall_and, Code.Plain, Code.unwrap] using h.plain
  rw [Code.eval, clear_nil_bind, labelIndex_eq_none plain, runBlock_unlabelled, evalFrom_append]
  simp only [evalFrom_cons, evalFrom_nil, Code.eval, pure_bind]
  refine eq_of_run fun s => ?_
  have hs := h.run 0 .null s
  rw [run_bind_apply, run_asFunction_apply]
  generalize (evalFrom call fuel act (fun _ => none) items 0 0 .null).run s = x, d.run s = y at hs
  rcases hs with ⟨_ | hj⟩ | _
  · rfl
  · simp at hj
  · rfl

end

end Stencil
