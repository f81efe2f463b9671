import Stencil.Proofs.Balance.Templates
import Stencil.Proofs.Typing.Judgement

/-!
# Where jumps land

A jump that leaves well-formed code has one of the targets around it, whatever the store, and
whatever calls do. The labels among the items of a block, and the two ends of a loop, catch the
jumps that are aimed at them. So none leaves the body of a lambda, around which there are no
targets. Values are seen to in the same way: that of a test is a truth value, and where a loop
begins there is a state of a loop.
-/

namespace Stencil

/-- A computation jumps only to certain targets. -/
def Lands {α : Type} (targets : List Nat) (m : Eval α) : Prop :=
  ∀ s j t, m.run s = .ok (.error j) t → j.target.id ∈ targets

section

variable {α β : Type} {targets targets' : List Nat}

theorem lands_pure (a : α) : Lands targets (pure a : Eval α) := fun _ _ _ h => by cases h

theorem lands_throw {j : Jump} (h : j.target.id ∈ targets) : Lands targets (throw j : Eval α) :=
  fun _ _ _ he => by
    cases he
    exact h

theorem lands_fail (msg : Bytes) : Lands targets (Action.fail msg : Eval α) := fun _ _ _ h => by cases h

theorem lands_lift (m : Action α) : Lands targets (liftM m : Eval α) := fun s j t h => by
  rw [run_lift_apply] at h
  cases hm : m s with
  | ok a u => rw [hm] at h; cases h
  | error e u => rw [hm] at h; cases h

theorem Lands.bind {m : Eval α} {f : α → Eval β} (h : Lands targets m)
    (hf : ∀ a, Lands targets (f a)) : Lands targets (m >>= f) := by
  intro s j t he
  rw [run_bind_apply] at he
  cases hm : m.run s with
  | error e u => rw [hm] at he; cases he
  | ok r u =>
    rw [hm] at he
    cases r with
    | ok a => exact hf a u j t he
    | error j' =>
      cases he
      exact h s _ _ hm

/-- What looks at the end of a computation knows where its jumps land. -/
theorem Lands.outcome_bind {m : Eval α} {k : Except Jump α → Eval β} (h : Lands targets m)
    (hv : ∀ a, Lands targets' (k (.ok a)))
    (hj : ∀ j : Jump, j.target.id ∈ targets → Lands targets' (k (.error j))) :
    Lands targets' (outcome m >>= k) := by
  intro s j t he
  rw [run_bind_apply, run_outcome_apply] at he
  cases hm : m.run s with
  | error e u => rw [hm] at he; cases he
  | ok r u =>
    rw [hm] at he
    cases r with
    | ok a => exact hv a u j t he
    | error j' => exact hj j' (h s j' u hm) u j t he

/-- More targets are around. -/
theorem Lands.mono {m : Eval α} (h : Lands targets m) : Lands (targets' ++ targets) m :=
  fun s j t he => List.mem_append_right _ (h s j t he)

theorem Lands.ite {c : Prop} [Decidable c] {m n : Eval α} (h : Lands targets m)
    (h' : Lands targets n) : Lands targets (if c then m else n) := by
  split
  · exact h
  · exact h'

theorem lands_get {f : Store → Eval α} (h : ∀ s, Lands targets (f s)) : Lands targets (get >>= f) :=
  fun s j t he => h s s j t he

theorem Lands.finally {m f : Eval α} (h : Lands targets m) (hf : Lands targets f) :
    Lands targets (runFinally m f) := by
  intro s j t he
  rw [run_runFinally_apply] at he
  cases hm : m.run s with
  | ok r u =>
    rw [hm] at he
    dsimp only at he
    rcases hfu : f.run u with ⟨j' | a, v⟩ | ⟨e, v⟩ <;> rw [hfu] at he <;> cases he
    · exact hf u _ _ hfu
    · exact h s j u hm
  | error e u =>
    rw [hm] at he
    cases e with
    | panic | exhausted => cases he
    | _ =>
      dsimp only at he
      rcases hfu : f.run u with ⟨j' | a, v⟩ | ⟨e, v⟩ <;> rw [hfu] at he <;> cases he
      exact hf u _ _ hfu

end

/-! ### Blocks and loops -/

theorem isSome_labelIndex {items : List Code} {t : Target} (h : t.id ∈ labelsOf items) :
    (labelIndex items t).isSome = true := by
  obtain ⟨c, hc, hl⟩ := List.mem_filterMap.1 h
  rw [labelIndex, List.findIdx?_isSome, List.any_eq_true]
  refine ⟨c, hc, ?_⟩
  rw [Code.label?] at hl
  cases hu : c.unwrap with
  | label u d =>
    rw [hu] at hl
    exact decide_eq_true (Option.some.inj hl)
  | _ =>
    rw [hu] at hl
    cases hl

section

variable {targets : List Nat} {items : List Code}

/-- The labels of a block catch the jumps aimed at them. -/
theorem lands_runBlock {run : Nat → Value → Eval Value}
    (h : ∀ skip last, Lands (labelsOf items ++ targets) (run skip last)) (fuel skip : Nat)
    (last : Value) : Lands targets (runBlock (labelIndex items) run fuel skip last) := by
  have leave {j : Jump} (hj : j.target.id ∈ labelsOf items ++ targets)
      (hnone : (labelIndex items j.target).isSome ≠ true) : Lands targets (throw j : Eval Value) :=
    lands_throw ((List.mem_append.1 hj).resolve_left fun hl => hnone (isSome_labelIndex hl))
  induction fuel generalizing skip last with
  | zero =>
    refine (h skip last).outcome_bind (fun v => lands_pure v) fun j hj => ?_
    dsimp only
    split
    · exact lands_lift _
    · rename_i hnone
      exact leave hj hnone
  | succ fuel ih =>
    refine (h skip last).outcome_bind (fun v => lands_pure v) fun j hj => ?_
    dsimp only
    split
    · exact ih _ _
    · rename_i hnone
      exact leave hj (by rw [hnone]; exact Bool.false_ne_true)

theorem lands_runLoop {ctx : Nat} {brk : Target} {cont : Option Target} {body : Eval Value}
    (h : Lands (brk.id :: (cont.map (·.id)).toList ++ targets) body) (fuel : Nat) :
    Lands targets (runLoop ctx brk cont body fuel) := by
  induction fuel with
  | zero => exact lands_lift _
  | succ fuel ih =>
    refine (lands_lift _).bind fun _ => h.outcome_bind (fun _ => ih) fun j hj => ?_
    dsimp only
    split
    · exact lands_pure _
    · rename_i hbrk
      split
      · exact ih
      · rename_i hcont
        refine lands_throw ?_
        rcases List.mem_append.1 hj with hj | hj
        · rcases List.mem_cons.1 hj with hj | hj
          · exact absurd hj hbrk
          · exact absurd (Option.mem_toList.1 hj) hcont
        · exact hj

end

/-! ### Code -/

section

variable [Host] {call : Callback} {fuel : Nat} {act : Activation} {targets : List Nat}

theorem lands_test {m : Eval Value} (h : Lands targets m) : Lands targets (evalTest m) := by
  refine h.bind fun v => ?_
  cases v with
  | bool b => exact lands_pure b
  | _ => exact (lands_lift _).bind fun _ => lands_get fun _ => lands_fail _

theorem lands_evalFrom {labels : Target → Option Nat} {items : List Code}
    (h : ∀ c ∈ items, Lands targets (c.eval call fuel act)) (i skip : Nat) (last : Value) :
    Lands targets (evalFrom call fuel act labels items i skip last) := by
  induction items generalizing i skip last with
  | nil =>
    rw [evalFrom]
    exact lands_pure last
  | cons c cs ih =>
    obtain ⟨hc, hcs⟩ := List.forall_mem_cons.1 h
    cases skip with
    | succ skip =>
      rw [evalFrom]
      exact ih hcs _ _ _
    | zero =>
      rw [evalFrom]
      refine hc.outcome_bind (fun v => ih hcs _ _ _) fun j hj => ?_
      dsimp only
      split
      · exact (ih hcs _ _ _).ite (lands_throw hj)
      · exact lands_throw hj

theorem lands_evalArgs {cs : List Code} (h : ∀ c ∈ cs, Lands targets (c.eval call fuel act)) :
    Lands targets (evalArgs call fuel act cs) := by
  induction cs with
  | nil =>
    rw [evalArgs]
    exact lands_pure []
  | cons c cs ih =>
    obtain ⟨hc, hcs⟩ := List.forall_mem_cons.1 h
    rw [evalArgs]
    exact hc.bind fun v => (ih hcs).bind fun vs => lands_pure _

theorem lands_evalMatch {equal : CallSite} (v : Value) {cs : List Code}
    (h : ∀ c ∈ cs, Lands targets (c.eval call fuel act)) :
    Lands targets (evalMatch call fuel act equal v cs) := by
  induction cs with
  | nil =>
    rw [evalMatch]
    exact lands_pure false
  | cons c cs ih =>
    obtain ⟨hc, hcs⟩ := List.forall_mem_cons.1 h
    rw [evalMatch]
    exact hc.bind fun w => (lands_lift _).bind fun eq => lands_get fun s =>
      (lands_pure _).ite (ih hcs)

theorem lands_evalCases {equal : CallSite} (v : Value) {cs : List Code}
    (h : ∀ c ∈ cs, Lands targets (c.evalCase call fuel act equal v)) :
    Lands targets (evalCases call fuel act equal v cs) := by
  induction cs with
  | nil =>
    rw [evalCases]
    exact lands_pure none
  | cons c cs ih =>
    obtain ⟨hc, hcs⟩ := List.forall_mem_cons.1 h
    rw [evalCases]
    refine hc.bind fun r => ?_
    cases r with
    | some r => exact lands_pure _
    | none => exact ih hcs

theorem lands_contextCode {m : ContextMethod} {cs : List Code}
    (h : ∀ c ∈ cs, Lands targets (c.eval call fuel act)) :
    Lands targets ((contextCode m cs).eval call fuel act) := by
  rw [contextCode, Code.eval, Code.eval]
  refine (lands_lift _).bind fun target => ?_
  cases target with
  | context ctx => exact (lands_evalArgs h).bind fun vs => lands_lift _
  | _ => exact lands_lift _

theorem lands_assign {x : Code} (v : Variable) (h : Lands targets (x.eval call fuel act)) :
    Lands targets ((Code.assign v x).eval call fuel act) := by
  rw [Code.eval]
  exact h.bind fun y => (lands_lift _).bind fun _ => lands_pure y

theorem lands_iterate {x : Code} (h : Lands targets (x.eval call fuel act)) :
    Lands targets ((Code.iterate x).eval call fuel act) := by
  rw [Code.eval]
  exact h.bind fun _ => lands_lift _

theorem lands_part {x : Code} (hx : x.isAbsent = true ∨ Lands targets (x.eval call fuel act))
    {m : Eval Value} (hm : Lands targets m) :
    Lands targets (if x.isAbsent then m else x.eval call fuel act) := by
  split
  · exact hm
  · rename_i h
    exact hx.resolve_left h

/-- Code jumps only to certain targets, in the way that it is used. -/
def Role.Lands (targets : List Nat) (call : Callback) (fuel : Nat) (act : Activation) (r : Role)
    (c : Code) : Prop :=
  match r with
  | .arm => ∀ equal v, Stencil.Lands targets (c.evalCase call fuel act equal v)
  | .part => c.isAbsent = true ∨ Stencil.Lands targets (c.eval call fuel act)
  | .value | .test | .state => Stencil.Lands targets (c.eval call fuel act)

variable {user : Nat × Nat → Prop} {Γ : Setting} {r : Role} {c : Code}

/-- The jumps that leave well-formed code have the targets around it. -/
theorem Code.Typed.lands (h : c.Typed user Γ r) : r.Lands Γ.targets call fuel act c := by
  have lift {ts : List Nat} {α : Type} (m : Action α) : Stencil.Lands ts (liftM m : Eval α) := lands_lift m
  induction h with
  | constant v => exact lands_pure v
  | empty => exact lands_pure _
  | var hv => rw [Role.Lands, Code.eval]; exact lift _
  | assign hv hu hx ih => exact lands_assign _ ih
  | block hv hi ih =>
    rw [Role.Lands, Code.eval]
    exact (lift _).bind fun _ => lands_runBlock (lands_evalFrom ih _) _ _ _
  | lambda hp hb ih => rw [Role.Lands, Code.eval]; exact lift _
  | cond ht hy hn iht ihy ihn =>
    rw [Role.Lands, Code.eval]
    exact (lands_test iht).bind fun b => ihy.ite (lands_part ihn (lands_pure _))
  | loop hb ih =>
    rw [Role.Lands, Code.eval]
    exact lands_runLoop ih fuel
  | label hd ih =>
    rw [Role.Lands, Code.eval]
    exact lands_part ih (lands_pure _)
  | goto ht hx ih =>
    rw [Role.Lands, Code.eval]
    split
    · exact (lands_pure _).bind fun _ => lands_throw ht
    · rename_i habsent
      exact (ih.resolve_left habsent).bind fun _ => lands_throw ht
  | switch hx hc hd ihx ihc ihd =>
    rw [Role.Lands, Code.eval]
    refine ihx.bind fun v => (lands_evalCases v fun c hm => ihc c hm _ v).bind fun r => ?_
    cases r with
    | some r => exact lands_pure r
    | none => exact lands_part ihd (lands_pure _)
  | arm hv hb ihv ihb =>
    intro equal v
    rw [Code.evalCase]
    exact (lands_evalMatch v ihv).bind fun found =>
      Lands.ite (ihb.bind fun _ => lands_pure _) (lands_pure none)
  | write hc text => exact lands_contextCode (List.forall_mem_singleton.2 (lands_pure _))
  | safeWrite hc hx ih => exact lands_contextCode (List.forall_mem_singleton.2 ih)
  | globals hc => exact lands_contextCode fun _ h => absurd h List.not_mem_nil
  | template hc hv hu hb ih =>
    rw [Role.Lands, eval_templateCode]
    refine (lift _).bind fun _ => Lands.bind ?_ fun _ => lift _
    exact (lands_contextCode fun _ h => absurd h List.not_mem_nil).bind fun _ =>
      ih.finally (lands_assign _ (lands_contextCode fun _ h => absurd h List.not_mem_nil))
  | @dynamic _ site args ha ih =>
    rw [Role.Lands, Code.eval]
    refine (lands_evalArgs ih).bind fun vs => ?_
    cases site.kind with
    | invoke | call | create => exact (lift _).bind fun _ => lift _
    | _ => exact lift _
  | filter hx hp ihx ihp =>
    rw [Role.Lands, Code.eval]
    exact ihx.bind fun _ => ihp.bind fun _ => lift _
  | list hi ih =>
    rw [Role.Lands, Code.eval]
    exact (lands_evalArgs ih).bind fun _ => lift _
  | current hv hh =>
    rw [Role.Lands, Code.eval, Code.eval]
    exact (lift _).bind fun _ => (lift _).bind fun _ => lands_get fun _ => lands_pure _
  | not hx ih =>
    rw [Role.Lands, Code.eval]
    exact (lands_test ih).bind fun _ => lands_pure _
  | toBool hx ih =>
    rw [Role.Lands, Code.eval]
    exact ih.bind fun _ => lands_get fun _ => lands_pure _
  | andAlso hx hy ihx ihy =>
    rw [Role.Lands, Code.eval]
    exact (lands_test ihx).bind fun _ =>
      Lands.ite ((lands_test ihy).bind fun _ => lands_pure _) (lands_pure _)
  | orElse hx hy ihx ihy =>
    rw [Role.Lands, Code.eval]
    exact (lands_test ihx).bind fun _ =>
      (lands_pure _).ite ((lands_test ihy).bind fun _ => lands_pure _)
  | moveNext hv hh =>
    rw [Role.Lands, Code.eval, Code.eval]
    exact (lift _).bind fun _ => (lift _).bind fun _ => (lift _).bind fun _ => lands_pure _
  | iterate hx ih => exact lands_iterate ih
  | start hs hx ih => exact lands_assign _ (lands_iterate ih)
  | each hv hs hf hx hb ihx ihb =>
    rw [Role.Lands, Code.eval]
    exact (lift _).bind fun _ => lands_runBlock (lands_evalFrom (List.forall_mem_cons.2
      ⟨.mono (lands_assign _ (lands_iterate ihx)), List.forall_mem_singleton.2 (.mono ihb)⟩) _) _ _ _
  | noted hx ih =>
    rw [Role.Lands, Code.eval]
    refine (lift _).bind fun _ => ?_
    intro s j t he
    rw [run_locate_apply] at he
    split at he
    · cases he
    · cases he
    · exact ih s j t he
  | missing => exact .inl rfl
  | present hx ih => exact .inr ih
  | asValue hx ih => exact ih

end

/-! ### Values -/

/-- What holds of the value of a computation, if it has one. -/
def Ends {α : Type} (φ : α → Prop) (m : Eval α) : Prop := ∀ s v t, m.run s = .ok (.ok v) t → φ v

theorem Ends.bind {α β : Type} {φ : β → Prop} {m : Eval α} {f : α → Eval β}
    (h : ∀ a, Ends φ (f a)) : Ends φ (m >>= f) := by
  intro s v t he
  rw [run_bind_apply] at he
  rcases hm : m.run s with ⟨j | a, u⟩ | ⟨e, u⟩ <;> rw [hm] at he
  · cases he
  · exact h a u v t he
  · cases he

theorem ends_pure {α : Type} {φ : α → Prop} {a : α} (h : φ a) : Ends φ (pure a : Eval α) :=
  fun _ _ _ he => by
    cases he
    exact h

/-- What holds of all values that a job may end with. -/
def Job.Returns {α : Type} (φ : α → Prop) : Job α → Prop
  | .done a => φ a
  | .fail _ => True
  | .read k => ∀ h, (k h).Returns φ
  | .update _ k => k.Returns φ
  | .ask _ k => ∀ r, (k r).Returns φ

theorem Job.Returns.bind {α β : Type} {φ : β → Prop} (j : Job α) {f : α → Job β}
    (h : ∀ a, (f a).Returns φ) : (j >>= f).Returns φ := by
  show (j.bind f).Returns φ
  induction j with
  | done a => exact h a
  | fail e => trivial
  | read k ih => exact fun heap => ih heap
  | update f k ih => exact ih
  | ask q k ih => exact fun r => ih r

theorem Job.Returns.run {α : Type} {φ : α → Prop} {j : Job α} (h : j.Returns φ) (call : Callback)
    {s t : Store} {a : α} (he : j.run call s = .ok a t) : φ a := by
  induction j generalizing s with
  | done b =>
    cases he
    exact h
  | fail e => cases he
  | read k ih => exact ih _ (h _) he
  | update f k ih => exact ih h he
  | ask q k ih =>
    rw [run_ask, inspect] at he
    split at he
    · exact ih _ (h _) he
    · exact ih _ (h _) he

theorem returns_newEnumerator [Host] (v : Value) :
    (newEnumerator v).Returns fun w => ∃ id, w = .enumerator id :=
  .bind _ fun _ => .bind _ fun s => .bind _ fun _ => ⟨s.enumerators.size, rfl⟩

section

variable [Host] {call : Callback} {fuel : Nat} {act : Activation} {user : Nat × Nat → Prop}
  {Γ : Setting} {c : Code}

/-- The value of a test is a truth value. -/
theorem Code.Typed.ends_test (h : c.Typed user Γ .test) :
    Ends (fun v => ∃ b, v = .bool b) (c.eval call fuel act) := by
  have truth (b : Bool) : Ends (fun v => ∃ b, v = .bool b) (pure (.bool b) : Eval Value) :=
    ends_pure ⟨b, rfl⟩
  cases h with
  | not hx =>
    rw [Code.eval]
    exact .bind fun b => truth _
  | toBool hx =>
    rw [Code.eval]
    exact .bind fun v => .bind fun s => truth _
  | andAlso hx hy =>
    rw [Code.eval]
    refine .bind fun b => ?_
    split
    · exact .bind fun b => truth b
    · exact truth false
  | orElse hx hy =>
    rw [Code.eval]
    refine .bind fun b => ?_
    split
    · exact truth true
    · exact .bind fun b => truth b
  | moveNext hv hh =>
    rw [Code.eval]
    exact .bind fun _ => .bind fun _ => .bind fun b => truth b

/-- The value of an iteration is the state of a loop. -/
theorem ends_iterate (x : Code) :
    Ends (fun v => ∃ id, v = .enumerator id) ((Code.iterate x).eval call fuel act) := by
  rw [Code.eval]
  refine .bind fun v s w t he => ?_
  change (liftM ((newEnumerator v).run call) : Eval Value).run s = .ok (.ok w) t at he
  rw [run_lift_apply] at he
  cases hr : (newEnumerator v).run call s with
  | error e u => rw [hr] at he; cases he
  | ok w' u =>
    rw [hr] at he
    cases he
    exact (returns_newEnumerator v).run call hr

end

end Stencil
