import Stencil.Proofs.Direct.Semantics
import Stencil.Proofs.Machine.Exits
import Stencil.Proofs.Scoped

/-!
# Code that follows a direct computation

`Follows` says that the evaluation of code does what a direct computation does: it changes
the store in the same way and ends in the same way, where an exit of the direct computation
is a jump to the target that stands for it. Here are its rules, one for each way in which
computations are put together.

## Evaluation of the forms of code

How the code that lowering puts together is evaluated: notes of places, blocks without
labels, operations on operands, calls of the context. Each form follows a direct
computation when its parts do.
-/

namespace Stencil

section

variable {ε α β γ δ : Type}

/-! ### The relation -/

/-- How a computation with exits ends, on both sides. The values are related by `R`; the
jump for an exit is told by `aim`, and exits without one do not occur. -/
inductive SameEnd (aim : Exit → Option Jump) (R : α → β → Prop) :
    Except Jump α → Except Exit β → Prop where
  | value {a : α} {b : β} (h : R a b) : SameEnd aim R (.ok a) (.ok b)
  | exit {e : Exit} {j : Jump} (h : aim e = some j) : SameEnd aim R (.error j) (.error e)

/-- The same failure in the same store, or a related end in the same store. -/
inductive SameResult (E : α → β → Prop) :
    EStateM.Result Failure Store α → EStateM.Result Failure Store β → Prop where
  | ok {a : α} {b : β} {s : Store} (h : E a b) : SameResult E (.ok a s) (.ok b s)
  | error {f : Failure} {s : Store} : SameResult E (.error f s) (.error f s)

/-- The code does what the direct computation does. -/
def Follows (aim : Exit → Option Jump) (R : α → β → Prop) (c : Eval α) (d : Exec β) : Prop :=
  ∀ s, SameResult (SameEnd aim R) (c.run s) (d.run s)

/-- The values of two computations need not agree. -/
def Anything : α → β → Prop := fun _ _ => True

section Rules

variable {aim : Exit → Option Jump} {R : α → β → Prop} {S : γ → δ → Prop}

theorem follows_pure {a : α} {b : β} (h : R a b) : Follows aim R (pure a) (pure b) :=
  fun _ => .ok (.value h)

theorem follows_throw {e : Exit} {j : Jump} (h : aim e = some j) :
    Follows aim R (throw j) (throw e) :=
  fun _ => .ok (.exit h)

theorem Follows.bind {c : Eval α} {d : Exec β} {f : α → Eval γ} {g : β → Exec δ}
    (h : Follows aim R c d) (hf : ∀ a b, R a b → Follows aim S (f a) (g b)) :
    Follows aim S (c >>= f) (d >>= g) := by
  intro s
  have hs := h s
  rw [run_bind_apply, run_bind_apply]
  generalize c.run s = x, d.run s = y at hs
  rcases hs with ⟨⟨hr⟩ | hj⟩ | _
  · exact hf _ _ hr _
  · exact .ok (.exit hj)
  · exact .error

/-- Both sides do the same thing, and nothing in it is an exit. -/
theorem follows_lift (m : Action α) :
    Follows aim Eq (liftM m : Eval α) (liftM m : Exec α) := by
  intro s
  rw [run_lift_apply, run_lift_apply]
  cases m s with
  | ok a s' => exact .ok (.value rfl)
  | error e s' => exact .error

theorem Follows.mono {aim' : Exit → Option Jump} {R' : α → β → Prop} {c : Eval α} {d : Exec β}
    (h : Follows aim R c d) (ha : ∀ e j, aim e = some j → aim' e = some j)
    (hr : ∀ a b, R a b → R' a b) : Follows aim' R' c d := by
  intro s
  have hs := h s
  generalize c.run s = x, d.run s = y at hs
  rcases hs with ⟨⟨h'⟩ | hj⟩ | _
  · exact .ok (.value (hr _ _ h'))
  · exact .ok (.exit (ha _ _ hj))
  · exact .error

/-- The value of the code is replaced by another one. -/
theorem Follows.returning {c : Eval α} {d : Exec β} {T : γ → β → Prop} (h : Follows aim R c d)
    (f : α → γ) (hf : ∀ a b, R a b → T (f a) b) :
    Follows aim T (c >>= fun a => pure (f a)) d := by
  have := h.bind (f := fun a => pure (f a)) (g := fun b => pure b) fun a b hr =>
    follows_pure (hf a b hr)
  rwa [bind_pure] at this

/-- The value of a computation is dropped on the direct side. -/
theorem Follows.discard {c : Eval α} {d : Exec β} (h : Follows aim R c d) :
    Follows aim Anything c (Functor.discard d) := by
  intro s
  have hs := h s
  rw [run_discard_apply]
  generalize c.run s = x, d.run s = y at hs
  rcases hs with ⟨⟨-⟩ | hj⟩ | _
  · exact .ok (.value trivial)
  · exact .ok (.exit hj)
  · exact .error

theorem Follows.outcome {aim' : Exit → Option Jump} {c : Eval α} {d : Exec β}
    (h : Follows aim R c d) :
    Follows aim' (SameEnd aim R) (Stencil.outcome c) (Stencil.outcome d) := by
  intro s
  have hs := h s
  rw [run_outcome_apply, run_outcome_apply]
  generalize c.run s = x, d.run s = y at hs
  rcases hs with he | _
  · exact .ok (.value he)
  · exact .error

/-- What is done at the end is done on both sides alike. -/
theorem Follows.runFinally {c c' : Eval α} {d d' : Exec β} (h : Follows aim R c d)
    (h' : Follows aim R c' d') : Follows aim R (runFinally c c') (runFinally d d') := by
  intro s
  have hs := h s
  rw [run_runFinally_apply, run_runFinally_apply]
  generalize c.run s = x, d.run s = y at hs
  rcases hs with @⟨a, b, s', he⟩ | @⟨f, s'⟩
  · have hs' := h' s'
    dsimp only
    generalize c'.run s' = x, d'.run s' = y at hs'
    rcases hs' with ⟨⟨-⟩ | hj⟩ | _
    · exact .ok he
    · exact .ok (.exit hj)
    · exact .error
  · have hs' := h' s'
    cases f with
    | panic | exhausted => exact .error
    | _ =>
      dsimp only
      generalize c'.run s' = x, d'.run s' = y at hs'
      rcases hs' with ⟨⟨-⟩ | hj⟩ | _
      · exact .error
      · exact .ok (.exit hj)
      · exact .error

/-- A place is noted on both sides. -/
theorem Follows.at_ {c : Eval α} {d : Exec β} (h : Follows aim R c d) (act : Activation)
    (debug : Bool) (pos : Position) :
    Follows aim R (act.at_ debug pos c) (act.at_ debug pos d) := by
  unfold Activation.at_
  split
  · exact h
  · refine (follows_lift (act.moveTo pos)).bind fun _ _ _ s => ?_
    have hs := h s
    rw [run_locate_apply, run_locate_apply]
    generalize c.run s = x, d.run s = y at hs
    rcases hs with he | @⟨f, s'⟩
    · exact .ok he
    · cases f <;> exact .error

end Rules

end

/-! ## Evaluation of the forms of code -/

section

variable [Host] {call : Callback} {fuel : Nat} {act : Activation} {aim : Exit → Option Jump}

/-! ### Notes -/

/-- A second note has no effect: the inner one moves on at once, and what fails inside it
has a place already. -/
theorem eval_noteAt (debug : Bool) (pos : Position) (c : Code) :
    (noteAt debug pos c).eval call fuel act = act.at_ debug pos (c.eval call fuel act) := by
  unfold noteAt Activation.at_
  split
  · rfl
  · split
    · rename_i q x
      refine eq_of_run fun s => ?_
      rw [run_bind_apply, run_lift_apply, Activation.moveTo_apply]
      dsimp only
      rw [run_locate_apply, Code.eval]
      rw [run_bind_apply, run_lift_apply, Activation.moveTo_apply]
      rw [run_bind_apply, run_lift_apply, Activation.moveTo_apply, Activation.moved_moved]
      dsimp only
      rw [run_locate_apply]
      generalize (x.eval call fuel act).run (act.moved q s) = r
      cases r with
      | ok r s' => rfl
      | error e s' => cases e <;> rfl
    · rw [Code.eval]

theorem Follows.noted {α : Type} {R : Value → α → Prop} {c : Code} {d : Exec α}
    (h : Follows aim R (c.eval call fuel act) d) (debug : Bool) (pos : Position) :
    Follows aim R ((noteAt debug pos c).eval call fuel act) (act.at_ debug pos d) := by
  rw [eval_noteAt]
  exact h.at_ act debug pos

/-! ### Blocks -/

omit [Host] in
theorem unwrap_noteAt (debug : Bool) (pos : Position) (c : Code) :
    (noteAt debug pos c).unwrap = c.unwrap := by
  unfold noteAt
  split
  · rfl
  · split <;> simp [Code.unwrap]

omit [Host] in
theorem Code.Plain.noted {c : Code} (h : c.Plain) (debug : Bool) (pos : Position) :
    (noteAt debug pos c).Plain := by
  simpa [Plain, unwrap_noteAt] using h

/-- The items of a block, none of them a label, do one after the other what a direct
computation does. -/
structure FollowsAll (call : Callback) (fuel : Nat) (act : Activation) (aim : Exit → Option Jump)
    (items : List Code) (d : Exec Unit) : Prop where
  plain : ∀ c ∈ items, c.Plain
  run : ∀ i last, Follows aim Anything (evalFrom call fuel act (fun _ => none) items i 0 last) d

theorem followsAll_nil : FollowsAll call fuel act aim [] (pure ()) where
  plain _ h := by simp at h
  run i last := by
    rw [evalFrom_nil]
    exact follows_pure trivial

theorem FollowsAll.cons {α : Type} {R : Value → α → Prop} {c : Code} {cs : List Code}
    {d : Exec α} {ds : Exec Unit} (hp : c.Plain) (h : Follows aim R (c.eval call fuel act) d)
    (hs : FollowsAll call fuel act aim cs ds) :
    FollowsAll call fuel act aim (c :: cs) (d >>= fun _ => ds) where
  plain := by simpa [hp] using hs.plain
  run i last := by
    rw [evalFrom_cons]
    exact h.bind fun v _ _ => hs.run (i + 1) v

theorem evalFrom_append (xs ys : List Code) (i : Nat) (last : Value) :
    evalFrom call fuel act (fun _ => none) (xs ++ ys) i 0 last =
      evalFrom call fuel act (fun _ => none) xs i 0 last >>= fun v =>
        evalFrom call fuel act (fun _ => none) ys (i + xs.length) 0 v := by
  induction xs generalizing i last with
  | nil => simp [evalFrom_nil]
  | cons x xs ih =>
    simp only [List.cons_append, evalFrom_cons, bind_assoc, ih, List.length_cons]
    rw [Nat.add_right_comm, Nat.add_assoc]

theorem FollowsAll.append {xs ys : List Code} {d d' : Exec Unit}
    (h : FollowsAll call fuel act aim xs d) (h' : FollowsAll call fuel act aim ys d') :
    FollowsAll call fuel act aim (xs ++ ys) (d >>= fun _ => d') where
  plain := by simpa [or_imp, forall_and] using ⟨h.plain, h'.plain⟩
  run i last := by
    rw [evalFrom_append]
    exact (h.run i last).bind fun v _ _ => h'.run _ v

/-- A block resets its variables and runs its items. -/
theorem FollowsAll.block {items : List Code} {d : Exec Unit}
    (h : FollowsAll call fuel act aim items d) (vars : List Variable) :
    Follows aim Anything ((Code.block vars items).eval call fuel act)
      (do act.clear vars; d) := by
  rw [Code.eval, labelIndex_eq_none h.plain, runBlock_unlabelled]
  exact (follows_lift _).bind fun _ _ _ => h.run 0 .null

theorem FollowsAll.sequence {items : List Code} {d : Exec Unit}
    (h : FollowsAll call fuel act aim items d) :
    Follows aim Anything ((sequenceCode items).eval call fuel act) d := by
  match items with
  | [] =>
    have := h.run 0 .null
    rw [evalFrom_nil] at this
    rw [sequenceCode, Code.eval]
    exact this
  | [c] =>
    have := h.run 0 .null
    simpa only [sequenceCode, evalFrom_cons, evalFrom_nil, bind_pure] using this
  | c :: c' :: cs => exact h.block []

/-! ### Operations -/

theorem eval_dynamic (site : CallSite) (args : List Code) :
    (Code.dynamic site args).eval call fuel act =
      evalArgs call fuel act args >>= fun vs => liftM (act.operate call fuel site vs) := by
  rw [Code.eval]
  congr 1
  funext vs
  refine eq_of_run fun s => ?_
  unfold Activation.operate
  cases site.kind <;> rfl

theorem evalArgs_nil_bind {α : Type} (f : List Value → Eval α) :
    (evalArgs call fuel act [] >>= f) = f [] := by
  rw [evalArgs, pure_bind]

theorem evalArgs_cons_bind {α : Type} (c : Code) (cs : List Code) (f : List Value → Eval α) :
    (evalArgs call fuel act (c :: cs) >>= f) =
      c.eval call fuel act >>= fun v => evalArgs call fuel act cs >>= fun vs => f (v :: vs) := by
  rw [evalArgs]
  simp only [bind_assoc, pure_bind]

theorem follows_args_nil : Follows aim Eq (evalArgs call fuel act []) (pure []) := by
  rw [evalArgs]
  exact follows_pure rfl

theorem Follows.args_cons {c : Code} {cs : List Code} {d : Exec Value} {ds : Exec (List Value)}
    (h : Follows aim Eq (c.eval call fuel act) d) (hs : Follows aim Eq (evalArgs call fuel act cs) ds) :
    Follows aim Eq (evalArgs call fuel act (c :: cs)) (do let v ← d; return v :: (← ds)) := by
  rw [evalArgs]
  refine h.bind ?_
  rintro v _ rfl
  refine hs.bind ?_
  rintro vs _ rfl
  exact follows_pure rfl

theorem evalArgs_append (xs ys : List Code) :
    evalArgs call fuel act (xs ++ ys) =
      (do
        let vs ← evalArgs call fuel act xs
        let ws ← evalArgs call fuel act ys
        return vs ++ ws) := by
  induction xs with
  | nil => simp [evalArgs]
  | cons x xs ih => simp only [List.cons_append, evalArgs, ih, bind_assoc, pure_bind]

/-- Arguments with one more at the end. -/
theorem Follows.args_snoc {cs : List Code} {c : Code} {ds : Exec (List Value)} {d : Exec Value}
    (hs : Follows aim Eq (evalArgs call fuel act cs) ds)
    (h : Follows aim Eq (c.eval call fuel act) d) :
    Follows aim Eq (evalArgs call fuel act (cs ++ [c]))
      (do let vs ← ds; let w ← d; return vs ++ [w]) := by
  rw [evalArgs_append]
  refine hs.bind ?_
  rintro vs _ rfl
  rw [evalArgs_cons_bind]
  refine h.bind ?_
  rintro w _ rfl
  rw [evalArgs_nil_bind]
  exact follows_pure rfl

/-- An operation with an operand of its own and arguments. -/
theorem Follows.operation {c : Code} {cs : List Code} {d : Exec Value} {ds : Exec (List Value)}
    (h : Follows aim Eq (c.eval call fuel act) d) (hs : Follows aim Eq (evalArgs call fuel act cs) ds)
    (site : CallSite) :
    Follows aim Eq ((Code.dynamic site (c :: cs)).eval call fuel act)
      (do let v ← d; let vs ← ds; act.operate call fuel site (v :: vs)) := by
  rw [eval_dynamic, evalArgs_cons_bind]
  refine h.bind ?_
  rintro v _ rfl
  refine hs.bind ?_
  rintro vs _ rfl
  exact follows_lift _

/-- An operation with one operand. -/
theorem Follows.operation_one {c : Code} {d : Exec Value}
    (h : Follows aim Eq (c.eval call fuel act) d) (site : CallSite) :
    Follows aim Eq ((Code.dynamic site [c]).eval call fuel act)
      (do act.operate call fuel site [← d]) := by
  have := h.operation follows_args_nil site
  simpa only [pure_bind] using this

/-- An operation with two operands. -/
theorem Follows.operation_two {c c' : Code} {d d' : Exec Value}
    (h : Follows aim Eq (c.eval call fuel act) d) (h' : Follows aim Eq (c'.eval call fuel act) d')
    (site : CallSite) :
    Follows aim Eq ((Code.dynamic site [c, c']).eval call fuel act)
      (do let v ← d; act.operate call fuel site [v, ← d']) := by
  have := h.operation (h'.args_cons follows_args_nil) site
  simpa only [pure_bind, bind_assoc] using this

/-! ### The context and names -/

theorem follows_var (v : Variable) :
    Follows aim Eq ((Code.var v).eval call fuel act) (act.read v) := by
  rw [Code.eval]
  exact follows_lift _

theorem Follows.onContext {args : List Code} {ds : Exec (List Value)}
    (h : Follows aim Eq (evalArgs call fuel act args) ds) (method : ContextMethod) :
    Follows aim Eq ((contextCode method args).eval call fuel act) (act.onContext method ds) := by
  rw [contextCode, Code.eval]
  refine (follows_var contextVariable).bind ?_
  rintro v _ rfl
  cases v with
  | context id =>
    refine h.bind ?_
    rintro vs _ rfl
    exact follows_lift _
  | _ => exact follows_lift _

theorem follows_globals :
    Follows aim Eq (globalsCode.eval call fuel act) (act.globals : Exec Value) :=
  follows_args_nil.onContext .getGlobals

theorem follows_readGlobal (pos : Position) (name : Bytes) (site : Nat) :
    Follows aim Eq ((globalCode pos name site).eval call fuel act)
      (act.readGlobal call fuel pos name site) :=
  follows_globals.operation_one _

theorem Follows.writeGlobal {c : Code} {d : Exec Value}
    (h : Follows aim Eq (c.eval call fuel act) d) (pos : Position) (name : Bytes) (site : Nat) :
    Follows aim Eq ((setGlobalCode pos name c site).eval call fuel act)
      (act.writeGlobal call fuel pos name d site) :=
  follows_globals.operation_two h _

theorem Follows.assign {c : Code} {d : Exec Value}
    (h : Follows aim Eq (c.eval call fuel act) d) (v : Variable) :
    Follows aim Eq ((Code.assign v c).eval call fuel act)
      (do let y ← d; act.write v y; return y) := by
  rw [Code.eval]
  refine h.bind ?_
  rintro y _ rfl
  exact (follows_lift _).bind fun _ _ _ => follows_pure rfl

/-- Reading a name that has a meaning. -/
theorem follows_readName {env : LowerEnv} {name : Bytes} (hn : (env.meaning? name).isSome = true)
    (pos : Position) (site : Nat) :
    Follows aim Eq ((env.load pos name site).eval call fuel act)
      (act.readName call fuel env pos name site) := by
  unfold LowerEnv.load Activation.readName
  cases hm : env.meaning? name with
  | none => simp [hm] at hn
  | some m =>
    cases m with
    | slot v => exact follows_var v
    | global => exact follows_readGlobal pos name site
    | nspace ns =>
      dsimp only
      rw [Code.eval]
      exact follows_pure rfl

/-- Assigning to a name that is a variable. -/
theorem Follows.writeName {env : LowerEnv} {name : Bytes} (hn : env.canWrite name = true)
    {c : Code} {d : Exec Value} (h : Follows aim Eq (c.eval call fuel act) d) (pos : Position)
    (site : Nat) :
    Follows aim Eq ((env.store pos name c site).eval call fuel act)
      (act.writeName call fuel env pos name d site) := by
  unfold LowerEnv.canWrite at hn
  unfold LowerEnv.store Activation.writeName
  cases hm : env.meaning? name with
  | none => simp [hm] at hn
  | some m =>
    cases m with
    | slot v => exact h.assign v
    | global => exact h.writeGlobal pos name site
    | nspace ns => simp [hm] at hn

/-! ### Conditions and operators -/

theorem Follows.test {c : Code} {d : Exec Value} (h : Follows aim Eq (c.eval call fuel act) d) :
    Follows aim Eq (evalTest ((Code.toBool c).eval call fuel act)) (Activation.test d) := by
  rw [Code.eval, evalTest]
  simp only [bind_assoc, pure_bind]
  refine h.bind ?_
  rintro v _ rfl
  exact (follows_lift get).bind (by rintro s _ rfl; exact follows_pure rfl)

theorem Follows.unary {c : Code} {d : Exec Value} (h : Follows aim Eq (c.eval call fuel act) d)
    (pos : Position) (op : UnaryOp) (site : Nat) :
    Follows aim Eq ((unaryCode pos op c site).eval call fuel act)
      (act.unary call fuel pos op d site) := by
  cases op with
  | not =>
    rw [unaryCode, Code.eval]
    refine h.test.bind ?_
    rintro b _ rfl
    exact follows_pure rfl
  | negate => exact h.operation_one _

theorem Follows.binary {c c' : Code} {d d' : Exec Value}
    (h : Follows aim Eq (c.eval call fuel act) d) (h' : Follows aim Eq (c'.eval call fuel act) d')
    (pos : Position) (op : BinaryOp) (site : Nat) :
    Follows aim Eq ((binaryCode pos op c c' site).eval call fuel act)
      (act.binary call fuel pos op d d' site) := by
  have second : Follows aim Eq (do return Value.bool (← evalTest ((Code.toBool c').eval call fuel act)))
      (do return Value.bool (← Activation.test d')) := by
    refine h'.test.bind ?_
    rintro b _ rfl
    exact follows_pure rfl
  cases op with
  | logicalAnd =>
    rw [binaryCode, Code.eval]
    refine h.test.bind ?_
    rintro b _ rfl
    cases b with
    | true => exact second
    | false => exact follows_pure rfl
  | logicalOr =>
    rw [binaryCode, Code.eval]
    refine h.test.bind ?_
    rintro b _ rfl
    cases b with
    | true => exact follows_pure rfl
    | false => exact second
  | _ => exact h.operation_two h' _

end

end Stencil
