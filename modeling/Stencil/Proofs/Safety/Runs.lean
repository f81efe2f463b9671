import Stencil.Proofs.Balance.Runs
import Stencil.Proofs.Safety.Code

/-!
# Runs meet no fault

A call makes a frame that fits the lambda of the function, so the code of a function is evaluated
where it is safe, and no jump leaves it. From calls and runs, and from what a host may do between
them, follows what holds of every store that is ever reached: no fault was met, unless the host
has ended a capture that it did not begin.
-/

namespace Stencil

/-! ### Calls -/

section

variable {s t : Store} {free : Nat → Nat × Nat → Prop}

theorem ScopeChain.lt {frames : Array Frame} {unit : Nat} {scopes : List (Nat × Nat)} {id : Option Nat}
    (h : ScopeChain frames unit scopes id) : ∀ i ∈ id, i < frames.size := by
  cases h with
  | nil => exact fun i hi => by cases hi
  | cons hf =>
    rintro i ⟨⟩
    exact (Array.getElem?_eq_some_iff.1 hf).1

/-- A function is entered safely. A module is entered with a context. -/
theorem safe_entered (s : Store) (ctx : Nat) (f : Closure) (name : Bytes) (vars : Array Value)
    (hhome : f.lambda = contextVariable.owner →
      ∃ c, vars.getD contextVariable.index .null = .context c ∧ c < s.contexts.size) :
    Safe free s (s.entered ctx f name vars) := by
  have size : (s.entered ctx f name vars).contexts.size = s.contexts.size := Array.size_modify
  refine
    { units := rfl, tally := le_rfl, size := Nat.le_of_eq size.symm, frames := .push _ _
      slots := fun i g k hg hk n _ _ => ?_
      sound := fun hs => hs.persist rfl (.push _ _) (Nat.le_of_eq size.symm) (fun i g hg => ?_)
        fun id c hc => .inl hc
      faults := fun _ => rfl }
  · rw [Store.entered, Array.getElem?_push, if_neg (Nat.ne_of_lt (Array.getElem?_eq_some_iff.1 hg).1),
      hg] at hk
    cases hk
    rfl
  · rw [Store.entered, Array.getElem?_push] at hg
    split at hg
    · cases hg
      rw [size]
      exact .inr hhome
    · exact .inl (Array.getElem?_eq_some_iff.1 hg).1

/-- What is left of a function when its code has ended, and has not jumped. -/
theorem safe_leaving {run : Eval Value} {ctx : Nat} {caller : Option Nat} {name : Bytes}
    (h : Safe free s (lastStore (run.run t))) (hj : Lands [] run) :
    Safe free s (lastStore (leaving ctx caller name run t)) := by
  unfold leaving
  cases hr : run.run t with
  | ok r u =>
    rw [hr] at h
    cases r with
    | ok v => exact h.trans (safe_modifyContext u ctx _)
    | error j => exact absurd (hj t j u hr) List.not_mem_nil
  | error e u =>
    rw [hr] at h
    cases e with
    | panic | exhausted => exact h
    | _ => exact h.trans (safe_modifyContext u ctx _)

end

section

variable [Host] {units : Array (List Lambda)} {call : Callback}

omit [Host] in
/-- The lambdas in the code of a unit are found there again, and names have no slot in which a
module finds its context. -/
theorem Compiled.linked (hu : Compiled units) {unit : Nat} {g : Lambda} (hg : g ∈ units.getD unit []) :
    g.body.Linked units unit ∧ ∀ k, UserSlot units unit k → k ≠ contextVariable.key := by
  obtain ⟨f, hf, hl⟩ := hu.proper hg
  refine ⟨fun d hd e he => ?_, fun k hk => hf.context k (userSlot_eq hl ▸ hk)⟩
  have inner : e ∈ f.body.lambdas := by
    rw [hl, Lambda.lambdas_eq] at hg
    refine List.mem_filterMap.2 ⟨d, ?_, he⟩
    rcases List.mem_cons.1 hg with rfl | hg
    · exact hd
    · exact Code.nodes_of_mem_lambdas hg hd
  refine ⟨hf.nested e inner, ?_⟩
  rw [hl]
  refine hf.found e ?_
  rw [Lambda.lambdas_eq]
  exact List.mem_cons_of_mem f inner

/-- No jump leaves the body of a lambda of compiled code, whatever calls do. -/
theorem Compiled.lands (hu : Compiled units) {unit : Nat} {g : Lambda} (hg : g ∈ units.getD unit [])
    (call : Callback) (fuel : Nat) (act : Activation) : Lands [] (g.body.eval call fuel act) := by
  obtain ⟨user, Γ, -, hbody⟩ := hu.typed_body hg
  exact hbody.lands

/-- What a call of a lambda relies on. It is well-formed, the frames of the lambdas around it are
there, and a module is given its context. -/
structure Lambda.Ready (g : Lambda) (f : Closure) (args : List Value) (scopes : List (Nat × Nat))
    (s : Store) : Prop where
  mem : g ∈ s.units.getD f.unit []
  number : f.lambda = g.id
  typed : g.code.Typed (UserSlot s.units f.unit) { scopes } .value
  chain : ScopeChain s.frames f.unit scopes f.env
  home : g.id = contextVariable.owner → ∃ c, args = [.context c] ∧ c < s.contexts.size

variable {g : Lambda} {f : Closure} {args : List Value} {scopes : List (Nat × Nat)} {s : Store}

omit [Host] in
/-- The slots of the arguments, and then those of the other variables. -/
theorem size_slots (hargs : args.length ≤ g.slots) :
    (args.toArray ++ Array.replicate (g.slots - args.length) Value.null).size = g.slots := by
  simp
  omega

/-- The code of a function is safe from when it is entered. -/
theorem Lambda.Ready.safe_body (h : g.Ready f args scopes s) (hu : Compiled units)
    (hcall : PassesCalls (safety none units) call) (hbalance : PassesCalls (balance units) call)
    (hargs : args.length = g.params.length) (hs : (safety none units).Pre s) (fuel ctx : Nat) :
    (safety none units).Rel true s
      (lastStore ((g.body.eval call fuel ⟨ctx, f.unit, s.frames.size⟩).run
        (s.entered ctx f g.name
          (args.toArray ++ Array.replicate (g.slots - args.length) Value.null)))) := by
  obtain ⟨rfl, hsound, -⟩ := hs
  obtain ⟨hparams, hbody⟩ := h.typed.of_lambda
  obtain ⟨hlinked, huser⟩ := hu.linked h.mem
  have hsize := size_slots (hargs ▸ hparams)
  have hhome : f.lambda = contextVariable.owner → ∃ c,
      (args.toArray ++ Array.replicate (g.slots - args.length) Value.null).getD
        contextVariable.index .null = .context c ∧ c < s.contexts.size := by
    intro hown
    obtain ⟨c, rfl, hlt⟩ := h.home (h.number ▸ hown)
    exact ⟨c, by simp [contextVariable, Array.getD_eq_getD_getElem?], hlt⟩
  generalize args.toArray ++ Array.replicate (g.slots - args.length) Value.null = vars at hsize hhome
  let here : Standing := ⟨⟨ctx, f.unit, s.frames.size⟩, (g.id, g.slots) :: scopes, []⟩
  have entered {free : Nat → Nat × Nat → Prop} : Safe free s (s.entered ctx f g.name vars) :=
    safe_entered s ctx f g.name vars hhome
  have holds : here.Holds (s.entered ctx f g.name vars) := by
    refine ⟨?_, fun k hk => absurd hk List.not_mem_nil⟩
    have chain : ScopeChain (s.entered ctx f g.name vars).frames f.unit
        ((f.lambda, vars.size) :: scopes) (some s.frames.size) :=
      .cons Array.getElem?_push_size rfl h.chain.lt (h.chain.persist (.push _ _))
    rwa [h.number, hsize] at chain
  have run := @Code.Typed.safe _ s.units call fuel ⟨ctx, f.unit, s.frames.size⟩ _ _ _ hbody (by simp)
    huser hcall hbalance hlinked (s.entered ctx f g.name vars)
    ⟨rfl, (@entered fun _ _ => False).sound hsound, fun p hp => by cases hp; exact holds⟩
  -- What the code is free to change in its frame is in no frame that was there before.
  refine (entered.trans run).mono fun i k hi n hfree => ?_
  obtain ⟨p, hp, hat, -⟩ := hfree
  cases hp
  exact absurd hat (Nat.ne_of_lt (Array.getElem?_eq_some_iff.1 hi).1)

/-- A call is safe whether the function is entered or not. -/
theorem Lambda.Ready.safe_call (h : g.Ready f args scopes s) (hu : Compiled units)
    (hcall : PassesCalls (safety none units) call) (hbalance : PassesCalls (balance units) call)
    (hs : (safety none units).Pre s) (fuel ctx : Nat) :
    (safety none units).Rel true s (lastStore (g.routine.call f call fuel ctx args s)) := by
  by_cases hargs : args.length = g.params.length
  · rw [g.routine.call_apply f call fuel ctx args s hargs]
    cases (s.context ctx).cancelled with
    | some reason => exact (safety none units).refl hs
    | none =>
      dsimp only
      split
      · exact (safety none units).refl hs
      · exact safe_leaving (h.safe_body hu hcall hbalance hargs hs fuel ctx)
          (hu.lands (hs.1 ▸ h.mem) call fuel _)
  · rw [g.routine.call_wrong f call fuel ctx s hargs]
    exact (safety none units).refl hs

end

section

variable [Application] {units : Array (List Lambda)} {s : Store}

/-- Calls of values are safe. -/
theorem Compiled.safe_calls (hu : Compiled units) (fuel : Nat) :
    PassesCalls (safety none units) (callValue fuel) := by
  refine passes_callWith (fun fuel hcall ctx id args s hs => ?_) fuel
  change Safe _ s (lastStore (callClosure Store.routine? (callValue fuel) fuel ctx id args s))
  cases hclosure : s.closures[id]? with
  | none =>
    rw [callClosure_none hclosure]
    exact @passes_job _ (safety none units) true nilDereference s hs
  | some f =>
    obtain ⟨g, scopes, hg, hown, htyped, hchain⟩ := hs.2.1.closures id f hclosure
    have number : g.id = f.lambda := by simpa [Store.lambda?] using List.find?_some hg
    have ready : g.Ready f args scopes s :=
      ⟨List.mem_of_find?_eq_some hg, number.symm, htyped, hchain, fun h => absurd h hown⟩
    have routine : Store.routine? s f.unit f.lambda = some g.routine := by
      rw [Store.routine?, hg, Option.map_some]
    rw [callClosure_some hclosure routine]
    exact ready.safe_call hu hcall (hu.passesCalls fuel) hs fuel ctx

/-- Runs of programs in contexts that are there are safe. -/
theorem Compiled.safe_run (hu : Compiled s.units) (hs : s.Sound) {p : Program}
    (hp : s.units[p.unit]? = some p.lambda.lambdas) {ctx : Nat} (hctx : ctx < s.contexts.size)
    (fuel : Nat) : (safety none s.units).Rel true s (lastStore (p.run fuel ctx s)) := by
  obtain ⟨t, hprepared, hrun⟩ := p.runAs_apply ctx s
  have hrest := hprepared.rest
  have prepared : (safety none s.units).Rel true s t := by
    refine .of_eq ?_ ?_ (Nat.le_of_eq hprepared.size.symm) ?_ ?_ ?_ <;> rw [hrest]
  have ht := (safety none s.units).keep ⟨rfl, hs, nofun⟩ prepared
  have hunit : s.units.getD p.unit [] = p.lambda.lambdas := by simp [hp, Array.getD_eq_getD_getElem?]
  have hmem : p.lambda ∈ s.units.getD p.unit [] := by simp [hunit]
  obtain ⟨f, hf, hl⟩ := hu.proper hmem
  obtain rfl : p.lambda = f := by
    rw [hunit, Lambda.lambdas_eq, Lambda.lambdas_eq] at hl
    exact (List.cons.inj hl).1
  rw [Program.run, hrun, lastStore_runEnd]
  have ready : p.lambda.Ready p.entry [.context ctx] [] t :=
    { mem := ht.1 ▸ hmem, number := rfl, typed := ht.1 ▸ userSlot_eq hl ▸ hf.typed, chain := .nil
      home := fun _ => ⟨ctx, rfl, hprepared.size ▸ hctx⟩ }
  exact prepared.trans (ready.safe_call hu (hu.safe_calls fuel) (hu.passesCalls fuel) ht fuel ctx)

end

/-! ### Histories -/

/-- What a host does between runs. It leaves what is the machine's own, and takes no context away. -/
structure HostStep (s t : Store) : Prop where
  units : t.units = s.units
  frames : t.frames = s.frames
  closures : t.closures = s.closures
  faults : t.faults = s.faults
  tally : s.tally ≤ t.tally
  size : s.contexts.size ≤ t.contexts.size

/-- The stores that are reached by compiling texts, running their code in contexts that are there,
calling values and doing jobs of the library, in any order and any number of times. -/
inductive Reached [Application] : Store → Prop where
  | start : Reached {}
  | host {s t : Store} (h : Reached s) (ht : HostStep s t) : Reached t
  | link {s : Store} {file src : Bytes} {opts : Options} {stamp : Nat} {f : Lambda} (h : Reached s)
      (hf : compile file src opts stamp = .ok f) : Reached (s.linked f)
  | run {s : Store} {p : Program} {ctx : Nat} (h : Reached s)
      (hp : s.units[p.unit]? = some p.lambda.lambdas) (hctx : ctx < s.contexts.size) (fuel : Nat) :
      Reached (lastStore (p.run fuel ctx s))
  | call {s : Store} (h : Reached s) (fuel ctx : Nat) (fn : Value) (args : List Value) :
      Reached (lastStore (callValue fuel ctx fn args s))
  | job {s : Store} (h : Reached s) (fuel : Nat) {α : Type} (j : Job α) :
      Reached (lastStore (j.run (callValue fuel) s))

section

variable {s t : Store}

theorem HostStep.safe {free : Nat → Nat × Nat → Prop} (h : HostStep s t) : Safe free s t :=
  .of_eq h.units h.tally h.size h.frames h.closures h.faults

/-- A store stays sound when code is linked: no function value stands for a lambda of a unit that
is not there yet. -/
theorem Store.Sound.linked (h : s.Sound) (f : Lambda) : (s.linked f).Sound where
  homes := h.homes
  closures id c hc := by
    obtain ⟨g, scopes, hg, hown, htyped, hchain⟩ := h.closures id c hc
    have old : (s.linked f).units.getD c.unit [] = s.units.getD c.unit [] := by
      refine (getD_push_unit s.units f.lambdas c.unit).trans (if_neg fun hnew => ?_)
      rw [Store.lambda?, hnew] at hg
      simp [Array.getD_eq_getD_getElem?] at hg
    refine ⟨g, scopes, ?_, hown, ?_, hchain⟩
    · rw [Store.lambda?, old]
      exact hg
    · have users : UserSlot (s.linked f).units c.unit = UserSlot s.units c.unit := by
        funext k
        rw [UserSlot, UserSlot, old]
      rwa [users]

/-- What is known of the stores that are reached. -/
structure Store.Standard (s : Store) : Prop where
  compiled : Compiled s.units
  sound : s.Sound
  faultless : s.tally.seized = 0 → s.faults = []

/-- What is safe keeps to this. -/
theorem Store.Standard.safe {free : Nat → Nat × Nat → Prop} (h : s.Standard) (hs : Safe free s t) :
    t.Standard where
  compiled := hs.units ▸ h.compiled
  sound := hs.sound h.sound
  faultless hseized := by
    obtain ⟨-, -, -, hle, -⟩ := Tally.le_def.1 hs.tally
    have before : s.tally.seized = 0 := Nat.le_zero.1 (hseized ▸ hle)
    rw [hs.faults (hseized.trans before.symm), h.faultless before]

variable [Application]

theorem Reached.standard (h : Reached s) : s.Standard := by
  induction h with
  | start =>
    exact ⟨compiled_empty, ⟨fun i f hi => by simp at hi, fun id c hc => by simp at hc⟩, fun _ => rfl⟩
  | host h ht ih => exact ih.safe (@HostStep.safe _ _ (fun _ _ => False) ht)
  | link h hf ih => exact ⟨ih.compiled.push hf, ih.sound.linked _, ih.faultless⟩
  | run h hp hctx fuel ih => exact ih.safe (ih.compiled.safe_run ih.sound hp hctx fuel)
  | call h fuel ctx fn args ih =>
    exact ih.safe ((ih.compiled.safe_calls fuel).loose ctx fn args _ ⟨rfl, ih.sound, nofun⟩)
  | job h fuel j ih => exact ih.safe ((ih.compiled.safe_calls fuel).run j _ ⟨rfl, ih.sound, nofun⟩)

/-- No fault is met, unless host and library end captures. -/
def Faultless {α : Type} (s : Store) (r : EStateM.Result Failure Store α) : Prop :=
  (lastStore r).tally.seized = s.tally.seized → (lastStore r).faults = s.faults

/-- **Evaluation meets no fault.** Take any store that is reached by compiling texts, running their
code, calling values and doing jobs, with whatever the host does in between. No jump leaves the body
of a function, whatever the calls in it do. If host and library have ended no capture so far, no
fault was met on the way; and as long as they end none, none is met by

* running the code of a text that compiles, linked with any values, in a context that is there;
* running a program again;
* calling any value, in whatever context, among them the functions that were made before;
* any job of the library, which may call values as it likes.

So each condition has a truth value and each loop its state, contexts and texts are found where they
should be, no capture is missing, each variable is found in a frame of its lambda, and there is no
node that has no value. -/
theorem evaluation_faultless (h : Reached s) :
    (∀ unit, ∀ g ∈ s.units.getD unit [], ∀ call fuel act, Lands [] (g.body.eval call fuel act)) ∧
    (s.tally.seized = 0 → s.faults = []) ∧
    (∀ file src opts stamp f, compile file src opts stamp = .ok f → ∀ path predeclared fuel ctx,
      ctx < s.contexts.size → Faultless s (runLinked path predeclared fuel ctx f s)) ∧
    (∀ p : Program, s.units[p.unit]? = some p.lambda.lambdas → ∀ fuel ctx, ctx < s.contexts.size →
      Faultless s (p.run fuel ctx s)) ∧
    (∀ fuel ctx fn args, Faultless s (callValue fuel ctx fn args s)) ∧
    (∀ fuel {α : Type} (j : Job α), Faultless s (j.run (callValue fuel) s)) := by
  have hs := h.standard
  have ready : (safety none s.units).Pre s := ⟨rfl, hs.sound, nofun⟩
  have calls (fuel : Nat) := hs.compiled.safe_calls fuel
  refine ⟨fun unit g hg => hs.compiled.lands hg, hs.faultless,
    fun file src opts stamp f hf path predeclared fuel ctx hctx => ?_,
    fun p hp fuel ctx hctx => (hs.compiled.safe_run hs.sound hp hctx fuel).faults,
    fun fuel ctx fn args => ((calls fuel).loose ctx fn args s ready).faults,
    fun fuel _ j => ((calls fuel).run j s ready).faults⟩
  rw [runLinked_apply]
  have linked := (Reached.link h hf).standard
  have hp : (s.linked f).units[s.units.size]? = some f.lambdas := Array.getElem?_push_size
  exact (@Compiled.safe_run _ _ linked.compiled linked.sound ⟨path, predeclared, s.units.size, f⟩ hp
    ctx hctx fuel).faults

end

/-- A run that leaves a template from inside a loop, and then a call of its function. -/
theorem evaluation_faultless_template :
    let src := Bytes.ofString
      "function f(xs) { for (x in xs) { out <|a$if (x == 2) { return x; }$b|>; } } f([1, 2]);"
    let s : Store := { contexts := #[{}] }
    ∃ f, compile [] src {} 0 = .ok f ∧
      let r := @runLinked standalone [] [] 50 0 f s
      let r' := @callValue standalone 50 0 (.function 0 ⟨[], []⟩) [.list 0] (lastStore r)
      comesBack r = true ∧ comesBack r' = true ∧ (lastStore r').faults = [] := by
  intro src s
  have h : (match compile [] src {} 0 with
      | .ok f =>
        let r := @runLinked standalone [] [] 50 0 f s
        let r' := @callValue standalone 50 0 (.function 0 ⟨[], []⟩) [.list 0] (lastStore r)
        comesBack r && comesBack r' && (lastStore r').tally.seized == 0
      | .error _ => false) = true := by
    decide +kernel
  split at h
  · rename_i f hf
    simp only [Bool.and_eq_true, beq_iff_eq] at h
    obtain ⟨⟨hrun, hcall⟩, hseized⟩ := h
    let _ : Application := standalone
    have begun : Reached s := .host .start ⟨rfl, rfl, rfl, rfl, le_rfl, Nat.zero_le _⟩
    have ran : Reached (lastStore (runLinked [] [] 50 0 f s)) :=
      @Reached.run _ _ ⟨[], [], 0, f⟩ 0 (.link begun hf) rfl Nat.one_pos 50
    have called := Reached.call ran 50 0 (.function 0 ⟨[], []⟩) [.list 0]
    exact ⟨f, hf, hrun, hcall, (evaluation_faultless called).2.1 hseized⟩
  · cases h

end Stencil
