import Stencil.Proofs.Machine.Runs
import Stencil.Proofs.Machine.Trail

/-!
# Steps inside a call

Between dispatches and calls the machine takes steps of its own and those that jobs ask for. Such a
step keeps the caches and the code, and it neither enters nor leaves a function. What the step does
to the heap, and the failures that it keeps or ends with, are as the manners of jobs have it. Frames
and function values stay as they are: the steps that assign to variables, and those that make
functions, are told apart from these.
-/

namespace Stencil

variable {ε α β : Type}

/-- The machine keeps a failure that ended a search. -/
def Store.Holds (s : Store) (e : Failure) : Prop := ∃ id, (id, e) ∈ s.kept

/-- A step inside a call that begins no dispatch. -/
structure Inside (M : Manners) (s t : Store) : Prop extends Idle M s t where
  holds : ∀ e, t.Holds e → s.Holds e ∨ M.failure e
  tally : s.tally ≤ t.tally
  frames : t.frames = s.frames
  closures : t.closures = s.closures
  places : t.places.size = s.places.size
  frame : ∀ id, (t.context id).frame = (s.context id).frame
  depth : ∀ id, (t.context id).depth = (s.context id).depth

namespace Inside

variable {M : Manners} {s t u : Store}

/-- A step that concerns neither heap and contexts nor frames and functions. -/
theorem of_eq (hh : t.toHeap = s.toHeap) (hu : t.units = s.units) (hc : t.caches = s.caches)
    (hx : t.contexts = s.contexts) (hk : t.kept = s.kept) (ht : s.tally ≤ t.tally)
    (hf : t.frames = s.frames) (hcl : t.closures = s.closures) (hp : t.places.size = s.places.size) :
    Inside M s t where
  toIdle := .of_eq hh hu hc hx
  holds e he := .inl (by rwa [Store.Holds, ← hk])
  tally := ht
  frames := hf
  closures := hcl
  places := hp
  frame id := by rw [Store.context, Store.context, hx]
  depth id := by rw [Store.context, Store.context, hx]

theorem refl (s : Store) : Inside M s s := .of_eq rfl rfl rfl rfl rfl le_rfl rfl rfl rfl

theorem trans (h : Inside M s t) (h' : Inside M t u) : Inside M s u where
  heap := M.trans h.heap h'.heap
  units := h'.units.trans h.units
  caches := h'.caches.trans h.caches
  size := Nat.le_trans h.size h'.size
  globals id g hg := h'.globals id g (h.globals id g hg)
  holds e he := (h'.holds e he).elim (h.holds e) .inr
  tally := le_trans h.tally h'.tally
  frames := h'.frames.trans h.frames
  closures := h'.closures.trans h.closures
  places := h'.places.trans h.places
  frame id := (h'.frame id).trans (h.frame id)
  depth id := (h'.depth id).trans (h.depth id)

/-- A change of the heap. -/
theorem of_heap {h : Heap} (hm : M.heap s.toHeap h) : Inside M s { s with toHeap := h } :=
  { refl s with heap := hm }

/-- A change of a context in its call that keeps its global object. -/
theorem of_context {id : Nat} {f : Context → Context}
    (hg : ∀ g, (s.context id).globals = some g → (f (s.context id)).globals = some g)
    (hf : (f (s.context id)).frame = (s.context id).frame)
    (hd : (f (s.context id)).depth = (s.context id).depth) :
    Inside M s { s with contexts := s.contexts.modify id f } where
  heap := M.refl _
  units := rfl
  caches := rfl
  size := by simp
  globals j g hj := by
    rcases context_modify s id j f with h | ⟨rfl, h⟩
    · rwa [h]
    · rw [h]
      exact hg g hj
  holds _ := .inl
  tally := le_rfl
  frames := rfl
  closures := rfl
  places := rfl
  frame j := by
    rcases context_modify s id j f with h | ⟨rfl, h⟩
    · rw [h]
    · rw [h]
      exact hf
  depth j := by
    rcases context_modify s id j f with h | ⟨rfl, h⟩
    · rw [h]
    · rw [h]
      exact hd

end Inside

/-! ### Computations inside a call -/

/-- Whatever the store, a computation stays inside the call, and so it does if it fails. -/
structure Mild (M : Manners) (m : Action α) : Prop where
  inside : ∀ s, Inside M s (lastStore (m s))
  failure : ∀ s e t, m s = .error e t → M.failure e

section

variable {M : Manners}

theorem mild_of_ok {m : Action α} (h : ∀ s, ∃ a t, m s = .ok a t ∧ Inside M s t) : Mild M m := by
  constructor
  · intro s
    obtain ⟨a, t, hm, hi⟩ := h s
    rwa [hm]
  · intro s e t hm
    obtain ⟨a, u, hm', -⟩ := h s
    rw [hm'] at hm
    cases hm

theorem mild_pure (a : α) : Mild M (pure a : Action α) := mild_of_ok fun s => ⟨a, s, rfl, .refl s⟩

theorem mild_throw {e : Failure} (he : M.failure e) : Mild M (throw e : Action α) := by
  constructor
  · exact fun s => .refl s
  · rintro s _ _ ⟨⟩
    exact he

theorem mild_fail (msg : Bytes) : Mild M (Action.fail msg : Action α) := mild_throw (M.plain rfl)

theorem mild_panic (msg : Bytes) : Mild M (Action.panic msg : Action α) := mild_throw (M.plain rfl)

theorem Mild.bind {m : Action α} {f : α → Action β} (h : Mild M m) (hf : ∀ a, Mild M (f a)) :
    Mild M (m >>= f) := by
  constructor
  · intro s
    have hm := h.inside s
    rw [bind_apply]
    cases hr : m s with
    | ok a t =>
      rw [hr] at hm
      exact hm.trans ((hf a).inside t)
    | error e t =>
      rw [hr] at hm
      exact hm
  · intro s e u he
    rw [bind_apply] at he
    cases hr : m s with
    | ok a t =>
      rw [hr] at he
      exact (hf a).failure t e u he
    | error e' t =>
      rw [hr] at he
      cases he
      exact h.failure s e u hr

theorem mild_get {f : Store → Action α} (h : ∀ s, Mild M (f s)) : Mild M (get >>= f) :=
  ⟨fun s => (h s).inside s, fun s => (h s).failure s⟩

theorem Mild.ite {c : Prop} [Decidable c] {m n : Action α} (h : Mild M m) (h' : Mild M n) :
    Mild M (if c then m else n) := by
  split
  · exact h
  · exact h'

theorem Mild.map {m : Action α} (h : Mild M m) (f : α → β) : Mild M (f <$> m) := by
  rw [← bind_pure_comp]
  exact h.bind fun a => mild_pure (f a)

theorem Mild.lift {m : Action α} (h : Mild M m) : Mild M (liftM m : ExceptT ε Action α).run :=
  h.map Except.ok

theorem Mild.exits_bind {m : ExceptT ε Action α} {f : α → ExceptT ε Action β} (h : Mild M m.run)
    (hf : ∀ a, Mild M (f a).run) : Mild M (m >>= f).run := by
  show Mild M (m.run >>= ExceptT.bindCont fun a => f a)
  refine h.bind fun r => ?_
  cases r with
  | ok a => exact hf a
  | error e => exact mild_pure _

theorem mild_get_exits {f : Store → ExceptT ε Action α} (h : ∀ s, Mild M (f s).run) :
    Mild M (get >>= f).run := by
  show Mild M (get >>= fun s => (f s).run)
  exact mild_get h

theorem mild_modify {f : Store → Store} (h : ∀ s, Inside M s (f s)) :
    Mild M (modify f : Action Unit) := mild_of_ok fun s => ⟨(), f s, rfl, h s⟩

/-! ### Contexts, writers and places -/

theorem mild_count {f : Tally → Tally} (hf : ∀ t, t ≤ f t) : Mild M (Action.count f) :=
  mild_modify fun s => .of_eq rfl rfl rfl rfl rfl (hf s.tally) rfl rfl rfl

theorem mild_fault (f : Fault) : Mild M (Action.fault f) :=
  mild_modify fun _ => .of_eq rfl rfl rfl rfl rfl le_rfl rfl rfl rfl

theorem mild_context (id : Nat) : Mild M (Action.context id) := mild_of_ok fun s => ⟨_, s, rfl, .refl s⟩

theorem mild_callStack (id : Nat) : Mild M (Action.callStack id) :=
  mild_of_ok fun s => ⟨_, s, rfl, .refl s⟩

theorem mild_modifyContext {id : Nat} {f : Context → Context}
    (hg : ∀ c : Context, (f c).globals = c.globals) (hf : ∀ c : Context, (f c).frame = c.frame)
    (hd : ∀ c : Context, (f c).depth = c.depth) : Mild M (Action.modifyContext id f) :=
  mild_modify fun _ => .of_context (fun _ h => (hg _).trans h) (hf _) (hd _)

theorem mild_newContext : Mild M (Action.newContext {}) := by
  refine mild_of_ok fun s => ⟨_, _, rfl, ?_⟩
  have same (id : Nat) : Store.context { s with contexts := s.contexts.push {} } id = s.context id :=
    getD_push s.contexts {} id
  refine { Inside.refl s with size := by simp, globals := ?_, frame := ?_, depth := ?_ }
  · intro id g hg
    rwa [same]
  · intro id
    rw [same]
  · intro id
    rw [same]

theorem mild_modifySink (id : Nat) (f : Sink → Sink) : Mild M (Action.modifySink id f) :=
  mild_modify fun _ => .of_eq rfl rfl rfl rfl rfl le_rfl rfl rfl rfl

theorem mild_cancel (id : Nat) (reason : Bytes) : Mild M (Action.cancel id reason) :=
  mild_modifyContext (fun _ => rfl) (fun _ => rfl) fun _ => rfl

theorem mild_pushWriter (id : Nat) : Mild M (Action.pushWriter id) :=
  mild_modifyContext (fun _ => rfl) (fun _ => rfl) fun _ => rfl

theorem mild_popWriter (id : Nat) : Mild M (Action.popWriter id) := by
  refine (mild_context id).bind fun c => ?_
  split
  · exact mild_panic _
  · refine Mild.bind ?_ fun _ => mild_pure _
    exact mild_modifyContext (fun _ => rfl) (fun _ => rfl) fun _ => rfl

theorem mild_writePlain (id : Nat) (text : Bytes) : Mild M (Action.writePlain id text) := by
  refine mild_get fun s => ?_
  split
  · exact mild_modifySink _ _
  · exact mild_fail _
  · exact mild_pure _

theorem mild_write (id : Nat) (text : Bytes) : Mild M (Action.write id text) := by
  refine (mild_context id).bind fun c => ?_
  split
  · exact mild_modifyContext (fun _ => rfl) (fun _ => rfl) fun _ => rfl
  · split
    · exact mild_pure _
    · refine mild_get fun s => ?_
      split
      · exact (mild_modifySink _ _).bind fun _ => mild_writePlain _ _
      · exact mild_writePlain _ _

theorem mild_checkCancelled (id : Nat) : Mild M (Action.checkCancelled id) := by
  refine (mild_context id).bind fun c => ?_
  split
  · exact mild_fail _
  · exact mild_pure _

theorem checkCancelled_of_some {s : Store} {ctx : Nat} {reason : Bytes}
    (h : (s.context ctx).cancelled = some reason) : Action.checkCancelled ctx s =
      .error (.plain (Bytes.ofString "execution cancelled: " ++ reason) false) s := by
  rw [Action.checkCancelled, context_bind_apply, h]
  rfl

theorem checkCancelled_of_none {s : Store} {ctx : Nat} (h : (s.context ctx).cancelled = none) :
    Action.checkCancelled ctx s = .ok () s := by
  rw [Action.checkCancelled, context_bind_apply, h]
  rfl

theorem mild_moveTo (act : Activation) (pos : Position) : Mild M (act.moveTo pos) :=
  mild_modify fun _ => .of_eq rfl rfl rfl rfl rfl le_rfl rfl rfl (by simp)

/-! ### Jobs -/

/-- What a job asks for, but for calls. -/
theorem mild_serve (call : Callback) {q : Query} (hq : q.isCall = false) : Mild M (q.serve call) := by
  cases q with
  | call ctx fn args => cases hq
  | context ctx => exact mild_context ctx
  | contextCount => exact mild_of_ok fun s => ⟨_, s, rfl, .refl s⟩
  | newContext => exact mild_newContext
  | cancel ctx reason => exact mild_cancel ctx reason
  | pushWriter ctx =>
    exact (mild_count fun t => Tally.le_def.2 (by simp)).bind fun _ => mild_pushWriter ctx
  | popWriter ctx =>
    exact (mild_count fun t => Tally.le_def.2 (by simp)).bind fun _ => mild_popWriter ctx
  | write ctx text => exact mild_write ctx text
  | callStack ctx =>
    exact (mild_count fun t => Tally.le_def.2 (by simp)).bind fun _ => mild_callStack ctx

/-- What is not a call leaves the heap alone. -/
theorem toHeap_serve (call : Callback) {q : Query} (hq : q.isCall = false) (s : Store) :
    (lastStore (q.serve call s)).toHeap = s.toHeap := by
  have plain (id : Nat) (text : Bytes) (s : Store) :
      (lastStore (Action.writePlain id text s)).toHeap = s.toHeap := by
    rw [Action.writePlain, get_bind_apply]
    cases s.sinks.getD id default <;> rfl
  have sunk (id : Nat) (text : Bytes) : (lastStore (Action.writeSink id text s)).toHeap = s.toHeap := by
    rw [Action.writeSink, get_bind_apply]
    cases s.sinks.getD id default with
    | relay sink last => exact plain sink text _
    | _ => exact plain id text s
  cases q with
  | call ctx fn args => cases hq
  | popWriter ctx =>
    show (lastStore (Action.popWriter ctx
      { s with tally := { s.tally with seized := s.tally.seized + 1 } })).toHeap = s.toHeap
    rw [Action.popWriter, context_bind_apply]
    generalize (Store.context _ ctx).writers = ws
    cases ws <;> rfl
  | write ctx text =>
    rw [Query.serve, Action.write, context_bind_apply]
    cases (s.context ctx).writers with
    | cons w ws => rfl
    | nil =>
      cases (s.context ctx).sink with
      | none => rfl
      | some id => exact sunk id text
  | _ => rfl

/-- A job outside of programs, which calls nothing. -/
theorem mild_job {job : Job α} (hj : job.Mannered M) : Mild M (liftM job : Action α) := by
  have run (s : Store) {Q : α → Heap → Prop} (hj : job.Meets M Q s.toHeap) :
      Inside M s (lastStore ((liftM job : Action α) s)) ∧
        ∀ e t, (liftM job : Action α) s = .error e t → M.failure e := by
    show Inside M s (lastStore (job.run _ s)) ∧ ∀ e t, job.run _ s = .error e t → M.failure e
    clear * - hj
    induction job generalizing s with
    | done a => exact ⟨.refl s, fun e t h => by cases h⟩
    | fail e =>
      refine ⟨.refl s, ?_⟩
      rintro _ _ ⟨⟩
      exact hj
    | read k ih => exact ih s.toHeap s hj
    | update f k ih =>
      obtain ⟨hm, hk⟩ := hj
      obtain ⟨hi, he⟩ := ih { s with toHeap := f s.toHeap } hk
      exact ⟨(Inside.of_heap hm).trans hi, he⟩
    | ask q k ih =>
      have served : Mild M (q.serve fun _ _ _ => Action.panic "call outside a program") := by
        by_cases hq : q.isCall = false
        · exact mild_serve _ hq
        · cases q with
          | call ctx fn args =>
            exact (mild_count fun t => Tally.le_def.2 (by simp)).bind fun _ => mild_panic _
          | _ => exact absurd rfl hq
      have hi := served.inside s
      have he := served.failure s
      rw [run_ask, inspect]
      cases hr : q.serve (fun _ _ _ => Action.panic "call outside a program") s with
      | ok a t =>
        rw [hr] at hi
        have hk := hj t.toHeap (.ok a) hi.heap (fun hq => ?_) fun e h => by cases h
        · obtain ⟨hrest, he'⟩ := ih (.ok a) t hk
          exact ⟨hi.trans hrest, he'⟩
        · rw [← toHeap_serve (fun _ _ _ => Action.panic "call outside a program") hq s, hr]
          rfl
      | error e t =>
        rw [hr] at hi
        have hk := hj t.toHeap (.error e) hi.heap (fun hq => ?_) ?_
        · obtain ⟨hrest, he'⟩ := ih (.error e) t hk
          exact ⟨hi.trans hrest, he'⟩
        · rw [← toHeap_serve (fun _ _ _ => Action.panic "call outside a program") hq s, hr]
          rfl
        · rintro _ ⟨⟩
          exact he e t hr
  exact ⟨fun s => (run s (hj s.toHeap)).1, fun s => (run s (hj s.toHeap)).2⟩

theorem mild_operand (args : List Value) (i : Nat) : Mild M (liftM (operand args i) : Action Value) := by
  refine mild_job ?_
  unfold operand
  split
  · exact Job.mannered_pure _
  · refine Job.Mannered.bind ?_ fun _ => Job.mannered_pure _
    unfold positionIn
    split
    · exact Job.mannered_panic _
    · split
      · exact Job.mannered_panic _
      · exact Job.mannered_pure _

theorem mild_newList (items : Array Value) : Mild M (Action.newList items) :=
  mild_job fun _ => ⟨M.of_eq rfl rfl, trivial⟩

theorem mild_setField (id : Nat) (name : Bytes) (v : Value) : Mild M (Action.setField id name v) :=
  mild_job fun h => ⟨M.of_retains (.setField h id name v) rfl, trivial⟩

theorem mild_field? (id : Nat) (name : Bytes) : Mild M (Action.field? id name) :=
  mild_job fun _ => trivial

/-! ### Variables and contexts -/

variable {act : Activation}

theorem mild_home (v : Variable) : Mild M (act.home v) := by
  refine mild_get fun s => ?_
  split
  · exact (mild_pure _).ite ((mild_fault _).bind fun _ => mild_panic _)
  · exact (mild_fault _).bind fun _ => mild_panic _

theorem mild_read (v : Variable) : Mild M (act.read v) :=
  (mild_home v).bind fun _ => mild_get fun _ => mild_pure _

/-- An assignment concerns frames alone. -/
theorem idle_write (v : Variable) (x : Value) (s : Store) : Idle M s (lastStore (act.write v x s)) := by
  have home : Idle M s (lastStore (act.home v s)) := ((mild_home v).inside s).toIdle
  rw [Activation.write, bind_apply]
  cases h : act.home v s with
  | ok id t =>
    rw [h] at home
    exact home.trans (.of_eq rfl rfl rfl rfl)
  | error e t =>
    rw [h] at home
    exact home

theorem failure_write {v : Variable} {x : Value} {s t : Store} {e : Failure}
    (h : act.write v x s = .error e t) : M.failure e := by
  rw [Activation.write, bind_apply] at h
  cases hr : act.home v s with
  | ok id u =>
    rw [hr] at h
    cases h
  | error e' u =>
    rw [hr] at h
    cases h
    exact (mild_home v).failure s e _ hr

/-- Variables are reset one by one. -/
theorem clear_induction {φ : Store → Prop} {vs : List Variable}
    (hwrite : ∀ v ∈ vs, ∀ s, φ s → φ (lastStore (act.write v .null s))) {s : Store} (hs : φ s) :
    φ (lastStore (act.clear vs s)) ∧ ∀ e t, act.clear vs s = .error e t → M.failure e := by
  induction vs generalizing s with
  | nil => exact ⟨hs, fun e t h => by cases h⟩
  | cons v vs ih =>
    obtain ⟨hv, hvs⟩ := List.forall_mem_cons.1 hwrite
    have hfirst := hv s hs
    rw [Activation.clear, bind_apply]
    cases hr : act.write v .null s with
    | ok a t =>
      rw [hr] at hfirst
      exact ih hvs hfirst
    | error e t =>
      rw [hr] at hfirst
      refine ⟨hfirst, ?_⟩
      rintro _ _ ⟨⟩
      exact failure_write hr

/-- A store in which a function value was made. -/
def Store.closed (s : Store) (act : Activation) (lambda : Nat) : Store :=
  { s with closures := s.closures.push ⟨act.unit, lambda, some act.frame⟩ }

theorem mild_unexpectedNode (kind : String) : Mild M (unexpectedNode kind) :=
  (mild_fault _).bind fun _ => mild_fail _

/-- A store after a context has got its global object. -/
def Store.withGlobals (s : Store) (ctx : Nat) : Store :=
  { s with
    objects := s.objects.push []
    contexts := s.contexts.modify ctx fun c => { c with globals := some s.objects.size } }

theorem inside_withGlobals {s : Store} {ctx : Nat} (h : (s.context ctx).globals = none) :
    Inside M s (s.withGlobals ctx) := by
  have hheap : Inside M s { s with objects := s.objects.push [] } :=
    .of_heap (M.of_retains (.push s.toHeap []) rfl)
  refine hheap.trans (.of_context (fun g hg => ?_) rfl rfl)
  have hg : (s.context ctx).globals = some g := hg
  rw [h] at hg
  cases hg

theorem mild_callContext [Host] (m : ContextMethod) (target : Value) (args : List Value) :
    Mild M (callContext m target args) := by
  cases target with
  | context ctx =>
    cases m with
    | pushWriter => exact (mild_pushWriter ctx).bind fun _ => mild_pure _
    | popWriter =>
      refine (mild_context ctx).bind fun c => Mild.ite ?_ ?_
      · exact (mild_fault _).bind fun _ => mild_fail _
      · exact (mild_popWriter ctx).bind fun _ => mild_pure _
    | write =>
      refine (mild_operand _ _).bind fun v => ?_
      cases v with
      | string text => exact (mild_write ctx text).bind fun _ => mild_pure _
      | _ => exact (mild_fault _).bind fun _ => mild_get fun _ => mild_fail _
    | safeWrite =>
      refine (mild_operand _ _).bind fun v => mild_get fun s => ?_
      exact (mild_write ctx _).bind fun _ => mild_pure _
    | getGlobals =>
      refine mild_of_ok fun s => ?_
      rw [callContext, context_bind_apply]
      cases hg : (s.context ctx).globals with
      | some id => exact ⟨_, s, rfl, .refl s⟩
      | none => exact ⟨_, _, rfl, inside_withGlobals hg⟩
  | _ => exact (mild_fault _).bind fun _ => mild_get fun _ => mild_fail _

theorem mild_asEnumerator [Host] (v : Value) : Mild M (asEnumerator v) := by
  cases v with
  | enumerator id => exact mild_pure id
  | _ => exact (mild_fault _).bind fun _ => mild_get fun _ => mild_fail _

theorem Mild.test [Host] {m : Eval Value} (h : Mild M m.run) : Mild M (evalTest m).run := by
  refine h.exits_bind fun v => ?_
  cases v with
  | bool b => exact mild_pure _
  | _ => exact (mild_fault _).lift.exits_bind fun _ => mild_get_exits fun _ => (mild_fail _).lift

/-! ### Loops over sequences and dispatch -/

theorem mild_interrupt (id : Nat) {e : Failure} (he : M.failure e) : Mild M (Action.interrupt id e) := by
  refine mild_modify fun s => ?_
  split
  · rename_i ctx pred inner ending hcursor
    refine { Inside.of_heap (s := s) (M.setCursor s.toHeap id fun e' he' => ?_) with holds := ?_ }
    · obtain ⟨_, _, _, h⟩ := he'
      cases h
    · rintro e' ⟨j, hj⟩
      rcases List.mem_cons.1 hj with heq | hj
      · cases heq
        exact .inr he
      · exact .inl ⟨j, hj⟩
  · exact .refl s

theorem mild_bindSite [Host] (site : CallSite) (x y : Value) : Mild M (site.bind x y) := by
  constructor
  · intro s
    rw [CallSite.bind_apply]
    cases site.resolve s.toHeap x y <;> exact .refl s
  · intro s e t he
    rw [CallSite.bind_apply] at he
    cases hr : site.resolve s.toHeap x y with
    | ok b =>
      rw [hr] at he
      cases he
    | error _ =>
      rw [hr] at he
      cases he
      exact M.plain rfl

/-! ### Runs -/

theorem mild_ensureGlobals (ctx : Nat) : Mild M (ensureGlobals ctx) := by
  refine mild_of_ok fun s => ?_
  rw [ensureGlobals, context_bind_apply]
  cases hg : (s.context ctx).globals with
  | some id => exact ⟨_, s, rfl, .refl s⟩
  | none => exact ⟨_, _, rfl, inside_withGlobals hg⟩

theorem mild_addMissing (id : Nat) (entries : List (Bytes × Value)) :
    Mild M (addMissing id entries) := by
  induction entries with
  | nil => exact mild_pure _
  | cons e entries ih =>
    obtain ⟨name, v⟩ := e
    exact (mild_field? id name).bind fun _ => ((mild_setField id name v).bind fun _ => ih).ite ih

theorem mild_prelude (p : Program) (ctx : Nat) : Mild M (p.prelude ctx) :=
  (mild_ensureGlobals ctx).bind fun _ => (mild_addMissing _ _).bind fun _ => mild_addMissing _ _

end

/-! ### The jobs of the machine -/

/-- The jobs that the machine runs for code keep to the manners. -/
structure MannersOf [Host] (M : Manners) : Prop where
  newEnumerator : ∀ v, (newEnumerator v).Mannered M
  newFiltered : ∀ ctx source pred, (newFiltered ctx source pred).Mannered M
  nextPlain : ∀ id c, (nextPlain id c).Mannered M
  finish : ∀ cursor, (finish cursor).Mannered M
  perform : ∀ fuel (site : CallSite) args b, (site.perform fuel args b).Mannered M

/-- The jobs that the machine runs keep to the manners, also for calls. -/
structure MannersOfAll [Application] (M : Manners) : Prop extends MannersOf M where
  callOther : ∀ fuel ctx fn args, (callOther fuel ctx fn args).Mannered M

/-- Whatever the host does, anything goes. -/
theorem mannersOfAll_none [Application] : MannersOfAll Manners.none where
  newEnumerator _ := Job.mannered_none _
  newFiltered _ _ _ := Job.mannered_none _
  nextPlain _ _ := Job.mannered_none _
  finish _ := Job.mannered_none _
  perform _ _ _ _ := Job.mannered_none _
  callOther _ _ _ _ := Job.mannered_none _

end Stencil
