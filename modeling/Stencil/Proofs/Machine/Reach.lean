import Stencil.Proofs.Machine.Script
import Stencil.Proofs.Nodes

/-!
# Where the machine gets to

Performing a task begins others, each from the store that is left by what was done before, and so
on: these are the spots that are reached. A script meets an expectation of the tasks it begins and
of its own end if it does so whatever the ends of these tasks are, within what is known of them.
-/

namespace Stencil

variable {ε α β : Type}

/-- How a computation ended. -/
def ending : EStateM.Result Failure Store α → Except Failure α
  | .ok a _ => .ok a
  | .error e _ => .error e

@[simp]
theorem ending_ok (a : α) (s : Store) : ending (.ok a s : EStateM.Result Failure Store α) = .ok a := rfl

@[simp]
theorem ending_error (e : Failure) (s : Store) :
    ending (.error e s : EStateM.Result Failure Store α) = .error e := rfl

theorem Script.inspect_inspect {γ : Type} (m : Script α) (f : Except Failure α → Script β)
    (g : Except Failure β → Script γ) :
    (m.inspect f).inspect g = m.inspect fun r => (f r).inspect g := by
  induction m with
  | done a => rfl
  | fail e => rfl
  | read k ih => exact congrArg Script.read (funext ih)
  | update u k ih => exact congrArg (Script.update u) ih
  | task t k ih => exact congrArg (Script.task t) (funext ih)

/-! ### The parts of code -/

/-- The parts of a clause of a switch. -/
def Code.clause : Code → List Code
  | .case values body => body :: values
  | _ => []

/-- The parts of code that its evaluation may begin. -/
def Code.parts : Code → List Code
  | .absent | .case .. | .constant _ | .empty | .var _ | .lambda .. => []
  | .block _ items | .list items | .dynamic _ items => items
  | .assign _ x | .not x | .toBool x | .loop _ _ x | .label _ x | .goto _ x | .iterate x
  | .moveNext x | .current x | .debug _ x => [x]
  | .andAlso x y | .orElse x y | .tryFinally x y | .filter x y => [x, y]
  | .cond x y z => [x, y, z]
  | .switch x cases dflt _ => x :: dflt :: cases.flatMap Code.clause
  | .contextCall _ x args => x :: args

theorem Code.sizeOf_lt_of_mem_clause {c d : Code} (h : d ∈ c.clause) : sizeOf d < sizeOf c := by
  cases c with
  | case values body =>
    rcases List.mem_cons.1 h with rfl | h
    · simp only [case.sizeOf_spec]
      omega
    · have := List.sizeOf_lt_of_mem h
      simp only [case.sizeOf_spec]
      omega
  | _ => cases h

theorem Code.sizeOf_lt_of_mem_parts {c d : Code} (h : d ∈ c.parts) : sizeOf d < sizeOf c := by
  cases c with
  | absent | case | constant | empty | var | lambda => cases h
  | block _ items | list items | dynamic _ items =>
    have : sizeOf d < sizeOf items := List.sizeOf_lt_of_mem h
    simp only [block.sizeOf_spec, list.sizeOf_spec, dynamic.sizeOf_spec]
    omega
  | switch x cases dflt equal =>
    simp only [switch.sizeOf_spec]
    rcases List.mem_cons.1 h with rfl | h
    · omega
    · rcases List.mem_cons.1 h with rfl | h
      · omega
      · obtain ⟨c, hc, hd⟩ := List.mem_flatMap.1 h
        have := List.sizeOf_lt_of_mem hc
        have := sizeOf_lt_of_mem_clause hd
        omega
  | contextCall _ x args =>
    simp only [contextCall.sizeOf_spec]
    rcases List.mem_cons.1 h with rfl | h
    · omega
    · have := List.sizeOf_lt_of_mem h
      omega
  | assign | not | toBool | loop | label | goto | iterate | moveNext | current | debug =>
    obtain rfl := List.mem_singleton.1 h
    simp
  | andAlso | orElse | tryFinally | filter | cond =>
    simp only [parts, List.mem_cons, List.not_mem_nil, or_false] at h
    rcases h with rfl | rfl | rfl <;> simp <;> omega

/-- The nodes of the parts of code are nodes of the code. -/
theorem Code.nodes_of_mem_parts {c d e : Code} (h : d ∈ c.parts) (he : e ∈ d.nodes) :
    e ∈ c.nodes := by
  have inside {cs : List Code} (hd : d ∈ cs) : e ∈ nodesOf cs := mem_nodesOf.2 ⟨d, hd, he⟩
  cases c with
  | absent | case | constant | empty | var | lambda => cases h
  | block _ items | list items | dynamic _ items => exact List.mem_cons_of_mem _ (inside h)
  | switch x cases dflt equal =>
    simp only [nodes, List.mem_cons, List.mem_append]
    rcases List.mem_cons.1 h with rfl | h
    · exact .inr (.inl (.inl he))
    · rcases List.mem_cons.1 h with rfl | h
      · exact .inr (.inr he)
      · obtain ⟨c, hc, hd⟩ := List.mem_flatMap.1 h
        refine .inr (.inl (.inr (mem_nodesOf.2 ⟨c, hc, ?_⟩)))
        cases c with
        | case values body =>
          refine List.mem_cons_of_mem _ (List.mem_append.2 ?_)
          rcases List.mem_cons.1 hd with rfl | hd
          · exact .inr he
          · exact .inl (inside hd)
        | _ => cases hd
  | contextCall _ x args =>
    simp only [nodes, List.mem_cons, List.mem_append]
    rcases List.mem_cons.1 h with rfl | h
    · exact .inr (.inl he)
    · exact .inr (.inr (inside h))
  | assign | not | toBool | loop | label | goto | iterate | moveNext | current | debug =>
    obtain rfl := List.mem_singleton.1 h
    exact List.mem_cons_of_mem _ he
  | andAlso | orElse | tryFinally | filter | cond =>
    simp only [parts, List.mem_cons, List.not_mem_nil, or_false] at h
    simp only [nodes, List.mem_cons, List.mem_append]
    rcases h with rfl | rfl | rfl <;> simp [he]

/-- What a node assigns to. -/
def Code.written : Code → List Variable
  | .assign v _ => [v]
  | .block vars _ => vars
  | _ => []

/-- The variables of a call of a lambda, when it begins. -/
def Lambda.variables (g : Lambda) (args : List Value) : Array Value :=
  args.toArray ++ Array.replicate (g.slots - args.length) Value.null

section

variable [Application]

theorem Script.run_task_apply (t : Task) (k : Except Failure t.Answer → Script α) (s : Store) :
    (Script.task t k).run s = (k (ending (t.perform s))).run (lastStore (t.perform s)) := by
  simp only [run]
  cases t.perform s <;> rfl

/-! ### Spots -/

/-- A script from a store begins a task at another. -/
inductive Script.Begins : Script α → Store → Task → Store → Prop where
  | read {k : Store → Script α} {s u : Store} {t : Task} :
    Begins (k s) s t u → Begins (.read k) s t u
  | update {f : Store → Store} {k : Script α} {s u : Store} {t : Task} :
    Begins k (f s) t u → Begins (.update f k) s t u
  | here {t : Task} {k : Except Failure t.Answer → Script α} {s : Store} :
    Begins (.task t k) s t s
  | later {t t' : Task} {k : Except Failure t.Answer → Script α} {s u : Store} :
    Begins (k (ending (t.perform s))) (lastStore (t.perform s)) t' u → Begins (.task t k) s t' u

/-- A script from a store gets to a task at another. -/
inductive Script.Gets (m : Script α) (s : Store) : Task → Store → Prop where
  | begins {t : Task} {u : Store} : m.Begins s t u → Gets m s t u
  | next {t t' : Task} {u u' : Store} : Gets m s t u → t.script.Begins u t' u' → Gets m s t' u'

/-- The stores that a script passes through after the one it begins from, one after another. -/
inductive Script.Course : {α : Type} → Script α → Store → List Store → Prop where
  | done {α : Type} {a : α} {s : Store} : Course (.done a) s []
  | fail {α : Type} {e : Failure} {s : Store} : Course (.fail e : Script α) s []
  | read {α : Type} {k : Store → Script α} {s : Store} {l : List Store} :
    Course (k s) s l → Course (.read k) s l
  | update {α : Type} {f : Store → Store} {k : Script α} {s : Store} {l : List Store} :
    Course k (f s) l → Course (.update f k) s (f s :: l)
  | task {α : Type} {t : Task} {k : Except Failure t.Answer → Script α} {s : Store}
    {l l' : List Store} : Course t.script s l →
      Course (k (ending (t.perform s))) (lastStore (t.perform s)) l' → Course (.task t k) s (l ++ l')

/-- From one store to another by way of others, onward all the time. -/
structure Along (M : Manners) (s : Store) (l : List Store) (u : Store) : Prop where
  pairwise : (s :: l).Pairwise (Onward M)
  last : ∀ t ∈ s :: l, Onward M t u

namespace Along

variable {M : Manners} {s t u : Store} {l l' : List Store}

omit [Application] in
theorem refl (s : Store) : Along M s [] s :=
  ⟨List.pairwise_singleton _ _, List.forall_mem_singleton.2 (.refl s)⟩

omit [Application] in
theorem cons (h : Onward M s t) (hl : Along M t l u) : Along M s (t :: l) u := by
  refine ⟨List.pairwise_cons.2 ⟨fun x hx => ?_, hl.pairwise⟩, List.forall_mem_cons.2
    ⟨h.trans (hl.last t List.mem_cons_self), hl.last⟩⟩
  rcases List.mem_cons.1 hx with rfl | hx
  · exact h
  · exact h.trans ((List.pairwise_cons.1 hl.pairwise).1 x hx)

omit [Application] in
theorem append (h : Along M s l t) (h' : Along M t l' u) : Along M s (l ++ l') u := by
  have onward : ∀ x ∈ s :: l, Onward M x u := fun x hx =>
    (h.last x hx).trans (h'.last t List.mem_cons_self)
  obtain ⟨hfirst, hrest⟩ := List.pairwise_cons.1 h'.pairwise
  constructor
  · have hp : ((s :: l) ++ l').Pairwise (Onward M) := List.pairwise_append.2 ⟨h.pairwise, hrest,
      fun x hx y hy => (h.last x hx).trans (hfirst y hy)⟩
    exact hp
  · have hl : ∀ x ∈ (s :: l) ++ l', Onward M x u := List.forall_mem_append.2 ⟨onward, fun x hx =>
      h'.last x (List.mem_cons_of_mem _ hx)⟩
    exact hl

end Along

/-! ### Expectations -/

/-- Whatever a task may end with that is begun from a store, and in which store. -/
abbrev Endings := (t : Task) → Store → Except Failure t.Answer → Store → Prop

omit [Application] in
/-- A script from a store goes onward, begins only tasks as expected and ends as expected, if the
tasks do. -/
def Script.Meets (M : Manners) (P : Task → Store → Prop) (E : Endings)
    (Q : Except Failure α → Store → Prop) : Script α → Store → Prop
  | .done a, s => Q (.ok a) s
  | .fail e, s => Q (.error e) s
  | .read k, s => (k s).Meets M P E Q s
  | .update f k, s => Onward M s (f s) ∧ k.Meets M P E Q (f s)
  | .task t k, s => P t s ∧ ∀ r u, E t s r u → (k r).Meets M P E Q u

namespace Script.Meets

variable {M : Manners} {P P' : Task → Store → Prop} {E E' : Endings}
  {Q Q' : Except Failure α → Store → Prop} {R : Except Failure β → Store → Prop} {m : Script α}
  {s : Store}

omit [Application] in
theorem mono (h : m.Meets M P E Q s) (hP : ∀ t u, P t u → P' t u)
    (hE : ∀ t u r u', P t u → E' t u r u' → E t u r u') (hQ : ∀ r u, Q r u → Q' r u) :
    m.Meets M P' E' Q' s := by
  induction m generalizing s with
  | done a => exact hQ _ s h
  | fail e => exact hQ _ s h
  | read k ih => exact ih s h
  | update f k ih => exact ⟨h.1, ih h.2⟩
  | task t k ih => exact ⟨hP t s h.1, fun r u hr => ih r (h.2 r u (hE t s r u h.1 hr))⟩

omit [Application] in
theorem inspect {k : Except Failure α → Script β} (h : m.Meets M P E Q s)
    (hk : ∀ r u, Q r u → (k r).Meets M P E R u) : (m.inspect k).Meets M P E R s := by
  induction m generalizing s with
  | done a => exact hk _ s h
  | fail e => exact hk _ s h
  | read r ih => exact ih s h
  | update f m ih => exact ⟨h.1, ih h.2⟩
  | task t r ih => exact ⟨h.1, fun a u ha => ih a (h.2 a u ha)⟩

omit [Application] in
/-- An attempt, and what is done after it unless it has ended for good. -/
theorem attempt_bind {k : Except Failure α → Script β} (h : m.Meets M P E Q s)
    (hok : ∀ a u, Q (.ok a) u → (k (.ok a)).Meets M P E R u)
    (herror : ∀ e u, Q (.error e) u → e.isError = true → (k (.error e)).Meets M P E R u)
    (hlost : ∀ e u, Q (.error e) u → e.isError = false → R (.error e) u) :
    (m.attempt >>= k).Meets M P E R s := by
  show Script.Meets M P E R (Script.inspect (Script.inspect m _) _) s
  rw [Script.inspect_inspect]
  refine h.inspect fun r u hr => ?_
  cases r with
  | ok a => exact hok a u hr
  | error e =>
    dsimp only
    cases he : e.isError with
    | true => exact herror e u hr he
    | false => exact hlost e u hr he

omit [Application] in
/-- Steps of the machine, and what is done after them. -/
theorem act_inspect {m : Action α} {k : Except Failure α → Script β}
    (hm : Onward M s (lastStore (m s)))
    (hk : (k (ending (m s))).Meets M P E R (lastStore (m s))) :
    ((Script.act m).inspect k).Meets M P E R s := by
  rw [Script.act, Script.inspect, Script.Meets]
  cases hr : m s with
  | ok a u =>
    rw [hr] at hm hk
    exact ⟨hm, hk⟩
  | error e u =>
    rw [hr] at hm hk
    exact ⟨hm, hk⟩

omit [Application] in
/-- Steps of the machine. -/
theorem of_act {m : Action α} (hm : Onward M s (lastStore (m s)))
    (hq : Q (ending (m s)) (lastStore (m s))) : (Script.act m).Meets M P E Q s := by
  rw [Script.act, Script.Meets]
  cases hr : m s with
  | ok a u =>
    rw [hr] at hm hq
    exact ⟨hm, hq⟩
  | error e u =>
    rw [hr] at hm hq
    exact ⟨hm, hq⟩

omit [Application] in
/-- What is done after steps of the machine. -/
theorem act_bind {m : Action α} {f : α → Script β} {a : α} {u : Store} (hm : m s = .ok a u)
    (hu : Onward M s u) (hf : (f a).Meets M P E R u) :
    ((liftM m : Script α) >>= f).Meets M P E R s := by
  refine act_inspect (m := m) ?_ ?_ <;> rw [hm]
  · exact hu
  · exact hf

omit [Application] in
/-- What is not done any more after a failure of the machine. -/
theorem act_bind_error {m : Action α} {f : α → Script β} {e : Failure} {u : Store}
    (hm : m s = .error e u) (hu : Onward M s u) (hr : R (.error e) u) :
    ((liftM m : Script α) >>= f).Meets M P E R s := by
  refine act_inspect (m := m) ?_ ?_ <;> rw [hm]
  · exact hu
  · exact hr

omit [Application] in
/-- What is done after steps of the machine. -/
theorem steps_bind {m : Action α} {f : α → EvalScript β} {a : α} {u : Store}
    {Q : Except Failure (Except Jump β) → Store → Prop} (hm : m s = .ok a u) (hu : Onward M s u)
    (hf : (f a).run.Meets M P E Q u) :
    ((liftM m : EvalScript α) >>= f).run.Meets M P E Q s := by
  show Script.Meets M P E Q (Script.inspect (Script.inspect (Script.act m) _) _) s
  rw [Script.inspect_inspect]
  refine act_inspect (m := m) ?_ ?_ <;> rw [hm]
  · exact hu
  · exact hf

omit [Application] in
/-- What is not done any more after a failure of the machine. -/
theorem steps_bind_error {m : Action α} {f : α → EvalScript β} {e : Failure} {u : Store}
    {Q : Except Failure (Except Jump β) → Store → Prop} (hm : m s = .error e u) (hu : Onward M s u)
    (hq : Q (.error e) u) : ((liftM m : EvalScript α) >>= f).run.Meets M P E Q s := by
  show Script.Meets M P E Q (Script.inspect (Script.inspect (Script.act m) _) _) s
  rw [Script.inspect_inspect]
  refine act_inspect (m := m) ?_ ?_ <;> rw [hm]
  · exact hu
  · exact hq

omit [Application] in
/-- What is done after a script that may jump. -/
theorem exits_bind {m : EvalScript α} {f : α → EvalScript β}
    {Q : Except Failure (Except Jump α) → Store → Prop}
    {R : Except Failure (Except Jump β) → Store → Prop} (h : m.run.Meets M P E Q s)
    (herror : ∀ e u, Q (.error e) u → R (.error e) u)
    (hjump : ∀ j u, Q (.ok (.error j)) u → R (.ok (.error j)) u)
    (hok : ∀ a u, Q (.ok (.ok a)) u → (f a).run.Meets M P E R u) :
    (m >>= f).run.Meets M P E R s := by
  show Script.Meets M P E R (m.run >>= ExceptT.bindCont fun a => f a) s
  refine h.inspect fun r u hr => ?_
  cases r with
  | error e => exact herror e u hr
  | ok r =>
    cases r with
    | error j => exact hjump j u hr
    | ok a => exact hok a u hr

/-- What is expected comes about. -/
theorem sound (h : m.Meets M P E Q s) (hends : ∀ t u, m.Begins s t u → P t u →
    E t u (ending (t.perform u)) (lastStore (t.perform u))) :
    Q (ending (m.run s)) (lastStore (m.run s)) ∧ ∀ t u, m.Begins s t u → P t u := by
  induction m generalizing s with
  | done a => exact ⟨h, fun t u hb => by cases hb⟩
  | fail e => exact ⟨h, fun t u hb => by cases hb⟩
  | read k ih =>
    obtain ⟨hq, hp⟩ := ih s h fun t u hb => hends t u (.read hb)
    refine ⟨hq, ?_⟩
    rintro t u (⟨hb⟩ | _ | _ | _)
    exact hp t u hb
  | update f k ih =>
    obtain ⟨hq, hp⟩ := ih h.2 fun t u hb => hends t u (.update hb)
    refine ⟨hq, ?_⟩
    rintro t u (_ | ⟨hb⟩ | _ | _)
    exact hp t u hb
  | task t k ih =>
    obtain ⟨hpt, hk⟩ := h
    obtain ⟨hq, hp⟩ := ih _ (hk _ _ (hends t s .here hpt)) fun t' u hb => hends t' u (.later hb)
    constructor
    · rwa [run_task_apply]
    · intro t' u hb
      cases hb with
      | here => exact hpt
      | later hb => exact hp t' u hb

end Script.Meets

end

end Stencil
