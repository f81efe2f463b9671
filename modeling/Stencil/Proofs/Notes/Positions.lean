import Stencil.Proofs.Manners.Host
import Stencil.Proofs.Notes.Calls
import Stencil.Proofs.Notes.Coverage
import Stencil.Proofs.Notes.Runs
import Stencil.Proofs.Safety.Runs

/-!
# Errors are positioned

An error that arises in code without a place is reported at the note around it, before it leaves
the call: the body of each lambda is covered by notes. A report tells the place of the note and the
active calls of the context. From there on the error is only handed on, by callers and by the host;
a loop may be handed it later, when the error has ended the search that the loop makes. So the error
that a run ends with was reported when it was made.

It is told where an error arises as well: in the part of the noted code that fails so, and has no
note of its own around what fails.
-/

namespace Stencil

/-! ### Covered code -/

section

variable {α β : Type}

/-- Where a computation fails with an error, this tells a place. -/
def Tells (m : Eval α) : Prop :=
  ∀ s e t, m.run s = .error e t → e.isError = true → e.isPlaced = true

theorem tells_of_ok {m : Eval α} (h : ∀ s, ∃ r t, m.run s = .ok r t) : Tells m := by
  intro s e t he
  obtain ⟨r, u, hr⟩ := h s
  rw [hr] at he
  cases he

theorem Tells.bind {m : Eval α} {f : α → Eval β} (h : Tells m) (hf : ∀ a, Tells (f a)) :
    Tells (m >>= f) := by
  intro s e t he
  rw [run_bind_apply] at he
  cases hr : m.run s with
  | ok r u =>
    rw [hr] at he
    cases r with
    | ok a => exact hf a u e t he
    | error j => cases he
  | error e' u =>
    rw [hr] at he
    cases he
    exact h s e t hr

theorem Tells.outcome {m : Eval α} (h : Tells m) : Tells (outcome m) := by
  intro s e t he
  rw [run_outcome_apply] at he
  cases hr : m.run s with
  | ok r u =>
    rw [hr] at he
    cases he
  | error e' u =>
    rw [hr] at he
    cases he
    exact h s e t hr

theorem Tells.ite {c : Prop} [Decidable c] {m n : Eval α} (h : Tells m) (h' : Tells n) :
    Tells (if c then m else n) := by
  split
  · exact h
  · exact h'

/-- What a note is around tells a place where it fails: that of the note, if no other. -/
theorem tells_locate (act : Activation) (pos : Position) (m : Eval α) :
    Tells (.mk (act.locate pos m.run)) := by
  intro s e t he hfail
  rw [run_locate_apply] at he
  cases hr : m.run s with
  | ok r u =>
    rw [hr] at he
    cases he
  | error e' u =>
    rw [hr] at he
    cases e' with
    | missing | plain =>
      cases he
      rfl
    | positioned E =>
      cases he
      rfl
    | panic | exhausted =>
      cases he
      cases hfail

section

variable [Host] {call : Callback} {fuel : Nat} {act : Activation}

theorem tells_debug (pos : Position) (x : Code) : Tells ((Code.debug pos x).eval call fuel act) := by
  rw [Code.eval]
  exact Tells.bind (tells_of_ok fun s => ⟨_, _, rfl⟩) fun _ => tells_locate act pos _

end

end

/-! ### Where errors arise -/

section

variable [Application]

/-- A failure of code in a store arises at a node of it in another store: the node fails so, and so
does each one around it, but none of those that are begun for the node in the same call. None of
these is a note. -/
inductive Arises (n : Nat) (act : Activation) (e : Failure) : Code → Store → Code → Store → Prop where
  | here {c : Code} {s t : Store} (hc : ∀ pos x, c ≠ .debug pos x)
    (hfail : (Task.code n act c).perform s = .error e t)
    (hparts : ∀ d u v, (Task.code n act c).script.Begins s (.code n act d) u →
      (Task.code n act d).perform u ≠ .error e v) : Arises n act e c s c s
  | part {c d x : Code} {s t u v : Store} (hc : ∀ pos x, c ≠ .debug pos x)
    (hfail : (Task.code n act c).perform s = .error e t)
    (hb : (Task.code n act c).script.Begins s (.code n act d) u) (h : Arises n act e d u x v) :
    Arises n act e c s x v

/-- An error without a place has arisen somewhere below. -/
theorem exists_arises {n : Nat} {act : Activation} {e : Failure} {c : Code} {s t : Store}
    (hfail : (Task.code n act c).perform s = .error e t) (he : e.isError = true)
    (hplace : e.isPlaced = false) : ∃ x u, Arises n act e c s x u := by
  generalize htask : Task.code n act c = task at hfail
  induction task, s using Task.induction generalizing c t with
  | h task s ih =>
    subst htask
    have hc (pos : Position) (x : Code) : c ≠ .debug pos x := by
      rintro rfl
      have hplaced := tells_debug pos x s e t hfail he
      rw [hplace] at hplaced
      cases hplaced
    by_cases hparts : ∃ d u v, (Task.code n act c).script.Begins s (.code n act d) u ∧
        (Task.code n act d).perform u = .error e v
    · obtain ⟨d, u, v, hb, hd⟩ := hparts
      obtain ⟨x, w, hx⟩ := ih _ u hb rfl hd
      exact ⟨x, w, .part hc hfail hb hx⟩
    · refine ⟨c, s, .here hc hfail fun d u v hb hd => hparts ⟨d, u, v, hb, hd⟩⟩

/-! ### Reports -/

omit [Application] in
/-- A store in which an error of evaluation is kept for later, as what ended a search. -/
def Store.KeepsError (s : Store) (e : EvalError) : Prop :=
  s.EndedBy (.positioned e) ∨ s.Holds (.positioned e)

/-- What happens where an error is reported: in an active call, under others, there is a note with
its code, and the evaluation of the code from the store before has failed. -/
structure Report where
  call : ActiveCall
  outer : List ActiveCall
  fuel : Nat
  pos : Position
  code : Code
  before : Store
  failure : Failure
  after : Store

namespace Report

omit [Application]

/-- The active calls in the context of the report, innermost first. -/
def calls (r : Report) : List ActiveCall := callsIn r.call.act.ctx (r.call :: r.outer)

/-- The store in which the report is made: the place is noted. -/
def store (r : Report) : Store := r.call.act.moved r.pos r.after

/-- The error that is made of the failure. -/
def error (r : Report) : EvalError where
  pos := r.pos
  msg := r.failure.message
  stack := Action.framesFrom r.store.frames r.store.places r.store.frames.size
    (r.store.context r.call.act.ctx).frame []
  missing := r.failure.isMissing

/-- The context of the report was there when its active calls began. -/
def There (r : Report) : Prop := ∀ a ∈ r.calls, r.call.act.ctx < a.opened.contexts.size

/-- The context of the report is just as deep as it has active calls, and it was in no call when
these began. It is deeper if it still counts a call that a panic has ended, from which the host has
recovered. -/
structure Counted (r : Report) (s : Store) : Prop where
  idle : (s.context r.call.act.ctx).frame = none
  depth : (r.after.context r.call.act.ctx).depth =
    (s.context r.call.act.ctx).depth + r.calls.length

end Report

/-- An errand from a store has an error reported. The note is a part of the body of the lambda whose
call is innermost. An error without a place has arisen in the code under the note, where there is
no other note around it. -/
structure Errand.Reports (d : Errand) (s : Store) (r : Report) : Prop where
  gets : d.Gets s (r.call :: r.outer) (.code r.fuel r.call.act (.debug r.pos r.code)) r.before
  own : Relation.ReflTransGen (fun c e => e ∈ c.parts) r.call.lambda.body (.debug r.pos r.code)
  fails : (Task.code r.fuel r.call.act r.code).perform (r.call.act.moved r.pos r.before) =
    .error r.failure r.after
  isError : r.failure.isError = true
  unplaced : r.failure.isPlaced = false
  arises : ∃ x u, Arises r.fuel r.call.act r.failure r.code (r.call.act.moved r.pos r.before) x u

variable {d : Errand} {s t u : Store} {r : Report}

namespace Errand.Reports

theorem underway (h : d.Reports s r) : Underway s (r.call :: r.outer) r.store := by
  have moved : Lasts r.before (r.call.act.moved r.pos r.before) :=
    .of_inside ((mild_moveTo (M := .none) r.call.act r.pos).inside r.before)
  have fails := Task.lasts (.code r.fuel r.call.act r.code) (r.call.act.moved r.pos r.before)
  rw [h.fails] at fails
  have noted : Lasts r.after r.store :=
    .of_inside ((mild_moveTo (M := .none) r.call.act r.pos).inside r.after)
  exact h.gets.underway.lasts ((moved.trans fails).trans noted)

/-- A context that was there before the errand was there when its active calls began. -/
theorem there (h : d.Reports s r) (hctx : r.call.act.ctx < s.contexts.size) : r.There := by
  intro a ha
  rw [Report.calls] at ha
  exact Nat.lt_of_lt_of_le hctx (h.underway.opened a (List.mem_of_mem_filter ha))

end Errand.Reports

/-! ### Errors are handed on -/

omit [Application] in
/-- Of a store and one after it: errors that are kept anew are of some kind. -/
structure Hands (φ : EvalError → Prop) (s t : Store) : Prop where
  heap : (Manners.placing φ).heap s.toHeap t.toHeap
  holds : ∀ e, t.Holds e → s.Holds e ∨ (Manners.placing φ).failure e

namespace Hands

variable {φ : EvalError → Prop}

omit [Application]

theorem of_eq (hc : t.cursors = s.cursors) (hk : t.kept = s.kept) : Hands φ s t where
  heap e he := by
    rw [Heap.EndedBy, hc] at he
    exact .inl he
  holds e he := .inl (by rwa [Store.Holds, ← hk])

theorem trans (h : Hands φ s t) (h' : Hands φ t u) : Hands φ s u where
  heap := (Manners.placing φ).trans h.heap h'.heap
  holds e he := (h'.holds e he).elim (h.holds e) .inr

theorem keepsError (h : Hands φ s t) {e : EvalError} (he : t.KeepsError e) :
    s.KeepsError e ∨ φ e := by
  rcases he with he | he
  · exact (h.heap _ he).imp .inl fun hφ => hφ e rfl
  · exact (h.holds _ he).imp .inr fun hφ => hφ e rfl

end Hands

/-- The errors that an errand may meet: those that were kept before, and those that are reported. -/
def Errand.Meets (d : Errand) (s : Store) (e : EvalError) : Prop :=
  s.KeepsError e ∨ ∃ r, d.Reports s r ∧ r.error = e

/-- A way on which errors of evaluation that are kept are of some kind. -/
def Way.placing (φ : EvalError → Prop) : Way where
  manners := .placing φ
  Pre s := ∀ e, s.KeepsError e → φ e
  Rel := Hands φ
  Site _ _ _ := True
  trans := .trans
  keep hs h e he := (h.keepsError he).elim (hs e) id
  heap h := h.heap
  inside _ h := ⟨h.heap, h.holds⟩
  begins _ _ _ := .of_eq rfl rfl
  kept hs he p hp := by
    subst hp
    exact hs p he
  calm := False

namespace Way

variable {φ : EvalError → Prop}

theorem turn_placing (hs : (placing φ).Pre s) (ctx : Nat) (f : Closure) (name : Bytes)
    (vars : Array Value) : (placing φ).Turn s ctx f name vars := by
  have entered : Hands φ s (s.entered ctx f name vars) := .of_eq rfl rfl
  constructor
  · exact (placing φ).keep hs entered
  · exact fun t h => (entered.trans h).trans (.of_eq rfl rfl)
  · exact .inr fun t h => entered.trans h

omit [Application] in
theorem hands_write (act : Activation) (v : Variable) (x : Value) (s : Store) :
    Hands φ s (lastStore (act.write v x s)) := by
  rw [Activation.write, bind_apply]
  rcases home_cases act v s with ⟨id, h, -⟩ | ⟨msg, f, h⟩ <;> rw [h] <;> exact .of_eq rfl rfl

/-- What an errand gets to keeps only errors that it may meet. -/
theorem carries_placing (d : Errand) (s : Store) : (placing (d.Meets s)).Carries fun t u =>
    (∃ l, d.Gets s l t u) ∧ (placing (d.Meets s)).Pre u where
  pre h := h.2
  admits := by
    rintro t u ⟨⟨l, hl⟩, -⟩
    cases t with
    | call => exact .call
    | code n act c =>
      refine .code ⟨fun _ _ _ _ => trivial, fun v _ u x hu => hu.trans (hands_write act v x u),
        fun _ _ _ _ _ _ => .of_eq rfl rfl, ?_⟩
      rintro pos x rfl e v he hplace hfail p hp
      obtain ⟨a, l', rfl, rfl, hown⟩ := hl.own
      have reports : d.Reports s ⟨a, l', n, pos, x, u, e, v⟩ :=
        ⟨hl, hown, hfail, he, hplace, exists_arises hfail he hplace⟩
      cases hp
      exact .inr ⟨_, reports, rfl⟩
  begins := by
    rintro t u t' v ⟨⟨l, hl⟩, hu⟩ hb hleads
    refine ⟨hl.next hb, ?_⟩
    cases hleads with
    | part _ h | call h | callback h => exact (placing (d.Meets s)).keep hu h
    | enter => exact (placing (d.Meets s)).keep hu (.of_eq rfl rfl)
  calm h := h.elim

end Way

/-! ### Errands -/

/-- An errand concerns code that is linked. -/
def Errand.Linked (s : Store) : Errand → Prop
  | .run p _ _ => s.units[p.unit]? = some p.lambda.lambdas
  | .call .. => True

section

variable [∀ φ, Application.Mannered (.placing φ)]

/-- What an errand gets to ends only with errors that the errand may meet. -/
theorem Errand.Gets.ends {l : List ActiveCall} {t : Task} {u : Store} (h : d.Gets s l t u)
    (hu : (Way.placing (d.Meets s)).Pre u) :
    (Way.placing (d.Meets s)).Ends t u (ending (t.perform u)) (lastStore (t.perform u)) := by
  have hM : MannersOfAll (.placing (d.Meets s)) := mannersOfAll
  exact ((Way.carries_placing d s).sound (fun hs _ => Way.turn_placing hs ..) hM ⟨⟨l, h⟩, hu⟩).1

end

omit [Application] in
/-- Units of code that were compiled with debug information. -/
def Noted (units : Array (List Lambda)) : Prop :=
  ∀ fs ∈ units, ∃ file src opts stamp f, compile file src opts stamp = .ok f ∧
    opts.debugInfo = true ∧ fs = f.lambdas

namespace Noted

variable {units : Array (List Lambda)}

omit [Application]

theorem compiled (h : Noted units) : Compiled units := fun fs hfs => by
  obtain ⟨file, src, opts, stamp, f, hf, -, hl⟩ := h fs hfs
  exact ⟨file, src, opts, stamp, f, hf, hl⟩

theorem push (h : Noted units) {file src : Bytes} {opts : Options} {stamp : Nat} {f : Lambda}
    (hf : compile file src opts stamp = .ok f) (hd : opts.debugInfo = true) :
    Noted (units.push f.lambdas) := by
  intro fs hfs
  rcases Array.mem_push.1 hfs with hfs | rfl
  · exact h fs hfs
  · exact ⟨file, src, opts, stamp, f, hf, hd, rfl⟩

/-- The bodies of the lambdas are covered by notes that tell places. -/
theorem covered (h : Noted units) {unit : Nat} {g : Lambda} (hg : g ∈ units.getD unit []) :
    g.body.Covered ∧ g.body.WellNoted := by
  rw [Array.getD_eq_getD_getElem?] at hg
  cases hu : units[unit]? with
  | none =>
    rw [hu] at hg
    cases hg
  | some fs =>
    rw [hu] at hg
    obtain ⟨file, src, opts, stamp, f, hf, hd, rfl⟩ := h fs (Array.mem_of_getElem? hu)
    exact covered_of_compile hf hd g hg

/-- The code of a module takes its context, and has a name that no function has. -/
theorem entry (h : Noted units) {p : Program} (hp : units[p.unit]? = some p.lambda.lambdas) :
    p.lambda ∈ units.getD p.unit [] ∧ p.lambda.params.length = 1 ∧
      p.lambda.name = Bytes.ofString "<toplevel>" := by
  obtain ⟨file, src, opts, stamp, f, hf, -, hl⟩ := h _ (Array.mem_of_getElem? hp)
  obtain rfl : p.lambda = f := by
    rw [Lambda.lambdas_eq, Lambda.lambdas_eq] at hl
    exact (List.cons.inj hl).1
  refine ⟨?_, ?_⟩
  · rw [Array.getD_eq_getD_getElem?, hp, Option.getD_some, Lambda.lambdas_eq]
    exact List.mem_cons_self
  · obtain ⟨m, -, -, hlower⟩ := compile_ok hf
    rw [hlower]
    exact ⟨rfl, rfl⟩

end Noted

/-- The lambdas of active calls are linked. -/
theorem Errand.Gets.linked {l : List ActiveCall} {t : Task} (h : d.Gets s l t u) (hd : d.Linked s) :
    ∀ a ∈ l, ∃ unit, a.lambda ∈ s.units.getD unit [] := by
  induction h with
  | start h =>
    cases h with
    | @run p =>
      refine List.forall_mem_singleton.2 ⟨p.unit, ?_⟩
      rw [Array.getD_eq_getD_getElem?, show s.units[p.unit]? = _ from hd, Option.getD_some,
        Lambda.lambdas_eq]
      exact List.mem_cons_self
    | call => exact List.forall_mem_nil _
  | part _ _ ih | call _ _ ih => exact ih
  | @enter l n ctx id heading args f g act u v h hf hg hb ih =>
    refine List.forall_mem_cons.2 ⟨⟨f.unit, ?_⟩, ih⟩
    rw [← h.underway.units]
    exact List.mem_of_find?_eq_some hg

/-- A report tells a place that is known. -/
theorem Errand.Reports.isValid (h : d.Reports s r) (hn : Noted s.units) (hd : d.Linked s) :
    r.pos.isValid = true := by
  obtain ⟨unit, hunit⟩ := h.gets.linked hd r.call List.mem_cons_self
  have node : Code.debug r.pos r.code ∈ r.call.lambda.body.nodes := by
    have hown := h.own
    generalize r.call.lambda.body = c at hown
    induction hown using Relation.ReflTransGen.head_induction_on with
    | refl => exact List.mem_cons_self
    | head hpart _ ih => exact Code.nodes_of_mem_parts hpart ih
  exact (hn.covered hunit).2 _ node

variable [∀ φ, Application.Mannered (.placing φ)] {h : List (Errand × Store)}

end

end Stencil
