import Stencil.Proofs.Machine.Twin

/-!
# What library and host may do

The library and the host change the heap, and of the machine they may write to contexts, begin
and end captures, and ask contexts to stop. None of this touches frames and closures, and a
context is not forgotten: where it writes to, how deep calls may get and that it was asked to
stop. As long as no capture is ended from outside, there are never fewer captures, and what is
written reaches only sinks that are open.
-/

namespace Stencil

variable {α β : Type}

/-! ### Contexts and sinks -/

theorem getD_modify {α : Type} (xs : Array α) (i j : Nat) (f : α → α) (d : α) :
    (xs.modify i f).getD j d = xs.getD j d ∨ j = i ∧ (xs.modify i f).getD j d = f (xs.getD j d) := by
  rw [Array.getD_eq_getD_getElem?, Array.getD_eq_getD_getElem?, Array.getElem?_modify]
  by_cases h : i = j
  · subst h
    cases xs[i]? <;> simp
  · simp [h]

theorem getD_setIfInBounds {α : Type} (xs : Array α) (i j : Nat) (x d : α) :
    (xs.setIfInBounds i x).getD j d = xs.getD j d ∨ j = i ∧ (xs.setIfInBounds i x).getD j d = x := by
  rw [Array.getD_eq_getD_getElem?, Array.getD_eq_getD_getElem?, Array.getElem?_setIfInBounds]
  by_cases h : i = j
  · subst h
    by_cases h' : i < xs.size
    · right
      simp [h']
    · left
      simp [h']
  · simp [h]

/-- One more entry that is like those there are not. -/
theorem getD_push {α : Type} (xs : Array α) (d : α) (j : Nat) : (xs.push d).getD j d = xs.getD j d := by
  rw [Array.getD_eq_getD_getElem?, Array.getD_eq_getD_getElem?, Array.getElem?_push]
  split
  · rename_i h
    subst h
    simp
  · rfl

/-- The state of a context. -/
def Store.context (s : Store) (id : Nat) : Context := s.contexts.getD id {}

/-- The state of a sink. -/
def Store.sink (s : Store) (id : Nat) : Sink := s.sinks.getD id default

theorem context_bind_apply {α : Type} (ctx : Nat) (k : Context → Action α) (s : Store) :
    (Action.context ctx >>= k) s = k (s.context ctx) s := rfl

/-- The sink that a sink passes text on to. -/
def Sink.target? : Sink → Option Nat
  | .relay sink _ => some sink
  | _ => none

/-- What is written to a context that captures nothing reaches the sink. -/
def Store.Reaches (s : Store) (k : Nat) : Prop :=
  ∃ id dest, (s.context id).sink = some dest ∧ (s.context id).writers = [] ∧
    (dest = k ∨ (s.sink dest).target? = some k)

/-- The same captures, but that the innermost one may have got more text. -/
inductive Extended : List (List Bytes) → List (List Bytes) → Prop where
  | none : Extended [] []
  | top (more w : List Bytes) (ws : List (List Bytes)) : Extended (w :: ws) ((more ++ w) :: ws)

namespace Extended

variable {ws ws' ws'' : List (List Bytes)}

theorem refl (ws : List (List Bytes)) : Extended ws ws := by
  cases ws with
  | nil => exact .none
  | cons w ws => exact .top [] w ws

theorem trans (h : Extended ws ws') (h' : Extended ws' ws'') : Extended ws ws'' := by
  cases h with
  | none => exact h'
  | top more w rest =>
    cases h' with
    | top more' w' rest' =>
      rw [← List.append_assoc]
      exact .top _ _ _

theorem length_eq (h : Extended ws ws') : ws'.length = ws.length := by
  cases h <;> rfl

/-- Below the innermost capture nothing has changed. -/
theorem tail_eq (h : Extended ws ws') : ws'.tail = ws.tail := by
  cases h <;> rfl

end Extended

/-! ### What is kept -/

/-- What a run does not take back. -/
structure Keeps (s t : Store) : Prop where
  units : t.units = s.units
  tally : s.tally ≤ t.tally
  size : s.contexts.size ≤ t.contexts.size
  sink : ∀ id, (t.context id).sink = (s.context id).sink
  limit : ∀ id, (t.context id).maxDepth = (s.context id).maxDepth
  cancelled : ∀ id reason, (s.context id).cancelled = some reason →
    (t.context id).cancelled = some reason
  target : ∀ k, (t.sink k).target? = (s.sink k).target?
  depth : t.tally.seized = s.tally.seized →
    ∀ id, (s.context id).writers.length ≤ (t.context id).writers.length
  shut : t.tally.seized = s.tally.seized → ∀ k, ¬ s.Reaches k → t.sink k = s.sink k

section

variable {s t u : Store}

/-- What was counted only in the end was not counted in between. -/
theorem Tally.seized_eq (h : s.tally ≤ t.tally) (h' : t.tally ≤ u.tally)
    (hs : u.tally.seized = s.tally.seized) :
    t.tally.seized = s.tally.seized ∧ u.tally.seized = t.tally.seized := by
  obtain ⟨-, -, -, h, -⟩ := Tally.le_def.1 h
  obtain ⟨-, -, -, h', -⟩ := Tally.le_def.1 h'
  omega

theorem Tally.begun_eq (h : s.tally ≤ t.tally) (h' : t.tally ≤ u.tally)
    (hs : u.tally.begun = s.tally.begun) :
    t.tally.begun = s.tally.begun ∧ u.tally.begun = t.tally.begun := by
  obtain ⟨-, -, h, -, -⟩ := Tally.le_def.1 h
  obtain ⟨-, -, h', -, -⟩ := Tally.le_def.1 h'
  omega

theorem Tally.callbacks_eq (h : s.tally ≤ t.tally) (h' : t.tally ≤ u.tally)
    (hs : u.tally.callbacks = s.tally.callbacks) :
    t.tally.callbacks = s.tally.callbacks ∧ u.tally.callbacks = t.tally.callbacks := by
  obtain ⟨h, -, -, -, -⟩ := Tally.le_def.1 h
  obtain ⟨h', -, -, -, -⟩ := Tally.le_def.1 h'
  omega

namespace Keeps

/-- Contexts keep their settings, and there are not fewer captures. -/
theorem of_contexts (hu : t.units = s.units) (ht : s.tally ≤ t.tally) (hs : t.sinks = s.sinks)
    (hsize : s.contexts.size ≤ t.contexts.size)
    (hc : ∀ id, (t.context id).sink = (s.context id).sink ∧
      (t.context id).maxDepth = (s.context id).maxDepth ∧
      (t.context id).cancelled = (s.context id).cancelled)
    (hd : t.tally.seized = s.tally.seized →
      ∀ id, (s.context id).writers.length ≤ (t.context id).writers.length) : Keeps s t := by
  have sink (k : Nat) : t.sink k = s.sink k := by simp only [Store.sink, hs]
  exact ⟨hu, ht, hsize, fun id => (hc id).1, fun id => (hc id).2.1,
    fun id _ h => (hc id).2.2.trans h, fun k => by rw [sink], hd, fun _ k _ => sink k⟩

/-- Something else is changed. -/
theorem of_eq (hu : t.units = s.units) (ht : s.tally ≤ t.tally) (hc : t.contexts = s.contexts)
    (hs : t.sinks = s.sinks) : Keeps s t := by
  have context (id : Nat) : t.context id = s.context id := by simp only [Store.context, hc]
  refine .of_contexts hu ht hs (hc ▸ Nat.le_refl _) (fun id => ?_) fun _ id => Nat.le_of_eq ?_
  · rw [context]
    exact ⟨rfl, rfl, rfl⟩
  · rw [context]

theorem refl (s : Store) : Keeps s s := .of_eq rfl le_rfl rfl rfl

/-- No sink is opened. -/
theorem reaches (h : Keeps s t) (hs : t.tally.seized = s.tally.seized) {k : Nat}
    (hk : t.Reaches k) : s.Reaches k := by
  obtain ⟨id, dest, hsink, hw, hto⟩ := hk
  refine ⟨id, dest, (h.sink id).symm.trans hsink, ?_, ?_⟩
  · have hle := h.depth hs id
    rw [hw] at hle
    exact List.eq_nil_of_length_eq_zero (Nat.le_zero.1 hle)
  · rwa [← h.target]

theorem trans (h : Keeps s t) (h' : Keeps t u) : Keeps s u where
  units := h'.units.trans h.units
  tally := le_trans h.tally h'.tally
  size := Nat.le_trans h.size h'.size
  sink id := (h'.sink id).trans (h.sink id)
  limit id := (h'.limit id).trans (h.limit id)
  cancelled id reason hc := h'.cancelled id reason (h.cancelled id reason hc)
  target k := (h'.target k).trans (h.target k)
  depth hs id := by
    obtain ⟨h₁, h₂⟩ := Tally.seized_eq h.tally h'.tally hs
    exact Nat.le_trans (h.depth h₁ id) (h'.depth h₂ id)
  shut hs k hk := by
    obtain ⟨h₁, h₂⟩ := Tally.seized_eq h.tally h'.tally hs
    exact (h'.shut h₂ k fun h' => hk (h.reaches h₁ h')).trans (h.shut h₁ k hk)

end Keeps

/-! ### What is done for library and host -/

/-- What library and host may do with a store. -/
structure Serves (s t : Store) : Prop extends Keeps s t where
  frames : t.frames = s.frames
  closures : t.closures = s.closures
  faults : t.faults = s.faults
  frame : ∀ id, (t.context id).frame = (s.context id).frame
  calls : ∀ id, (t.context id).depth = (s.context id).depth
  level : t.tally.begun = s.tally.begun → t.tally.seized = s.tally.seized →
    ∀ id, Extended (s.context id).writers (t.context id).writers

namespace Serves

theorem refl (s : Store) : Serves s s :=
  { Keeps.refl s with
    frames := rfl, closures := rfl, faults := rfl, frame := fun _ => rfl, calls := fun _ => rfl
    level := fun _ _ _ => .refl _ }

theorem trans (h : Serves s t) (h' : Serves t u) : Serves s u :=
  { h.toKeeps.trans h'.toKeeps with
    frames := h'.frames.trans h.frames
    closures := h'.closures.trans h.closures
    faults := h'.faults.trans h.faults
    frame := fun id => (h'.frame id).trans (h.frame id)
    calls := fun id => (h'.calls id).trans (h.calls id)
    level := fun hb hs id => by
      obtain ⟨hb₁, hb₂⟩ := Tally.begun_eq h.tally h'.tally hb
      obtain ⟨hs₁, hs₂⟩ := Tally.seized_eq h.tally h'.tally hs
      exact (h.level hb₁ hs₁ id).trans (h'.level hb₂ hs₂ id) }

/-- Something else is changed. -/
theorem of_eq (hu : t.units = s.units) (ht : s.tally ≤ t.tally) (hc : t.contexts = s.contexts)
    (hs : t.sinks = s.sinks) (hf : t.frames = s.frames) (hcl : t.closures = s.closures)
    (hfa : t.faults = s.faults) : Serves s t := by
  have context (id : Nat) : t.context id = s.context id := by simp only [Store.context, hc]
  exact
    { Keeps.of_eq hu ht hc hs with
      frames := hf, closures := hcl, faults := hfa
      frame := fun id => by rw [context], calls := fun id => by rw [context]
      level := fun _ _ id => by
        rw [context]
        exact .refl _ }

end Serves

/-- What a context keeps while nothing is done with it but writing. -/
structure Context.Bears (c d : Context) : Prop where
  sink : d.sink = c.sink
  limit : d.maxDepth = c.maxDepth
  frame : d.frame = c.frame
  calls : d.depth = c.depth
  cancelled : ∀ reason, c.cancelled = some reason → d.cancelled = some reason
  writers : Extended c.writers d.writers

theorem context_modify (s : Store) (id j : Nat) (f : Context → Context) :
    Store.context { s with contexts := s.contexts.modify id f } j = s.context j ∨
      j = id ∧ Store.context { s with contexts := s.contexts.modify id f } j = f (s.context j) :=
  getD_modify s.contexts id j f {}

theorem context_modify_self {s : Store} {id : Nat} (h : id < s.contexts.size) (f : Context → Context) :
    Store.context { s with contexts := s.contexts.modify id f } id = f (s.context id) := by
  simp [Store.context, Array.getD_eq_getD_getElem?, Array.getElem_modify, h]

theorem context_of_size_le {s : Store} {id : Nat} (h : s.contexts.size ≤ id) : s.context id = {} := by
  simp [Store.context, Array.getD_eq_getD_getElem?, h]

theorem Serves.modifyContext {id : Nat} {f : Context → Context}
    (hf : (s.context id).Bears (f (s.context id))) :
    Serves s { s with contexts := s.contexts.modify id f } := by
  have bears (j : Nat) : (s.context j).Bears
      (Store.context { s with contexts := s.contexts.modify id f } j) := by
    rcases context_modify s id j f with h | ⟨rfl, h⟩
    · rw [h]
      exact ⟨rfl, rfl, rfl, rfl, fun _ h => h, .refl _⟩
    · rw [h]
      exact hf
  exact ⟨⟨rfl, le_rfl, by simp, fun j => (bears j).sink, fun j => (bears j).limit,
    fun j => (bears j).cancelled, fun _ => rfl, fun _ j => Nat.le_of_eq (bears j).writers.length_eq.symm,
    fun _ _ _ => rfl⟩, rfl, rfl, rfl, fun j => (bears j).frame, fun j => (bears j).calls,
    fun _ _ j => (bears j).writers⟩

end

/-- Whichever way it ends, a computation does only what library and host may do. -/
def Stays (m : Action α) : Prop := ∀ s, Serves s (lastStore (m s))

theorem stays_pure (a : α) : Stays (pure a : Action α) := fun s => .refl s

theorem stays_throw (e : Failure) : Stays (throw e : Action α) := fun s => .refl s

theorem Stays.inspect {m : Action α} {k : Except Failure α → Action β} (h : Stays m)
    (hk : ∀ r, Stays (k r)) : Stays (inspect m k) := by
  intro s
  have hs := h s
  unfold Stencil.inspect
  cases hm : m s with
  | ok a s₁ =>
    rw [hm] at hs
    exact hs.trans (hk (.ok a) s₁)
  | error e s₁ =>
    rw [hm] at hs
    exact hs.trans (hk (.error e) s₁)

theorem Stays.bind {m : Action α} {f : α → Action β} (h : Stays m) (hf : ∀ a, Stays (f a)) :
    Stays (m >>= f) := by
  rw [bind_eq_inspect]
  refine h.inspect fun r => ?_
  cases r with
  | ok a => exact hf a
  | error e => exact stays_throw e

theorem stays_context (id : Nat) : Stays (Action.context id) := fun s => .refl s

theorem stays_callStack (id : Nat) : Stays (Action.callStack id) := fun s => .refl s

theorem stays_count {f : Tally → Tally} (hf : ∀ t, t ≤ f t) : Stays (Action.count f) := fun s =>
  .of_eq rfl (hf s.tally) rfl rfl rfl rfl rfl

theorem stays_modifyContext {id : Nat} {f : Context → Context} (hf : ∀ c : Context, c.Bears (f c)) :
    Stays (Action.modifyContext id f) := fun s => .modifyContext (hf (s.context id))

theorem stays_cancel (id : Nat) (reason : Bytes) : Stays (Action.cancel id reason) :=
  stays_modifyContext fun c => ⟨rfl, rfl, rfl, rfl, fun r hr => by rw [hr]; rfl, .refl _⟩

theorem stays_checkCancelled (id : Nat) : Stays (Action.checkCancelled id) := by
  refine (stays_context id).bind fun c => ?_
  split
  · exact stays_throw _
  · exact stays_pure _

/-! ### Writing -/

theorem sink_modify (s : Store) (id k : Nat) (f : Sink → Sink) :
    Store.sink { s with sinks := s.sinks.modify id f } k = s.sink k ∨
      k = id ∧ Store.sink { s with sinks := s.sinks.modify id f } k = f (s.sink k) :=
  getD_modify s.sinks id k f default

/-- A sink that is open is changed, and passes text on as before. -/
theorem Serves.modifySink {s : Store} {id : Nat} {f : Sink → Sink}
    (hf : (f (s.sink id)).target? = (s.sink id).target?) (hr : s.Reaches id) :
    Serves s { s with sinks := s.sinks.modify id f } := by
  refine ⟨⟨rfl, le_rfl, Nat.le_refl _, fun _ => rfl, fun _ => rfl, fun _ _ h => h, fun k => ?_,
    fun _ _ => Nat.le_refl _, fun _ k hk => ?_⟩, rfl, rfl, rfl, fun _ => rfl, fun _ => rfl,
    fun _ _ _ => .refl _⟩
  · rcases sink_modify s id k f with h | ⟨rfl, h⟩
    · rw [h]
    · rw [h, hf]
  · rcases sink_modify s id k f with h | ⟨rfl, -⟩
    · exact h
    · exact absurd hr hk

theorem serves_writePlain {s : Store} {id : Nat} (text : Bytes) (hr : s.Reaches id) :
    Serves s (lastStore (Action.writePlain id text s)) := by
  rw [Action.writePlain, get_bind_apply]
  cases hk : s.sinks.getD id default with
  | collect pieces => exact .modifySink (by rw [Store.sink, hk]; rfl) hr
  | broken reason => exact .refl s
  | relay sink last => exact .refl s

theorem serves_writeSink {s : Store} {ctx id : Nat} (text : Bytes)
    (hs : (s.context ctx).sink = some id) (hw : (s.context ctx).writers = []) :
    Serves s (lastStore (Action.writeSink id text s)) := by
  have here : s.Reaches id := ⟨ctx, id, hs, hw, .inl rfl⟩
  rw [Action.writeSink, get_bind_apply]
  cases hk : s.sinks.getD id default with
  | relay sink last =>
    have hk : s.sink id = .relay sink last := hk
    let s₁ : Store :=
      { s with sinks := s.sinks.modify id fun _ => .relay sink (text.getLast?.getD last) }
    have h₁ : Serves s s₁ := .modifySink (by rw [hk]; rfl) here
    have target : (s₁.sink id).target? = some sink := by
      rw [h₁.target, hk]
      rfl
    exact h₁.trans (serves_writePlain text ⟨ctx, id, (h₁.sink ctx).trans hs, hw, .inr target⟩)
  | collect pieces => exact serves_writePlain text here
  | broken reason => exact serves_writePlain text here

theorem stays_write (ctx : Nat) (text : Bytes) : Stays (Action.write ctx text) := by
  intro s
  rw [Action.write, context_bind_apply]
  cases hw : (s.context ctx).writers with
  | cons w ws => exact .modifyContext ⟨rfl, rfl, rfl, rfl, fun _ h => h, hw ▸ .top [text] w ws⟩
  | nil =>
    cases hs : (s.context ctx).sink with
    | none => exact .refl s
    | some id => exact serves_writeSink text hs hw

/-! ### Queries -/

/-- Captures that are counted may change. -/
theorem Serves.recapture {s : Store} {tally : Tally} (ht : s.tally ≤ tally) {id : Nat}
    {f : List (List Bytes) → List (List Bytes)}
    (hc : tally.begun ≠ s.tally.begun ∨ tally.seized ≠ s.tally.seized)
    (hd : tally.seized = s.tally.seized → ∀ ws, ws.length ≤ (f ws).length) :
    Serves s { s with
      tally, contexts := s.contexts.modify id fun c => { c with writers := f c.writers } } := by
  have cases' (j : Nat) := context_modify s id j fun c => { c with writers := f c.writers }
  have change {φ : Context → Context → Prop} (hrefl : ∀ c, φ c c)
      (hf : ∀ c, φ c { c with writers := f c.writers }) (j : Nat) :
      φ (s.context j) (Store.context { s with
        contexts := s.contexts.modify id fun c => { c with writers := f c.writers } } j) := by
    rcases cases' j with h | ⟨-, h⟩ <;> rw [h]
    · exact hrefl _
    · exact hf _
  refine ⟨⟨rfl, ht, by simp, ?_, ?_, ?_, fun _ => rfl, fun hs => ?_, fun _ _ _ => rfl⟩, rfl, rfl, rfl,
    ?_, ?_, fun hb hs => ?_⟩
  · exact change (φ := fun c d => d.sink = c.sink) (fun _ => rfl) fun _ => rfl
  · exact change (φ := fun c d => d.maxDepth = c.maxDepth) (fun _ => rfl) fun _ => rfl
  · exact change (φ := fun c d => ∀ r, c.cancelled = some r → d.cancelled = some r)
      (fun _ _ h => h) fun _ _ h => h
  · exact change (φ := fun c d => c.writers.length ≤ d.writers.length) (fun _ => Nat.le_refl _)
      fun c => hd hs c.writers
  · exact change (φ := fun c d => d.frame = c.frame) (fun _ => rfl) fun _ => rfl
  · exact change (φ := fun c d => d.depth = c.depth) (fun _ => rfl) fun _ => rfl
  · rcases hc with h | h
    · exact absurd hb h
    · exact absurd hs h

/-- A capture that the host begins. -/
theorem stays_begin (ctx : Nat) : Stays (Action.count (fun t => { t with begun := t.begun + 1 }) >>=
    fun _ => Action.pushWriter ctx) := fun s =>
  Serves.recapture (f := fun ws => [] :: ws) (Tally.le_def.2 (by simp))
    (.inl (Nat.succ_ne_self _)) fun _ ws => Nat.le_succ _

/-- A capture that the host ends. -/
theorem stays_seize (ctx : Nat) : Stays (Action.count (fun t => { t with seized := t.seized + 1 }) >>=
    fun _ => Action.popWriter ctx) := by
  intro s
  have hle : s.tally ≤ { s.tally with seized := s.tally.seized + 1 } := Tally.le_def.2 (by simp)
  show Serves s (lastStore (Action.popWriter ctx
    { s with tally := { s.tally with seized := s.tally.seized + 1 } }))
  rw [Action.popWriter, context_bind_apply]
  cases (Store.context { s with tally := { s.tally with seized := s.tally.seized + 1 } }
      ctx).writers with
  | nil => exact .of_eq rfl hle rfl rfl rfl rfl rfl
  | cons w ws =>
    exact Serves.recapture (f := fun _ => ws) hle (.inr (Nat.succ_ne_self _))
      fun h => absurd h (Nat.succ_ne_self _)

theorem stays_newContext : Stays (Action.newContext {}) := by
  intro s
  have same (id : Nat) : Store.context { s with contexts := s.contexts.push {} } id = s.context id :=
    getD_push s.contexts {} id
  show Serves s { s with contexts := s.contexts.push {} }
  refine ⟨⟨rfl, le_rfl, by simp, fun id => ?_, fun id => ?_, fun id _ h => ?_, fun _ => rfl, fun _ id => ?_,
    fun _ _ _ => rfl⟩, rfl, rfl, rfl, fun id => ?_, fun id => ?_, fun _ _ id => ?_⟩
  · rw [same]
  · rw [same]
  · rwa [same]
  · exact Nat.le_of_eq (by rw [same])
  · rw [same]
  · rw [same]
  · rw [same]
    exact .refl _

/-- What a job asks for, but for calls. -/
theorem stays_serve (call : Callback) (q : Query)
    (h : ∀ ctx fn args, q = .call ctx fn args → Stays (call ctx fn args)) :
    Stays (q.serve call) := by
  cases q with
  | call ctx fn args =>
    exact (stays_count fun t => Tally.le_def.2 (by simp)).bind fun _ => h ctx fn args rfl
  | context ctx => exact stays_context ctx
  | contextCount => exact fun s => .refl s
  | newContext => exact stays_newContext
  | cancel ctx reason => exact stays_cancel ctx reason
  | pushWriter ctx => exact stays_begin ctx
  | popWriter ctx => exact stays_seize ctx
  | write ctx text => exact stays_write ctx text
  | callStack ctx =>
    exact (stays_count fun t => Tally.le_def.2 (by simp)).bind fun _ => stays_callStack ctx

end Stencil
