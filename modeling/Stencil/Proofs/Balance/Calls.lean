import Stencil.Proofs.Machine.Forms
import Stencil.Proofs.Marks

/-!
# The balance of contexts

The frames that the callers of a context lead through are as many as its depth, which is within
its limit. A computation that comes back leaves every context as it was: the call it is in, the
depth of calls and the captures, of which the innermost one may have got more text. One that does
not come back, because of a panic or for want of fuel, still leaves the active calls counted.

All this holds as long as library and host do not call functions of the language; of the captures
it holds as long as they neither begin nor end any either. What holds in any case is that frames
stay, that the slot in which the code of a module finds its context is not assigned to, and that no
function is entered in a context that was asked to stop.
-/

namespace Stencil

/-! ### Active calls -/

/-- The frames from a frame outwards through the callers, counted. -/
inductive CallChain (frames : Array Frame) : Option Nat → Nat → Prop where
  | none : CallChain frames none 0
  | some {i n : Nat} {f : Frame} (hf : frames[i]? = some f) (hc : ∀ j ∈ f.caller, j < i)
      (h : CallChain frames f.caller n) : CallChain frames (some i) (n + 1)

theorem CallChain.lt {frames : Array Frame} {i : Option Nat} {n : Nat} (h : CallChain frames i n) :
    ∀ j ∈ i, j < frames.size := by
  cases h with
  | none => exact fun j hj => by cases hj
  | some hf _ _ =>
    rintro j ⟨⟩
    exact (Array.getElem?_eq_some_iff.1 hf).1

/-- In every context the active calls are as many as its depth, and within its limit. -/
def Store.Chained (s : Store) : Prop :=
  ∀ id, CallChain s.frames (s.context id).frame (s.context id).depth ∧
    (s.context id).depth ≤ (s.context id).depthLimit

/-- What a frame keeps. -/
structure Frame.Persists (f g : Frame) : Prop where
  ctx : g.ctx = f.ctx
  unit : g.unit = f.unit
  lambda : g.lambda = f.lambda
  outer : g.outer = f.outer
  caller : g.caller = f.caller
  size : g.vars.size = f.vars.size
  /-- The slot in which the code of a module finds its context. -/
  home : f.lambda = contextVariable.owner →
    g.vars.getD contextVariable.index .null = f.vars.getD contextVariable.index .null

namespace Frame.Persists

variable {f g h : Frame}

theorem refl (f : Frame) : f.Persists f := ⟨rfl, rfl, rfl, rfl, rfl, rfl, fun _ => rfl⟩

theorem trans (hfg : f.Persists g) (hgh : g.Persists h) : f.Persists h :=
  ⟨hgh.ctx.trans hfg.ctx, hgh.unit.trans hfg.unit, hgh.lambda.trans hfg.lambda,
    hgh.outer.trans hfg.outer, hgh.caller.trans hfg.caller, hgh.size.trans hfg.size,
    fun hl => (hgh.home (hfg.lambda.trans hl)).trans (hfg.home hl)⟩

end Frame.Persists

/-- The frames of one store are still those of another, which may have more. -/
def FramesPersist (xs ys : Array Frame) : Prop :=
  ∀ (i : Nat) (f : Frame), xs[i]? = some f → ∃ g, ys[i]? = some g ∧ f.Persists g

namespace FramesPersist

variable {xs ys zs : Array Frame}

theorem refl (xs : Array Frame) : FramesPersist xs xs := fun _ f hf => ⟨f, hf, .refl f⟩

theorem trans (h : FramesPersist xs ys) (h' : FramesPersist ys zs) : FramesPersist xs zs := by
  intro i f hf
  obtain ⟨g, hg, hfg⟩ := h i f hf
  obtain ⟨k, hk, hgk⟩ := h' i g hg
  exact ⟨k, hk, hfg.trans hgk⟩

theorem push (xs : Array Frame) (f : Frame) : FramesPersist xs (xs.push f) := by
  intro i g hg
  have hi := (Array.getElem?_eq_some_iff.1 hg).1
  refine ⟨g, ?_, .refl g⟩
  rw [Array.getElem?_push, if_neg (Nat.ne_of_lt hi)]
  exact hg

theorem modify {id : Nat} {k : Frame → Frame} (h : ∀ f, xs[id]? = some f → f.Persists (k f)) :
    FramesPersist xs (xs.modify id k) := by
  intro i f hf
  rw [Array.getElem?_modify, hf]
  by_cases hi : id = i
  · subst hi
    exact ⟨k f, by simp, h f hf⟩
  · exact ⟨f, by simp [hi], .refl f⟩

theorem size (h : FramesPersist xs ys) : xs.size ≤ ys.size := by
  by_contra hlt
  have hi : ys.size < xs.size := Nat.lt_of_not_le hlt
  obtain ⟨g, hg, -⟩ := h ys.size xs[ys.size] (Array.getElem?_eq_getElem hi)
  simp at hg

/-- The callers are counted as before. -/
theorem chain (h : FramesPersist xs ys) {i : Option Nat} {n : Nat} (hc : CallChain xs i n) :
    CallChain ys i n := by
  induction hc with
  | none => exact .none
  | some hf hlt _ ih =>
    obtain ⟨g, hg, hfg⟩ := h _ _ hf
    exact .some hg (hfg.caller ▸ hlt) (hfg.caller ▸ ih)

/-- A frame that was found is found again. -/
theorem findFrame (h : FramesPersist xs ys) {owner n m i j : Nat} (hn : n ≤ m) (hj : j < xs.size)
    (hf : Stencil.findFrame xs owner n i = some j) : Stencil.findFrame ys owner m i = some j := by
  induction n generalizing m i with
  | zero => cases hf
  | succ n ih =>
    obtain ⟨m, rfl⟩ : ∃ k, m = k + 1 := ⟨m - 1, by omega⟩
    rw [Stencil.findFrame] at hf ⊢
    cases hx : xs[i]? with
    | none =>
      have hd : xs.getD i default = default := by simp [Array.getD_eq_getD_getElem?, hx]
      rw [hd] at hf
      split at hf
      · cases hf
        simp [Array.getElem?_eq_getElem hj] at hx
      · cases hf
    | some f =>
      obtain ⟨g, hg, hfg⟩ := h i f hx
      have hd : xs.getD i default = f := by simp [Array.getD_eq_getD_getElem?, hx]
      have hd' : ys.getD i default = g := by simp [Array.getD_eq_getD_getElem?, hg]
      rw [hd] at hf
      rw [hd', hfg.lambda, hfg.outer]
      split at hf
      · rename_i hl
        rw [if_pos hl]
        exact hf
      · rename_i hl
        rw [if_neg hl]
        cases ho : f.outer with
        | none =>
          rw [ho] at hf
          cases hf
        | some o =>
          rw [ho] at hf
          exact ih (Nat.le_of_succ_le_succ hn) hf

end FramesPersist

/-! ### Balance -/

/-- Library and host have neither called functions of the language nor begun or ended captures. -/
structure Quiet (s t : Store) : Prop where
  callbacks : t.tally.callbacks = s.tally.callbacks
  begun : t.tally.begun = s.tally.begun
  seized : t.tally.seized = s.tally.seized

/-- A context is in the same call. -/
structure Context.SameCall (c d : Context) : Prop where
  frame : d.frame = c.frame
  depth : d.depth = c.depth

theorem Context.SameCall.refl (c : Context) : c.SameCall c := ⟨rfl, rfl⟩

theorem Context.SameCall.trans {c d e : Context} (h : c.SameCall d) (h' : d.SameCall e) :
    c.SameCall e := ⟨h'.frame.trans h.frame, h'.depth.trans h.depth⟩

/-- A context is in the same call, with the same captures. -/
structure Context.Level (c d : Context) : Prop extends c.SameCall d where
  writers : Extended c.writers d.writers

theorem Context.Level.refl (c : Context) : c.Level c := ⟨.refl c, .refl _⟩

/-- What holds of the stores before and after a computation; `back` tells whether it comes
back. -/
structure Balance (back : Bool) (s t : Store) : Prop extends Keeps s t where
  frames : FramesPersist s.frames t.frames
  entered : ∀ (i : Nat) (g : Frame), t.frames[i]? = some g →
    i < s.frames.size ∨ (s.context g.ctx).cancelled = none
  chained : t.tally.callbacks = s.tally.callbacks → s.Chained → t.Chained
  calls : back = true → t.tally.callbacks = s.tally.callbacks →
    ∀ id, (s.context id).SameCall (t.context id)
  writers : back = true → Quiet s t → ∀ id, Extended (s.context id).writers (t.context id).writers

section

variable {back : Bool} {s t u : Store}

theorem Quiet.split (h : s.tally ≤ t.tally) (h' : t.tally ≤ u.tally) (hq : Quiet s u) :
    Quiet s t ∧ Quiet t u := by
  obtain ⟨hc, hc'⟩ := Tally.callbacks_eq h h' hq.callbacks
  obtain ⟨hb, hb'⟩ := Tally.begun_eq h h' hq.begun
  obtain ⟨hs, hs'⟩ := Tally.seized_eq h h' hq.seized
  exact ⟨⟨hc, hb, hs⟩, ⟨hc', hb', hs'⟩⟩

theorem Keeps.depthLimit (h : Keeps s t) (id : Nat) :
    (t.context id).depthLimit = (s.context id).depthLimit := by
  unfold Context.depthLimit
  rw [h.limit]

namespace Balance

theorem of_serves (h : Serves s t) : Balance back s t where
  toKeeps := h.toKeeps
  frames := h.frames ▸ .refl _
  entered i g hg := by
    rw [h.frames] at hg
    exact .inl (Array.getElem?_eq_some_iff.1 hg).1
  chained _ hc id := by
    obtain ⟨hchain, hle⟩ := hc id
    rw [h.frames, h.frame, h.calls, h.depthLimit]
    exact ⟨hchain, hle⟩
  calls _ _ id := ⟨h.frame id, h.calls id⟩
  writers _ hq id := h.level hq.begun hq.seized id

/-- No frame is new, and no context is changed. -/
theorem of_frames (h : Keeps s t) (hf : FramesPersist s.frames t.frames)
    (hsize : t.frames.size = s.frames.size) (hc : t.contexts = s.contexts) : Balance back s t where
  toKeeps := h
  frames := hf
  entered i g hg := .inl (hsize ▸ (Array.getElem?_eq_some_iff.1 hg).1)
  chained _ hs id := by
    simp only [Store.context, hc]
    exact ⟨hf.chain (hs id).1, (hs id).2⟩
  calls _ _ id := by
    simp only [Store.context, hc]
    exact .refl _
  writers _ _ id := by
    simp only [Store.context, hc]
    exact .refl _

/-- The contexts of a computation that comes back are level. -/
theorem level (h : Balance true s t) (hq : Quiet s t) (id : Nat) :
    (s.context id).Level (t.context id) := ⟨h.calls rfl hq.callbacks id, h.writers rfl hq id⟩

/-- In a context that is in the same call, the active calls are counted as before. -/
theorem chain_of_sameCall (hk : Keeps s t) (hf : FramesPersist s.frames t.frames) {id : Nat}
    (hc : (s.context id).SameCall (t.context id)) (hs : s.Chained) :
    CallChain t.frames (t.context id).frame (t.context id).depth ∧
      (t.context id).depth ≤ (t.context id).depthLimit := by
  rw [hc.frame, hc.depth, hk.depthLimit]
  exact ⟨hf.chain (hs id).1, (hs id).2⟩

theorem weaken (h : Balance true s t) : Balance back s t :=
  { h with calls := fun _ => h.calls rfl, writers := fun _ => h.writers rfl }

theorem trans (h : Balance true s t) (h' : Balance back t u) : Balance back s u where
  toKeeps := h.toKeeps.trans h'.toKeeps
  frames := h.frames.trans h'.frames
  entered i g hg := by
    rcases h'.entered i g hg with hi | hnone
    · obtain ⟨f, hf⟩ : ∃ f, t.frames[i]? = some f := ⟨_, Array.getElem?_eq_getElem hi⟩
      obtain ⟨g', hg', hfg⟩ := h'.frames i f hf
      obtain rfl : g' = g := Option.some.inj (hg'.symm.trans hg)
      rw [hfg.ctx]
      exact h.entered i f hf
    · cases hs : (s.context g.ctx).cancelled with
      | none => exact .inr rfl
      | some reason =>
        rw [h.cancelled g.ctx reason hs] at hnone
        cases hnone
  chained hq hc := by
    obtain ⟨h₁, h₂⟩ := Tally.callbacks_eq h.tally h'.tally hq
    exact h'.chained h₂ (h.chained h₁ hc)
  calls hb hq id := by
    obtain ⟨h₁, h₂⟩ := Tally.callbacks_eq h.tally h'.tally hq
    exact (h.calls rfl h₁ id).trans (h'.calls hb h₂ id)
  writers hb hq id := by
    obtain ⟨h₁, h₂⟩ := hq.split h.tally h'.tally
    exact (h.writers rfl h₁ id).trans (h'.writers hb h₂ id)

theorem heard (h : Balance true s t) (h' : Balance false t u)
    (hc : s.tally.callbacks < t.tally.callbacks) : Balance true s u := by
  have hlt : s.tally.callbacks < u.tally.callbacks :=
    Nat.lt_of_lt_of_le hc (Tally.le_def.1 h'.tally).1
  exact
    { h.trans h' with
      calls := fun _ hq => absurd hq (Nat.ne_of_gt hlt)
      writers := fun _ hq => absurd hq.callbacks (Nat.ne_of_gt hlt) }

end Balance

end

/-- Balance, as long as the units of code are those given. -/
def balance (units : Array (List Lambda)) : Passage where
  Pre s := s.units = units
  Rel := Balance
  serve _ h := .of_serves h
  trans h h' := h.trans h'
  weaken h := h.weaken
  keep hs h := h.units.trans hs
  heard h h' hc := h.heard h' hc

/-! ### Variables -/

section

variable {units : Array (List Lambda)} {p : Bool} {act : Activation}

theorem lenient_balance : (balance units).Lenient := fun _ _ _ =>
  .of_frames (.of_eq rfl le_rfl rfl rfl) (.refl _) rfl rfl

/-- The frame of a variable that was found, or a fault. -/
def Activation.homeOf (act : Activation) (v : Variable) (s : Store) : Option Nat → Action Nat
  | some id =>
    let n := (s.frames.getD id default).vars.size
    if v.index < n then return id
    else do
      Action.fault .noSlot
      Action.panic (Bytes.ofString "runtime error: index out of range [" ++ Bytes.ofNat v.index ++
        "] with length " ++ Bytes.ofNat n)
  | none => do
    Action.fault .outOfScope
    Action.panic (Bytes.ofString "happy: variable " ++ v.name ++ " of " ++ v.ownerName ++
      " is not in scope in " ++ (s.frames.getD act.frame default).name)

theorem home_apply (act : Activation) (v : Variable) (s : Store) :
    act.home v s = act.homeOf v s (findFrame s.frames v.owner s.frames.size act.frame) s := by
  show (match findFrame s.frames v.owner s.frames.size act.frame with
    | some id => _
    | none => _ : Action Nat) s = _
  cases findFrame s.frames v.owner s.frames.size act.frame <;> rfl

theorem home_of_found {v : Variable} {s : Store} {id : Nat}
    (hf : findFrame s.frames v.owner s.frames.size act.frame = some id)
    (hi : v.index < (s.frames.getD id default).vars.size) : act.home v s = .ok id s := by
  rw [home_apply, hf]
  simp only [Activation.homeOf, if_pos hi]
  rfl

/-- The frame of a variable is found, or a fault is met. -/
theorem home_cases (act : Activation) (v : Variable) (s : Store) :
    (∃ id, act.home v s = .ok id s ∧
      findFrame s.frames v.owner s.frames.size act.frame = some id ∧
      v.index < (s.frames.getD id default).vars.size) ∨
    ∃ msg f, act.home v s = .error (.panic msg false) { s with faults := f :: s.faults } := by
  rw [home_apply]
  cases hf : findFrame s.frames v.owner s.frames.size act.frame with
  | none => exact .inr ⟨_, _, rfl⟩
  | some id =>
    by_cases hi : v.index < (s.frames.getD id default).vars.size
    · exact .inl ⟨id, by simp only [Activation.homeOf, if_pos hi]; rfl, rfl, hi⟩
    · exact .inr ⟨_, .noSlot, by simp only [Activation.homeOf, if_neg hi]; rfl⟩

theorem read_apply {v : Variable} {s : Store} {id : Nat} (h : act.home v s = .ok id s) :
    act.read v s = .ok ((s.frames.getD id default).vars.getD v.index .null) s := by
  rw [Activation.read, bind_apply, h]
  rfl

theorem findFrame_lambda {frames : Array Frame} {owner n i j : Nat}
    (h : findFrame frames owner n i = some j) : (frames.getD j default).lambda = owner := by
  induction n generalizing i with
  | zero => cases h
  | succ n ih =>
    rw [findFrame] at h
    split at h
    · cases h
      assumption
    · split at h
      · exact ih h
      · cases h

theorem passes_home (v : Variable) : Passes (balance units) p (act.home v) := by
  intro s hs
  rcases home_cases act v s with ⟨id, h, -, -⟩ | ⟨msg, f, h⟩
  · rw [h]
    exact (balance units).refl hs
  · rw [h]
    exact (balance units).weaken' (lenient_balance s f hs)

theorem passes_read (v : Variable) : Passes (balance units) p (act.read v) :=
  (passes_home v).bind fun _ => passes_get fun _ => passes_pure _

/-- The slot of the context is not assigned to. -/
theorem passes_write {v : Variable} (hv : v.key ≠ contextVariable.key) (x : Value) :
    Passes (balance units) p (act.write v x) := by
  intro s hs
  rcases home_cases act v s with ⟨id, h, hfind, hi⟩ | ⟨msg, f, h⟩
  · have hw : act.write v x s = .ok () { s with
        frames := s.frames.modify id fun f => { f with vars := f.vars.setIfInBounds v.index x } } := by
      rw [Activation.write, bind_apply, h]
      rfl
    have hlambda := findFrame_lambda hfind
    rw [hw]
    refine (balance units).weaken' (.of_frames (.of_eq rfl le_rfl rfl rfl)
      (.modify fun f hf => ?_) (by simp) rfl)
    obtain rfl : s.frames.getD id default = f := by simp [Array.getD_eq_getD_getElem?, hf]
    refine ⟨rfl, rfl, rfl, rfl, rfl, by simp, fun hl => ?_⟩
    have hne : v.index ≠ contextVariable.index := fun he =>
      hv (Prod.ext (hlambda.symm.trans hl) he)
    rcases getD_setIfInBounds (s.frames.getD id default).vars v.index contextVariable.index x .null
      with hsame | ⟨he, -⟩
    · exact hsame
    · exact absurd he.symm hne
  · have hw : act.write v x s = .error (.panic msg false) { s with faults := f :: s.faults } := by
      rw [Activation.write, bind_apply, h]
    rw [hw]
    exact (balance units).weaken' (lenient_balance s f hs)

theorem passes_clear {vs : List Variable} (h : ∀ v ∈ vs, v.key ≠ contextVariable.key) :
    Passes (balance units) p (act.clear vs) := by
  induction vs with
  | nil => exact passes_pure ()
  | cons v vs ih =>
    obtain ⟨hv, hvs⟩ := List.forall_mem_cons.1 h
    exact (passes_write hv .null).bind fun _ => ih hvs

theorem passes_newClosure (lambda : Nat) (heading : Heading) :
    Passes (balance units) p (newClosure act lambda heading) := fun _ _ =>
  .of_frames (.of_eq rfl le_rfl rfl rfl) (.refl _) rfl rfl

end

/-! ### Calls -/

/-- A store after a function was entered. -/
def Store.entered (s : Store) (ctx : Nat) (f : Closure) (name : Bytes) (vars : Array Value) : Store :=
  { s with
    frames := s.frames.push { ctx, unit := f.unit, lambda := f.lambda, name, vars, outer := f.env,
                              caller := (s.context ctx).frame }
    places := s.places.push .unknown
    contexts := s.contexts.modify ctx fun c =>
      { c with frame := some s.frames.size, depth := c.depth + 1 } }

/-- A store after a function was left. -/
def Store.left (s : Store) (ctx : Nat) (caller : Option Nat) : Store :=
  { s with contexts := s.contexts.modify ctx fun c => { c with depth := c.depth - 1, frame := caller } }

section

variable {s t : Store} {ctx : Nat} {f : Closure} {name : Bytes} {vars : Array Value}

theorem context_entered (s : Store) (ctx : Nat) (f : Closure) (name : Bytes) (vars : Array Value)
    (id : Nat) :
    (s.entered ctx f name vars).context id = s.context id ∨ id = ctx ∧
      (s.entered ctx f name vars).context id =
        { s.context id with frame := some s.frames.size, depth := (s.context id).depth + 1 } :=
  context_modify s ctx id _

theorem context_left (s : Store) (ctx : Nat) (caller : Option Nat) (id : Nat) :
    (s.left ctx caller).context id = s.context id ∨ id = ctx ∧
      (s.left ctx caller).context id =
        { s.context id with depth := (s.context id).depth - 1, frame := caller } :=
  context_modify s ctx id _

theorem writers_entered (s : Store) (ctx : Nat) (f : Closure) (name : Bytes) (vars : Array Value)
    (id : Nat) : ((s.entered ctx f name vars).context id).writers = (s.context id).writers := by
  rcases context_entered s ctx f name vars id with h | ⟨-, h⟩ <;> rw [h]

theorem writers_left (s : Store) (ctx : Nat) (caller : Option Nat) (id : Nat) :
    ((s.left ctx caller).context id).writers = (s.context id).writers := by
  rcases context_left s ctx caller id with h | ⟨-, h⟩ <;> rw [h]

theorem keeps_entered : Keeps s (s.entered ctx f name vars) := by
  refine .of_contexts rfl le_rfl rfl (by simp [Store.entered]) (fun id => ?_) fun _ id =>
    Nat.le_of_eq ?_
  · rcases context_entered s ctx f name vars id with h | ⟨-, h⟩ <;> rw [h] <;> exact ⟨rfl, rfl, rfl⟩
  · rcases context_entered s ctx f name vars id with h | ⟨-, h⟩ <;> rw [h]

theorem keeps_left {caller : Option Nat} : Keeps s (s.left ctx caller) := by
  refine .of_contexts rfl le_rfl rfl (by simp [Store.left]) (fun id => ?_) fun _ id => Nat.le_of_eq ?_
  · rcases context_left s ctx caller id with h | ⟨-, h⟩ <;> rw [h] <;> exact ⟨rfl, rfl, rfl⟩
  · rcases context_left s ctx caller id with h | ⟨-, h⟩ <;> rw [h]

theorem chained_entered (hd : (s.context ctx).depth < (s.context ctx).depthLimit) (hs : s.Chained) :
    (s.entered ctx f name vars).Chained := by
  intro id
  have persist : FramesPersist s.frames (s.entered ctx f name vars).frames := .push _ _
  obtain ⟨hchain, hle⟩ := hs id
  rcases context_entered s ctx f name vars id
    with h | ⟨rfl, h⟩ <;> rw [h]
  · exact ⟨persist.chain hchain, hle⟩
  · exact ⟨.some Array.getElem?_push_size hchain.lt (persist.chain hchain), hd⟩

variable {b : Bool}

/-- A function was entered and not left. -/
theorem Balance.enter (hn : (s.context ctx).cancelled = none)
    (hd : (s.context ctx).depth < (s.context ctx).depthLimit)
    (h : Balance b (s.entered ctx f name vars) t) : Balance false s t where
  toKeeps := keeps_entered.trans h.toKeeps
  frames := FramesPersist.trans (.push _ _) h.frames
  entered i g hg := by
    rcases h.entered i g hg with hi | hnone
    · obtain ⟨k, hk⟩ : ∃ k, (s.entered ctx f name vars).frames[i]? = some k :=
        ⟨_, Array.getElem?_eq_getElem hi⟩
      obtain ⟨g', hg', hkg⟩ := h.frames i k hk
      obtain rfl : g' = g := Option.some.inj (hg'.symm.trans hg)
      rw [Store.entered, Array.getElem?_push] at hk
      split at hk
      · cases hk
        rw [hkg.ctx]
        exact .inr hn
      · exact .inl (Array.getElem?_eq_some_iff.1 hk).1
    · refine .inr ?_
      rcases context_entered s ctx f name vars g.ctx
        with h' | ⟨-, h'⟩ <;> rwa [h'] at hnone
  chained hq hs := h.chained hq (chained_entered hd hs)
  calls h := by cases h
  writers h := by cases h

/-- A function was entered and left. -/
theorem Balance.leave (hn : (s.context ctx).cancelled = none)
    (hd : (s.context ctx).depth < (s.context ctx).depthLimit)
    (h : Balance true (s.entered ctx f name vars) t) :
    Balance true s (t.left ctx (s.context ctx).frame) := by
  have persist : FramesPersist s.frames t.frames := FramesPersist.trans (.push _ _) h.frames
  have calls (hq : t.tally.callbacks = s.tally.callbacks) (id : Nat) :
      (s.context id).SameCall ((t.left ctx (s.context ctx).frame).context id) := by
    obtain ⟨hframe, hdepth⟩ := h.calls rfl hq id
    by_cases hin : ctx < s.contexts.size
    · have hin' : ctx < t.contexts.size :=
        Nat.lt_of_lt_of_le hin (by simpa [Store.entered] using h.size)
      by_cases hid : id = ctx
      · subst hid
        have h₁ : (s.entered id f name vars).context id = _ := context_modify_self hin _
        have h₂ : (t.left id (s.context id).frame).context id = _ := context_modify_self hin' _
        rw [h₁] at hdepth
        rw [h₂]
        exact ⟨rfl, by simp [hdepth]⟩
      · have h₁ := (context_entered s ctx f name vars id).resolve_right fun h => hid h.1
        have h₂ := (context_left t ctx (s.context ctx).frame id).resolve_right fun h => hid h.1
        rw [h₁] at hframe hdepth
        rw [h₂]
        exact ⟨hframe, hdepth⟩
    · -- A context that is not there has no calls, and what is left of it is nothing.
      have hnone := context_of_size_le (Nat.le_of_not_lt hin)
      have h₁ : (s.entered ctx f name vars).context id = s.context id := by
        rcases context_entered s ctx f name vars id with h | ⟨rfl, -⟩
        · exact h
        · rw [hnone]
          exact context_of_size_le (by simpa [Store.entered] using hin)
      rw [h₁] at hframe hdepth
      rcases context_left t ctx (s.context ctx).frame id with h₂ | ⟨rfl, h₂⟩ <;> rw [h₂]
      · exact ⟨hframe, hdepth⟩
      · rw [hnone] at hdepth ⊢
        exact ⟨rfl, by simp [hdepth]⟩
  have keeps : Keeps s (t.left ctx (s.context ctx).frame) :=
    (keeps_entered.trans h.toKeeps).trans keeps_left
  exact
    { toKeeps := keeps
      frames := persist
      entered := (h.enter hn hd).entered
      chained := fun hq hs id => chain_of_sameCall keeps persist (calls hq id) hs
      calls := fun _ => calls
      writers := fun _ hq id => by
        have hw := h.writers rfl ⟨hq.callbacks, hq.begun, hq.seized⟩ id
        rwa [writers_entered, ← writers_left t ctx (s.context ctx).frame] at hw }

end

/-- A call with too few or too many arguments. -/
theorem Routine.call_wrong (r : Routine) (f : Closure) (call : Callback) (fuel ctx : Nat)
    {args : List Value} (s : Store) (hargs : args.length ≠ r.arity) :
    r.call f call fuel ctx args s =
      .error (.plain (wrongArguments r.name r.arity args.length) false) s := by
  rw [Routine.call, if_pos hargs]
  rfl

/-- What a call comes to once the arguments are right. -/
theorem Routine.call_apply (r : Routine) (f : Closure) (call : Callback) (fuel ctx : Nat)
    (args : List Value) (s : Store) (hargs : args.length = r.arity) :
    r.call f call fuel ctx args s =
      match (s.context ctx).cancelled with
      | some reason => .error (.plain (Bytes.ofString "execution cancelled: " ++ reason) false) s
      | none =>
        if (s.context ctx).depthLimit ≤ (s.context ctx).depth then
          .error (.plain (Bytes.ofString "call of " ++ r.name ++
            " exceeds the maximum call depth of " ++ Bytes.ofNat (s.context ctx).depthLimit) false) s
        else
          leaving ctx (s.context ctx).frame r.name (r.run call fuel ⟨ctx, f.unit, s.frames.size⟩)
            (s.entered ctx f r.name
              (args.toArray ++ Array.replicate (r.slots - args.length) Value.null)) := by
  rw [Routine.call, if_neg (not_not_intro hargs)]
  have checked : Action.checkCancelled ctx s = match (s.context ctx).cancelled with
      | some reason => .error (.plain (Bytes.ofString "execution cancelled: " ++ reason) false) s
      | none => .ok () s := by
    show (match (s.context ctx).cancelled with
      | some reason => Action.fail (Bytes.ofString "execution cancelled: " ++ reason)
      | none => return : Action Unit) s = _
    cases (s.context ctx).cancelled <;> rfl
  show (Action.checkCancelled ctx >>= _) s = _
  rw [bind_apply, checked]
  cases (s.context ctx).cancelled with
  | some reason => rfl
  | none =>
    show (if (s.context ctx).depthLimit ≤ (s.context ctx).depth then _ else _ : Action Value) s = _
    split <;> rfl

section

variable {units : Array (List Lambda)} {call : Callback} {fuel : Nat}

/-- A call makes a balanced passage if the code of the function does. -/
theorem Routine.passes_call {r : Routine} {f : Closure}
    (h : ∀ ctx frame, Passes (balance units) false (r.run call fuel ⟨ctx, f.unit, frame⟩).run)
    (ctx : Nat) (args : List Value) :
    Passes (balance units) false (r.call f call fuel ctx args) := by
  intro s hs
  by_cases hargs : args.length = r.arity
  · rw [r.call_apply f call fuel ctx args s hargs]
    cases hn : (s.context ctx).cancelled with
    | some reason => exact (balance units).refl hs
    | none =>
      dsimp only
      split
      · exact (balance units).refl hs
      · rename_i hd
        have hd := Nat.lt_of_not_le hd
        generalize args.toArray ++ Array.replicate (r.slots - args.length) Value.null = vars
        have hrun := h ctx s.frames.size (s.entered ctx f r.name vars) hs
        change Balance (false || comesBack _) s _
        change Balance (false || comesBack _) _ _ at hrun
        rw [Bool.false_or] at hrun ⊢
        unfold leaving
        generalize (r.run call fuel ⟨ctx, f.unit, s.frames.size⟩).run (s.entered ctx f r.name vars) = end_
          at hrun
        cases end_ with
        | ok v t =>
          cases v with
          | ok v => exact hrun.leave hn hd
          | error j =>
            -- Noting the fault does not matter for what is left of the call.
            have faulted := hrun.trans (@lenient_balance units t .escapedJump
              ((balance units).keep (show (s.entered ctx f r.name vars).units = units from hs) hrun))
            exact faulted.leave hn hd
        | error e t =>
          cases e with
          | panic | exhausted => exact hrun.enter hn hd
          | _ => exact hrun.leave hn hd
  · rw [r.call_wrong f call fuel ctx s hargs]
    exact (balance units).refl hs

end

end Stencil
