import Stencil.Proofs.Balance.Calls
import Stencil.Proofs.Balance.Templates
import Stencil.Proofs.Safety.Jumps
import Stencil.Proofs.Typing.Lowering

/-!
# Well-formed code is safe

Well-formed code meets no fault in a store that is sound: the frames of modules hold the contexts
they run in, and function values stand for well-formed lambdas in frames of the lambdas around
them. Whatever is evaluated leaves such a store sound, adds no fault, and changes no slot that no
name has: only the loops of an activation itself begin states in its own frame.

Each form of well-formed code is safe if its parts are, where the frames are those of the lambdas
around it and the states of the loops around it are in their slots.
-/

namespace Stencil

/-! ### Frames and scopes -/

/-- The slots that names have in a unit of code. -/
def UserSlot (units : Array (List Lambda)) (unit : Nat) (k : Nat × Nat) : Prop :=
  ∃ f ∈ (units.getD unit []).head?, f.IsUser k

theorem userSlot_eq {units : Array (List Lambda)} {unit : Nat} {f : Lambda}
    (h : units.getD unit [] = f.lambdas) : UserSlot units unit = f.IsUser := by
  funext k
  simp [UserSlot, h]

/-- From a frame outwards there are frames of certain lambdas of a unit, with so many slots. -/
inductive ScopeChain (frames : Array Frame) (unit : Nat) : List (Nat × Nat) → Option Nat → Prop where
  | nil : ScopeChain frames unit [] none
  | cons {i : Nat} {f : Frame} {scopes : List (Nat × Nat)} (hf : frames[i]? = some f)
      (hu : f.unit = unit) (ho : ∀ o ∈ f.outer, o < i) (h : ScopeChain frames unit scopes f.outer) :
      ScopeChain frames unit ((f.lambda, f.vars.size) :: scopes) (some i)

theorem frames_getD {frames : Array Frame} {i : Nat} {f : Frame} (h : frames[i]? = some f) :
    frames.getD i default = f := by
  rw [Array.getD_eq_getD_getElem?, h, Option.getD_some]

namespace ScopeChain

variable {frames : Array Frame} {unit i owner size : Nat} {scopes : List (Nat × Nat)}

theorem persist {frames' : Array Frame} {id : Option Nat} (h : ScopeChain frames unit scopes id)
    (hp : FramesPersist frames frames') : ScopeChain frames' unit scopes id := by
  induction h with
  | nil => exact .nil
  | cons hf hu ho _ ih =>
    obtain ⟨g, hg, hfg⟩ := hp _ _ hf
    rw [← hfg.lambda, ← hfg.size]
    exact .cons hg (hfg.unit.trans hu) (hfg.outer ▸ ho) (hfg.outer ▸ ih)

theorem top (h : ScopeChain frames unit scopes (some i)) :
    ∃ f, frames[i]? = some f ∧ f.unit = unit ∧ scopes.head? = some (f.lambda, f.vars.size) := by
  cases h with
  | cons hf hu => exact ⟨_, hf, hu, rfl⟩

/-- The frame of a lambda around is found. -/
theorem find (h : ScopeChain frames unit scopes (some i)) (hl : scopes.lookup owner = some size)
    {n : Nat} (hn : i < n) : ∃ j f, findFrame frames owner n i = some j ∧ frames[j]? = some f ∧
      f.lambda = owner ∧ f.unit = unit ∧ f.vars.size = size := by
  generalize hid : some i = id at h
  induction h generalizing i n with
  | nil => cases hid
  | @cons k f scopes hf hu ho hrest ih =>
    cases hid
    obtain ⟨n, rfl⟩ : ∃ m, n = m + 1 := ⟨n - 1, by omega⟩
    rw [findFrame, frames_getD hf]
    by_cases hown : f.lambda = owner
    · rw [if_pos hown]
      refine ⟨k, f, rfl, hf, hown, hu, ?_⟩
      rw [List.lookup_cons, beq_iff_eq.2 hown.symm] at hl
      exact Option.some.inj hl
    · rw [if_neg hown]
      rw [List.lookup_cons, beq_eq_false_iff_ne.2 (Ne.symm hown)] at hl
      cases houter : f.outer with
      | none =>
        rw [houter] at hrest
        cases hrest
        cases hl
      | some o => exact ih hl (by have := ho o houter; omega) houter.symm

end ScopeChain

/-! ### Soundness -/

/-- A function value stands for a well-formed lambda of its unit, in a frame of the lambda around. -/
def Store.Accepts (s : Store) (c : Closure) : Prop :=
  ∃ g scopes, s.lambda? c.unit c.lambda = some g ∧ g.id ≠ contextVariable.owner ∧
    g.code.Typed (UserSlot s.units c.unit) { scopes } .value ∧
    ScopeChain s.frames c.unit scopes c.env

/-- Modules find their contexts, and all function values are accepted. -/
structure Store.Sound (s : Store) : Prop where
  homes : ∀ (i : Nat) (f : Frame), s.frames[i]? = some f → f.lambda = contextVariable.owner →
    ∃ ctx, f.vars.getD contextVariable.index .null = .context ctx ∧ ctx < s.contexts.size
  closures : ∀ (id : Nat) (c : Closure), s.closures[id]? = some c → s.Accepts c

section

variable {s t u : Store}

theorem Store.Accepts.persist {c : Closure} (h : s.Accepts c) (hu : t.units = s.units)
    (hf : FramesPersist s.frames t.frames) : t.Accepts c := by
  obtain ⟨g, scopes, hg, hid, htyped, hchain⟩ := h
  refine ⟨g, scopes, ?_, hid, hu ▸ htyped, hchain.persist hf⟩
  rw [Store.lambda?, hu]
  exact hg

/-- A store stays sound if its frames persist, and what is new is sound. -/
theorem Store.Sound.persist (h : s.Sound) (hu : t.units = s.units)
    (hf : FramesPersist s.frames t.frames) (hsize : s.contexts.size ≤ t.contexts.size)
    (hnew : ∀ (i : Nat) (f : Frame), t.frames[i]? = some f → i < s.frames.size ∨
      (f.lambda = contextVariable.owner →
        ∃ ctx, f.vars.getD contextVariable.index .null = .context ctx ∧ ctx < t.contexts.size))
    (hc : ∀ (id : Nat) (c : Closure), t.closures[id]? = some c →
      s.closures[id]? = some c ∨ t.Accepts c) : t.Sound where
  homes i g hg hown := by
    rcases hnew i g hg with hi | hhome
    · obtain ⟨f, hfi⟩ : ∃ f, s.frames[i]? = some f := ⟨_, Array.getElem?_eq_getElem hi⟩
      obtain ⟨g', hg', hfg⟩ := hf i f hfi
      obtain rfl : g' = g := Option.some.inj (hg'.symm.trans hg)
      obtain ⟨ctx, hctx, hlt⟩ := h.homes i f hfi (hfg.lambda.symm.trans hown)
      exact ⟨ctx, (hfg.home (hfg.lambda.symm.trans hown)).trans hctx, Nat.lt_of_lt_of_le hlt hsize⟩
    · exact hhome hown
  closures id c hid := by
    rcases hc id c hid with hold | hnew
    · exact (h.closures id c hold).persist hu hf
    · exact hnew

/-! ### Safety -/

/-- What a safe computation does to a store. Slots that no name has are changed only where they are
free to be. A fault may be met only after the host has ended a capture. -/
structure Safe (free : Nat → Nat × Nat → Prop) (s t : Store) : Prop where
  units : t.units = s.units
  tally : s.tally ≤ t.tally
  size : s.contexts.size ≤ t.contexts.size
  frames : FramesPersist s.frames t.frames
  slots : ∀ (i : Nat) (f g : Frame), s.frames[i]? = some f → t.frames[i]? = some g → ∀ k,
    ¬ UserSlot s.units f.unit (f.lambda, k) → ¬ free i (f.lambda, k) →
      g.vars.getD k .null = f.vars.getD k .null
  sound : s.Sound → t.Sound
  faults : t.tally.seized = s.tally.seized → t.faults = s.faults

namespace Safe

variable {free free' : Nat → Nat × Nat → Prop}

/-- Frames, closures and faults are not touched. -/
theorem of_eq (hu : t.units = s.units) (ht : s.tally ≤ t.tally)
    (hsize : s.contexts.size ≤ t.contexts.size) (hf : t.frames = s.frames)
    (hc : t.closures = s.closures) (hfaults : t.faults = s.faults) : Safe free s t where
  units := hu
  tally := ht
  size := hsize
  frames := hf ▸ .refl _
  slots i f g hi hg k _ _ := by
    rw [hf, hi] at hg
    cases hg
    rfl
  sound h := h.persist hu (hf ▸ .refl _) hsize
    (fun i f hi => .inl (hf ▸ (Array.getElem?_eq_some_iff.1 hi).1)) fun id c hid => .inl (hc ▸ hid)
  faults _ := hfaults

theorem of_serves (h : Serves s t) : Safe free s t :=
  of_eq h.units h.tally h.size h.frames h.closures h.faults

theorem refl (s : Store) : Safe free s s := of_serves (.refl s)

theorem trans (h : Safe free s t) (h' : Safe free t u) : Safe free s u where
  units := h'.units.trans h.units
  tally := le_trans h.tally h'.tally
  size := Nat.le_trans h.size h'.size
  frames := h.frames.trans h'.frames
  slots i f k hi hk n hn hfree := by
    obtain ⟨g, hg, hfg⟩ := h.frames i f hi
    refine (h'.slots i g k hg hk n ?_ ?_).trans (h.slots i f g hi hg n hn hfree)
    · rwa [h.units, hfg.unit, hfg.lambda]
    · rwa [hfg.lambda]
  sound hs := h'.sound (h.sound hs)
  faults hs := by
    obtain ⟨h₁, h₂⟩ := Tally.seized_eq h.tally h'.tally hs
    exact (h'.faults h₂).trans (h.faults h₁)

theorem mono (h : Safe free s t)
    (hfree : ∀ (i : Nat) (f : Frame), s.frames[i]? = some f → ∀ k, free i (f.lambda, k) →
      free' i (f.lambda, k)) : Safe free' s t :=
  { h with slots := fun i f g hi hg k hk hn => h.slots i f g hi hg k hk fun hf => hn (hfree i f hi k hf) }

end Safe

end

/-! ### Where code is evaluated -/

/-- Where code is evaluated: by which activation, inside which lambdas, and with the states of
which loops. -/
structure Standing where
  act : Activation
  scopes : List (Nat × Nat)
  held : List (Nat × Nat)

/-- Code in a setting, evaluated by an activation. -/
def Setting.standing (Γ : Setting) (act : Activation) : Standing := ⟨act, Γ.scopes, Γ.held⟩

/-- The frame of the activation is one of the lambda around, and the states of loops are there. -/
structure Standing.Holds (here : Standing) (s : Store) : Prop where
  chain : ScopeChain s.frames here.act.unit here.scopes (some here.act.frame)
  held : ∀ k ∈ here.held, ¬ UserSlot s.units here.act.unit k ∧ ∃ f,
    s.frames[here.act.frame]? = some f ∧ f.lambda = k.1 ∧ ∃ id, f.vars.getD k.2 .null = .enumerator id

/-- The slots that evaluation may begin new states in: those of the frame of the activation, but
for the states of the loops around. -/
def Standing.Free (here : Standing) (i : Nat) (k : Nat × Nat) : Prop :=
  i = here.act.frame ∧ k ∉ here.held

theorem Standing.Holds.keep {here : Standing} {s t : Store} (h : here.Holds s)
    (hs : Safe here.Free s t) : here.Holds t where
  chain := h.chain.persist hs.frames
  held k hk := by
    obtain ⟨huser, f, hf, hl, id, hid⟩ := h.held k hk
    obtain ⟨g, hg, hfg⟩ := hs.frames _ f hf
    obtain ⟨f', hf', hunit, -⟩ := h.chain.top
    obtain rfl : f = f' := Option.some.inj (hf.symm.trans hf')
    have key : (f.lambda, k.2) = k := Prod.ext hl rfl
    refine ⟨hs.units ▸ huser, g, hg, hfg.lambda.trans hl, id, ?_⟩
    rw [← hid]
    refine hs.slots _ f g hf hg k.2 ?_ ?_
    · rwa [key, hunit]
    · rw [key]
      exact fun hfree => hfree.2 hk

/-- Safety of what is evaluated somewhere in code, or of calls and the like from nowhere in it. -/
def safety (here : Option Standing) (units : Array (List Lambda)) : Passage where
  Pre s := s.units = units ∧ s.Sound ∧ ∀ p ∈ here, p.Holds s
  Rel _ s t := Safe (fun i k => ∃ p ∈ here, p.Free i k) s t
  serve _ h := .of_serves h
  trans h h' := h.trans h'
  weaken h := h
  keep hs h := by
    refine ⟨h.units.trans hs.1, h.sound hs.2.1, fun p hp => (hs.2.2 p hp).keep ?_⟩
    refine h.mono ?_
    rintro i f hf k ⟨q, hq, hfree⟩
    rwa [Option.mem_unique hp hq]
  heard h h' _ := h.trans h'

/-- What is safe from nowhere is safe everywhere. -/
theorem Passes.everywhere {α : Type} {p : Bool} {m : Action α} {units : Array (List Lambda)}
    (h : Passes (safety none units) p m) (here : Option Standing) : Passes (safety here units) p m :=
  fun s hs => (h s ⟨hs.1, hs.2.1, fun _ hp => by cases hp⟩).mono fun _ _ _ _ hfree => by
    obtain ⟨p, hp, -⟩ := hfree
    cases hp

theorem PassesCalls.everywhere {units : Array (List Lambda)} {call : Callback}
    (h : PassesCalls (safety none units) call) (here : Option Standing) :
    PassesCalls (safety here units) call := fun ctx fn args => (h ctx fn args).everywhere here

/-! ### Variables -/

section

variable {here : Standing} {s t : Store} {v : Variable}

/-- A variable is a slot of a lambda around. -/
def Standing.Has (here : Standing) (v : Variable) : Prop :=
  ∃ size, here.scopes.lookup v.owner = some size ∧ v.index < size

/-- The frame of a variable is found. -/
theorem home_of_has (h : here.Holds s) (hv : here.Has v) :
    ∃ j f, here.act.home v s = .ok j s ∧ s.frames[j]? = some f ∧ f.lambda = v.owner ∧
      f.unit = here.act.unit ∧ v.index < f.vars.size ∧
      ((∃ g, s.frames[here.act.frame]? = some g ∧ g.lambda = v.owner) → j = here.act.frame) := by
  obtain ⟨size, hl, hi⟩ := hv
  obtain ⟨top, htop, -⟩ := h.chain.top
  have hlt : here.act.frame < s.frames.size := (Array.getElem?_eq_some_iff.1 htop).1
  obtain ⟨j, f, hfind, hf, hown, hunit, hsize⟩ := h.chain.find hl hlt
  refine ⟨j, f, home_of_found hfind (by rw [frames_getD hf, hsize]; exact hi), hf, hown, hunit,
    hsize.symm ▸ hi, ?_⟩
  rintro ⟨g, hg, hgown⟩
  obtain ⟨n, hn⟩ : ∃ n, s.frames.size = n + 1 := ⟨s.frames.size - 1, by omega⟩
  rw [hn, findFrame, frames_getD hg, if_pos hgown] at hfind
  exact (Option.some.inj hfind).symm

/-- The state of a loop around is found. -/
theorem read_held (h : here.Holds s) (hv : here.Has v) (hk : v.key ∈ here.held) :
    ∃ id, here.act.read v s = .ok (.enumerator id) s := by
  obtain ⟨j, f, hhome, hf, -, -, -, htop⟩ := home_of_has h hv
  obtain ⟨-, g, hg, hown, id, hid⟩ := h.held _ hk
  obtain rfl := htop ⟨g, hg, hown⟩
  obtain rfl : g = f := Option.some.inj (hg.symm.trans hf)
  refine ⟨id, ?_⟩
  rw [read_apply hhome, frames_getD hf]
  exact congrArg (EStateM.Result.ok · s) hid

/-- The context that a module runs in is found. -/
theorem read_home (hs : s.Sound) (h : here.Holds s) (hv : here.Has contextVariable) :
    ∃ ctx, here.act.read contextVariable s = .ok (.context ctx) s ∧ ctx < s.contexts.size := by
  obtain ⟨j, f, hhome, hf, hown, -⟩ := home_of_has h hv
  obtain ⟨ctx, hctx, hlt⟩ := hs.homes j f hf hown
  refine ⟨ctx, ?_, hlt⟩
  rw [read_apply hhome, frames_getD hf]
  exact congrArg (EStateM.Result.ok · s) hctx

/-- A store after an assignment to a slot of a frame. -/
def Store.assigned (s : Store) (j : Nat) (v : Variable) (x : Value) : Store :=
  { s with frames := s.frames.modify j fun f => { f with vars := f.vars.setIfInBounds v.index x } }

theorem write_apply {act : Activation} {j : Nat} (h : act.home v s = .ok j s) (x : Value) :
    act.write v x s = .ok () (s.assigned j v x) := by
  rw [Activation.write, bind_apply, h]
  rfl

theorem getElem?_assigned {j : Nat} {f : Frame} (hf : s.frames[j]? = some f) (v : Variable)
    (x : Value) : (s.assigned j v x).frames[j]? =
      some { f with vars := f.vars.setIfInBounds v.index x } := by
  simp only [Store.assigned]
  rw [Array.getElem?_modify, if_pos rfl, hf]
  rfl

theorem getElem?_assigned_ne {j i : Nat} (hij : i ≠ j) (v : Variable) (x : Value) :
    (s.assigned j v x).frames[i]? = s.frames[i]? := by
  simp [Store.assigned, Array.getElem?_modify, hij.symm]

/-- An assignment to a slot that a name has, or that is free, is safe. -/
theorem safe_assigned {free : Nat → Nat × Nat → Prop} {j : Nat} {f : Frame}
    (hf : s.frames[j]? = some f) (hown : f.lambda = v.owner) (hne : v.key ≠ contextVariable.key)
    (hslot : UserSlot s.units f.unit v.key ∨ free j v.key) (x : Value) :
    Safe free s (s.assigned j v x) := by
  have persist : FramesPersist s.frames (s.assigned j v x).frames := by
    refine .modify fun g hg => ?_
    obtain rfl : f = g := Option.some.inj (hf.symm.trans hg)
    refine ⟨rfl, rfl, rfl, rfl, rfl, by simp, fun hl => ?_⟩
    have hi : v.index ≠ contextVariable.index := fun hi => hne (Prod.ext (hown.symm.trans hl) hi)
    rcases getD_setIfInBounds f.vars v.index contextVariable.index x .null with h | ⟨h, -⟩
    · exact h
    · exact absurd h.symm hi
  refine
    { units := rfl, tally := le_rfl, size := Nat.le_refl _, frames := persist
      slots := fun i g g' hi hi' k hk hfree => ?_
      sound := fun hs => hs.persist rfl persist (Nat.le_refl _) (fun i g hg => .inl ?_)
        fun id c hc => .inl hc
      faults := fun _ => rfl }
  · by_cases hij : i = j
    · subst hij
      obtain rfl : f = g := Option.some.inj (hf.symm.trans hi)
      rw [getElem?_assigned hf] at hi'
      cases hi'
      rcases getD_setIfInBounds f.vars v.index k x .null with h | ⟨rfl, -⟩
      · exact h
      · have key : (f.lambda, v.index) = v.key := Prod.ext hown rfl
        rw [key] at hk hfree
        exact (hslot.elim hk hfree).elim
    · rw [getElem?_assigned_ne hij, hi] at hi'
      cases hi'
      rfl
  · have hlt := (Array.getElem?_eq_some_iff.1 hg).1
    rwa [Store.assigned, Array.size_modify] at hlt

end

section

variable {here : Standing} {units : Array (List Lambda)} {p : Bool} {v : Variable}

theorem safe_read (hv : here.Has v) : Passes (safety (some here) units) p (here.act.read v) := by
  intro s hs
  obtain ⟨j, f, hhome, -⟩ := home_of_has (hs.2.2 here rfl) hv
  rw [read_apply hhome]
  exact .refl s

/-- Names are assigned to, and the states of loops in the frame of the activation, but for those
that are held. -/
theorem safe_write (hv : here.Has v) (hne : v.key ≠ contextVariable.key)
    (hslot : UserSlot units here.act.unit v.key ∨
      here.scopes.head?.map (·.1) = some v.owner ∧ v.key ∉ here.held) (x : Value) :
    Passes (safety (some here) units) p (here.act.write v x) := by
  rintro s ⟨rfl, -, hs⟩
  have hhere := hs here rfl
  obtain ⟨j, f, hhome, hf, hown, hunit, -, htop⟩ := home_of_has hhere hv
  rw [write_apply hhome]
  refine safe_assigned hf hown hne ?_ x
  rcases hslot with huser | ⟨hhead, hheld⟩
  · exact .inl (hunit ▸ huser)
  · obtain ⟨g, hg, -, hscope⟩ := hhere.chain.top
    rw [hscope] at hhead
    exact .inr ⟨here, rfl, htop ⟨g, hg, Option.some.inj hhead⟩, hheld⟩

theorem safe_clear {vs : List Variable} (h : ∀ v ∈ vs, here.Has v ∧ v.key ≠ contextVariable.key ∧
    (UserSlot units here.act.unit v.key ∨
      here.scopes.head?.map (·.1) = some v.owner ∧ v.key ∉ here.held)) :
    Passes (safety (some here) units) p (here.act.clear vs) := by
  induction vs with
  | nil => exact passes_pure ()
  | cons v vs ih =>
    obtain ⟨⟨hv, hne, hslot⟩, hvs⟩ := List.forall_mem_cons.1 h
    exact (safe_write hv hne hslot .null).bind fun _ => ih hvs

/-- A function value is made of a lambda that is found again by its number. -/
theorem safe_newClosure {g : Lambda}
    (hg : (units.getD here.act.unit []).find? (·.id = g.id) = some g)
    (hid : g.id ≠ contextVariable.owner)
    (ht : g.code.Typed (UserSlot units here.act.unit) { scopes := here.scopes } .value)
    (heading : Heading) : Passes (safety (some here) units) p (newClosure here.act g.id heading) := by
  rintro s ⟨rfl, -, hs⟩
  refine
    { units := rfl, tally := le_rfl, size := Nat.le_refl _, frames := .refl _
      slots := fun i f k hi hk n _ _ => ?_
      sound := fun hsound => hsound.persist rfl (.refl _) (Nat.le_refl _)
        (fun i f hi => .inl (Array.getElem?_eq_some_iff.1 hi).1) fun id c hc => ?_
      faults := fun _ => rfl }
  · cases hi.symm.trans hk
    rfl
  · change (s.closures.push ⟨here.act.unit, g.id, some here.act.frame⟩)[id]? = some c at hc
    rw [Array.getElem?_push] at hc
    split at hc
    · cases hc
      exact .inr ⟨g, here.scopes, hg, hid, ht, (hs here rfl).chain⟩
    · exact .inl hc

end

/-! ### Operations of the context -/

section

variable [Host] {here : Standing} {units : Array (List Lambda)} {call : Callback} {fuel : Nat}

theorem yields_home (hv : here.Has contextVariable) :
    Yields (safety (some here) units) ((Code.var contextVariable).eval call fuel here.act) fun v =>
      ∃ ctx, v = .context ctx := by
  intro s v t hs hm
  obtain ⟨ctx, hr, -⟩ := read_home hs.2.1 (hs.2.2 here rfl) hv
  rw [Code.eval, run_lift_apply, hr] at hm
  cases hm
  exact ⟨ctx, rfl⟩

theorem yields_held {v : Variable} (hv : here.Has v) (hk : v.key ∈ here.held) :
    Yields (safety (some here) units) ((Code.var v).eval call fuel here.act) fun v =>
      ∃ id, v = .enumerator id := by
  intro s w t hs hm
  obtain ⟨id, hr⟩ := read_held (hs.2.2 here rfl) hv hk
  rw [Code.eval, run_lift_apply, hr] at hm
  cases hm
  exact ⟨id, rfl⟩

/-- What a context does but to begin and to end a capture. What it writes as a text must be one. -/
theorem safe_contextCode {m : ContextMethod} {cs : List Code} (hv : here.Has contextVariable)
    (hpush : m ≠ .pushWriter) (hpop : m ≠ .popWriter)
    (ht : m = .write → ∃ text, cs = [.constant (.string text)])
    (hcs : ∀ c ∈ cs, Passes (safety (some here) units) false (c.eval call fuel here.act).run) :
    Passes (safety (some here) units) false ((contextCode m cs).eval call fuel here.act).run := by
  refine passes_contextCode (safe_read hv) (.inr (yields_home hv)) (passes_evalArgs hcs)
    fun ctx s vs t hs hargs => passes_callContext hpush hpop ctx (.inr fun hm => ?_)
  obtain ⟨text, rfl⟩ := ht hm
  rw [evalArgs, Code.eval, evalArgs] at hargs
  cases hargs
  exact ⟨text, rfl⟩

/-! ### Templates -/

omit [Host] in
/-- A fault may be met where the host has ended a capture. -/
theorem Safe.faulted {free : Nat → Nat × Nat → Prop} {s t : Store} (h : Safe free s t)
    (hs : t.tally.seized ≠ s.tally.seized) (f : Fault) :
    Safe free s { t with faults := f :: t.faults } where
  units := h.units
  tally := h.tally
  size := h.size
  frames := h.frames
  slots := h.slots
  sound hsound := (h.sound hsound).persist rfl (.refl _) (Nat.le_refl _)
    (fun _ _ hi => .inl (Array.getElem?_eq_some_iff.1 hi).1) fun _ _ hc => .inl hc
  faults hq := absurd hq hs

omit [Host] in
/-- The state of a context does not matter to safety. -/
theorem safe_modifyContext {free : Nat → Nat × Nat → Prop} (s : Store) (ctx : Nat)
    (f : Context → Context) : Safe free s { s with contexts := s.contexts.modify ctx f } :=
  .of_eq rfl le_rfl (Nat.le_of_eq Array.size_modify.symm) rfl rfl rfl

/-- The end of a capture that was begun is safe. -/
theorem safe_ending {s t : Store} {ctx : Nat} {tmp : Variable} (hin : ctx < s.contexts.size)
    (hs : (safety (some here) units).Pre s) (hv : here.Has tmp)
    (huser : UserSlot units here.act.unit tmp.key) (hne : tmp.key ≠ contextVariable.key)
    (hr : here.act.read contextVariable s = .ok (.context ctx) s)
    (h : (safety (some here) units).Rel true (s.pushed ctx) t) (hk : Keeps (s.pushed ctx) t) :
    (safety (some here) units).Rel true s
      (lastStore (((Code.assign tmp (contextCode .popWriter [])).eval call fuel here.act).run t)) := by
  have whole : (safety (some here) units).Rel true s t := (safe_modifyContext s ctx _).trans h
  have ht := (safety (some here) units).keep hs whole
  rw [eval_ending tmp (read_contextVariable whole.frames hr)]
  cases hw : (t.context ctx).writers with
  | nil =>
    refine whole.faulted (fun hq => ?_) .noWriter
    have hdepth := hk.depth hq ctx
    rw [writers_pushed hin, hw] at hdepth
    exact absurd hdepth (Nat.not_succ_le_zero _)
  | cons w ws =>
    have popped : (safety (some here) units).Rel true t (t.popped ctx ws) := safe_modifyContext t ctx _
    have written := @safe_write here units true tmp hv hne (.inl huser) (.string w.reverse.flatten)
      (t.popped ctx ws) ((safety (some here) units).keep ht popped)
    dsimp only
    generalize here.act.write tmp (.string w.reverse.flatten) (t.popped ctx ws) = result at written ⊢
    cases result <;> exact (whole.trans popped).trans written

/-- A capture is safe if what happens in it is safe and balanced. -/
theorem safe_captured {tmp : Variable} {body : Code} (hc : here.Has contextVariable)
    (hv : here.Has tmp) (huser : UserSlot units here.act.unit tmp.key)
    (hne : tmp.key ≠ contextVariable.key)
    (hb : Passes (safety (some here) units) false (body.eval call fuel here.act).run)
    (hbalance : Passes (balance units) false (body.eval call fuel here.act).run) :
    Passes (safety (some here) units) false (captured call fuel here.act tmp body).run := by
  intro s hs
  obtain ⟨ctx, hr, hin⟩ := read_home hs.2.1 (hs.2.2 here rfl) hc
  have opened : (safety (some here) units).Rel true s (s.pushed ctx) := safe_modifyContext s ctx _
  have inside := hb (s.pushed ctx) ((safety (some here) units).keep hs opened)
  have keeps := (hbalance (s.pushed ctx) hs.1).toKeeps
  rw [captured, run_bind_apply, eval_opening hr]
  dsimp only
  rw [lastStore_runFinally]
  split
  · exact safe_ending hin hs hv huser hne hr inside keeps
  · exact opened.trans inside

theorem safe_templateCode {tmp : Variable} {body : Code} (hc : here.Has contextVariable)
    (hv : here.Has tmp) (huser : UserSlot units here.act.unit tmp.key)
    (hne : tmp.key ≠ contextVariable.key)
    (hb : Passes (safety (some here) units) false (body.eval call fuel here.act).run)
    (hbalance : Passes (balance units) false (body.eval call fuel here.act).run) :
    Passes (safety (some here) units) false ((templateCode tmp body).eval call fuel here.act).run := by
  rw [eval_templateCode]
  refine (safe_clear (List.forall_mem_singleton.2 ⟨hv, hne, .inl huser⟩)).lift.exits_bind fun _ => ?_
  exact (safe_captured hc hv huser hne hb hbalance).exits_bind fun _ => (safe_read hv).lift

/-! ### Loops over sequences -/

/-- Inside a loop over a sequence. -/
def Standing.hold (here : Standing) (state : Variable) : Standing :=
  { here with held := state.key :: here.held }

variable {state : Variable} {x body : Code}

/-- Where a loop has begun, its state is there. -/
theorem holds_started {s t : Store} {v : Value} (hcall : PassesCalls (safety none units) call)
    (hx : Passes (safety (some here) units) false (x.eval call fuel here.act).run)
    (hv : here.Has state) (hhead : here.scopes.head?.map (·.1) = some state.owner)
    (huser : ¬ UserSlot units here.act.unit state.key) (hne : state.key ≠ contextVariable.key)
    (hheld : state.key ∉ here.held) (hs : (safety (some here) units).Pre s)
    (h : ((Code.assign state (.iterate x)).eval call fuel here.act).run s = .ok (.ok v) t) :
    (safety (some (here.hold state)) units).Pre t := by
  have iterated := passes_iterate (hcall.everywhere (some here)) hx s hs
  rw [Code.eval, run_bind_apply] at h
  cases hi : ((Code.iterate x).eval call fuel here.act).run s with
  | error e u => rw [hi] at h; cases h
  | ok r u =>
    rw [hi] at h iterated
    cases r with
    | error j => cases h
    | ok y =>
      obtain ⟨id, rfl⟩ := ends_iterate x s y u hi
      have hu : (safety (some here) units).Pre u := (safety (some here) units).keep hs iterated
      obtain ⟨j, f, hhome, hf, hown, hunit, hindex, htop⟩ := home_of_has (hu.2.2 here rfl) hv
      obtain ⟨g, hg, -, hscope⟩ := (hu.2.2 here rfl).chain.top
      rw [hscope] at hhead
      obtain rfl := htop ⟨g, hg, Option.some.inj hhead⟩
      dsimp only at h
      rw [run_bind_apply, run_lift_apply, write_apply hhome] at h
      cases h
      have started : Safe here.Free u (u.assigned here.act.frame state (.enumerator id)) :=
        safe_assigned hf hown hne (.inr ⟨rfl, hheld⟩) _
      have hfree : ∀ (i : Nat) (f : Frame), u.frames[i]? = some f → ∀ k, here.Free i (f.lambda, k) →
          ∃ p ∈ some here, p.Free i (f.lambda, k) := fun _ _ _ _ hfree => ⟨here, rfl, hfree⟩
      obtain ⟨hunits, hsound, -⟩ := (safety (some here) units).keep (b := true) hu (started.mono hfree)
      refine ⟨hunits, hsound, fun p hp => ?_⟩
      cases hp
      have kept := (hu.2.2 here rfl).keep started
      refine ⟨kept.chain, fun k hk => ?_⟩
      rcases List.mem_cons.1 hk with rfl | hk
      · refine ⟨hunits ▸ huser, _, getElem?_assigned hf _ _, hown, id, ?_⟩
        simp [Variable.key, Array.getD_eq_getD_getElem?, hindex]
      · exact kept.held k hk

omit [Host] in
theorem labelIndex_started {t : Target} {k : Nat}
    (h : labelIndex [.assign state (.iterate x), body] t = some k) : k = 1 := by
  simp only [labelIndex, Code.unwrap, List.findIdx?_cons, Bool.false_eq_true, if_false,
    List.findIdx?_nil] at h
  split at h <;> simp at h
  exact h.2.symm

/-- The block of a loop over a sequence is safe if its source is, and its body where the state is
held. -/
theorem safe_each {vars : List Variable} (hcall : PassesCalls (safety none units) call)
    (hvars : ∀ v ∈ vars, here.Has v ∧ v.key ≠ contextVariable.key ∧
      UserSlot units here.act.unit v.key)
    (hv : here.Has state) (hhead : here.scopes.head?.map (·.1) = some state.owner)
    (huser : ¬ UserSlot units here.act.unit state.key) (hne : state.key ≠ contextVariable.key)
    (hheld : state.key ∉ here.held)
    (hx : Passes (safety (some here) units) false (x.eval call fuel here.act).run)
    (hb : Passes (safety (some (here.hold state)) units) false (body.eval call fuel here.act).run) :
    Passes (safety (some here) units) false
      ((Code.block (vars ++ [state]) [.assign state (.iterate x), body]).eval call fuel
        here.act).run := by
  have start : Passes (safety (some here) units) false
      ((Code.assign state (.iterate x)).eval call fuel here.act).run :=
    passes_assign (passes_iterate (hcall.everywhere _) hx) fun a => safe_write hv hne (.inr ⟨hhead, hheld⟩) a
  rw [Code.eval]
  refine (safe_clear (List.forall_mem_append.2 ⟨fun v hm => ?_, List.forall_mem_singleton.2
    ⟨hv, hne, .inr ⟨hhead, hheld⟩⟩⟩)).lift.exits_bind fun _ => ?_
  · obtain ⟨h₁, h₂, h₃⟩ := hvars v hm
    exact ⟨h₁, h₂, .inl h₃⟩
  generalize hlabels : labelIndex [.assign state (.iterate x), body] = labels
  have after {t : Target} {k : Nat} (hk : labels t = some k) : k = 1 :=
    labelIndex_started (hlabels ▸ hk)
  -- The label of the body, if it is one, stands at its end.
  refine passes_runBlock_of (fun last => ?_) (fun t k hk last => ?_) fuel .null
  · rw [evalFrom]
    refine start.outcome.exits_bind_at fun s r t hs hr ht => ?_
    rw [run_outcome_apply] at hr
    cases r with
    | ok v =>
      have hstart : ((Code.assign state (.iterate x)).eval call fuel here.act).run s =
          .ok (.ok v) t := by
        split at hr <;> cases hr
        assumption
      have hthere := holds_started hcall hx hv hhead huser hne hheld hs hstart
      have inside := @passes_evalFrom _ _ _ _ _ _ labels _ (List.forall_mem_singleton.2 hb) 1 0 v t hthere
      refine Safe.mono inside ?_
      rintro i f hf k ⟨p, hp, hi, hk⟩
      cases hp
      exact ⟨here, rfl, hi, fun h => hk (List.mem_cons_of_mem _ h)⟩
    | error j =>
      dsimp only
      cases hl : labels j.target with
      | none => exact passes_exit j t ht
      | some k =>
        obtain rfl := after hl
        dsimp only
        rw [if_pos Nat.one_pos, evalFrom, evalFrom]
        exact passes_return j.value t ht
  · obtain rfl := after hk
    rw [evalFrom, evalFrom, evalFrom]
    exact passes_return last

end

/-! ### Code -/

/-- The lambdas in code are found in a unit by their numbers, and none is that of the module. -/
def Code.Linked (units : Array (List Lambda)) (unit : Nat) (c : Code) : Prop :=
  ∀ d ∈ c.nodes, ∀ g, d.lambda? = some g →
    g.id ≠ contextVariable.owner ∧ (units.getD unit []).find? (·.id = g.id) = some g

section

variable [Host] {units : Array (List Lambda)} {call : Callback} {fuel : Nat} {act : Activation}
  {Γ : Setting} {r : Role} {c : Code}

theorem safe_var {v : Variable} (hv : Γ.Has v) :
    Passes (safety (some (Γ.standing act)) units) false ((Code.var v).eval call fuel act).run := by
  rw [Code.eval]
  exact Passes.lift (@safe_read (Γ.standing act) _ _ _ hv)

/-- Code of conditions is tested. -/
theorem safe_test (h : c.Typed (UserSlot units act.unit) Γ .test)
    (hc : Passes (safety (some (Γ.standing act)) units) false (c.eval call fuel act).run) :
    Passes (safety (some (Γ.standing act)) units) false (evalTest (c.eval call fuel act)).run :=
  hc.test (.inr fun s v t _ hm => h.ends_test s v t hm)

theorem safe_lambda {id size : Nat} {name : Bytes} {params : List Variable} {body : Code}
    (h : (Code.lambda id name params size body).Typed (UserSlot units act.unit)
      { scopes := Γ.scopes } .value)
    (hl : (Code.lambda id name params size body).Linked units act.unit) :
    Passes (safety (some (Γ.standing act)) units) false
      ((Code.lambda id name params size body).eval call fuel act).run := by
  obtain ⟨hid, hfind⟩ := hl _ List.mem_cons_self ⟨id, name, params, size, body⟩ rfl
  rw [Code.eval]
  exact (@safe_newClosure (Γ.standing act) units false ⟨id, name, params, size, body⟩ hfind hid h
    ⟨name, params.map (·.name)⟩).lift

/-- Well-formed code is safe, in the way that it is used. (Where a loop begins a state is made in a
slot that may not be held; this is seen to as part of the loop.) -/
theorem Code.Typed.safe (h : c.Typed (UserSlot units act.unit) Γ r) (hr : r ≠ .state)
    (huser : ∀ k, UserSlot units act.unit k → k ≠ contextVariable.key)
    (hcall : PassesCalls (safety none units) call) (hbalance : PassesCalls (balance units) call)
    (hl : c.Linked units act.unit) :
    r.Passes (safety (some (Γ.standing act)) units) call fuel act c := by
  have context {Γ : Setting} {m : ContextMethod} {cs : List Code} (hc : Γ.Has contextVariable)
      (hpush : m ≠ .pushWriter) (hpop : m ≠ .popWriter)
      (ht : m = .write → ∃ text, cs = [.constant (.string text)])
      (hcs : ∀ c ∈ cs, Stencil.Passes (safety (some (Γ.standing act)) units) false
        (c.eval call fuel act).run) :
      Stencil.Passes (safety (some (Γ.standing act)) units) false
        ((contextCode m cs).eval call fuel act).run :=
    @safe_contextCode _ (Γ.standing act) _ _ _ _ _ hc hpush hpop ht hcs
  have named {Γ : Setting} {vs : List Variable}
      (hv : ∀ v ∈ vs, Γ.Has v ∧ UserSlot units act.unit v.key) (v : Variable) (hm : v ∈ vs) :
      (Γ.standing act).Has v ∧ v.key ≠ contextVariable.key ∧ UserSlot units act.unit v.key :=
    ⟨(hv v hm).1, huser _ (hv v hm).2, (hv v hm).2⟩
  have calls {Γ : Setting} : PassesCalls (safety (some (Γ.standing act)) units) call :=
    hcall.everywhere _
  -- What is known of the lambdas in code is known of those in its parts.
  have part {d : Code} {ds : List Code} {φ : Code → Prop} (hd : ∀ e ∈ d :: ds, φ e) : ∀ e ∈ ds, φ e :=
    (List.forall_mem_cons.1 hd).2
  have value : Role.value ≠ .state := nofun
  induction h with
  | constant v => exact passes_return v
  | empty => exact passes_return _
  | var hv => exact safe_var hv
  | @assign Γ v x hv hu hx ih =>
    exact passes_assign (ih value (part hl)) fun a =>
      @safe_write (Γ.standing act) _ _ _ hv (huser _ hu) (.inl hu) a
  | @block Γ vars items hv hi ih =>
    refine passes_block (@safe_clear (Γ.standing act) _ _ _ fun v hm => ?_) fun c hc =>
      ih c hc value (forall_nodesOf.1 (part hl) c hc)
    obtain ⟨h₁, h₂, h₃⟩ := named hv v hm
    exact ⟨h₁, h₂, .inl h₃⟩
  | @lambda Γ id name params size body hp hb ih =>
    exact @safe_lambda _ _ _ _ _ Γ _ _ _ _ _ (.lambda hp hb) hl
  | cond ht hy hn iht ihy ihn =>
    obtain ⟨h₁, h₃⟩ := List.forall_mem_append.1 (part hl)
    obtain ⟨h₁, h₂⟩ := List.forall_mem_append.1 h₁
    exact passes_cond (safe_test ht (iht nofun h₁)) (ihy value h₂) (ihn nofun h₃)
  | loop hb ih => exact passes_loop (ih value (part hl))
  | label hd ih => exact passes_label (ih nofun (part hl))
  | goto ht hx ih => exact passes_goto (ih nofun (part hl))
  | switch hx hc hd ihx ihc ihd =>
    obtain ⟨h₁, h₃⟩ := List.forall_mem_append.1 (part hl)
    obtain ⟨h₁, h₂⟩ := List.forall_mem_append.1 h₁
    exact passes_switch (ihx value h₁)
      (fun v c hm => ihc c hm nofun (forall_nodesOf.1 h₂ c hm) _ v) (ihd nofun h₃)
  | arm hv hb ihv ihb =>
    obtain ⟨h₁, h₂⟩ := List.forall_mem_append.1 (part hl)
    exact fun equal v => passes_case calls v
      (fun c hm => ihv c hm value (forall_nodesOf.1 h₁ c hm)) (ihb value h₂)
  | write hc text =>
    exact context hc (by decide) (by decide) (fun _ => ⟨text, rfl⟩)
      (List.forall_mem_singleton.2 (passes_return _))
  | safeWrite hc hx ih =>
    obtain ⟨-, h₂⟩ := List.forall_mem_append.1 (part hl)
    exact context hc (by decide) (by decide) nofun
      (List.forall_mem_singleton.2 (ih value (forall_nodesOf.1 h₂ _ List.mem_cons_self)))
  | globals hc =>
    exact context hc (by decide) (by decide) nofun fun _ h => absurd h List.not_mem_nil
  | @template Γ tmp body hc hv hu hb ih =>
    have inside : body.Linked units act.unit := fun d hd =>
      hl d (by simp [templateCode, Code.nodes, nodesOf, hd])
    exact @safe_templateCode _ (Γ.standing act) _ _ _ _ _ hc hv hu (huser _ hu) (ih value inside)
      (hb.passes_eval huser hbalance)
  | dynamic ha ih =>
    exact passes_dynamic calls fun c hm => ih c hm value (forall_nodesOf.1 (part hl) c hm)
  | filter hx hp ihx ihp =>
    obtain ⟨h₁, h₂⟩ := List.forall_mem_append.1 (part hl)
    exact passes_filter calls (ihx value h₁) (ihp value h₂)
  | list hi ih => exact passes_list fun c hm => ih c hm value (forall_nodesOf.1 (part hl) c hm)
  | @current Γ v hv hh =>
    exact passes_currentCode (safe_var hv) (.inr (@yields_held _ (Γ.standing act) _ _ _ _ hv hh))
  | not hx ih => exact passes_not (safe_test hx (ih nofun (part hl)))
  | toBool hx ih => exact passes_toBool (ih value (part hl))
  | andAlso hx hy ihx ihy =>
    obtain ⟨h₁, h₂⟩ := List.forall_mem_append.1 (part hl)
    exact passes_andAlso (safe_test hx (ihx nofun h₁)) (safe_test hy (ihy nofun h₂))
  | orElse hx hy ihx ihy =>
    obtain ⟨h₁, h₂⟩ := List.forall_mem_append.1 (part hl)
    exact passes_orElse (safe_test hx (ihx nofun h₁)) (safe_test hy (ihy nofun h₂))
  | @moveNext Γ v hv hh =>
    exact passes_moveNextCode calls (safe_var hv)
      (.inr (@yields_held _ (Γ.standing act) _ _ _ _ hv hh))
  | iterate | start => exact absurd rfl hr
  | @each Γ vars state x body hv hs hf hx hb ihx ihb =>
    obtain ⟨h₁, h₂⟩ := List.forall_mem_append.1 (part hl)
    obtain ⟨h₂, -⟩ := List.forall_mem_append.1 h₂
    exact @safe_each _ (Γ.standing act) _ _ _ _ _ _ _ hcall (named hv) hs.has hs.owner hs.unnamed
      hs.ne_context hf (ihx value (part (part h₁))) (ihb value h₂)
  | noted hx ih => exact passes_debug (ih value (part hl))
  | missing => exact .inl rfl
  | present hx ih => exact .inr (ih value hl)
  | asValue hx ih => exact ih nofun hl

end

end Stencil
