import Stencil.Proofs.Dispatch.Statistics
import Stencil.Proofs.Machine.Forms
import Stencil.Proofs.Machine.Manners
import Stencil.Program.Run

/-!
# What the machine does, step by step

Whatever code is evaluated, whatever is called, by whichever jobs: on the way from one store to
another the machine begins dispatches, one after another, and between them leaves the caches alone.
Nor does it ever replace the global object of a context or the code it runs, and the heap changes
as the jobs change it, which keep to their manners. `Trail` tells such a way with the dispatches
that have begun on it.

A dispatch begins before its binding is carried out, and what that begins comes later on the way.
-/

namespace Stencil

variable {ε α β : Type}

/-! ### Steps -/

/-- A step that begins no dispatch. -/
structure Idle (M : Manners) (s t : Store) : Prop where
  heap : M.heap s.toHeap t.toHeap
  units : t.units = s.units
  caches : t.caches = s.caches
  size : s.contexts.size ≤ t.contexts.size
  globals : ∀ id g, (s.context id).globals = some g → (t.context id).globals = some g

namespace Idle

variable {M : Manners} {s t : Store}

/-- A step that concerns neither the heap nor contexts. -/
theorem of_eq (hh : t.toHeap = s.toHeap) (hu : t.units = s.units) (hc : t.caches = s.caches)
    (hx : t.contexts = s.contexts) : Idle M s t := by
  refine ⟨hh ▸ M.refl _, hu, hc, hx ▸ Nat.le_refl _, fun id g hg => ?_⟩
  rwa [Store.context, hx]

theorem refl (s : Store) : Idle M s s := .of_eq rfl rfl rfl rfl

theorem trans {u : Store} (h : Idle M s t) (h' : Idle M t u) : Idle M s u where
  heap := M.trans h.heap h'.heap
  units := h'.units.trans h.units
  caches := h'.caches.trans h.caches
  size := Nat.le_trans h.size h'.size
  globals id g hg := h'.globals id g (h.globals id g hg)

/-- A change of the heap. -/
theorem of_heap {h : Heap} (hm : M.heap s.toHeap h) : Idle M s { s with toHeap := h } :=
  ⟨hm, rfl, rfl, Nat.le_refl _, fun _ _ hg => hg⟩

/-- A change of a context that keeps its global object. -/
theorem of_context {id : Nat} {f : Context → Context}
    (hf : ∀ g, (s.context id).globals = some g → (f (s.context id)).globals = some g) :
    Idle M s { s with contexts := s.contexts.modify id f } := by
  refine ⟨M.refl _, rfl, rfl, by simp, fun j g hg => ?_⟩
  rcases context_modify s id j f with h | ⟨rfl, h⟩
  · rwa [h]
  · rw [h]
    exact hf g hg

end Idle

/-- Whatever happened in between, the heap has changed as it may, and no context has lost its global
object. -/
structure Onward (M : Manners) (s t : Store) : Prop where
  heap : M.heap s.toHeap t.toHeap
  globals : ∀ id g, (s.context id).globals = some g → (t.context id).globals = some g

namespace Onward

variable {M : Manners} {s t u : Store}

theorem of_idle (h : Idle M s t) : Onward M s t := ⟨h.heap, h.globals⟩

theorem refl (s : Store) : Onward M s s := .of_idle (.refl s)

theorem trans (h : Onward M s t) (h' : Onward M t u) : Onward M s u :=
  ⟨M.trans h.heap h'.heap, fun id g hg => h'.globals id g (h.globals id g hg)⟩

end Onward

section

variable [Host]

/-- How a dispatch of a call site begins. -/
def CallSite.beginning (site : CallSite) (unit : Nat) (s : Heap) (x y : Value) : Beginning :=
  ⟨unit, site.id, site.shape s x y, (site.resolve s x y).toOption⟩

/-- A store after a dispatch has begun. -/
def Store.begun (s : Store) (site : CallSite) (unit : Nat) (x y : Value) : Store :=
  s.withCaches (s.caches.begun (site.beginning unit s.toHeap x y))

/-- A way of the machine, with the dispatches that have begun on it, the most recent one first. -/
inductive Trail (M : Manners) : Store → List Beginning → Store → Prop
  | stop (s : Store) : Trail M s [] s
  | idle {s t u : Store} {ds : List Beginning} (h : Trail M s ds t) (hi : Idle M t u) : Trail M s ds u
  | begins {s t : Store} {ds : List Beginning} (h : Trail M s ds t) (site : CallSite) (unit : Nat)
      (x y : Value) : Trail M s (site.beginning unit t.toHeap x y :: ds) (t.begun site unit x y)

namespace Trail

variable {M : Manners} {s t u : Store} {ds es : List Beginning}

theorem of_idle (h : Idle M s t) : Trail M s [] t := .idle (.stop s) h

theorem trans (h : Trail M s ds t) (h' : Trail M t es u) : Trail M s (es ++ ds) u := by
  induction h' with
  | stop => exact h
  | idle _ hi ih => exact .idle ih hi
  | begins _ site unit x y ih => exact .begins ih site unit x y

/-- Each dispatch that has begun is one lookup in the log. -/
theorem lookups (h : Trail M s ds t) : t.caches.lookups.map (fun l => (l.1, l.2.1)) =
    ds.map (fun d => (d.unit, d.site)) ++ s.caches.lookups.map fun l => (l.1, l.2.1) := by
  induction h with
  | stop => rfl
  | idle _ hi ih =>
    rw [hi.caches]
    exact ih
  | begins _ site unit x y ih =>
    rw [Store.begun, Store.withCaches, Caches.lookups_begun, List.map_cons, ih]
    rfl

/-- What steps keep, ways keep. -/
theorem keeps {φ : Store → Store → Prop} (refl : ∀ s, φ s s)
    (trans : ∀ {s t u}, φ s t → φ t u → φ s u) (idle : ∀ {s t}, Idle M s t → φ s t)
    (begins : ∀ s (site : CallSite) unit x y, φ s (s.begun site unit x y)) (h : Trail M s ds t) :
    φ s t := by
  induction h with
  | stop => exact refl _
  | idle _ hi ih => exact trans ih (idle hi)
  | begins _ site unit x y ih => exact trans ih (begins _ site unit x y)

theorem heap (h : Trail M s ds t) : M.heap s.toHeap t.toHeap :=
  h.keeps (φ := fun s t => M.heap s.toHeap t.toHeap) (fun s => M.refl s.toHeap) M.trans Idle.heap
    fun s _ _ _ _ => M.refl s.toHeap

theorem units (h : Trail M s ds t) : t.units = s.units :=
  h.keeps (φ := fun s t => t.units = s.units) (fun _ => rfl) (fun h h' => h'.trans h) Idle.units
    fun _ _ _ _ _ => rfl

theorem globals (h : Trail M s ds t) {id g : Nat} (hg : (s.context id).globals = some g) :
    (t.context id).globals = some g :=
  h.keeps (φ := fun s t => (s.context id).globals = some g → (t.context id).globals = some g)
    (fun _ hg => hg) (fun h h' hg => h' (h hg)) (fun hi => hi.globals id g) (fun _ _ _ _ _ hg => hg) hg

end Trail

/-! ### How dispatches begin -/

/-- Which binding a dispatch carries out: the one that is stored for the shape of its operands, or
what its operation resolves to. -/
def Store.found (s : Store) (site : CallSite) (unit : Nat) (x y : Value) : Option Binding :=
  ((s.caches.ofSite unit site.id).find? (site.shape s.toHeap x y)).or
    (site.resolve s.toHeap x y).toOption

/-- The store that a dispatch begins from, as it counts operations no host hands over. -/
def Store.strayed (s : Store) (site : CallSite) (x y : Value) : Store :=
  { s with tally := { s.tally with strays := s.tally.strays + (site.isStray x y).toNat } }

/-- A dispatch begins, and then its binding is carried out. Without one it fails, and nothing else
begins. -/
theorem dispatchOn_begins (call : Callback) (fuel ctx unit : Nat) (site : CallSite)
    (args : List Value) (x y : Value) (s : Store) :
    (∀ b, s.found site unit x y = some b → dispatchOn call fuel ctx unit site args x y s =
      site.carryOut call fuel ctx args b ((s.strayed site x y).begun site unit x y)) ∧
    (s.found site unit x y = none → ∃ e, site.resolve s.toHeap x y = .error e ∧
      dispatchOn call fuel ctx unit site args x y s =
        .error (.plain e.message false) ((s.strayed site x y).begun site unit x y)) := by
  have hcount : Action.count (fun t => { t with strays := t.strays + (site.isStray x y).toNat }) s =
      .ok () (s.strayed site x y) := rfl
  have hlookup : lookupCache unit site.id (site.shape s.toHeap x y) (s.strayed site x y) =
      .ok (s.caches.lookup unit site.id (site.shape s.toHeap x y)).1
        ((s.strayed site x y).withCaches
          (s.caches.lookup unit site.id (site.shape s.toHeap x y)).2) := rfl
  have hheap : (s.strayed site x y).toHeap = s.toHeap := rfl
  have hcaches : (s.strayed site x y).caches = s.caches := rfl
  rw [dispatchOn, bind_apply, hcount]
  dsimp only
  rw [get_bind_apply, hheap, bind_apply, hlookup, Store.begun, Caches.begun, Store.found,
    ← Caches.fst_lookup]
  simp only [CallSite.beginning, hheap, hcaches]
  generalize s.caches.lookup unit site.id (site.shape s.toHeap x y) = looked
  obtain ⟨found, caches⟩ := looked
  cases found with
  | some b =>
    constructor
    · rintro _ ⟨⟩
      rfl
    · rintro ⟨⟩
  | none =>
    dsimp only
    rw [bind_apply, CallSite.bind_apply]
    rw [show ((s.strayed site x y).withCaches caches).toHeap = s.toHeap from rfl]
    cases site.resolve s.toHeap x y with
    | ok b =>
      constructor
      · rintro _ ⟨⟩
        rfl
      · rintro ⟨⟩
    | error e =>
      constructor
      · rintro _ ⟨⟩
      · intro _
        exact ⟨e, rfl, rfl⟩

end

end Stencil
