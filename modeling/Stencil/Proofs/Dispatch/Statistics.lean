import Stencil.Proofs.Dispatch.History

/-!
# What the cache of a call site counts

A dispatch begins with a lookup in the cache of its call site, and ends this beginning by storing
what its operation was resolved to if nothing was found. Whether it counts as a hit is told here
from the dispatches before it alone: it does if its operands have the shape of the most recent
dispatch whose resolution succeeded on a miss. `InlineCache.Tells` says that a cache shows just
that, and one more dispatch preserves it, whatever it is and however many have begun before it, and
whether or not these are over.
-/

namespace Stencil

/-- How a dispatch begins: at a call site of a unit, with operands of a shape, for which the
operation has a binding or none. -/
structure Beginning where
  unit : Nat
  site : Nat
  shape : Shape
  target : Option Binding

/-! ### Histories

Those that have begun are listed with the most recent one first. -/

/-- The most recent dispatch whose resolution succeeded on a miss. -/
def lastStored : List Beginning → Option Beginning
  | [] => none
  | d :: ds =>
    if !(lastStored ds).any (·.shape == d.shape) && d.target.isSome then some d else lastStored ds

/-- Whether a dispatch counts as a hit, by those before it. -/
def Beginning.hits (d : Beginning) (ds : List Beginning) : Bool :=
  (lastStored ds).any (·.shape == d.shape)

/-- How many dispatches of a history count as hits. -/
def hitCount : List Beginning → Nat
  | [] => 0
  | d :: ds => hitCount ds + (d.hits ds).toNat

section

variable {d e : Beginning} {ds : List Beginning}

theorem Beginning.hits_iff : d.hits ds = true ↔ ∃ e, lastStored ds = some e ∧ e.shape = d.shape := by
  simp only [hits, Option.any_eq_true, beq_iff_eq]

theorem lastStored_cons_of_hits (h : d.hits ds = true) : lastStored (d :: ds) = lastStored ds := by
  unfold Beginning.hits at h
  simp [lastStored, h]

theorem lastStored_cons_of_failure (h : d.target = none) : lastStored (d :: ds) = lastStored ds := by
  simp [lastStored, h]

theorem lastStored_cons_of_miss {b : Binding} (h : d.hits ds = false) (ht : d.target = some b) :
    lastStored (d :: ds) = some d := by
  unfold Beginning.hits at h
  simp [lastStored, h, ht]

end

/-! ### One cache -/

namespace InlineCache

/-- A cache after a dispatch has begun. -/
def begun (c : InlineCache Binding) (shape : Shape) (target : Option Binding) :
    InlineCache Binding :=
  match (c.lookup shape).1, target with
  | none, some b => (c.lookup shape).2.store shape b
  | _, _ => (c.lookup shape).2

/-- A cache shows what has begun since it was empty. -/
structure Tells (c : InlineCache Binding) (ds : List Beginning) : Prop where
  total : c.hits + c.misses = ds.length
  hits : c.hits = hitCount ds
  entry : c.entry = (lastStored ds).bind fun d => d.target.map fun b => (d.shape, b)

variable {c : InlineCache Binding} {d : Beginning} {ds : List Beginning}

/-- The entry is resolved. -/
theorem target_lastStored {ds : List Beginning} {e : Beginning} (h : lastStored ds = some e) :
    ∃ b, e.target = some b := by
  induction ds with
  | nil => cases h
  | cons d ds ih =>
    rw [lastStored] at h
    split at h
    · rename_i hd
      obtain rfl : d = e := Option.some.inj h
      exact Option.isSome_iff_exists.1 (Bool.and_eq_true_iff.1 hd).2
    · exact ih h

/-- The shape of the entry is that of the most recent dispatch whose resolution succeeded on a
miss. -/
theorem Tells.shape (h : c.Tells ds) : c.entry.map (·.1) = (lastStored ds).map (·.shape) := by
  rw [h.entry]
  cases hl : lastStored ds with
  | none => rfl
  | some e =>
    obtain ⟨b, hb⟩ := target_lastStored hl
    simp [hb]

/-- A lookup finds something just if the dispatch is a hit. -/
theorem Tells.find?_isSome (h : c.Tells ds) : (c.find? d.shape).isSome = d.hits ds := by
  rw [find?, h.entry, Beginning.hits]
  cases hl : lastStored ds with
  | none => rfl
  | some e =>
    obtain ⟨b, hb⟩ := target_lastStored hl
    simp only [Option.bind_some, hb, Option.map_some, Option.any_some]
    split <;> simp_all

theorem begun_of_found {shape : Shape} {target : Option Binding} {b : Binding}
    (h : c.find? shape = some b) : c.begun shape target = { c with hits := c.hits + 1 } := by
  simp only [begun, lookup, h]

theorem begun_of_missing {shape : Shape} {b : Binding} (h : c.find? shape = none) :
    c.begun shape (some b) = { c with entry := some (shape, b), misses := c.misses + 1 } := by
  simp only [begun, lookup, h, store]

/-- A dispatch that fails to resolve only counts as a miss. -/
theorem begun_of_failure {shape : Shape} (h : c.find? shape = none) :
    c.begun shape none = { c with misses := c.misses + 1 } := by
  simp only [begun, lookup, h]

/-- One more dispatch. -/
theorem Tells.begun (h : c.Tells ds) (d : Beginning) : (c.begun d.shape d.target).Tells (d :: ds) := by
  have hsome := h.find?_isSome (d := d)
  cases hf : c.find? d.shape with
  | some b =>
    rw [hf] at hsome
    have hhit : d.hits ds = true := hsome.symm
    rw [begun_of_found hf]
    constructor
    · have := h.total
      simp only [List.length_cons]
      omega
    · simp only [hitCount, hhit, Bool.toNat_true, h.hits]
    · rw [lastStored_cons_of_hits hhit]
      exact h.entry
  | none =>
    rw [hf] at hsome
    have hmiss : d.hits ds = false := hsome.symm
    cases ht : d.target with
    | some b =>
      rw [begun_of_missing hf]
      constructor
      · have := h.total
        simp only [List.length_cons]
        omega
      · simp only [hitCount, hmiss, Bool.toNat_false, h.hits, Nat.add_zero]
      · simp [lastStored_cons_of_miss hmiss ht, ht]
    | none =>
      rw [begun_of_failure hf]
      constructor
      · have := h.total
        simp only [List.length_cons]
        omega
      · simp only [hitCount, hmiss, Bool.toNat_false, h.hits, Nat.add_zero]
      · rw [lastStored_cons_of_failure ht]
        exact h.entry

end InlineCache

/-! ### All caches -/

/-- Whether a dispatch is one of a call site. -/
def Beginning.isAt (unit id : Nat) (d : Beginning) : Bool := d.unit == unit && d.site == id

namespace Caches

/-- There is a cache for a call site. -/
def Has (c : Caches) (unit id : Nat) : Prop := id < (c.entries.getD unit #[]).size

/-- The caches after a dispatch has begun. -/
def begun (c : Caches) (d : Beginning) : Caches :=
  match (c.lookup d.unit d.site d.shape).1, d.target with
  | none, some b =>
    (c.lookup d.unit d.site d.shape).2.modify d.unit d.site (·.store d.shape b)
  | _, _ => (c.lookup d.unit d.site d.shape).2

variable {c : Caches} {d : Beginning} {unit id : Nat}

theorem size_getD_modify {α : Type} (xs : Array (Array α)) (i j : Nat) {f : Array α → Array α}
    (hf : ∀ x, (f x).size = x.size) : ((xs.modify i f).getD j #[]).size = (xs.getD j #[]).size := by
  rcases getD_modify xs i j f #[] with h | ⟨-, h⟩
  · rw [h]
  · rw [h, hf]

theorem has_lookup (u i : Nat) (shape : Shape) :
    (c.lookup u i shape).2.Has unit id ↔ c.Has unit id := by
  unfold Has lookup
  rw [size_getD_modify c.entries u unit fun _ => Array.size_setIfInBounds]

theorem has_modify (u i : Nat) (f : InlineCache Binding → InlineCache Binding) :
    (c.modify u i f).Has unit id ↔ c.Has unit id := by
  unfold Has modify
  rw [size_getD_modify c.entries u unit fun _ => Array.size_modify]

/-- There is no unit without caches that has a cache. -/
theorem Has.unit_lt (h : c.Has unit id) : unit < c.entries.size := by
  by_contra hno
  simp [Has, Array.getD_eq_getD_getElem?, Array.getElem?_eq_none (Nat.le_of_not_lt hno)] at h

theorem getD_modify_self {α : Type} {xs : Array α} {i : Nat} (h : i < xs.size) (f : α → α) (d : α) :
    (xs.modify i f).getD i d = f (xs.getD i d) := by
  simp [Array.getD_eq_getD_getElem?, Array.getElem_modify, h]

theorem ofSite_lookup_self (h : c.Has unit id) (shape : Shape) :
    (c.lookup unit id shape).2.ofSite unit id = ((c.ofSite unit id).lookup shape).2 := by
  simp only [ofSite, lookup, getD_modify_self h.unit_lt]
  generalize ((c.entries.getD unit #[]).getD id {}).lookup shape = found
  unfold Has at h
  generalize c.entries.getD unit #[] = caches at h
  simp [Array.getD_eq_getD_getElem?, h]

theorem ofSite_modify_self (h : c.Has unit id) (f : InlineCache Binding → InlineCache Binding) :
    (c.modify unit id f).ofSite unit id = f (c.ofSite unit id) := by
  simp only [ofSite, modify, getD_modify_self h.unit_lt]
  exact getD_modify_self h f {}

theorem fst_lookup (unit id : Nat) (shape : Shape) :
    (c.lookup unit id shape).1 = (c.ofSite unit id).find? shape :=
  InlineCache.fst_lookup ..

theorem has_begun : (c.begun d).Has unit id ↔ c.Has unit id := by
  unfold begun
  split
  · rw [has_modify, has_lookup]
  · rw [has_lookup]

/-- What begins at a call site is what its cache sees. -/
theorem ofSite_begun (h : c.Has d.unit d.site) :
    (c.begun d).ofSite d.unit d.site = (c.ofSite d.unit d.site).begun d.shape d.target := by
  have hlooked := ofSite_lookup_self h d.shape
  have hhas : (c.lookup d.unit d.site d.shape).2.Has d.unit d.site := (has_lookup ..).2 h
  simp only [begun, InlineCache.begun, fst_lookup, InlineCache.fst_lookup]
  cases (c.ofSite d.unit d.site).find? d.shape with
  | some b => exact hlooked
  | none =>
    cases d.target with
    | some b =>
      rw [ofSite_modify_self hhas, hlooked]
    | none => exact hlooked

/-- Other call sites see nothing of it. -/
theorem ofSite_begun_of_ne (h : d.isAt unit id = false) :
    (c.begun d).ofSite unit id = c.ofSite unit id := by
  have hne : ¬ (unit = d.unit ∧ id = d.site) := by
    rintro ⟨rfl, rfl⟩
    simp [Beginning.isAt] at h
  have hlooked : (c.lookup d.unit d.site d.shape).2.ofSite unit id = c.ofSite unit id := by
    rcases ofSite_lookup c d.unit d.site unit id d.shape with h | ⟨hu, hi, -⟩
    · exact h
    · exact absurd ⟨hu, hi⟩ hne
  unfold begun
  split
  · rename_i b _ _
    rcases ofSite_modify (c.lookup d.unit d.site d.shape).2 d.unit d.site unit id
      (·.store d.shape b) with h | ⟨hu, hi, -⟩
    · exact h.trans hlooked
    · exact absurd ⟨hu, hi⟩ hne
  · exact hlooked

/-- The log has one more lookup. -/
theorem lookups_begun :
    (c.begun d).lookups = (d.unit, d.site, (c.lookup d.unit d.site d.shape).1.isSome) :: c.lookups := by
  unfold begun
  split <;> rfl

end Caches

end Stencil
