import Mathlib
import Stencil.Proofs.Dispatch.Statistics

/-!
# Contexts that share a cache

Several contexts may dispatch through one call site at the same time. Each looks at the entry,
counts what it has found, and stores what it has resolved, as separate steps, and the steps of
different contexts interleave in any order. What a context invokes may dispatch through the same
site again, so the dispatches of a context that are not over are a stack.

Every dispatch is counted exactly once, at some time after it has looked at the entry, and it
counts as a hit just if the entry it looked at had its shape. The entry is that of the most recent
step that has stored one.

A context that is left alone for as long as a dispatch begins does what `InlineCache.begun` tells.
-/

namespace Stencil

/-- How far a dispatch has got. -/
inductive Stage where
  /-- It has looked at the entry, and has not counted yet what it has found. -/
  | looked (shape : Shape) (found : Option Binding)
  /-- It has counted a miss, and the operation is not resolved yet. -/
  | missed (shape : Shape)
  /-- It carries out a binding. -/
  | invoking

/-- Whether a dispatch has not been counted yet. -/
def Stage.isPending : Stage → Bool
  | .looked .. => true
  | _ => false

/-- Whether a dispatch will count as a hit. -/
def Stage.isPendingHit : Stage → Bool
  | .looked _ (some _) => true
  | _ => false

/-- A step of a context. -/
inductive Move where
  /-- A dispatch begins: it looks at the entry. -/
  | look (shape : Shape)
  /-- It counts what it has found. -/
  | count
  /-- The operation is resolved, and what it is resolved to is stored. -/
  | store (shape : Shape) (target : Binding)
  /-- The resolution fails, and with it the dispatch. -/
  | giveUp
  /-- The binding is carried out. -/
  | leave

/-- A cache, and the dispatches through it of each context that are not over, innermost first. -/
structure Shared (n : Nat) where
  cache : InlineCache Binding
  stages : Fin n → List Stage

namespace Shared

variable {n : Nat}

/-- Nothing has begun. -/
def fresh (n : Nat) : Shared n := ⟨{}, fun _ => []⟩

/-- A context may begin a dispatch if all its dispatches carry out something. -/
def Ready : List Stage → Prop
  | [] => True
  | stage :: _ => stage = .invoking

/-- The other dispatches of a context stay as they are. -/
def set (σ : Shared n) (ctx : Fin n) (cache : InlineCache Binding) (stages : List Stage) : Shared n :=
  ⟨cache, Function.update σ.stages ctx stages⟩

/-- What one context does. -/
inductive Step : Shared n → Fin n × Move → Shared n → Prop
  | look {σ : Shared n} {ctx : Fin n} (shape : Shape) (h : Ready (σ.stages ctx)) :
      Step σ (ctx, .look shape)
        (σ.set ctx σ.cache (.looked shape (σ.cache.find? shape) :: σ.stages ctx))
  | hit {σ : Shared n} {ctx : Fin n} {shape : Shape} {b : Binding} {rest : List Stage}
      (h : σ.stages ctx = .looked shape (some b) :: rest) :
      Step σ (ctx, .count) (σ.set ctx { σ.cache with hits := σ.cache.hits + 1 } (.invoking :: rest))
  | miss {σ : Shared n} {ctx : Fin n} {shape : Shape} {rest : List Stage}
      (h : σ.stages ctx = .looked shape none :: rest) :
      Step σ (ctx, .count)
        (σ.set ctx { σ.cache with misses := σ.cache.misses + 1 } (.missed shape :: rest))
  | store {σ : Shared n} {ctx : Fin n} {shape : Shape} {rest : List Stage}
      (h : σ.stages ctx = .missed shape :: rest) (target : Binding) :
      Step σ (ctx, .store shape target)
        (σ.set ctx (σ.cache.store shape target) (.invoking :: rest))
  | giveUp {σ : Shared n} {ctx : Fin n} {shape : Shape} {rest : List Stage}
      (h : σ.stages ctx = .missed shape :: rest) :
      Step σ (ctx, .giveUp) (σ.set ctx σ.cache rest)
  | leave {σ : Shared n} {ctx : Fin n} {rest : List Stage}
      (h : σ.stages ctx = .invoking :: rest) :
      Step σ (ctx, .leave) (σ.set ctx σ.cache rest)

/-- What may have happened since nothing had begun, the most recent step first. -/
inductive Run : List (Fin n × Move) → Shared n → Prop
  | fresh : Run [] (fresh n)
  | step {moves : List (Fin n × Move)} {σ τ : Shared n} {move : Fin n × Move} (h : Run moves σ)
      (hs : Step σ move τ) : Run (move :: moves) τ

end Shared

/-! ### What has happened -/

section

variable {n : Nat}

/-- How many dispatches have begun. -/
def lookCount (moves : List (Fin n × Move)) : Nat :=
  moves.countP fun m => match m.2 with
    | .look _ => true
    | _ => false

/-- What was stored most recently. -/
def latestStore : List (Fin n × Move) → Option (Shape × Binding)
  | [] => none
  | (_, .store shape target) :: _ => some (shape, target)
  | _ :: moves => latestStore moves

/-- How many dispatches have begun whose shape was the one stored most recently. -/
def lookHitCount : List (Fin n × Move) → Nat
  | [] => 0
  | (_, .look shape) :: moves =>
    lookHitCount moves + ((latestStore moves).any (·.1 == shape)).toNat
  | _ :: moves => lookHitCount moves

/-- How many dispatches that are not over satisfy a condition. -/
def Shared.amount (σ : Shared n) (p : Stage → Bool) : Nat := ∑ ctx, (σ.stages ctx).countP p

namespace Shared

variable {σ τ : Shared n} {ctx : Fin n} {cache : InlineCache Binding}

/-- Only the dispatches of one context are counted anew. -/
theorem amount_set (σ : Shared n) (ctx : Fin n) (cache : InlineCache Binding) (p : Stage → Bool)
    (stages : List Stage) :
    (σ.set ctx cache stages).amount p + (σ.stages ctx).countP p = σ.amount p + stages.countP p := by
  have hupdate : (fun i => ((σ.set ctx cache stages).stages i).countP p) =
      Function.update (fun i => (σ.stages i).countP p) ctx (stages.countP p) := by
    funext i
    by_cases hi : i = ctx
    · subst hi
      simp [set]
    · simp [set, hi]
  rw [amount, amount, hupdate, Finset.sum_update_of_mem (Finset.mem_univ ctx),
    ← Finset.add_sum_erase _ _ (Finset.mem_univ ctx), Finset.sdiff_singleton_eq_erase]
  omega

theorem countP_cons_eq (p : Stage → Bool) (stage : Stage) (rest : List Stage) :
    (stage :: rest).countP p = rest.countP p + (p stage).toNat := by
  rw [List.countP_cons]
  cases p stage <;> rfl

/-- A dispatch goes on from one stage to the next. -/
theorem amount_move (cache : InlineCache Binding) (stage' : Stage) (p : Stage → Bool)
    {stage : Stage} {rest : List Stage}
    (h : σ.stages ctx = stage :: rest) :
    (σ.set ctx cache (stage' :: rest)).amount p + (p stage).toNat = σ.amount p + (p stage').toNat := by
  have hset := amount_set σ ctx cache p (stage' :: rest)
  rw [h, countP_cons_eq, countP_cons_eq] at hset
  omega

/-- A dispatch is over. -/
theorem amount_end (cache : InlineCache Binding) (p : Stage → Bool) {stage : Stage} {rest : List Stage}
    (h : σ.stages ctx = stage :: rest) :
    (σ.set ctx cache rest).amount p + (p stage).toNat = σ.amount p := by
  have hset := amount_set σ ctx cache p rest
  rw [h, countP_cons_eq] at hset
  omega

/-- A dispatch begins. -/
theorem amount_begin (p : Stage → Bool) (stage : Stage) :
    (σ.set ctx cache (stage :: σ.stages ctx)).amount p = σ.amount p + (p stage).toNat := by
  have hset := amount_set σ ctx cache p (stage :: σ.stages ctx)
  rw [countP_cons_eq] at hset
  omega

/-- The cache counts every dispatch that has begun, but for those that will be counted next. -/
structure Exact (moves : List (Fin n × Move)) (σ : Shared n) : Prop where
  total : σ.cache.hits + σ.cache.misses + σ.amount Stage.isPending = lookCount moves
  hits : σ.cache.hits + σ.amount Stage.isPendingHit = lookHitCount moves
  entry : σ.cache.entry = latestStore moves

theorem exact_fresh : Exact [] (fresh n) := by
  constructor
  · simp [fresh, amount, lookCount]
  · simp [fresh, amount, lookHitCount]
  · rfl

end Shared

/-- Something is found if the shape is that of the entry. -/
theorem InlineCache.isSome_find? (c : InlineCache Binding) (shape : Shape) :
    (c.find? shape).isSome = c.entry.any (·.1 == shape) := by
  unfold find?
  split
  · rename_i he
    split <;> simp_all
  · rename_i he
    simp [he]

namespace Shared

variable {σ τ : Shared n} {moves : List (Fin n × Move)} {move : Fin n × Move}

/-- A dispatch goes on, and what it has got ahead is what the cache counts more. -/
theorem Exact.goes_on (h : Exact moves σ) {ctx : Fin n} {cache : InlineCache Binding}
    {stage stage' : Stage} {rest : List Stage} (hstage : σ.stages ctx = stage :: rest)
    (htotal : cache.hits + cache.misses + stage'.isPending.toNat =
      σ.cache.hits + σ.cache.misses + stage.isPending.toNat)
    (hhits : cache.hits + stage'.isPendingHit.toNat = σ.cache.hits + stage.isPendingHit.toNat)
    (hlooks : lookCount (move :: moves) = lookCount moves)
    (hlookHits : lookHitCount (move :: moves) = lookHitCount moves)
    (hentry : cache.entry = latestStore (move :: moves)) :
    Exact (move :: moves) (σ.set ctx cache (stage' :: rest)) := by
  have hpending := amount_move cache stage' Stage.isPending hstage
  have hhit := amount_move cache stage' Stage.isPendingHit hstage
  have := h.total
  have := h.hits
  refine ⟨?_, ?_, hentry⟩
  · rw [hlooks]
    show cache.hits + cache.misses + _ = _
    omega
  · rw [hlookHits]
    show cache.hits + _ = _
    omega

/-- A dispatch that has been counted is over. -/
theorem Exact.ends (h : Exact moves σ) {ctx : Fin n} {stage : Stage} {rest : List Stage}
    (hstage : σ.stages ctx = stage :: rest) (hcounted : stage.isPending = false)
    (hcounted' : stage.isPendingHit = false) (hlooks : lookCount (move :: moves) = lookCount moves)
    (hlookHits : lookHitCount (move :: moves) = lookHitCount moves)
    (hentry : latestStore (move :: moves) = latestStore moves) :
    Exact (move :: moves) (σ.set ctx σ.cache rest) := by
  have hpending := amount_end σ.cache Stage.isPending hstage
  have hhit := amount_end σ.cache Stage.isPendingHit hstage
  rw [hcounted, Bool.toNat_false, Nat.add_zero] at hpending
  rw [hcounted', Bool.toNat_false, Nat.add_zero] at hhit
  refine ⟨?_, ?_, ?_⟩
  · rw [hlooks, hpending]
    exact h.total
  · rw [hlookHits, hhit]
    exact h.hits
  · rw [hentry]
    exact h.entry

/-- A dispatch begins. -/
theorem Exact.begins (h : Exact moves σ) (ctx : Fin n) (shape : Shape) :
    Exact ((ctx, .look shape) :: moves)
      (σ.set ctx σ.cache (.looked shape (σ.cache.find? shape) :: σ.stages ctx)) := by
  have hfound : (Stage.looked shape (σ.cache.find? shape)).isPendingHit =
      (latestStore moves).any (·.1 == shape) := by
    rw [← h.entry, ← InlineCache.isSome_find?]
    cases σ.cache.find? shape <;> rfl
  have htotal := h.total
  have hhits := h.hits
  refine ⟨?_, ?_, h.entry⟩
  · rw [amount_begin]
    have hlooks : lookCount ((ctx, .look shape) :: moves) = lookCount moves + 1 := by
      simp [lookCount]
    rw [hlooks]
    show σ.cache.hits + σ.cache.misses + (_ + 1) = _
    omega
  · rw [amount_begin, hfound, lookHitCount]
    show σ.cache.hits + (_ + _) = _
    omega

/-- Whatever a context does next, nothing is counted twice or left out. -/
theorem Exact.step (h : Exact moves σ) (hs : Step σ move τ) : Exact (move :: moves) τ := by
  have lookCount_cons {ctx : Fin n} {m : Move} (hm : ∀ shape, m ≠ .look shape) :
      lookCount ((ctx, m) :: moves) = lookCount moves := by
    cases m with
    | look shape => exact absurd rfl (hm shape)
    | _ => simp [lookCount]
  cases hs with
  | look shape hready => exact h.begins _ shape
  | hit hstage =>
    refine h.goes_on hstage ?_ rfl (lookCount_cons (by simp)) rfl h.entry
    simp only [Stage.isPending, Bool.toNat_true, Bool.toNat_false]
    omega
  | miss hstage =>
    exact h.goes_on hstage rfl rfl (lookCount_cons (by simp)) rfl h.entry
  | store hstage target =>
    exact h.goes_on hstage rfl rfl (lookCount_cons (by simp)) rfl rfl
  | giveUp hstage => exact h.ends hstage rfl rfl (lookCount_cons (by simp)) rfl rfl
  | leave hstage => exact h.ends hstage rfl rfl (lookCount_cons (by simp)) rfl rfl

/-- Nothing is counted twice or left out, however the contexts interleave. -/
theorem Run.exact (h : Run moves σ) : Exact moves σ := by
  induction h with
  | fresh => exact exact_fresh
  | step _ hs ih => exact ih.step hs

/-- Once everything is counted, hits and misses add up. -/
theorem Run.total (h : Run moves σ) (hquiet : σ.amount Stage.isPending = 0) :
    σ.cache.hits + σ.cache.misses = lookCount moves := by
  have := h.exact.total
  omega

/-- What a context does that is left alone from a lookup on is told by `InlineCache.begun`. -/
theorem Run.alone (h : Run moves σ) {ctx : Fin n} (hready : Ready (σ.stages ctx)) (shape : Shape)
    (target : Option Binding) : ∃ more, Run (more ++ moves) (σ.set ctx (σ.cache.begun shape target)
      (if (σ.cache.find? shape).isSome || target.isSome then .invoking :: σ.stages ctx
        else σ.stages ctx)) := by
  have set_set (c c' : InlineCache Binding) (xs ys : List Stage) :
      (σ.set ctx c xs).set ctx c' ys = σ.set ctx c' ys := by
    simp [set]
  have stages_set (c : InlineCache Binding) (xs : List Stage) : (σ.set ctx c xs).stages ctx = xs := by
    simp [set]
  have hlooked := h.step (.look shape hready)
  cases hfound : σ.cache.find? shape with
  | some b =>
    rw [hfound] at hlooked
    have hcounted := hlooked.step (.hit (stages_set _ _))
    rw [set_set] at hcounted
    rw [InlineCache.begun_of_found hfound]
    exact ⟨[_, _], hcounted⟩
  | none =>
    rw [hfound] at hlooked
    have hcounted := hlooked.step (.miss (stages_set _ _))
    rw [set_set] at hcounted
    cases target with
    | some b =>
      have hstored := hcounted.step (.store (stages_set _ _) b)
      rw [set_set] at hstored
      rw [InlineCache.begun_of_missing hfound]
      exact ⟨[_, _, _], hstored⟩
    | none =>
      have hfailed := hcounted.step (.giveUp (stages_set _ _))
      rw [set_set] at hfailed
      rw [InlineCache.begun_of_failure hfound]
      exact ⟨[_, _, _], hfailed⟩

end Shared

end

end Stencil
