import Stencil.Proofs.Balance.Calls
import Stencil.Proofs.Direct.Control
import Stencil.Proofs.Machine.Runs

/-!
# Code that prints

Some code does nothing but write a known text, wherever it is evaluated: `Code.Prints`. Blocks of
such code print the texts of their items one after the other, and a program made of it writes its
text and succeeds, in every context that can be written to and in which a call is possible.
-/

namespace Stencil

/-! ### What has been written -/

/-- The text written so far where a context writes next: to the innermost capture or else to the
sink of the context, which keeps it or passes it on to one that does. -/
inductive Store.Shows (s : Store) (ctx : Nat) : Bytes → Prop where
  | captured {w ws} : (s.context ctx).writers = w :: ws → s.Shows ctx w.reverse.flatten
  | collected {id pieces} : (s.context ctx).writers = [] → (s.context ctx).sink = some id →
      s.sinks[id]? = some (.collect pieces) → s.Shows ctx pieces.reverse.flatten
  | relayed {id last sink pieces} : (s.context ctx).writers = [] →
      (s.context ctx).sink = some id → s.sinks[id]? = some (.relay sink last) →
      s.sinks[sink]? = some (.collect pieces) → s.Shows ctx pieces.reverse.flatten

/-- Between two stores a text has been written. No frame has changed, and the captures are as many
as before. -/
structure Printed (ctx : Nat) (text : Bytes) (s t : Store) : Prop where
  shows : ∀ {before}, s.Shows ctx before → t.Shows ctx (before ++ text)
  frames : t.frames = s.frames
  captures : (t.context ctx).writers.length = (s.context ctx).writers.length

variable {s t u : Store} {ctx : Nat} {text : Bytes}

/-- Writers and sinks are all that matters for what is shown. -/
theorem Store.Shows.congr {before : Bytes} (h : s.Shows ctx before)
    (hw : (t.context ctx).writers = (s.context ctx).writers)
    (hs : (t.context ctx).sink = (s.context ctx).sink) (hsinks : t.sinks = s.sinks) :
    t.Shows ctx before := by
  cases h with
  | captured h => exact .captured (hw.trans h)
  | collected h hid hk => exact .collected (hw.trans h) (hs.trans hid) (hsinks ▸ hk)
  | relayed h hid hk hk' =>
    exact .relayed (hw.trans h) (hs.trans hid) (hsinks ▸ hk) (hsinks ▸ hk')

namespace Printed

theorem refl (ctx : Nat) (s : Store) : Printed ctx [] s s :=
  ⟨fun h => by rwa [List.append_nil], rfl, rfl⟩

theorem trans {text' : Bytes} (h : Printed ctx text s t) (h' : Printed ctx text' t u) :
    Printed ctx (text ++ text') s u :=
  ⟨fun hs => by
    rw [← List.append_assoc]
    exact h'.shows (h.shows hs),
    h'.frames.trans h.frames, h'.captures.trans h.captures⟩

/-- Only the points of execution differ. -/
theorem moved (act : Activation) (pos : Position) (s : Store) :
    Printed ctx [] s (act.moved pos s) :=
  ⟨fun h => by
    rw [List.append_nil]
    exact h.congr rfl rfl rfl, rfl, rfl⟩

end Printed

theorem sinks_getD {s : Store} {id : Nat} {k : Sink} (h : s.sinks[id]? = some k) :
    s.sinks.getD id default = k := by
  rw [Array.getD_eq_getD_getElem?, h, Option.getD_some]

theorem writePlain_collect {s : Store} {id : Nat} {pieces : List Bytes}
    (h : s.sinks[id]? = some (.collect pieces)) (text : Bytes) :
    Action.writePlain id text s =
      .ok () { s with sinks := s.sinks.modify id fun _ => .collect (text :: pieces) } := by
  rw [Action.writePlain, get_bind_apply, sinks_getD h]
  rfl

theorem flatten_reverse_cons (text : Bytes) (pieces : List Bytes) :
    (text :: pieces).reverse.flatten = pieces.reverse.flatten ++ text := by
  simp

/-- Whatever is shown, the text written follows it. -/
theorem write_shows (text : Bytes) {before : Bytes} (h : s.Shows ctx before) :
    ∃ t, Action.write ctx text s = .ok () t ∧ t.Shows ctx (before ++ text) ∧ t.frames = s.frames ∧
      (t.context ctx).writers.length = (s.context ctx).writers.length := by
  rw [Action.write, context_bind_apply]
  cases h with
  | @captured w ws hw =>
    have hsize : ctx < s.contexts.size := by
      by_contra hle
      rw [context_of_size_le (Nat.le_of_not_lt hle)] at hw
      cases hw
    rw [hw]
    refine ⟨_, rfl, ?_, rfl, ?_⟩
    · rw [← flatten_reverse_cons]
      exact @Store.Shows.captured _ _ (text :: w) ws (by rw [context_modify_self hsize])
    · rw [context_modify_self hsize]
      rfl
  | @collected id pieces hw hid hk =>
    rw [hw, hid]
    dsimp only
    rw [Action.writeSink, get_bind_apply, sinks_getD hk]
    refine ⟨_, writePlain_collect hk text, ?_, rfl, by rw [← hw]; rfl⟩
    rw [← flatten_reverse_cons]
    exact .collected hw hid (by simp [Array.getElem?_modify, hk])
  | @relayed id last sink pieces hw hid hk hk' =>
    have hne : id ≠ sink := by
      rintro rfl
      rw [hk] at hk'
      cases hk'
    rw [hw, hid]
    dsimp only
    rw [Action.writeSink, get_bind_apply, sinks_getD hk]
    let s₁ : Store :=
      { s with sinks := s.sinks.modify id fun _ => .relay sink (text.getLast?.getD last) }
    have hk₁ : s₁.sinks[sink]? = some (.collect pieces) := by
      simp [s₁, Array.getElem?_modify, hne, hk']
    refine ⟨_, writePlain_collect hk₁ text, ?_, rfl, by rw [← hw]; rfl⟩
    rw [← flatten_reverse_cons]
    refine @Store.Shows.relayed _ _ id (text.getLast?.getD last) sink _ hw hid ?_ ?_
    · simp [s₁, Array.getElem?_modify, hne.symm, hk]
    · simp [Array.getElem?_modify, hk₁]

/-- A context that can be written to is written to. -/
theorem write_printed (text : Bytes) {before : Bytes} (h : s.Shows ctx before) :
    ∃ t, Action.write ctx text s = .ok () t ∧ Printed ctx text s t := by
  obtain ⟨t, ht, -, hframes, hcaptures⟩ := write_shows text h
  refine ⟨t, ht, ⟨fun h' => ?_, hframes, hcaptures⟩⟩
  obtain ⟨t', ht', hshows, -⟩ := write_shows text h'
  rw [ht] at ht'
  cases ht'
  exact hshows

/-! ### Code -/

section

variable [Host] {call : Callback} {fuel : Nat} {act : Activation}

/-- The code writes the text wherever it is evaluated. -/
def Code.Prints (call : Callback) (fuel : Nat) (act : Activation) (c : Code) (text : Bytes) : Prop :=
  ∀ s before, act.read contextVariable s = .ok (.context act.ctx) s → s.Shows act.ctx before →
    ∃ v t, (c.eval call fuel act).run s = .ok (.ok v) t ∧ Printed act.ctx text s t

/-- The items print the parts of the text in order. -/
inductive PrintInOrder (call : Callback) (fuel : Nat) (act : Activation) :
    List Code → Bytes → Prop where
  | nil : PrintInOrder call fuel act [] []
  | cons {c cs x y} : c.Prints call fuel act x → PrintInOrder call fuel act cs y →
      PrintInOrder call fuel act (c :: cs) (x ++ y)

omit [Host] in
/-- What is found in the frames is found as long as they are the same. -/
theorem read_congr {v : Variable} {x : Value} (h : t.frames = s.frames)
    (hr : act.read v s = .ok x s) : act.read v t = .ok x t := by
  rcases home_cases act v s with ⟨id, hhome, hfind, hi⟩ | ⟨msg, f, hhome⟩
  · rw [read_apply hhome] at hr
    rw [read_apply (home_of_found (by rw [h]; exact hfind) (by rw [h]; exact hi)), h]
    cases hr
    rfl
  · rw [Activation.read, bind_apply, hhome] at hr
    cases hr

theorem Code.Prints.noted {c : Code} (h : c.Prints call fuel act text) (debug : Bool)
    (pos : Position) : (noteAt debug pos c).Prints call fuel act text := by
  intro s before hr hs
  rw [eval_noteAt, Activation.at_]
  split
  · exact h s before hr hs
  · obtain ⟨v, t, hv, hp⟩ := h (act.moved pos s) before (read_congr (s := s) rfl hr)
      (hs.congr rfl rfl rfl)
    refine ⟨v, t, ?_, (Printed.moved act pos s).trans hp⟩
    rw [run_bind_apply, run_lift_apply, Activation.moveTo_apply]
    dsimp only
    rw [run_locate_apply, hv]

theorem prints_empty : Code.empty.Prints call fuel act [] := by
  intro s before _ _
  exact ⟨.null, s, by rw [Code.eval]; rfl, .refl _ s⟩

/-- The code that writes a text known in advance. -/
theorem prints_write (text : Bytes) :
    (contextCode .write [.constant (.string text)]).Prints call fuel act text := by
  intro s before hr hs
  obtain ⟨t, ht, hp⟩ := write_printed text hs
  refine ⟨.null, t, ?_, hp⟩
  have hargs : (evalArgs call fuel act [.constant (.string text)]).run s =
      .ok (.ok [.string text]) s := by
    rw [evalArgs, Code.eval, evalArgs]
    rfl
  have hcall : callContext .write (.context act.ctx) [.string text] s = .ok .null t := by
    show (Action.write act.ctx text >>= fun _ => (pure .null : Action Value)) s = _
    rw [bind_apply, ht]
    rfl
  rw [contextCode, Code.eval, Code.eval, run_bind_apply, run_lift_apply, hr]
  dsimp only
  rw [run_bind_apply, hargs]
  dsimp only
  rw [run_lift_apply, hcall]

theorem PrintInOrder.evalFrom {items : List Code} (h : PrintInOrder call fuel act items text)
    (labels : Target → Option Nat) (i : Nat) (last : Value) {before : Bytes}
    (hr : act.read contextVariable s = .ok (.context act.ctx) s) (hs : s.Shows act.ctx before) :
    ∃ v t, (Stencil.evalFrom call fuel act labels items i 0 last).run s = .ok (.ok v) t ∧
      Printed act.ctx text s t := by
  induction h generalizing s i last before with
  | nil => exact ⟨last, s, by rw [Stencil.evalFrom]; rfl, .refl _ s⟩
  | cons hc _ ih =>
    obtain ⟨v, t, hv, hp⟩ := hc s before hr hs
    obtain ⟨w, u, hw, hq⟩ := ih (i + 1) v (read_congr hp.frames hr) (hp.shows hs)
    refine ⟨w, u, ?_, hp.trans hq⟩
    rw [Stencil.evalFrom, run_bind_apply, run_outcome_apply, hv]
    exact hw

theorem PrintInOrder.block {items : List Code} (h : PrintInOrder call fuel act items text) :
    (Code.block [] items).Prints call fuel act text := by
  intro s before hr hs
  obtain ⟨v, t, hv, hp⟩ := h.evalFrom (labelIndex items) 0 .null hr hs
  refine ⟨v, t, ?_, hp⟩
  rw [Code.eval, clear_nil_bind]
  cases fuel <;>
  · rw [runBlock, run_bind_apply, run_outcome_apply, hv]
    rfl

end

/-! ### Programs -/

/-- A function can be called in the context. -/
structure Context.Callable (c : Context) : Prop where
  running : c.cancelled = none
  depth : c.depth < c.depthLimit

theorem Prepared.shows {before : Bytes} (h : Prepared s t) (hs : s.Shows ctx before) :
    t.Shows ctx before := by
  obtain ⟨g, hg⟩ := h.context ctx
  exact hs.congr (by rw [hg]) (by rw [hg]) h.sinks

theorem Prepared.callable (h : Prepared s t) (hc : (s.context ctx).Callable) :
    (t.context ctx).Callable := by
  obtain ⟨g, hg⟩ := h.context ctx
  rw [hg]
  exact ⟨hc.running, hc.depth⟩

/-- A module whose code prints a text is called with its context. -/
theorem Lambda.call_prints [Host] {f : Lambda} {call : Callback} {fuel : Nat} {text : Bytes}
    (hparams : f.params = [contextVariable]) (hid : f.id = contextVariable.owner)
    (hbody : ∀ act, f.body.Prints call fuel act text) (unit : Nat) {before : Bytes}
    (hc : (s.context ctx).Callable) (hs : s.Shows ctx before) :
    ∃ v t, f.routine.call ⟨unit, f.id, none⟩ call fuel ctx [.context ctx] s = .ok v t ∧
      t.Shows ctx (before ++ text) ∧
      (t.context ctx).writers.length = (s.context ctx).writers.length := by
  have harity : [Value.context ctx].length = f.routine.arity := by
    show 1 = f.params.length
    rw [hparams]
    rfl
  rw [Routine.call_apply _ _ _ _ _ _ _ harity, hc.running]
  dsimp only
  rw [if_neg (Nat.not_le_of_lt hc.depth)]
  generalize hvars : [Value.context ctx].toArray ++
    Array.replicate (f.routine.slots - [Value.context ctx].length) Value.null = vars
  let act : Activation := ⟨ctx, unit, s.frames.size⟩
  let s₁ := s.entered ctx ⟨unit, f.id, none⟩ f.routine.name vars
  -- entering changes neither writers nor sink
  have hlevel : (s₁.context ctx).writers = (s.context ctx).writers ∧
      (s₁.context ctx).sink = (s.context ctx).sink := by
    rcases context_entered s ctx ⟨unit, f.id, none⟩ f.routine.name vars ctx with h | ⟨-, h⟩ <;>
    exact ⟨by rw [h], by rw [h]⟩
  have hread : act.read contextVariable s₁ = .ok (.context ctx) s₁ := by
    have hframe : s₁.frames.getD s.frames.size default =
        ⟨ctx, unit, f.id, f.routine.name, vars, none, (s.context ctx).frame⟩ := by
      simp [s₁, Store.entered, Array.getD_eq_getD_getElem?]
    have hfind : findFrame s₁.frames contextVariable.owner s₁.frames.size s.frames.size =
        some s.frames.size := by
      have hsize : s₁.frames.size = s.frames.size + 1 := Array.size_push _
      rw [hsize, findFrame, hframe, if_pos hid]
    have hhome : act.home contextVariable s₁ = .ok s.frames.size s₁ := by
      refine home_of_found hfind ?_
      rw [hframe, ← hvars]
      simp [contextVariable]
    rw [read_apply hhome, hframe, ← hvars]
    simp [contextVariable, Array.getD_eq_getD_getElem?]
  obtain ⟨v, t, hv, hp⟩ := hbody act s₁ before hread (hs.congr hlevel.1 hlevel.2 rfl)
  have hleft : ((t.left ctx (s.context ctx).frame).context ctx).writers = (t.context ctx).writers ∧
      ((t.left ctx (s.context ctx).frame).context ctx).sink = (t.context ctx).sink := by
    rcases context_left t ctx (s.context ctx).frame ctx with h | ⟨-, h⟩ <;>
    exact ⟨by rw [h], by rw [h]⟩
  refine ⟨v, t.left ctx (s.context ctx).frame, ?_, ?_, ?_⟩
  · have hrun : (f.routine.run call fuel ⟨ctx, unit, s.frames.size⟩).run
        (s.entered ctx ⟨unit, f.id, none⟩ f.routine.name vars) = .ok (.ok v) t := hv
    rw [leaving, hrun]
    rfl
  · exact (hp.shows (hs.congr hlevel.1 hlevel.2 rfl)).congr hleft.1 hleft.2 rfl
  · rw [hleft.1, hp.captures, hlevel.1]

/-- **A program whose code prints a text writes it.** -/
theorem Program.run_prints [Application] {p : Program} {text : Bytes}
    (hparams : p.lambda.params = [contextVariable]) (hid : p.lambda.id = contextVariable.owner)
    (hbody : ∀ call fuel act, p.lambda.body.Prints call fuel act text) (fuel : Nat)
    {before : Bytes} (hc : (s.context ctx).Callable) (hs : s.Shows ctx before) :
    ∃ t, p.run fuel ctx s = .ok () t ∧ t.Shows ctx (before ++ text) := by
  obtain ⟨s₀, hp, happly⟩ := p.runAs_apply ctx s
  obtain ⟨v, t, ht, hshows, hcaptures⟩ := p.lambda.call_prints hparams hid
    (fun act => hbody (callValue fuel) fuel act) p.unit (hp.callable hc) (hp.shows hs)
  have hcall : p.lambda.routine.call p.entry (callValue fuel) fuel ctx [.context ctx] s₀ =
      .ok v t := ht
  refine ⟨t, ?_, hshows⟩
  rw [Program.run, happly, hcall, runEnd, if_pos (hcaptures.trans (congrArg _ (hp.writers ctx)))]

end Stencil
