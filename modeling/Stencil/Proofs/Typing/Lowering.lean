import Stencil.Proofs.Counting
import Stencil.Proofs.Scoped
import Stencil.Proofs.Typing.Judgement
import Stencil.Proofs.Generation
import Stencil.Proofs.Syntax.TopLevel

/-!
# The code of a module is well-formed

A well-scoped construct has well-formed code, in each setting that agrees with its surroundings.
So the code of a module that was accepted is well-formed, and so is that of each lambda in it.

## Well-formed units

The code of a text that compiles is well-formed, and its lambdas are told apart by their numbers.
The lambda of the module itself has the number of the frame with the context, and no other lambda
has that number.
-/

namespace Stencil

/-! ### Marks and slots -/

/-- The names that are declared have slots of names. The states of loops have others, and not that
of the context. -/
def Mark.Fine (user : Nat × Nat → Prop) (m : Mark) : Prop :=
  (∀ k ∈ m.users, user k) ∧ ∀ k ∈ m.states, ¬ user k ∧ k ≠ contextVariable.key

/-- All that is declared is fine. -/
def Declares (user : Nat × Nat → Prop) (ms : List Mark) : Prop := ∀ m ∈ ms, m.Fine user

section

variable {user : Nat × Nat → Prop}

@[simp] theorem declares_nil : Declares user [] := fun _ h => absurd h List.not_mem_nil

@[simp] theorem declares_cons {m : Mark} {ms : List Mark} :
    Declares user (m :: ms) ↔ m.Fine user ∧ Declares user ms := List.forall_mem_cons

@[simp] theorem declares_append {ms ms' : List Mark} :
    Declares user (ms ++ ms') ↔ Declares user ms ∧ Declares user ms' := List.forall_mem_append

@[simp] theorem Mark.fine_site (id : Nat) : (Mark.site id).Fine user := ⟨by simp [users], by simp [states]⟩

end

/-- The number of slots of the lambda around. -/
def Setting.room (Γ : Setting) : Nat := (Γ.scopes.head?.map (·.2)).getD 0

@[simp] theorem Setting.room_aim (Γ : Setting) (targets : List Nat) : (Γ.aim targets).room = Γ.room := rfl

@[simp] theorem Setting.room_hold (Γ : Setting) (state : Variable) : (Γ.hold state).room = Γ.room := rfl

/-! ### Surroundings and settings -/

/-- What a construct is lowered in agrees with a setting: the names in scope have slots there, and
where a loop or a function may be left, its targets are known. -/
structure LowerEnv.Fits (user : Nat × Nat → Prop) (env : LowerEnv) (jumps : Bool) (n : Numbering)
    (Γ : Setting) : Prop where
  regions : ∀ r ∈ env.regions, ∀ v ∈ r, Γ.Has v ∧ user v.key ∧ v.owner < n.lambdas
  owner : Γ.scopes.head?.map (·.1) = some env.owner
  below : env.owner < n.lambdas
  context : Γ.Has contextVariable
  loops : jumps = true → ∀ t, env.loops.head? = some t → t.brk.id ∈ Γ.targets ∧ t.cont.id ∈ Γ.targets
  ret : ∀ t, env.ret = some t → t.id ∈ Γ.targets
  held : ∀ k ∈ Γ.held, k.2 < n.slots

namespace LowerEnv.Fits

variable {user : Nat × Nat → Prop} {env : LowerEnv} {jumps : Bool} {n m : Numbering} {Γ : Setting}

theorem later (h : env.Fits user jumps n Γ) (hle : n.Le m) : env.Fits user jumps m Γ :=
  { h with
    regions := fun r hr v hv => ⟨(h.regions r hr v hv).1, (h.regions r hr v hv).2.1,
      Nat.lt_of_lt_of_le (h.regions r hr v hv).2.2 hle.lambdas⟩
    below := Nat.lt_of_lt_of_le h.below hle.lambdas
    held := fun k hk => Nat.lt_of_lt_of_le (h.held k hk) hle.slots }

/-- No loop around can be left. -/
theorem within_template (h : env.Fits user jumps n Γ) : env.Fits user false n Γ :=
  { h with loops := fun h => absurd h Bool.false_ne_true }

theorem change (h : env.Fits user jumps n Γ) {Δ : Setting} (hs : Δ.scopes = Γ.scopes)
    (ht : ∀ i ∈ Γ.targets, i ∈ Δ.targets) (hh : ∀ k ∈ Δ.held, k.2 < n.slots) :
    env.Fits user jumps n Δ where
  regions r hr v hv :=
    ⟨(h.regions r hr v hv).1.of_scopes hs, (h.regions r hr v hv).2.1, (h.regions r hr v hv).2.2⟩
  owner := hs ▸ h.owner
  below := h.below
  context := h.context.of_scopes hs
  loops hl t htop := ⟨ht _ (h.loops hl t htop).1, ht _ (h.loops hl t htop).2⟩
  ret t htop := ht _ (h.ret t htop)
  held := hh

theorem aim (h : env.Fits user jumps n Γ) (targets : List Nat) :
    env.Fits user jumps n (Γ.aim targets) :=
  h.change rfl (fun _ hi => List.mem_append_right _ hi) h.held

/-- A slot of the lambda around. -/
theorem has (h : env.Fits user jumps n Γ) {v : Variable} (ho : v.owner = env.owner)
    (hv : v.index < Γ.room) : Γ.Has v := by
  have hhead := h.owner
  unfold Setting.room at hv
  unfold Setting.Has
  cases hs : Γ.scopes with
  | nil => simp [hs] at hhead
  | cons p ps =>
    obtain ⟨o, size⟩ := p
    simp only [hs, List.head?_cons, Option.map_some, Option.some.injEq, Option.getD_some] at hhead hv
    exact ⟨size, by rw [ho, ← hhead]; simp, hv⟩

/-- The slots of a block. -/
theorem newSlots (h : env.Fits user jumps n Γ) {names : List Bytes}
    (hu : ∀ v ∈ env.newSlots n names, user v.key) (hr : n.slots + names.length ≤ Γ.room) :
    ∀ v ∈ env.newSlots n names, Γ.Has v ∧ user v.key := by
  intro v hv
  obtain ⟨ho, -, hi⟩ := mem_slotsFrom hv
  exact ⟨h.has ho (Nat.lt_of_lt_of_le hi hr), hu v hv⟩

theorem within (h : env.Fits user jumps n Γ) {names : List Bytes}
    (hu : ∀ v ∈ env.newSlots n names, user v.key) (hr : n.slots + names.length ≤ Γ.room) :
    (env.within (env.newSlots n names)).Fits user jumps n Γ where
  regions r hmem v hv := by
    rcases List.mem_cons.1 hmem with rfl | hmem
    · obtain ⟨hhas, huser⟩ := h.newSlots hu hr v hv
      exact ⟨hhas, huser, (mem_slotsFrom hv).1 ▸ h.below⟩
    · exact h.regions r hmem v hv
  owner := h.owner
  below := h.below
  context := h.context
  loops := h.loops
  ret := h.ret
  held := h.held

theorem inLoop (h : env.Fits user jumps n Γ) {t : LoopTargets} (hb : t.brk.id ∈ Γ.targets)
    (hc : t.cont.id ∈ Γ.targets) : (env.inLoop t).Fits user true n Γ where
  regions := h.regions
  owner := h.owner
  below := h.below
  context := h.context
  loops _ u hu := by
    cases hu
    exact ⟨hb, hc⟩
  ret := h.ret
  held := h.held

/-- In the header of a loop. -/
theorem header (h : env.Fits user jumps n Γ) (t : LoopTargets) :
    (env.inLoop t).Fits user false n Γ where
  regions := h.regions
  owner := h.owner
  below := h.below
  context := h.context
  loops h := absurd h Bool.false_ne_true
  ret := h.ret
  held := h.held

/-- No slot that is yet to be taken is held. -/
theorem fresh (h : env.Fits user jumps n Γ) {v : Variable} (hv : n.slots ≤ v.index) :
    v.key ∉ Γ.held := fun hmem => Nat.not_lt.2 hv (h.held v.key hmem)

/-- In a round of a loop over a sequence, whose names and whose state take the next slots. -/
theorem round (h : env.Fits user jumps n Γ) {names : List Bytes} {state : Variable} {Δ : Setting}
    (hu : ∀ v ∈ env.newSlots n names, user v.key) (hr : n.slots + names.length ≤ Γ.room)
    (hle : n.Le m) (hstate : state.index < m.slots) (hs : Δ.scopes = Γ.scopes)
    (hheld : Δ.held = state.key :: Γ.held) (ht : ∀ i ∈ Γ.targets, i ∈ Δ.targets) {t : LoopTargets}
    (hb : t.brk.id ∈ Δ.targets) (hc : t.cont.id ∈ Δ.targets) :
    ((env.inLoop t).within (env.newSlots n names)).Fits user true m Δ := by
  have hin : (env.within (env.newSlots n names)).Fits user jumps m Δ := by
    refine ((h.within hu hr).later hle).change hs ht fun k hk => ?_
    rw [hheld] at hk
    rcases List.mem_cons.1 hk with rfl | hk
    · exact hstate
    · exact Nat.lt_of_lt_of_le (h.held k hk) hle.slots
  exact hin.inLoop hb hc

/-- In a lambda that starts here. -/
theorem inLambda (h : env.Fits user jumps n Γ) {n' : Numbering} (hn : n'.lambdas = n.lambdas + 1)
    {name : Bytes} {names : List Bytes} {ret : Option Target} {size : Nat} {targets : List Nat}
    (hu : ∀ v ∈ slotsFrom n.lambdas name 0 names, user v.key) (hs : names.length ≤ size)
    (hr : ∀ t, ret = some t → t.id ∈ targets) :
    (env.inLambda n name names ret).Fits user false n' ((Γ.enter n.lambdas size).aim targets) := by
  have outer {v : Variable} (hv : Γ.Has v) (hlt : v.owner < n.lambdas) :
      ((Γ.enter n.lambdas size).aim targets).Has v := by
    obtain ⟨k, hk, hi⟩ := hv
    have hne : (v.owner == n.lambdas) = false := by
      simp only [beq_eq_false_iff_ne]
      omega
    exact ⟨k, by simpa [Setting.enter, List.lookup, hne] using hk, hi⟩
  have hpos : 0 < n.lambdas := Nat.lt_of_le_of_lt (Nat.zero_le _) h.below
  refine ⟨fun r hmem v hv => ?_, rfl, hn ▸ Nat.lt_succ_self _, outer h.context hpos,
    fun h => absurd h Bool.false_ne_true, fun t ht => ?_, by simp [Setting.enter]⟩
  · rcases List.mem_cons.1 hmem with rfl | hmem
    · obtain ⟨ho, -, hi⟩ := mem_slotsFrom hv
      refine ⟨⟨size, by simp [Setting.enter, ho], by omega⟩, hu v hv, ?_⟩
      rw [ho, hn]
      exact Nat.lt_succ_self _
    · obtain ⟨hhas, huser, hlt⟩ := h.regions r hmem v hv
      exact ⟨outer hhas hlt, huser, by omega⟩
  · exact List.mem_append_left _ (hr t ht)

/-- A name in scope has a slot. -/
theorem slot (h : env.Fits user jumps n Γ) {name : Bytes} {v : Variable}
    (hv : env.meaning? name = some (.slot v)) : Γ.Has v ∧ user v.key := by
  have find : findSlot env.regions name = some v := by
    unfold LowerEnv.meaning? at hv
    split at hv
    · rename_i w hw
      cases hv
      exact hw
    · split at hv
      · split at hv
        · simp only [Option.map_eq_some_iff, reduceCtorEq, and_false, exists_false] at hv
        · cases hv
      · split at hv <;> cases hv
  have mem : ∃ r ∈ env.regions, v ∈ r := by
    generalize env.regions = regions at find
    induction regions with
    | nil => cases find
    | cons r rs ih =>
      rw [findSlot] at find
      split at find
      · rename_i w hw
        cases find
        exact ⟨r, List.mem_cons_self .., List.mem_of_find?_eq_some hw⟩
      · obtain ⟨r', hr', hv'⟩ := ih find
        exact ⟨r', List.mem_cons_of_mem _ hr', hv'⟩
  obtain ⟨r, hr, hmem⟩ := mem
  exact ⟨(h.regions r hr v hmem).1, (h.regions r hr v hmem).2.1⟩

end LowerEnv.Fits

/-! ### Forms -/

section

variable {user : Nat × Nat → Prop} {env : LowerEnv} {jumps : Bool} {n m : Numbering} {Γ : Setting}
  {c d : Code} {cs : List Code}

theorem Code.Typed.noteAt (h : c.Typed user Γ .value) (debug : Bool) (p : Position) :
    (noteAt debug p c).Typed user Γ .value := by
  unfold Stencil.noteAt
  split
  · exact h
  · split
    · exact h
    · exact .noted h

theorem typed_load (hf : env.Fits user jumps n Γ) {name : Bytes}
    (hs : (env.meaning? name).isSome = true) (p : Position) (site : Nat) :
    (env.load p name site).Typed user Γ .value := by
  unfold LowerEnv.load
  split
  · rename_i v hv
    exact .var (hf.slot hv).1
  · exact .dynamic (by simpa using .globals hf.context)
  · exact .constant _
  · rename_i hnone
    rw [hnone] at hs
    cases hs

theorem typed_store (hf : env.Fits user jumps n Γ) {name : Bytes} (hs : env.canWrite name = true)
    (hc : c.Typed user Γ .value) (p : Position) (site : Nat) :
    (env.store p name c site).Typed user Γ .value := by
  unfold LowerEnv.canWrite at hs
  unfold LowerEnv.store
  split
  · rename_i v hv
    exact .assign (hf.slot hv).1 (hf.slot hv).2 hc
  · exact .dynamic (by simpa using ⟨.globals hf.context, hc⟩)
  · split at hs <;> simp_all

theorem typed_outputCode (hf : env.Fits user jumps n Γ) (hc : c.Typed user Γ .value) :
    (outputCode c).Typed user Γ .value := by
  unfold outputCode
  split
  · split
    · exact .write hf.context _
    · exact .safeWrite hf.context hc
  · exact .safeWrite hf.context hc

theorem typed_sequenceCode (hcs : ∀ targets, ∀ c ∈ cs, c.Typed user (Γ.aim targets) .value) :
    (sequenceCode cs).Typed user Γ .value := by
  match cs with
  | [] => exact .empty
  | [c] => exact hcs [] c (List.mem_singleton_self c)
  | c :: d :: cs => exact .block (by simp) (hcs _)

theorem typed_unaryCode (hc : c.Typed user Γ .value) (p : Position) (op : UnaryOp) (site : Nat) :
    (unaryCode p op c site).Typed user Γ .value := by
  cases op with
  | not => exact .asValue (.not (.toBool hc))
  | negate => exact .dynamic (by simpa using hc)

theorem typed_binaryCode (hc : c.Typed user Γ .value) (hd : d.Typed user Γ .value) (p : Position)
    (op : BinaryOp) (site : Nat) : (binaryCode p op c d site).Typed user Γ .value := by
  cases op
  case logicalAnd => exact .asValue (.andAlso (.toBool hc) (.toBool hd))
  case logicalOr => exact .asValue (.orElse (.toBool hc) (.toBool hd))
  all_goals exact .dynamic (by simpa using ⟨hc, hd⟩)

theorem typed_return (hf : env.Fits user jumps n Γ) (hr : env.ret.isSome = true)
    (hc : c.Typed user Γ .value) : (env.return_ c).Typed user Γ .value := by
  unfold LowerEnv.return_
  cases ht : env.ret with
  | none =>
    rw [ht] at hr
    cases hr
  | some t => exact .goto (hf.ret t ht) (.present hc)

theorem typed_jump (hf : env.Fits user true n Γ) (hl : env.loops ≠ []) {target : LoopTargets → Target}
    (ht : ∀ t, target t = t.brk ∨ target t = t.cont) :
    (env.jump target).Typed user Γ .value := by
  unfold LowerEnv.jump
  cases hloops : env.loops with
  | nil => exact absurd hloops hl
  | cons t ts =>
    obtain ⟨hb, hc⟩ := hf.loops rfl t (by rw [hloops]; rfl)
    refine .goto ?_ .missing
    rcases ht t with h | h <;> rw [h]
    · exact hb
    · exact hc

theorem typed_whileCode {t : LoopTargets}
    (hc : c.Typed user ((Γ.aim [t.brk.id, t.cont.id]).aim
      (labelsOf [.cond (.not (.toBool c)) (.goto t.brk .absent) .absent, d])) .value)
    (hd : d.Typed user ((Γ.aim [t.brk.id, t.cont.id]).aim
      (labelsOf [.cond (.not (.toBool c)) (.goto t.brk .absent) .absent, d])) .value) :
    (whileCode t c d).Typed user Γ .value := by
  refine .loop (.block (by simp) ?_)
  simp only [List.mem_cons, List.not_mem_nil, or_false, forall_eq_or_imp, forall_eq]
  refine ⟨.cond (.not (.toBool hc)) (.goto ?_ .missing) .missing, hd⟩
  simp [Setting.aim]

theorem typed_switchCode {dflt : Option Code}
    (hc : ∀ targets, c.Typed user (Γ.aim targets) .value)
    (hcs : ∀ c ∈ cs, c.Typed user Γ .arm)
    (hd : ∀ targets, ∀ c ∈ dflt, c.Typed user (Γ.aim targets) .value) (p : Position) (site : Nat) :
    (switchCode p c cs dflt site).Typed user Γ .value := by
  unfold switchCode
  split
  · refine .block (by simp) fun x hx => ?_
    rcases List.mem_cons.1 hx with rfl | hx
    · exact hc _
    · exact hd _ x (by simpa using hx)
  · refine .switch (hc []) hcs ?_
    cases dflt with
    | none => exact .missing
    | some x => exact .present (hd [] x rfl)

theorem typed_filterCode {pred : Option Code} (hc : c.Typed user Γ .value)
    (hp : ∀ d ∈ pred, d.Typed user Γ .value) : (filterCode c pred).Typed user Γ .value := by
  cases pred with
  | none => exact hc
  | some d => exact .filter hc (hp d rfl)

theorem typed_getD {r : Role} {o : Option Code} (hd : d.Typed user Γ r)
    (ho : ∀ c ∈ o, c.Typed user Γ r) : (o.getD d).Typed user Γ r := by
  cases o with
  | none => exact hd
  | some c => exact ho c rfl

/-- The code of a loop over a sequence. The state is held while the body and what stands between
two rounds are run. -/
theorem typed_forCode {t : LoopTargets} {vars : List Variable} {state : Variable}
    {source body between : Code} (hv : ∀ v ∈ vars, Γ.Has v ∧ user v.key)
    (hs : Γ.StateSlot user state) (hfresh : state.key ∉ Γ.held)
    (hx : source.Typed user Γ .value)
    (hb : ∀ Δ : Setting, Δ.scopes = Γ.scopes → Δ.held = state.key :: Γ.held →
      t.brk.id ∈ Δ.targets → t.cont.id ∈ Δ.targets → (∀ i ∈ Γ.targets, i ∈ Δ.targets) →
      body.Typed user Δ .value ∧ between.Typed user Δ .value) :
    (forCode t vars state source body between).Typed user Γ .value := by
  have advance {Δ : Setting} (hscopes : Δ.scopes = Γ.scopes) (hheld : state.key ∈ Δ.held) :
      (Code.moveNext (.var state)).Typed user Δ .test := .moveNext (hs.has.of_scopes hscopes) hheld
  refine .each hv hs hfresh hx ?_
  refine .cond (advance rfl (List.mem_cons_self ..)) (.loop (.block (by simp) ?_)) .missing
  generalize hlabels : labelsOf _ = labels
  have hcont : t.cont.id ∈ labels := by
    rw [← hlabels, labelsOf, List.mem_filterMap]
    exact ⟨.label t.cont .absent, by simp, rfl⟩
  have hvar (v : Variable) (hmem : v ∈ vars) := hv v hmem
  obtain ⟨hbody, hbetween⟩ := hb (((Γ.hold state).aim (t.brk.id :: [])).aim labels) rfl rfl
    (by simp [Setting.aim]) (List.mem_append_left _ hcont)
    fun i hi => List.mem_append_right _ (List.mem_cons_of_mem _ hi)
  intro c hc
  simp only [List.mem_append, List.mem_map, List.mem_cons, List.not_mem_nil, or_false] at hc
  rcases hc with (⟨v, hmem, rfl⟩ | ⟨v, hmem, rfl⟩) | rfl | rfl | rfl
  · obtain ⟨h₁, h₂⟩ := hvar v (List.mem_of_mem_drop hmem)
    exact .assign (h₁.of_scopes rfl) h₂ (.constant _)
  · obtain ⟨h₁, h₂⟩ := hvar v (List.mem_of_mem_take hmem)
    exact .assign (h₁.of_scopes rfl) h₂ (.current (hs.has.of_scopes rfl) (List.mem_cons_self ..))
  · exact hbody
  · exact .label .missing
  · exact .cond (advance rfl (List.mem_cons_self ..)) hbetween
      (.present (.goto (by simp [Setting.aim]) .missing))

end

/-! ### Declarations -/

section

variable {user : Nat × Nat → Prop} {env : LowerEnv} {cs : List Code}

theorem declares_store {p : Position} {name : Bytes} {c : Code} {site : Nat}
    (hs : env.canWrite name = true) (hm : Declares user (env.store p name c site).marks) :
    Declares user c.marks := by
  unfold LowerEnv.canWrite at hs
  unfold LowerEnv.store at hm
  split at hm
  · simpa [Code.mark?] using hm
  · simpa [setGlobalCode, globalsCode, contextCode, Code.mark?] using hm
  · split at hs <;> simp_all

theorem declares_dynamic {site : CallSite} (hm : Declares user (Code.dynamic site cs).marks) :
    Declares user (marksOf cs) := by
  simpa [Code.mark?] using hm

theorem declares_block {vars : List Variable} (hs : cs.head?.bind Code.state? = none)
    (hm : Declares user (Code.block vars cs).marks) :
    (∀ v ∈ vars, user v.key) ∧ Declares user (marksOf cs) := by
  cases vars with
  | nil => exact ⟨by simp, by simpa [Code.mark?] using hm⟩
  | cons v vs =>
    have : Declares user (.block (v :: vs) :: marksOf cs) := by
      simpa only [Code.marks, Code.gather_block, Code.mark?, hs, Option.toList_some,
        List.singleton_append] using hm
    obtain ⟨hfine, hcs⟩ := declares_cons.1 this
    exact ⟨fun w hw => hfine.1 w.key (List.mem_map_of_mem hw), hcs⟩

theorem declares_return {c : Code} (hr : env.ret.isSome = true)
    (hm : Declares user (env.return_ c).marks) : Declares user c.marks := by
  unfold LowerEnv.return_ at hm
  cases ht : env.ret with
  | none =>
    rw [ht] at hr
    cases hr
  | some t =>
    rw [ht] at hm
    simpa [Code.mark?] using hm

theorem declares_switchCode {p : Position} {c : Code} {dflt : Option Code} {site : Nat}
    (hm : Declares user (switchCode p c cs dflt site).marks) :
    Declares user c.marks ∧ Declares user (marksOf cs) ∧ Declares user (marksOf dflt.toList) := by
  unfold switchCode at hm
  split at hm
  · rename_i he
    obtain rfl : cs = [] := by simpa using he
    simpa [Code.mark?] using hm
  · cases dflt <;> simpa [Code.mark?] using hm

end

/-! ### Constructs -/

/-- Items whose code is well-formed. -/
def TypedItems (user : Nat × Nat → Prop) (Γ : Setting) (debug : Bool) (is : List Item) : Prop :=
  ∀ c ∈ is.map (·.noted debug), c.Typed user Γ .value

section

variable {user : Nat × Nat → Prop} {Γ : Setting} {debug : Bool}

theorem TypedItems.nil : TypedItems user Γ debug [] := fun _ h => absurd h List.not_mem_nil

theorem TypedItems.cons {i : Item} {is : List Item} (h : i.code.Typed user Γ .value)
    (hs : TypedItems user Γ debug is) : TypedItems user Γ debug (i :: is) :=
  List.forall_mem_cons.2 ⟨h.noteAt debug i.pos, hs⟩

end

section

variable {user : Nat × Nat → Prop}

mutual

theorem typed_expr {env : LowerEnv} {Γ : Setting} : (x : Expr) → {n : Numbering} →
    env.Fits user false n Γ → x.Scoped env n → Declares user (x.lower env n).marks →
    (x.after n).slots ≤ Γ.room → (x.lower env n).Typed user Γ .value
  | .literal .., _ => fun _ _ _ _ => .constant _
  | .null _, _ => fun _ _ _ _ => .constant _
  | .name p name, _ => fun hf hs _ _ => typed_load hf hs p _
  | .unary p op x, n => fun hf hs hm hr => by
    rw [Expr.lower] at hm ⊢
    have hx : Declares user (x.lower env n).marks := by
      cases op <;> simpa [unaryCode, Code.mark?] using hm
    exact typed_unaryCode ((typed_expr x hf hs hx hr).noteAt _ _) p op _
  | .binary x p op y, n => fun hf ⟨hx, hy⟩ hm hr => by
    rw [Expr.lower] at hm ⊢
    have hm : Declares user (x.lower env n).marks ∧ Declares user (y.lower env (x.after n)).marks := by
      cases op <;> simpa [binaryCode, Code.mark?] using hm
    have hle := y.le_after (x.after n)
    exact typed_binaryCode
      ((typed_expr x hf hx hm.1 (Nat.le_trans hle.slots hr)).noteAt _ _)
      ((typed_expr y (hf.later (x.le_after n)) hy hm.2 hr).noteAt _ _) p op _
  | .assign target p y, n => fun hf hs hm hr => by
    cases target with
    | name _ name =>
      obtain ⟨hw, hy⟩ := hs
      have hm := declares_store hw hm
      rw [marks_noteAt] at hm
      exact typed_store hf hw ((typed_expr y hf hy hm hr).noteAt _ _) p _
    | member x dot q name =>
      obtain ⟨hx, hy⟩ := hs
      let next := (Expr.member x dot q name).after n
      have hm : Declares user (x.lower env n).marks ∧ Declares user (y.lower env next).marks := by
        simpa using declares_dynamic hm
      have hle := y.le_after next
      have ty := typed_expr y (hf.later (x.le_after n).nextSite) hy hm.2 hr
      refine .dynamic (List.forall_mem_append.2 ⟨?_, List.forall_mem_singleton.2 (ty.noteAt _ _)⟩)
      simpa using (typed_expr x hf hx hm.1 (Nat.le_trans hle.slots hr)).noteAt env.debug x.start
    | index x l args r =>
      obtain ⟨hx, hargs, hy⟩ := hs
      let next := (Expr.index x l args r).after n
      have hm : Declares user (x.lower env n).marks ∧
          Declares user (itemMarks (exprItems env args (x.after n))) ∧
          Declares user (y.lower env next).marks := by
        simpa [marksOf_noted] using declares_dynamic hm
      have hle := y.le_after next
      have hle' := (exprs_le_after (x.after n) args).nextSite.trans hle
      have ty := typed_expr y
        (hf.later ((x.le_after n).trans (exprs_le_after (x.after n) args)).nextSite) hy hm.2.2 hr
      refine .dynamic (List.forall_mem_append.2
        ⟨List.forall_mem_cons.2 ⟨?_, ?_⟩, List.forall_mem_singleton.2 (ty.noteAt _ _)⟩)
      · exact (typed_expr x hf hx hm.1 (Nat.le_trans hle'.slots hr)).noteAt _ _
      · exact typed_exprs args (hf.later (x.le_after n)) hargs hm.2.1 (Nat.le_trans hle.slots hr)
    | _ => exact hs.elim
  | .index x l args r, n => fun hf ⟨hx, hargs⟩ hm hr => by
    have hm : Declares user (x.lower env n).marks ∧
        Declares user (itemMarks (exprItems env args (x.after n))) := by
      simpa [marksOf_noted] using declares_dynamic hm
    have hle := exprs_le_after (x.after n) args
    exact .dynamic (List.forall_mem_cons.2
      ⟨(typed_expr x hf hx hm.1 (Nat.le_trans hle.slots hr)).noteAt _ _,
        typed_exprs args (hf.later (x.le_after n)) hargs hm.2 hr⟩)
  | .method x _ _ name l args r, n => fun hf ⟨hx, hargs⟩ hm hr => by
    have hm : Declares user (x.lower env n).marks ∧
        Declares user (itemMarks (exprItems env args (x.after n))) := by
      simpa [marksOf_noted] using declares_dynamic hm
    have hle := exprs_le_after (x.after n) args
    exact .dynamic (List.forall_mem_cons.2
      ⟨(typed_expr x hf hx hm.1 (Nat.le_trans hle.slots hr)).noteAt _ _,
        typed_exprs args (hf.later (x.le_after n)) hargs hm.2 hr⟩)
  | .new l x _ args r, n => fun hf ⟨hx, hargs⟩ hm hr => by
    have hm : Declares user (x.lower env n).marks ∧
        Declares user (itemMarks (exprItems env args (x.after n))) := by
      simpa [marksOf_noted] using declares_dynamic hm
    have hle := exprs_le_after (x.after n) args
    exact .dynamic (List.forall_mem_cons.2
      ⟨(typed_expr x hf hx hm.1 (Nat.le_trans hle.slots hr)).noteAt _ _,
        typed_exprs args (hf.later (x.le_after n)) hargs hm.2 hr⟩)
  | .member x _ p name, n => fun hf hs hm hr => by
    have hm : Declares user (x.lower env n).marks := by simpa using declares_dynamic hm
    exact .dynamic (by simpa using (typed_expr x hf hs hm hr).noteAt env.debug x.start)
  | .call p name l args r, n => fun hf hs hm hr => by
    have hm : Declares user (itemMarks (exprItems env args n)) := by
      simpa [marksOf_noted, globalCode, globalsCode, contextCode, Code.mark?] using declares_dynamic hm
    exact .dynamic (List.forall_mem_cons.2
      ⟨.dynamic (by simpa using .globals hf.context), typed_exprs args hf hs hm hr⟩)
  | .list _ items _, n => fun hf hs hm hr => by
    have hm : Declares user (itemMarks (exprItems env items n)) := by
      simpa [Expr.lower, marksOf_noted, Code.mark?] using hm
    exact .list (typed_exprs items hf hs hm hr)
  | .template b, n => fun hf hs hm hr => by
    rw [Expr.lower, marks_templateCode, marks_noteAt] at hm
    obtain ⟨htmp, hb⟩ := declares_cons.1 hm
    have hle : (b.after n).slots + 1 ≤ Γ.room := hr
    exact .template hf.context (hf.has rfl hle) (htmp.1 _ (List.mem_singleton_self _))
      ((typed_block b hf hs hb (Nat.le_of_succ_le hle)).noteAt _ _)

theorem typed_exprs {env : LowerEnv} {Γ : Setting} : (xs : List Expr) → {n : Numbering} →
    env.Fits user false n Γ → exprsScoped env xs n → Declares user (itemMarks (exprItems env xs n)) →
    (exprsAfter xs n).slots ≤ Γ.room → TypedItems user Γ env.debug (exprItems env xs n)
  | [], _ => fun _ _ _ _ => .nil
  | x :: xs, n => fun hf ⟨hx, hxs⟩ hm hr =>
    have hm := declares_append.1 hm
    have hle := exprs_le_after (x.after n) xs
    .cons (typed_expr x hf hx hm.1 (Nat.le_trans hle.slots hr))
      (typed_exprs xs (hf.later (x.le_after n)) hxs hm.2 hr)

theorem typed_block {env : LowerEnv} {jumps : Bool} {Γ : Setting} : (b : Block) → {n : Numbering} →
    env.Fits user jumps n Γ → b.Scoped env jumps n → Declares user (b.lower env n).marks →
    (b.after n).slots ≤ Γ.room → (b.lower env n).Typed user Γ .value
  | .mk l stmts r t, n => fun hf hs hm hr => by
    let names := (Block.mk l stmts r t).names
    obtain ⟨hvars, hitems⟩ := declares_block
      (head?_stmtItems (env.within (env.newSlots n names)) stmts _) hm
    have hle := stmts_le_after (n.declare names.length) stmts
    have hroom : n.slots + names.length ≤ Γ.room := Nat.le_trans hle.slots hr
    refine .block (hf.newSlots hvars hroom) ?_
    have hin := ((hf.within hvars hroom).later ((Numbering.Le.refl n).declare names.length)).aim
    exact typed_stmts stmts (hin _) hs (by simpa [marksOf_noted] using hitems) hr

theorem typed_stmts {env : LowerEnv} {jumps : Bool} {Γ : Setting} : (sts : List Stmt) →
    {n : Numbering} → env.Fits user jumps n Γ → stmtsScoped env jumps sts n →
    Declares user (itemMarks (stmtItems env sts n)) → (stmtsAfter sts n).slots ≤ Γ.room →
    TypedItems user Γ env.debug (stmtItems env sts n)
  | [], _ => fun _ _ _ _ => .nil
  | st :: sts, n => fun hf ⟨hst, hsts⟩ hm hr =>
    have hm := declares_append.1 hm
    have hle := stmts_le_after (st.after n) sts
    .cons (typed_stmt st hf hst hm.1 (Nat.le_trans hle.slots hr))
      (typed_stmts sts (hf.later (st.le_after n)) hsts hm.2 hr)

theorem typed_body {env : LowerEnv} {jumps : Bool} {Γ : Setting} : (b : Block) → {n : Numbering} →
    env.Fits user jumps n Γ → b.ScopedBody env jumps n → Declares user (b.lowerBody env n).marks →
    (b.afterBody n).slots ≤ Γ.room → (b.lowerBody env n).Typed user Γ .value
  | .mk l stmts r t, n => fun hf hs hm hr => by
    have hm : Declares user (itemMarks (stmtItems env stmts n)) := by
      simpa [Block.lowerBody, marksOf_noted, Code.mark?] using hm
    exact .block (by simp) (typed_stmts stmts (hf.aim _) hs hm hr)

theorem typed_varDefs {env : LowerEnv} {Γ : Setting} : (vs : List VarDef) → {n : Numbering} →
    env.Fits user false n Γ → varDefsScoped env vs n →
    Declares user (itemMarks (varDefItems env vs n)) → (varDefsAfter vs n).slots ≤ Γ.room →
    TypedItems user Γ env.debug (varDefItems env vs n)
  | [], _ => fun _ _ _ _ => .nil
  | .mk _ _ none :: vs, n => fun hf ⟨_, hvs⟩ hm hr => typed_varDefs vs hf hvs hm hr
  | .mk p name (some x) :: vs, n => fun hf ⟨⟨hw, hx⟩, hvs⟩ hm hr => by
    obtain ⟨hm, hms⟩ := declares_append.1 hm
    have hm := declares_store hw hm
    rw [marks_noteAt] at hm
    have hle := varDefs_le_after (x.after n).nextSite vs
    exact .cons
      (typed_store hf hw ((typed_expr x hf hx hm (Nat.le_trans hle.slots hr)).noteAt _ _) p _)
      (typed_varDefs vs (hf.later (x.le_after n).nextSite) hvs hms hr)

theorem typed_cases {env : LowerEnv} {jumps : Bool} {Γ : Setting} : (cs : List SwitchCase) →
    {n : Numbering} → env.Fits user jumps n Γ → casesScoped env jumps cs n →
    Declares user (itemMarks (caseItems env cs n)) → (casesAfter cs n).slots ≤ Γ.room →
    ∀ c ∈ (caseItems env cs n).map (·.code), c.Typed user Γ .arm
  | [], _ => fun _ _ _ _ _ h => absurd h List.not_mem_nil
  | .mk p values body :: cs, n => fun hf ⟨⟨hv, hb⟩, hcs⟩ hm hr => by
    obtain ⟨hm, hms⟩ := declares_append.1 hm
    have hm : Declares user (itemMarks (exprItems env values n)) ∧
        Declares user (body.lower env (exprsAfter values n)).marks := by
      simpa [SwitchCase.lower, marksOf_noted, Code.mark?] using hm
    have hle := cases_le_after (body.after (exprsAfter values n)) cs
    have hle' := (body.le_after (exprsAfter values n)).trans hle
    have hlater := hf.later (exprs_le_after n values)
    refine List.forall_mem_cons.2 ⟨.arm ?_ ?_, ?_⟩
    · exact typed_exprs values hf.within_template hv hm.1 (Nat.le_trans hle'.slots hr)
    · exact (typed_block body hlater hb hm.2 (Nat.le_trans hle.slots hr)).noteAt _ _
    · exact typed_cases cs (hlater.later (body.le_after _)) hcs hms hr

theorem typed_optBlock {env : LowerEnv} {jumps : Bool} {Γ : Setting} : (b : Option Block) →
    {n : Numbering} → env.Fits user jumps n Γ → optBlockScoped env jumps b n →
    Declares user (marksOf (optBlockCode env b n).toList) → (optBlockAfter b n).slots ≤ Γ.room →
    ∀ c ∈ optBlockCode env b n, c.Typed user Γ .value
  | none, _ => fun _ _ _ _ _ h => by cases h
  | some b, n => fun hf hs hm hr => by
    rintro c ⟨⟩
    exact (typed_block b hf hs (by simpa [optBlockCode] using hm) hr).noteAt _ _

theorem typed_optWhere {env : LowerEnv} {Γ : Setting} (var : Bytes) : (w : Option WhereClause) →
    {n : Numbering} → env.Fits user false n Γ → optWhereScoped env var w n →
    Declares user (marksOf (optWhereCode env var w n).toList) →
    ∀ c ∈ optWhereCode env var w n, c.Typed user Γ .value
  | none, _ => fun _ _ _ _ h => by cases h
  | some (.mk p x), n => fun hf hs hm => by
    rintro c ⟨⟩
    have hm : (Mark.lambda n.lambdas (slotsFrom n.lambdas "where" 0 [var])).Fine user ∧
        Declares user (x.lower (env.inLambda n "where" [var] none) (n.enter 1)).marks := by
      simpa [optWhereCode, WhereClause.lower, Code.mark?] using hm
    have hle := x.le_after (n.enter 1)
    have hin : (env.inLambda n "where" [var] none).Fits user false (n.enter 1)
        (Γ.enter n.lambdas (x.after (n.enter 1)).slots) :=
      @LowerEnv.Fits.inLambda _ _ _ _ _ hf _ rfl _ _ none _ []
        (fun v hv => hm.1.1 _ (List.mem_map_of_mem hv)) hle.slots fun t ht => by cases ht
    exact (Code.Typed.lambda hle.slots ((typed_expr x hin hs hm.2 (Nat.le_refl _)).noteAt _ _)).noteAt _ _

theorem typed_stmt {env : LowerEnv} {jumps : Bool} {Γ : Setting} : (st : Stmt) →
    {n : Numbering} → env.Fits user jumps n Γ → st.Scoped env jumps n →
    Declares user (st.lower env n).marks → (st.after n).slots ≤ Γ.room →
    (st.lower env n).Typed user Γ .value
  | .block b, _ => fun hf hs hm hr => typed_block b hf hs hm hr
  | .text .., _ => fun hf _ _ _ => .write hf.context _
  | .define p vars, n => fun hf hs hm hr => by
    rw [Stmt.lower, marks_sequenceCode, marksOf_noted] at hm
    exact typed_sequenceCode fun _ => typed_varDefs vars (hf.within_template.aim _) hs hm hr
  | .output p xs, n => fun hf hs hm hr => by
    rw [Stmt.lower, marks_sequenceCode, marksOf_outputs] at hm
    refine typed_sequenceCode fun targets c hc => ?_
    obtain ⟨i, hi, rfl⟩ := List.mem_map.1 hc
    have hf := hf.within_template.aim targets
    exact typed_outputCode hf (typed_exprs xs hf hs hm hr _ (List.mem_map_of_mem hi))
  | .expr x, _ => fun hf hs hm hr => typed_expr x hf.within_template hs hm hr
  | .ret _ none, _ => fun hf hs _ _ => typed_return hf hs (.constant _)
  | .ret p (some x), n => fun hf ⟨hret, hx⟩ hm hr => by
    have hm := declares_return hret hm
    rw [marks_noteAt] at hm
    exact typed_return hf hret ((typed_expr x hf.within_template hx hm hr).noteAt _ _)
  | .cond p test yes no, n => fun hf ⟨ht, hy, hn⟩ hm hr => by
    have hm : Declares user (test.lower env n).marks ∧
        Declares user (yes.lower env (test.after n)).marks ∧
        Declares user (marksOf (optBlockCode env no (yes.after (test.after n))).toList) := by
      rw [← marks_getD (c := .absent) rfl]
      simpa [Stmt.lower, Code.mark?] using hm
    have hle := optBlock_le_after (yes.after (test.after n)) no
    have hle' := (yes.le_after (test.after n)).trans hle
    have hf' := hf.later (test.le_after n)
    have no := typed_optBlock no (hf'.later (yes.le_after _)) hn hm.2.2 hr
    refine .cond (.toBool ?_) ?_ (typed_getD .missing fun c hc => .present (no c hc))
    · exact (typed_expr test hf.within_template ht hm.1 (Nat.le_trans hle'.slots hr)).noteAt _ _
    · exact (typed_block yes hf' hy hm.2.1 (Nat.le_trans hle.slots hr)).noteAt _ _
  | .loop p test body, n => fun hf ⟨ht, hb⟩ hm hr => by
    rw [Stmt.lower, marks_whileCode] at hm
    have hm : Declares user (test.lower (env.inLoop n.loop) n.nextLoop).marks ∧
        Declares user (body.lower (env.inLoop n.loop) (test.after n.nextLoop)).marks := by
      simpa using hm
    have hle := body.le_after (test.after n.nextLoop)
    have hin (targets : List Nat) : (env.inLoop n.loop).Fits user true n.nextLoop
        ((Γ.aim [n.loop.brk.id, n.loop.cont.id]).aim targets) :=
      ((hf.later (Numbering.Le.refl n).nextLoop).aim _).inLoop (by simp [Setting.aim])
        (by simp [Setting.aim]) |>.aim targets
    refine typed_whileCode ?_ ?_
    · exact (typed_expr test (hin _).within_template ht hm.1 (Nat.le_trans hle.slots hr)).noteAt _ _
    · exact (typed_block body ((hin _).later (test.le_after _)) hb hm.2 hr).noteAt _ _
  | .each p vp var x filter body between, n => fun hf ⟨hx, hw, hb, hbt⟩ hm hr => by
    let names := loopNames var body
    let vars := env.newSlots n names
    let enum : Variable := ⟨"$enum", n.slots + names.length, env.owner, env.ownerName⟩
    let n₁ := (n.declare (names.length + 1)).nextLoop
    let n₃ := optWhereAfter filter (x.after n₁)
    rw [Stmt.lower, marks_forCode, marks_filterCode, marks_noteAt, marks_noteAt,
      marks_getD (c := .empty) rfl, declares_cons] at hm
    simp only [declares_append] at hm
    obtain ⟨⟨husers, hstates⟩, ⟨⟨hmx, hmw⟩, hmb⟩, hmbt⟩ := hm
    have hle₄ := optBlock_le_after (body.afterBody n₃) between
    have hle₃ := (body.le_afterBody n₃).trans hle₄
    have hle₂ := (optWhere_le_after (x.after n₁) filter).trans hle₃
    have hle : n₁.slots ≤ Γ.room := Nat.le_trans ((x.le_after n₁).trans hle₂).slots hr
    have hroom : n.slots + names.length ≤ Γ.room := Nat.le_of_succ_le hle
    have hvars : ∀ v ∈ vars, user v.key := fun v hv => husers v.key (by
      simpa [Mark.users] using List.mem_map_of_mem hv)
    obtain ⟨hu, hk⟩ := hstates enum.key (List.mem_singleton_self _)
    have hle₁ : n.Le n₁ := ((Numbering.Le.refl n).declare (names.length + 1)).nextLoop
    have hf₁ := (hf.header n.loop).later hle₁
    have source := typed_expr x hf₁ hx hmx (Nat.le_trans hle₂.slots hr)
    have pred := typed_optWhere var filter (hf₁.later (x.le_after n₁)) hw hmw
    refine typed_forCode (hf.newSlots hvars hroom) ⟨hf.has rfl hle, hf.owner, hu, hk⟩
      (hf.fresh (Nat.le_add_right ..)) (typed_filterCode (source.noteAt _ _) pred)
      fun Δ hs hheld hbrk hcont ht => ?_
    have hin : ((env.inLoop n.loop).within vars).Fits user true n₁ Δ :=
      hf.round hvars hroom hle₁ (Nat.lt_succ_self _) hs hheld ht hbrk hcont
    have hin₃ := hin.later ((x.le_after n₁).trans (optWhere_le_after _ filter))
    refine ⟨(typed_body body hin₃ hb hmb ?_).noteAt _ _,
      typed_getD .empty (typed_optBlock between (hin₃.later (body.le_afterBody n₃)) hbt hmbt ?_)⟩
    · exact Nat.le_trans hle₄.slots (by rwa [Setting.room, hs])
    · rwa [Setting.room, hs]
  | .leave _, _ => fun hf ⟨hj, hl⟩ _ _ => by
    subst hj
    exact typed_jump hf hl fun _ => .inl rfl
  | .again _, _ => fun hf ⟨hj, hl⟩ _ _ => by
    subst hj
    exact typed_jump hf hl fun _ => .inr rfl
  | .switch p x cases dflt r, n => fun hf ⟨hx, hc, hd⟩ hm hr => by
    rw [Stmt.lower] at hm
    obtain ⟨hmx, hmc, hmd⟩ := declares_switchCode hm
    rw [marks_noteAt] at hmx
    have hle := optBlock_le_after (casesAfter cases (x.after n)) dflt
    have hle' := (cases_le_after (x.after n) cases).trans hle
    have hf' := hf.later (x.le_after n)
    refine typed_switchCode (fun targets => ?_) ?_ (fun targets => ?_) p _
    · exact (typed_expr x (hf.within_template.aim targets) hx hmx (Nat.le_trans hle'.slots hr)).noteAt _ _
    · exact typed_cases cases hf' hc hmc (Nat.le_trans hle.slots hr)
    · exact typed_optBlock dflt ((hf'.later (cases_le_after _ cases)).aim targets) hd hmd hr

end

end

/-! ### Modules -/

section

variable {user : Nat × Nat → Prop} {env : LowerEnv} {jumps : Bool} {n : Numbering} {Γ : Setting}

theorem typed_function (hf : env.Fits user jumps n Γ) (f : FunctionDecl)
    (hs : f.body.Scoped (env.inLambda n f.name (f.params.map (·.name)) (some ⟨n.targets, "return"⟩))
      false (n.nextTarget.enter f.params.length))
    (hm : Declares user (f.lower env n).marks) : (f.lower env n).Typed user Γ .value := by
  let names := f.params.map (·.name)
  let inner := n.nextTarget.enter f.params.length
  have hm : (Mark.lambda n.lambdas (slotsFrom n.lambdas f.name 0 names)).Fine user ∧
      Declares user (f.body.lower (env.inLambda n f.name names (some ⟨n.targets, "return"⟩)) inner).marks := by
    simpa [FunctionDecl.lower, FunctionDecl.lambda, Lambda.code, functionBody, setGlobalCode,
      globalsCode, contextCode, Code.mark?] using hm
  have hlen : names.length = f.params.length := List.length_map ..
  have hparams : names.length ≤ (f.body.after inner).slots := hlen ▸ (f.body.le_after inner).slots
  have hin (targets : List Nat) (ht : n.targets ∈ targets) :=
    @LowerEnv.Fits.inLambda _ _ _ _ _ hf inner rfl _ _ (some ⟨n.targets, "return"⟩) _ targets
      (fun v hv => hm.1.1 _ (List.mem_map_of_mem hv)) hparams fun t h => by
        cases h
        exact ht
  refine .dynamic (List.forall_mem_cons.2 ⟨.globals hf.context, List.forall_mem_singleton.2
    (.lambda (by simpa [FunctionDecl.lambda, names, inner] using hparams)
      (.block (by simp) (List.forall_mem_cons.2 ⟨?_, List.forall_mem_singleton.2 (.label ?_)⟩)))⟩)
  · refine (typed_block f.body (hin _ ?_) hs hm.2 (Nat.le_refl _)).noteAt _ _
    rw [labelsOf, List.mem_filterMap]
    exact ⟨.label ⟨n.targets, "return"⟩ (.constant .null), by simp, rfl⟩
  · exact .present (.constant _)

theorem typed_functions (hf : env.Fits user jumps n Γ) (fs : List FunctionDecl)
    (hs : functionsScoped env fs n) (hm : Declares user (itemMarks (functionItems env fs n))) :
    TypedItems user Γ env.debug (functionItems env fs n) := by
  induction fs generalizing n with
  | nil => exact .nil
  | cons f fs ih =>
    obtain ⟨hm, hms⟩ := declares_append.1 hm
    exact .cons (typed_function hf f hs.1 hm) (ih (hf.later (f.le_after n)) hs.2 hms)

theorem typed_defs (hf : env.Fits user false n Γ) (ds : List GlobalDef)
    (hs : defsScoped env ds n) (hm : Declares user (itemMarks (defItems env ds n)))
    (hr : (defsAfter ds n).slots ≤ Γ.room) : TypedItems user Γ env.debug (defItems env ds n) := by
  induction ds generalizing n with
  | nil => exact .nil
  | cons d ds ih =>
    obtain ⟨hm, hms⟩ := declares_append.1 hm
    change Declares user (sequenceCode _).marks at hm
    rw [marks_sequenceCode, marksOf_noted] at hm
    have hle := defs_le_after (varDefsAfter d.vars n) ds
    refine .cons (typed_sequenceCode fun targets => ?_)
      (ih (hf.later (varDefs_le_after n d.vars)) hs.2 hms hr)
    exact typed_varDefs d.vars (hf.aim targets) hs.1 hm (Nat.le_trans hle.slots hr)

end

/-- The slots that names have in a module, but that of its parameter. -/
def Module.IsUser (m : Module) (env : LowerEnv) (k : Nat × Nat) : Prop :=
  k ∈ (itemMarks (m.items env.atTop)).flatMap Mark.users

section

variable (m : Module) (env : LowerEnv)

theorem Within.ne_context {n : Numbering} {k : Nat × Nat} (h : Within 0 .start n k) :
    k ≠ contextVariable.key := by
  rintro rfl
  simp [Within, Numbering.start, Variable.key, contextVariable] at h

variable {m env} in
/-- No name has the slot of the context. -/
theorem Module.IsUser.ne_context {k : Nat × Nat} (h : m.IsUser env k) :
    k ≠ contextVariable.key := ((m.counted_items env).users k h).ne_context

theorem Module.declares_items : Declares (m.IsUser env) (itemMarks (m.items env.atTop)) := by
  refine fun mark hmem => ⟨fun k hk => List.mem_flatMap.2 ⟨mark, hmem, hk⟩, fun k hk => ?_⟩
  have hstate := List.mem_flatMap.2 ⟨mark, hmem, hk⟩
  exact ⟨fun hu => (m.counted_items env).apart k hu hstate,
    ((m.counted_items env).states k hstate).ne_context⟩

/-- Nothing is around. -/
structure LowerEnv.Bare : Prop where
  regions : env.regions = []
  ret : env.ret = none

/-- The code of a well-scoped module is well-formed. -/
theorem Module.typed (hb : env.Bare) (hs : m.Scoped env) :
    (m.lower env).code.Typed (m.IsUser env) { scopes := [] } .value := by
  let Γ : Setting := ({ scopes := [] } : Setting).enter 0 m.after.slots
  let n := functionsAfter m.functions .start
  have hle := (m.counted_items env).le
  have hf : env.atTop.Fits (m.IsUser env) false .start Γ :=
    { regions := fun r hr => by simp [LowerEnv.atTop, hb.regions] at hr
      owner := rfl
      below := Nat.lt_succ_self 0
      context := ⟨m.after.slots, rfl, hle.slots⟩
      loops := fun h => absurd h Bool.false_ne_true
      ret := fun t ht => by simp [LowerEnv.atTop, hb.ret] at ht
      held := by simp [Γ, Setting.enter] }
  have hm : Declares (m.IsUser env) (itemMarks (functionItems env.atTop m.functions .start)) ∧
      Declares (m.IsUser env) (itemMarks (defItems env.atTop m.defs n)) ∧
      Declares (m.IsUser env) (itemMarks (stmtItems env.atTop m.stmts (defsAfter m.defs n))) := by
    simpa [Module.items, itemMarks] using m.declares_items env
  obtain ⟨hmf, hmd, hms⟩ := hm
  have hfs := functions_le_after .start m.functions
  have hds := hfs.trans (defs_le_after n m.defs)
  have hsts := stmts_le_after (defsAfter m.defs n) m.stmts
  refine .lambda hle.slots (.block (by simp) ?_)
  generalize labelsOf _ = labels
  simp only [Module.items, List.map_append, List.forall_mem_append, List.forall_mem_singleton]
  refine ⟨⟨⟨?_, ?_⟩, ?_⟩, .empty⟩
  · exact typed_functions (hf.aim labels) m.functions hs.1 hmf
  · exact typed_defs ((hf.later hfs).aim labels) m.defs hs.2.1 hmd hsts.slots
  · exact typed_stmts m.stmts ((hf.later hds).aim labels) hs.2.2 hms (Nat.le_refl _)

end

/-! ## Well-formed units -/

/-- The slots that names have in the lambda of a module, but that of its parameter. -/
def Lambda.IsUser (f : Lambda) (k : Nat × Nat) : Prop := k ∈ f.body.marks.flatMap Mark.users

/-- The lambda of a module. -/
structure Lambda.Proper (f : Lambda) : Prop where
  typed : f.code.Typed f.IsUser { scopes := [] } .value
  context : ∀ k, f.IsUser k → k ≠ contextVariable.key
  top : f.id = contextVariable.owner
  nested : ∀ g ∈ f.body.lambdas, g.id ≠ contextVariable.owner
  found : ∀ g ∈ f.lambdas, f.lambdas.find? (·.id = g.id) = some g

@[simp]
theorem Lambda.lambdas_eq (f : Lambda) : f.lambdas = f :: f.body.lambdas := by
  rw [Lambda.lambdas, Lambda.code, Code.lambdas, Code.nodes, List.filterMap_cons]
  rfl

theorem Module.marks_lower (m : Module) (env : LowerEnv) :
    (m.lower env).body.marks = itemMarks (m.items env.atTop) := by
  simp [Module.lower, marksOf_noted, Code.mark?, LowerEnv.atTop, itemMarks]

theorem Module.isUser_lower (m : Module) (env : LowerEnv) : (m.lower env).IsUser = m.IsUser env := by
  funext k
  rw [Lambda.IsUser, m.marks_lower, Module.IsUser]

/-- The code of an accepted module is that of a proper lambda. -/
theorem Module.proper {m : Module} {env : LowerEnv} (hb : env.Bare) (hs : m.Scoped env) :
    (m.lower env).Proper where
  typed := m.isUser_lower env ▸ m.typed env hb hs
  context k h := (m.isUser_lower env ▸ h : m.IsUser env k).ne_context
  top := rfl
  nested g hg := by
    have hmem : g.id ∈ (itemMarks (m.items env.atTop)).filterMap Mark.lambda? := by
      rw [← m.marks_lower, ← map_id_lambdas]
      exact List.mem_map_of_mem hg
    exact Nat.ne_of_gt ((m.counted_items env).lambdas.range g.id hmem).1
  found g hg := m.find?_lambdas env hg

variable {units : Array (List Lambda)} {unit : Nat} {g : Lambda}

/-- A unit of compiled code that has lambdas is that of a proper one. -/
theorem Compiled.proper (h : Compiled units) (hg : g ∈ units.getD unit []) :
    ∃ f : Lambda, f.Proper ∧ units.getD unit [] = f.lambdas := by
  obtain ⟨file, src, m, opts, stamp, hp, hd, hl⟩ := h.lower hg
  have hs : m.Scoped (m.compileEnv opts stamp) := Module.scoped_of_accepted
    (parseModule_noDefinitions hp) hd (m.map_fst_roots_eq_loaded opts stamp) opts.debugInfo
  exact ⟨_, Module.proper ⟨rfl, rfl⟩ hs, hl⟩

/-- What is known of a lambda that is well-formed. -/
theorem Code.Typed.of_lambda {user : Nat × Nat → Prop} {Γ : Setting} {r : Role} {id size : Nat}
    {name : Bytes} {params : List Variable} {body : Code}
    (h : (Code.lambda id name params size body).Typed user Γ r) :
    params.length ≤ size ∧ body.Typed user (Γ.enter id size) .value := by
  generalize hc : Code.lambda id name params size body = c at h
  induction h with
  | lambda hp hb =>
    cases hc
    exact ⟨hp, hb⟩
  | present _ ih | asValue _ ih => exact ih hc
  | _ => cases hc

theorem Lambda.code_mem_nodes {c : Code} (hg : g ∈ c.lambdas) : g.code ∈ c.nodes := by
  obtain ⟨d, hd, hdg⟩ := List.mem_filterMap.1 hg
  cases d with
  | lambda =>
    cases hdg
    exact hd
  | _ => cases hdg

/-- Each node of compiled code is well-formed, or begins or ends a capture. -/
theorem Compiled.placed (h : Compiled units) (hg : g ∈ units.getD unit []) {d : Code}
    (hd : d ∈ g.code.nodes) : ∃ user, (∀ k, user k → k ≠ contextVariable.key) ∧ d.Placed user := by
  obtain ⟨f, hf, hl⟩ := h.proper hg
  rw [hl] at hg
  exact ⟨f.IsUser, hf.context, hf.typed.nodes d (Code.nodes_trans f.code (Lambda.code_mem_nodes hg) hd)⟩

/-- The body of a lambda of compiled code is well-formed inside the lambda. -/
theorem Compiled.typed_body (h : Compiled units) (hg : g ∈ units.getD unit []) :
    ∃ user Γ, (∀ k, user k → k ≠ contextVariable.key) ∧
      g.body.Typed user (Setting.enter Γ g.id g.slots) .value := by
  obtain ⟨user, huser, hplaced⟩ := h.placed hg (d := g.code) List.mem_cons_self
  rcases hplaced with hbracket | ⟨Γ, r, hΓ⟩
  · cases hbracket
  · exact ⟨user, Γ, huser, hΓ.of_lambda.2⟩

end Stencil
