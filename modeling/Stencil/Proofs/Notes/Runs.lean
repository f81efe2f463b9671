import Stencil.Host.Basic
import Stencil.Proofs.Machine.Runs
import Stencil.Proofs.Notes.Lowering

/-!
# Runs without notes

Debug information does not change what a program does. The code compiled without it is the code
compiled with it, less the notes of places, and both do the same: they write the same text, leave
the same globals and captures, look up the same caches with the same outcomes, and end alike. Only
where an error arose is told differently.

There is one way to tell them apart: a function of the host that calls a function of the language
and is handed an error may use the wording of the error, which tells its place. The same goes for
a look at the active calls. So the statement is about runs in which the host does neither.
-/

namespace Stencil

/-! ### Nodes -/

/-- What is looked for in nodes is not in notes, and elsewhere it is there without notes as it is
with them. -/
structure Overlooks {β : Type} (g g' : Code → Option β) : Prop where
  note : ∀ pos x, g (.debug pos x) = none
  node : ∀ c, (∀ pos x, c ≠ .debug pos x) → g c = g' (c.withNotes false)

section

variable {β : Type} {g g' : Code → Option β}

theorem Overlooks.cons (h : Overlooks g g') {c : Code} (hc : ∀ pos x, c ≠ .debug pos x)
    {ds ds' : List Code} (hds : ds.filterMap g = ds'.filterMap g') :
    (c :: ds).filterMap g = (c.withNotes false :: ds').filterMap g' := by
  rw [List.filterMap_cons, List.filterMap_cons, h.node c hc, hds]

mutual

/-- What is looked for in nodes other than notes is found without notes as it is with them. -/
theorem Overlooks.nodes (h : Overlooks g g') : (c : Code) →
    c.nodes.filterMap g = (c.withNotes false).nodes.filterMap g'
  | .absent => rfl
  | .constant _ | .empty | .var _ => h.cons (fun _ _ => Code.noConfusion) rfl
  | .block _ items | .dynamic _ items | .list items =>
    h.cons (fun _ _ => Code.noConfusion) (h.nodesOf items)
  | .assign _ x | .lambda _ _ _ _ x | .not x | .toBool x | .loop _ _ x | .label _ x | .goto _ x
  | .iterate x | .moveNext x | .current x =>
    h.cons (fun _ _ => Code.noConfusion) (h.nodes x)
  | .andAlso x y | .orElse x y | .tryFinally x y | .filter x y => by
    refine h.cons (fun _ _ => Code.noConfusion) ?_
    simp only [List.filterMap_append, h.nodes x, h.nodes y]
  | .cond x y z => by
    refine h.cons (fun _ _ => Code.noConfusion) ?_
    simp only [List.filterMap_append, h.nodes x, h.nodes y, h.nodes z]
  | .switch x cases d _ => by
    refine h.cons (fun _ _ => Code.noConfusion) ?_
    simp only [List.filterMap_append, h.nodes x, h.nodesOf cases, h.nodes d]
  | .case values body => by
    refine h.cons (fun _ _ => Code.noConfusion) ?_
    simp only [List.filterMap_append, h.nodesOf values, h.nodes body]
  | .contextCall _ ctx args => by
    refine h.cons (fun _ _ => Code.noConfusion) ?_
    simp only [List.filterMap_append, h.nodes ctx, h.nodesOf args]
  | .debug pos x => by
    rw [Code.nodes, List.filterMap_cons_none (h.note pos x)]
    exact h.nodes x

theorem Overlooks.nodesOf (h : Overlooks g g') : (cs : List Code) →
    (Stencil.nodesOf cs).filterMap g = (Stencil.nodesOf (listWithNotes false cs)).filterMap g'
  | [] => rfl
  | c :: cs => by
    rw [listWithNotes_cons, Stencil.nodesOf, Stencil.nodesOf, List.filterMap_append,
      List.filterMap_append, h.nodes c, h.nodesOf cs]

end

end

theorem Code.sites_unnoted (c : Code) : c.sites = (c.withNotes false).sites := by
  refine Overlooks.nodes ⟨fun _ _ => rfl, fun c hc => ?_⟩ c
  cases c with
  | debug pos x => exact absurd rfl (hc pos x)
  | _ => rfl

theorem Lambda.lambdas_unnoted (f : Lambda) :
    f.lambdas.map (Lambda.withNotes false) = (f.withNotes false).lambdas := by
  simp only [Lambda.lambdas, Code.lambdas, List.map_filterMap]
  refine Overlooks.nodes ⟨fun _ _ => rfl, fun c hc => ?_⟩ f.code
  cases c with
  | debug pos x => exact absurd rfl (hc pos x)
  | _ => rfl

/-! ### Stores with both -/

/-- Stores in which the last unit of code is with notes and without them, as long as the host has
neither called functions of the language nor looked at the active calls. -/
def lessNotes (units : Array (List Lambda)) (f : Lambda) (base : Tally) : Likeness where
  placed := false
  units := units.push f.lambdas
  units' := units.push (f.withNotes false).lambdas
  Rel c d := c = d
  base
  Allowed t := t.callbacks ≤ base.callbacks ∧ t.glimpses ≤ base.glimpses
  allowed_of_le h ha := ⟨Nat.le_trans h.1 ha.1, Nat.le_trans h.2.1 ha.2⟩
  unseen ha := .inr ha

theorem twin_linked (s : Store) (f : Lambda) :
    Twin (lessNotes s.units f s.tally) (s.linked f) (s.linked (f.withNotes false)) where
  rest := rfl
  left := rfl
  right := rfl
  base := le_rfl
  caches := by
    have h : (f.withNotes false).code.sites = f.code.sites := f.code.sites_unnoted.symm
    simp only [Store.linked, h]
    rfl
  places h := nomatch h
  kept := rfl

section

variable {units : Array (List Lambda)} {f : Lambda} {base : Tally}

/-- A lambda does the same with notes and without them. -/
theorem alike_withNotes [Host] {g : Lambda} {keep : Bool} (unit : Nat)
    (h : keep = false → ∀ d ∈ g.body.nodes, d.Loose) :
    g.routine.Alike (lessNotes units f base) unit (g.withNotes keep).routine :=
  ⟨rfl, rfl, rfl, fun _ _ fuel hcall act _ => aligned_eval hcall g.body fun d hd =>
    ⟨fun site _ => hcall.dispatch Iff.rfl fuel act site, fun hk => ⟨rfl, h hk d hd⟩⟩⟩

/-- Calls do the same with the notes of one unit and without them. -/
theorem aligned_lessNotes [Application] (hf : ∀ g ∈ f.lambdas, ∀ d ∈ g.body.nodes, d.Loose)
    (fuel : Nat) : AlignedCalls (lessNotes units f base) (callValue fuel) (callValue fuel) := by
  refine aligned_callWith (fun s t hs ht unit id => ?_) fuel
  have hs : s.units = units.push f.lambdas := hs
  have ht : t.units = units.push (f.lambdas.map (Lambda.withNotes false)) :=
    f.lambdas_unnoted.symm ▸ ht
  simp only [Store.routine?, Store.lambda?, hs, ht, getD_push_unit]
  by_cases hu : unit = units.size
  · rw [if_pos hu, if_pos hu, List.find?_map]
    cases hg : f.lambdas.find? (·.id = id) with
    | none =>
      have hg' : f.lambdas.find? ((fun g => decide (g.id = id)) ∘ Lambda.withNotes false) = none := hg
      rw [hg']
      exact .none
    | some g =>
      have hg' : f.lambdas.find? ((fun g => decide (g.id = id)) ∘ Lambda.withNotes false) = some g := hg
      rw [hg']
      exact .some (alike_withNotes unit fun _ => hf g (List.mem_of_find?_eq_some hg))
  · rw [if_neg hu, if_neg hu]
    cases (units.getD unit []).find? (·.id = id) with
    | none => exact .none
    | some g =>
      have alike : g.routine.Alike (lessNotes units f base) unit (g.withNotes true).routine :=
        alike_withNotes unit fun hk => by cases hk
      rw [Lambda.withNotes, g.body.withNotes_true] at alike
      exact .some alike

end

/-! ### Ends of runs -/

/-- Stores that differ in code, in the places of active calls and in the places that failures kept
for later tell. -/
structure Store.SameButPlaces (s t : Store) : Prop where
  rest : t = { s with units := t.units, places := t.places, kept := t.kept }
  kept : s.kept.map (Prod.map id Failure.bare) = t.kept.map (Prod.map id Failure.bare)

/-- Two runs end alike: both succeed, both fail with errors of the same wording, or both are
stopped in the same way. What they leave is the same but for places. -/
inductive EndsAlike :
    EStateM.Result Failure Store Unit → EStateM.Result Failure Store Unit → Prop where
  | done {s t : Store} (h : s.SameButPlaces t) : EndsAlike (.ok () s) (.ok () t)
  | failed {e e' : EvalError} {s t : Store} (hmsg : e.msg = e'.msg) (hmissing : e.missing = e'.missing)
      (h : s.SameButPlaces t) : EndsAlike (.error (.positioned e) s) (.error (.positioned e') t)
  | stopped {e : Failure} {s t : Store} (he : e.isError = false) (h : s.SameButPlaces t) :
    EndsAlike (.error e s) (.error e t)

theorem Twin.sameButPlaces {units : Array (List Lambda)} {f : Lambda} {base : Tally} {s t : Store}
    (h : Twin (lessNotes units f base) s t) : s.SameButPlaces t := by
  have hcaches : t.caches = s.caches := Eq.symm h.caches
  have hrecords : t.toRecords = ⟨t.units, s.caches, t.places, t.kept⟩ := by rw [← hcaches]
  exact ⟨h.rest.trans (congrArg s.withRecords hrecords), h.kept⟩

theorem Failure.evaluated_eq {e : Failure} (he : e.isError = true) (ctx : Nat) (s : Store) :
    ∃ p, e.evaluated ctx s = .positioned p := by
  cases e with
  | panic | exhausted => cases he
  | _ => exact ⟨_, rfl⟩

/-- A run that fails ends with an error of evaluation, unless it is stopped. -/
theorem Program.run_error [Application] {p : Program} {fuel ctx : Nat} {s t : Store} {e : Failure}
    (h : p.run fuel ctx s = .error e t) : e.isError = false ∨ ∃ q, e = .positioned q := by
  obtain ⟨s₀, -, happly⟩ := p.runAs_apply ctx s
  rw [Program.run, happly] at h
  cases hr : p.lambda.routine.call p.entry (callValue fuel) fuel ctx [.context ctx] s₀ with
  | ok v t' =>
    rw [hr, runEnd] at h
    split at h
    · cases h
    · cases h
      exact .inl rfl
  | error e' t' =>
    rw [hr, runEnd] at h
    split at h
    · rename_i he
      cases h
      exact .inl he
    · rename_i he
      split at h
      · cases h
        exact .inr (e'.evaluated_eq (Bool.not_eq_false _ ▸ he) ctx t)
      · cases h
        exact .inl rfl

/-- Runs that end alike but for places have the same end. -/
theorem Agree.endsAlike {units : Array (List Lambda)} {f : Lambda} {base : Tally}
    {r r' : EStateM.Result Failure Store Unit} (h : Agree (lessNotes units f base) false r r')
    (hr : ∀ e t, r = .error e t → e.isError = false ∨ ∃ q, e = .positioned q)
    (hr' : ∀ e t, r' = .error e t → e.isError = false ∨ ∃ q, e = .positioned q) : EndsAlike r r' := by
  cases h with
  | ok h => exact .done h.sameButPlaces
  | @error e e' s t he h =>
    rcases hr e s rfl with hstop | ⟨q, rfl⟩
    · rcases Failure.seen_inj he with ⟨herr, -⟩ | ⟨-, rfl⟩
      · exact absurd (hstop.symm.trans herr) (by decide)
      · exact .stopped hstop h.sameButPlaces
    · rcases hr' e' t rfl with hstop | ⟨q', rfl⟩
      · cases e' with
        | panic | exhausted => cases he
        | _ => cases hstop
      · injection he with hmsg hmissing
        exact .failed hmsg hmissing h.sameButPlaces

/-! ### Programs -/

theorem any_toOption {ε α : Type} {x : Except ε α} {p : α → Bool} :
    x.toOption.any p = true ↔ ∃ a, x = .ok a ∧ p a = true := by
  cases x <;> simp [Except.toOption]

/-- A text compiles without debug information when it compiles with it, to the code less the
notes. Linked in the same store, both run alike from every context, unless the host calls a
function of the language on the way or looks at the active calls: they succeed or fail together,
and with the same wording, and leave the same store but for code and places. So they write the
same, leave the same globals and captures, and look up the same caches in the same order with the
same outcomes. -/
theorem run_withoutDebugInfo [Application] (file src : Bytes) (opts : Options) (stamp : Nat) :
    compile file src { opts with debugInfo := false } stamp =
        (compile file src { opts with debugInfo := true } stamp).map (Lambda.withNotes false) ∧
      ∀ f f', compile file src { opts with debugInfo := true } stamp = .ok f →
        compile file src { opts with debugInfo := false } stamp = .ok f' →
        ∀ path predeclared fuel ctx s,
          (lastStore (runLinked path predeclared fuel ctx f s)).tally.callbacks = s.tally.callbacks →
          (lastStore (runLinked path predeclared fuel ctx f s)).tally.glimpses = s.tally.glimpses →
          EndsAlike (runLinked path predeclared fuel ctx f s)
            (runLinked path predeclared fuel ctx f' s) := by
  have hcompile := compile_unnoted file src { opts with debugInfo := true } stamp
  refine ⟨hcompile, ?_⟩
  intro f f' hf hf' path predeclared fuel ctx s hcalls hlooks
  obtain rfl : f' = f.withNotes false := by
    rw [hf, hf'] at hcompile
    exact Except.ok.inj hcompile
  have loose : ∀ g ∈ f.lambdas, ∀ d ∈ g.body.nodes, d.Loose := fun g hg =>
    (compiled_empty.push hf).loose (show g ∈ (#[].push f.lambdas).getD 0 [] from hg)
  have calls : AlignedCalls (lessNotes s.units f s.tally) (callValue fuel) (callValue fuel) :=
    aligned_lessNotes loose fuel
  have alike : f.routine.Alike (lessNotes s.units f s.tally) s.units.size
      (f.withNotes false).routine :=
    alike_withNotes s.units.size fun _ => loose f (f.lambdas_eq ▸ List.mem_cons_self)
  let p : Program := ⟨path, predeclared, s.units.size, f⟩
  let p' : Program := ⟨path, predeclared, s.units.size, f.withNotes false⟩
  have aligned : Aligned (lessNotes s.units f s.tally) false (p.run fuel ctx) (p'.run fuel ctx) :=
    Program.aligned_runAs rfl ctx fun args => alike.call (f := p.entry) calls fuel ctx args
  have agree := aligned.agree _ _ (twin_linked s f) ⟨Nat.le_of_eq hcalls, Nat.le_of_eq hlooks⟩
  exact agree.endsAlike (fun _ _ => Program.run_error) fun _ _ => Program.run_error

/-- A program that writes, and fails in a template of a function. -/
theorem run_withoutDebugInfo_division :
    let src := Bytes.ofString "function f(x) <|a$x / 0$|> out 1; f(2);"
    ∃ f f', compile [] src { debugInfo := true } 0 = .ok f ∧
      compile [] src { debugInfo := false } 0 = .ok f' ∧
      EndsAlike (@runLinked standalone [] [] 10 0 f { contexts := #[{}] })
        (@runLinked standalone [] [] 10 0 f' { contexts := #[{}] }) := by
  intro src
  have h : (compile [] src { debugInfo := true } 0).toOption.any (fun f =>
      (compile [] src { debugInfo := false } 0).toOption.any fun _ =>
        let t := (lastStore (@runLinked standalone [] [] 10 0 f { contexts := #[{}] })).tally
        t.callbacks == 0 && t.glimpses == 0) = true := by
    decide +kernel
  obtain ⟨f, hf, h⟩ := any_toOption.1 h
  obtain ⟨f', hf', h⟩ := any_toOption.1 h
  simp only [Bool.and_eq_true, beq_iff_eq] at h
  exact ⟨f, f', hf, hf', (@run_withoutDebugInfo standalone [] src {} 0).2 f f' hf hf' [] [] 10 0
    { contexts := #[{}] } h.1 h.2⟩

/-- The wording of the error of evaluation that a run fails with. -/
def errorMessage? (r : EStateM.Result Failure Store Unit) : Option Bytes :=
  match r with
  | .error (.positioned e) _ => some e.msg
  | _ => none

/-- An application with types whose instances are made by calling a function of the language. -/
@[reducible]
def calling : Application :=
  { standalone with
    registered? := fun _ => some (.maker fun args =>
      Job.explaining "call failed: " (Job.call 0 (args.headD .null) [.int 1])) }

/-- Where the host calls a function and words its failure anew, both runs fail, with messages that
differ in the place that one of them tells. -/
theorem run_withoutDebugInfo_called :
    let src := Bytes.ofString "load \"acme\"; function f(x) { return x / 0; } new acme.Call(f);"
    let opts : Options := { catalog := some (.registry ["acme.Call"]) }
    ∃ f f' msg msg', compile [] src { opts with debugInfo := true } 0 = .ok f ∧
      compile [] src { opts with debugInfo := false } 0 = .ok f' ∧
      errorMessage? (@runLinked calling [] [] 10 0 f { contexts := #[{}] }) = some msg ∧
      errorMessage? (@runLinked calling [] [] 10 0 f' { contexts := #[{}] }) = some msg' ∧
      msg ≠ msg' := by
  intro src opts
  have h : (compile [] src { opts with debugInfo := true } 0).toOption.any (fun f =>
      (compile [] src { opts with debugInfo := false } 0).toOption.any fun f' =>
        (errorMessage? (@runLinked calling [] [] 10 0 f { contexts := #[{}] })).any fun msg =>
          (errorMessage? (@runLinked calling [] [] 10 0 f' { contexts := #[{}] })).any
            fun msg' => msg != msg') = true := by
    decide +kernel
  obtain ⟨f, hf, h⟩ := any_toOption.1 h
  obtain ⟨f', hf', h⟩ := any_toOption.1 h
  obtain ⟨msg, hm, h⟩ := (Option.any_eq_true _ _).1 h
  obtain ⟨msg', hm', h⟩ := (Option.any_eq_true _ _).1 h
  exact ⟨f, f', msg, msg', hf, hf', hm, hm', bne_iff_ne.1 h⟩

end Stencil
