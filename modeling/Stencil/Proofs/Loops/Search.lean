import Stencil.Proofs.Printing
import Stencil.Proofs.Machine.Passage

/-!
# One advance of a loop

A loop over a sequence holds an enumerator, which reads a cursor. To advance it is to read the
cursor on; if this is a selection, the elements that do not satisfy its condition are passed over.
`Searched` tells which elements are tested on the way and what comes of it, and `Settled` what the
loop makes of that: only at the end of the sequence, or if a test fails, is the iteration closed, and
a test that failed makes the loop fail.

How many iterations are open is told by a count, of which it is only assumed that the state of loops
has no part in it. What is run inside of a loop is only asked about the stores of its run: those of
which a property is known that neither the state of loops nor an assignment takes away.
-/

namespace Stencil

/-! ### What leaves loops alone -/

/-- What is watched while a loop runs: how many iterations of the host are open, the variable that
holds the enumerator, and what is known of the stores of the run. -/
structure Watch where
  count : Heap → Int
  act : Activation
  enum : Variable
  stays : Store → Prop
  blind (s : Heap) (lists : Array (Array Value)) (cursors : Array Cursor)
    (enumerators : Array EnumeratorCell) (filtered : Array FilteredCell) :
    count { s with lists, cursors, enumerators, filtered } = count s
  steady {s : Store} (lists : Array (Array Value)) (cursors : Array Cursor)
    (enumerators : Array EnumeratorCell) (filtered : Array FilteredCell)
    (kept : List (Nat × Failure)) (faults : List Fault) : stays s →
    stays { s with lists, cursors, enumerators, filtered, kept, faults }
  slots {s : Store} (j i : Nat) (x : Value) : stays s →
    stays { s with frames := s.frames.modify j fun f => { f with vars := f.vars.setIfInBounds i x } }

/-- From one store to another, loops are left alone: their states, and the cursors from a number on.
The count of open iterations changes by a number. What is known of the store stays true. -/
structure Watch.Apart (W : Watch) (k : Nat) (δ : Int) (s t : Store) : Prop where
  enumerators {i : Nat} {e : EnumeratorCell} :
    s.enumerators[i]? = some e → t.enumerators[i]? = some e
  cursors {j : Nat} {c : Cursor} : k ≤ j → s.cursors[j]? = some c → t.cursors[j]? = some c
  size : s.cursors.size ≤ t.cursors.size
  filtered {i : Nat} {f : FilteredCell} : s.filtered[i]? = some f → t.filtered[i]? = some f
  kept {j : Nat} : k ≤ j → j < s.cursors.size → t.kept.lookup j = s.kept.lookup j
  held {v : Value} : W.act.read W.enum s = .ok v s → W.act.read W.enum t = .ok v t
  count : W.count t.toHeap = W.count s.toHeap + δ
  stays : W.stays s → W.stays t

/-- A store after a cursor has changed. -/
def Store.setCursor (s : Store) (c : Nat) (cell : Cursor) : Store :=
  { s with cursors := s.cursors.setIfInBounds c cell }

/-- A computation that leaves loops and the count of open iterations alone, however it ends, in the
stores of the run. -/
def Watch.Quiet {α : Type} (W : Watch) (m : Action α) : Prop :=
  ∀ s, W.stays s → W.Apart 0 0 s (lastStore (m s))

/-- A computation that ends well and changes the count of open iterations by a number, in the stores
of the run. -/
def Watch.Counts (W : Watch) (δ : Int) (m : Action Unit) : Prop :=
  ∀ s, W.stays s → ∃ t, m s = .ok () t ∧ W.Apart 0 δ s t

section

variable {W : Watch} {j k : Nat} {δ δ' : Int} {s t u : Store} {α β : Type}

theorem Watch.Apart.refl (k : Nat) (s : Store) : W.Apart k 0 s s :=
  ⟨id, fun _ => id, le_rfl, id, fun _ _ => rfl, id, (Int.add_zero _).symm, id⟩

theorem Watch.Apart.trans (h : W.Apart k δ s t) (h' : W.Apart k δ' t u) :
    W.Apart k (δ + δ') s u where
  enumerators hi := h'.enumerators (h.enumerators hi)
  cursors hj hc := h'.cursors hj (h.cursors hj hc)
  size := h.size.trans h'.size
  filtered hf := h'.filtered (h.filtered hf)
  kept hj hlt := (h'.kept hj (hlt.trans_le h.size)).trans (h.kept hj hlt)
  held hv := h'.held (h.held hv)
  count := by rw [h'.count, h.count, Int.add_assoc]
  stays hs := h'.stays (h.stays hs)

theorem Watch.Apart.trans_zero (h : W.Apart k 0 s t) (h' : W.Apart k 0 t u) : W.Apart k 0 s u :=
  h.trans h'

theorem Watch.Apart.mono (h : W.Apart j δ s t) (hjk : j ≤ k) : W.Apart k δ s t where
  enumerators := h.enumerators
  cursors hk := h.cursors (hjk.trans hk)
  size := h.size
  filtered := h.filtered
  kept hk := h.kept (hjk.trans hk)
  held := h.held
  count := h.count
  stays := h.stays

theorem Watch.Apart.setCursor (s : Store) (c : Nat) (cell : Cursor) :
    W.Apart (c + 1) 0 s (s.setCursor c cell) where
  enumerators := id
  cursors hj hcell := by
    rw [Store.setCursor, Array.getElem?_setIfInBounds_ne (by omega)]
    exact hcell
  size := by rw [Store.setCursor, Array.size_setIfInBounds]
  filtered := id
  kept _ _ := rfl
  held := read_congr rfl
  count := by rw [Int.add_zero]; exact W.blind _ _ _ _ _
  stays := W.steady s.lists _ s.enumerators s.filtered s.kept s.faults

theorem Watch.Quiet.bind {m : Action α} {f : α → Action β} (h : W.Quiet m)
    (hf : ∀ a, W.Quiet (f a)) : W.Quiet (m >>= f) := by
  intro s hs
  have hm := h s hs
  rw [bind_apply]
  cases hms : m s with
  | ok a t =>
    rw [hms] at hm
    exact hm.trans_zero (hf a t (hm.stays hs))
  | error e t =>
    rw [hms] at hm
    exact hm

end

/-! ### What a cursor draws from -/

/-- What a cursor that selects nothing draws from: a sequence of the host that has its own way to
iterate, or something else. -/
def Cursor.base? : Cursor → Option (Option Value)
  | .host v _ => some (some v)
  | .filtered .. => none
  | _ => some none

/-- A sequence of the host that is watched: to begin to iterate over it, to advance and to end the
iteration is left to the host. -/
structure Watch.Tracks [Host] (W : Watch) (call : Callback) (δ : Int) (v : Value) : Prop where
  start : W.Counts δ ((Host.start v).run call)
  advance (i : Nat) : W.Quiet ((Host.advance v i).run call)
  finish : W.Counts (-δ) ((Host.finish v).run call)

/-- What is drawn from is a sequence of the host that is watched, or nothing that counts. -/
def Watch.Source [Host] (W : Watch) (call : Callback) (δ : Int) : Option Value → Prop
  | some v => W.Tracks call δ v
  | none => δ = 0

/-- The cursor draws from a base, through selections whose conditions leave loops alone. -/
inductive Watch.Draws (W : Watch) (call : Callback) (base : Option Value) (s : Store) : Nat → Prop
  | plain {c : Nat} {cell : Cursor} : s.cursors[c]? = some cell → cell.base? = some base →
      Draws W call base s c
  | selection {c inner ctx : Nat} {pred : Value} {ending : Option Ending} :
      s.cursors[c]? = some (.filtered ctx pred (some inner) ending) → inner < c →
      (∀ x, W.Quiet (call ctx pred [x])) → Draws W call base s inner → Draws W call base s c

/-- A cursor that draws from a base has been read on: other loops, and the cursors made after it, are
left alone. -/
structure Watch.ReadOn (W : Watch) (call : Callback) (base : Option Value) (c : Nat)
    (s t : Store) : Prop where
  apart : W.Apart (c + 1) 0 s t
  draws : W.Draws call base t c

/-- The test of an element by the condition of a selection. -/
def testBy [Host] (call : Callback) (ctx : Nat) (pred x : Value) : Action Bool := do
  let ok ← call ctx pred [x]
  return ok.truth (← get).toHeap

section

variable {W : Watch} {call : Callback} {base : Option Value} {δ : Int} {s t u : Store}
  {c d fuel : Nat} {cell : Cursor}

theorem run_get_bind {α : Type} (k : Heap → Job α) :
    (get >>= k : Job α).run call s = (k s.toHeap).run call s := rfl

theorem cursors_getD (h : s.cursors[c]? = some cell) : s.cursors.getD c default = cell := by
  rw [Array.getD_eq_getD_getElem?, h, Option.getD_some]

theorem cursors_setCursor (h : s.cursors[c]? = some cell) (cell' : Cursor) :
    (s.setCursor c cell').cursors[c]? = some cell' := by
  rw [Store.setCursor, Array.getElem?_setIfInBounds_self, if_pos (Array.getElem?_eq_some_iff.1 h).1]

theorem Watch.Draws.lt (h : W.Draws call base s c) : c < s.cursors.size := by
  cases h with
  | plain hc => exact (Array.getElem?_eq_some_iff.1 hc).1
  | selection hc => exact (Array.getElem?_eq_some_iff.1 hc).1

/-- A cursor draws from the same base as long as the cursors up to it are the same. -/
theorem Watch.Draws.congr (h : W.Draws call base s c)
    (hcursors : ∀ j ≤ c, t.cursors[j]? = s.cursors[j]?) : W.Draws call base t c := by
  induction h with
  | @plain c _ hc hb => exact .plain ((hcursors c le_rfl).trans hc) hb
  | @selection c inner _ _ _ hc hlt hq _ ih =>
    exact .selection ((hcursors c le_rfl).trans hc) hlt hq
      (ih fun j hj => hcursors j (hj.trans hlt.le))

theorem Watch.Draws.apart (h : W.Draws call base s c) (ha : W.Apart 0 δ s t) :
    W.Draws call base t c := by
  refine h.congr fun j hj => ?_
  obtain ⟨cell, hs⟩ : ∃ cell, s.cursors[j]? = some cell :=
    ⟨_, Array.getElem?_eq_getElem (hj.trans_lt h.lt)⟩
  rw [hs, ha.cursors (Nat.zero_le j) hs]

variable [Host]

theorem quiet_testBy {ctx : Nat} {pred : Value} (h : ∀ x, W.Quiet (call ctx pred [x])) (x : Value) :
    W.Quiet (testBy call ctx pred x) :=
  (h x).bind fun _ => fun s _ => .refl 0 s

/-- The next element of a cursor that is not the host's, and the cursor moved on. -/
def Cursor.step? (h : Heap) : Cursor → Option (Value × Cursor)
  | .list l i => ((h.list l)[i]?).map (·, .list l (i + 1))
  | .sequence v i => (sequenceItem h v i).map (·, .sequence v (i + 1))
  | .text (b :: bs) => some (.string (headGlyph b bs).1.bytes, .text ((b :: bs).drop (headGlyph b bs).2))
  | _ => none

theorem Cursor.step?_base {x : Value} {cell' : Cursor} (h : cell.step? s.toHeap = some (x, cell')) :
    cell'.base? = cell.base? := by
  cases cell with
  | list l i =>
    obtain ⟨y, -, hy⟩ := Option.map_eq_some_iff.1 h
    cases hy
    rfl
  | sequence v i =>
    obtain ⟨y, -, hy⟩ := Option.map_eq_some_iff.1 h
    cases hy
    rfl
  | text rest =>
    cases rest with
    | nil => cases h
    | cons b bs =>
      cases h
      rfl
  | _ => cases h

theorem nextPlain_run (hb : cell.base? = some none) :
    (nextPlain c cell).run call s =
      match cell.step? s.toHeap with
      | some (x, cell') => .ok (some x) (s.setCursor c cell')
      | none => .ok none s := by
  cases cell with
  | list l i =>
    rw [nextPlain, run_get_bind, Cursor.step?]
    cases (s.toHeap.list l)[i]? <;> rfl
  | sequence v i =>
    rw [nextPlain, run_get_bind, Cursor.step?]
    cases sequenceItem s.toHeap v i <;> rfl
  | text rest => cases rest <;> rfl
  | filtered => cases hb
  | host => cases hb

theorem nextPlain_run_host (v : Value) (i : Nat) :
    (nextPlain c (.host v i)).run call s =
      match (Host.advance v i).run call s with
      | .ok (some x) t => .ok (some x) (t.setCursor c (.host v (i + 1)))
      | .ok none t => .ok none t
      | .error e t => .error e t := by
  rw [nextPlain, Job.run_bind, bind_apply]
  cases (Host.advance v i).run call s with
  | error e t => rfl
  | ok x t => cases x <;> rfl

/-- A plain cursor that is read on stays plain. -/
theorem nextPlain_base (hs : W.stays s) (hsrc : W.Source call δ base)
    (hc : s.cursors[c]? = some cell) (hb : cell.base? = some base) :
    let t := lastStore ((nextPlain c cell).run call s)
    W.Apart (c + 1) 0 s t ∧ ∃ cell', t.cursors[c]? = some cell' ∧ cell'.base? = some base := by
  cases base with
  | none =>
    rw [nextPlain_run hb]
    cases hstep : cell.step? s.toHeap with
    | none => exact ⟨.refl _ s, cell, hc, hb⟩
    | some p =>
      exact ⟨.setCursor s c p.2, p.2, cursors_setCursor hc p.2, (Cursor.step?_base hstep).trans hb⟩
  | some v =>
    obtain ⟨i, rfl⟩ : ∃ i, cell = .host v i := by
      cases cell <;> cases hb
      exact ⟨_, rfl⟩
    have hadvance := hsrc.advance i s hs
    rw [nextPlain_run_host]
    cases hr : (Host.advance v i).run call s with
    | error e u =>
      rw [hr] at hadvance
      exact ⟨hadvance.mono (Nat.zero_le _), _, hadvance.cursors (Nat.zero_le _) hc, rfl⟩
    | ok x u =>
      rw [hr] at hadvance
      have hu := hadvance.cursors (Nat.zero_le _) hc
      cases x with
      | none => exact ⟨hadvance.mono (Nat.zero_le _), _, hu, rfl⟩
      | some x =>
        exact ⟨(hadvance.mono (Nat.zero_le _)).trans_zero (.setCursor u c _), _,
          cursors_setCursor hu _, rfl⟩

end

/-! ### Searching for an element -/

/-- What comes of reading a cursor on. -/
inductive Reach where
  | element (x : Value)
  | ended
  /-- The search for an element fails. -/
  | failed (e : Failure)
  /-- There is no search, or there is no going on after it has failed. -/
  | broke (e : Failure)

/-- An element that was looked at, and the verdict. -/
abbrev Trial := Value × Except Failure Bool

/-- The elements that pass. -/
def passing : List Trial → List Value
  | [] => []
  | (x, .ok true) :: trials => x :: passing trials
  | _ :: trials => passing trials

/-- The element that was reached, if there is one. -/
def Reach.elements : Reach → List Value
  | .element x => [x]
  | _ => []

/-- The search of a sequence for an element that satisfies a condition: which elements are tested,
in order, and what comes of it. -/
inductive Sought (next : Action (Option Value)) (test : Value → Action Bool) :
    Store → List Trial → Reach → Store → Prop
  | ended {s t} : next s = .ok none t → Sought next test s [] .ended t
  | unread {s e t} : next s = .error e t → Sought next test s [] (.failed e) t
  | found {s x t u} : next s = .ok (some x) t → test x t = .ok true u →
      Sought next test s [(x, .ok true)] (.element x) u
  | failed {s x t e u} : next s = .ok (some x) t → test x t = .error e u →
      Sought next test s [(x, .error e)] (.failed e) u
  | passed {s x t u trials r v} : next s = .ok (some x) t → test x t = .ok false u →
      Sought next test u trials r v → Sought next test s ((x, .ok false) :: trials) r v
  /-- The bound on the elements passed over is reached. -/
  | spent {s} : Sought next test s [] (.failed .exhausted) s

/-- How a search ends. -/
def Reach.result : Reach → Store → EStateM.Result Failure Store (Option Value)
  | .element x, t => .ok (some x) t
  | .ended, t => .ok none t
  | .failed e, t => .error e t
  | .broke e, t => .error e t

section

variable {next : Action (Option Value)} {test : Value → Action Bool} {s t : Store}
  {trials : List Trial} {r : Reach}

theorem searchNext_sought (next : Action (Option Value)) (test : Value → Action Bool) (fuel : Nat)
    (s : Store) : ∃ trials r t, Sought next test s trials r t ∧
      searchNext next test fuel s = r.result t := by
  induction fuel generalizing s with
  | zero => exact ⟨_, _, s, .spent, rfl⟩
  | succ fuel ih =>
    rw [searchNext, bind_apply]
    cases hnext : next s with
    | error e t => exact ⟨_, _, t, .unread hnext, rfl⟩
    | ok o t =>
      cases o with
      | none => exact ⟨_, _, t, .ended hnext, rfl⟩
      | some x =>
        dsimp only
        rw [bind_apply]
        cases htest : test x t with
        | error e u => exact ⟨_, _, u, .failed hnext htest, rfl⟩
        | ok b u =>
          cases b with
          | true => exact ⟨_, _, u, .found hnext htest, rfl⟩
          | false =>
            obtain ⟨trials, r, v, hsought, hrun⟩ := ih u
            exact ⟨_, r, v, .passed hnext htest hsought, hrun⟩

/-- A search passes over elements until it reaches one. -/
theorem Sought.passing_eq (h : Sought next test s trials r t) : passing trials = r.elements := by
  induction h with
  | passed _ _ _ ih => exact ih
  | _ => rfl

/-- A test that fails ends the search. -/
theorem Sought.failing (h : Sought next test s trials r t) {x : Value} {e : Failure}
    (hx : (x, .error e) ∈ trials) :
    r = .failed e ∧ ∃ before, trials = before ++ [(x, .error e)] ∧ ∀ p ∈ before, p.2 = .ok false := by
  induction h with
  | failed =>
    cases List.mem_singleton.1 hx
    exact ⟨rfl, [], rfl, nofun⟩
  | found => cases List.mem_singleton.1 hx
  | passed _ _ _ ih =>
    obtain hx | hx := List.mem_cons.1 hx
    · cases hx
    · obtain ⟨hr, before, rfl, hbefore⟩ := ih hx
      refine ⟨hr, _ :: before, rfl, ?_⟩
      exact List.forall_mem_cons.2 ⟨rfl, hbefore⟩
  | _ => cases hx

/-- There is a search, and so it can only fail. -/
theorem Sought.ne_broke (h : Sought next test s trials r t) (e : Failure) : r ≠ .broke e := by
  induction h with
  | passed _ _ _ ih => exact ih
  | _ => nofun

/-- What reading the sequence and testing its elements preserves, a search preserves. -/
theorem Sought.preserves {P : Store → Prop} (h : Sought next test s trials r t)
    (hnext : ∀ s, P s → P (lastStore (next s))) (htest : ∀ x s, P s → P (lastStore (test x s)))
    (hs : P s) : P t := by
  induction h with
  | ended hn | unread hn => simpa [hn] using hnext _ hs
  | @found s x t u hn ht | @failed s x t e u hn ht =>
    have hread := hnext s hs
    rw [hn] at hread
    have htested := htest x t hread
    rwa [ht] at htested
  | @passed s x t u _ _ _ hn ht _ ih =>
    have hread := hnext s hs
    rw [hn] at hread
    have htested := htest x t hread
    rw [ht] at htested
    exact ih htested
  | spent => exact hs

end

/-- A store after the search of a selection was interrupted by a failure. -/
def Store.interrupted (s : Store) (c ctx : Nat) (pred : Value) (inner : Option Nat) (e : Failure) :
    Store :=
  { s.setCursor c (.filtered ctx pred inner (some .interrupted)) with kept := (c, e) :: s.kept }

section

variable [Host] {W : Watch} {call : Callback} {base : Option Value} {δ : Int} {s t : Store}
  {c d inner ctx fuel : Nat} {pred : Value} {ending : Option Ending}

omit [Host] in
theorem interrupt_apply (hc : s.cursors[c]? = some (.filtered ctx pred (some inner) ending))
    (e : Failure) : Action.interrupt c e s = .ok () (s.interrupted c ctx pred (some inner) e) := by
  have hget := cursors_getD hc
  simp only [Action.interrupt, modify, modifyGet, MonadStateOf.modifyGet, EStateM.modifyGet, hget]
  rfl

theorem passTo_plain {cell : Cursor} (hc : s.cursors[c]? = some cell)
    (hb : cell.base? = some base) :
    passTo call fuel (d + 1) c s = (nextPlain c cell).run call s := by
  rw [passTo, get_bind_apply, cursors_getD hc]
  cases cell <;> first | rfl | cases hb

/-- To read a selection on is to search it, and to keep the error that ends the search. -/
theorem passTo_selection (hc : s.cursors[c]? = some (.filtered ctx pred (some inner) none)) :
    passTo call fuel (d + 1) c s =
      match searchNext (passTo call fuel d inner) (testBy call ctx pred) fuel s with
      | .ok o t => .ok o t
      | .error e t => if e.isError then (Action.interrupt c e >>= fun _ => pure none) t
        else .error e t := by
  rw [passTo, get_bind_apply, cursors_getD hc]
  dsimp only
  rw [attempt_bind_eq_inspect]
  show inspect (searchNext (passTo call fuel d inner) (testBy call ctx pred) fuel) _ s = _
  unfold inspect
  cases searchNext (passTo call fuel d inner) (testBy call ctx pred) fuel s with
  | ok o t => rfl
  | error e t =>
    dsimp only
    by_cases he : e.isError = true
    · rw [if_pos he, if_pos he]
    · rw [if_neg he, if_neg he]
      rfl

omit [Host] in
theorem endingOf_interrupted (hc : s.cursors[c]? = some (.filtered ctx pred (some inner) ending))
    (e : Failure) : (s.interrupted c ctx pred (some inner) e).endingOf c = some e := by
  have hcursor : (s.interrupted c ctx pred (some inner) e).cursors.getD c default =
      .filtered ctx pred (some inner) (some .interrupted) := cursors_getD (cursors_setCursor hc _)
  rw [Store.endingOf, hcursor]
  exact List.lookup_cons_self

omit [Host] in
theorem Watch.Apart.interrupted (s : Store) (c ctx : Nat) (pred : Value) (inner : Option Nat)
    (e : Failure) : W.Apart (c + 1) 0 s (s.interrupted c ctx pred inner e) where
  enumerators := id
  cursors := (Apart.setCursor (W := W) s c _).cursors
  size := (Apart.setCursor (W := W) s c _).size
  filtered := id
  kept hj _ := by
    rw [Store.interrupted, List.lookup_cons, beq_eq_false_iff_ne.2 (by omega)]
  held := read_congr rfl
  count := (Apart.setCursor (W := W) s c _).count
  stays := W.steady s.lists _ s.enumerators s.filtered _ s.faults

/-- What the search of a selection leaves as it was, if reading the sequence does. -/
theorem Sought.apart {trials : List Trial} {r : Reach}
    (h : Sought (passTo call fuel d inner) (testBy call ctx pred) s trials r t) (hlt : inner < c)
    (hs : W.stays s) (hq : ∀ x, W.Quiet (call ctx pred [x])) (hinner : W.Draws call base s inner)
    (hnext : ∀ u, W.stays u → W.Draws call base u inner →
      W.ReadOn call base inner u (lastStore (passTo call fuel d inner u))) :
    W.Apart c 0 s t ∧ W.Draws call base t inner := by
  refine h.preserves (P := fun t => W.Apart c 0 s t ∧ W.Draws call base t inner)
    (fun u hu => ?_) (fun x u hu => ?_) ⟨.refl c s, hinner⟩
  · have hread := hnext u (hu.1.stays hs) hu.2
    exact ⟨hu.1.trans_zero (hread.apart.mono hlt), hread.draws⟩
  · have htest := quiet_testBy hq x u (hu.1.stays hs)
    exact ⟨hu.1.trans_zero (htest.mono (Nat.zero_le c)), hu.2.apart htest⟩

omit [Host] in
/-- A selection that was searched and then interrupted. -/
theorem Watch.ReadOn.interrupted (h : W.ReadOn call base c s t)
    (hc : t.cursors[c]? = some (.filtered ctx pred (some inner) none)) (e : Failure) :
    W.ReadOn call base c s (t.interrupted c ctx pred (some inner) e) := by
  refine ⟨h.apart.trans_zero (.interrupted t c ctx pred (some inner) e), ?_⟩
  cases h.draws with
  | plain hc' hb =>
    cases hc.symm.trans hc'
    cases hb
  | selection hc' hlt hq hinner =>
    cases hc.symm.trans hc'
    refine .selection (cursors_setCursor hc _) hlt hq (hinner.congr fun j hj => ?_)
    exact Array.getElem?_setIfInBounds_ne (by omega)

/-- What reading a cursor on leaves as it was. -/
theorem passTo_readOn (hs : W.stays s) (hsrc : W.Source call δ base) (hd : c < d)
    (h : W.Draws call base s c) :
    W.ReadOn call base c s (lastStore (passTo call fuel d c s)) := by
  induction d generalizing c s with
  | zero => omega
  | succ d ih =>
    cases h with
    | plain hc hb =>
      rw [passTo_plain hc hb]
      obtain ⟨hapart, cell', hc', hb'⟩ := nextPlain_base hs hsrc hc hb
      exact ⟨hapart, .plain hc' hb'⟩
    | @selection _ inner ctx pred ending hc hlt hq hinner =>
      cases ending with
      | some ending =>
        have hstands : passTo call fuel (d + 1) c s = .ok none s := by
          rw [passTo, get_bind_apply, cursors_getD hc]
          rfl
        rw [hstands]
        exact ⟨.refl _ s, .selection hc hlt hq hinner⟩
      | none =>
        obtain ⟨trials, r, t, hsought, hrun⟩ :=
          searchNext_sought (passTo call fuel d inner) (testBy call ctx pred) fuel s
        obtain ⟨hapart, hdraws⟩ := hsought.apart hlt hs hq hinner fun u hstays hu =>
          ih hstays (by omega) hu
        have hct := hapart.cursors le_rfl hc
        have hread : W.ReadOn call base c s t :=
          ⟨hapart.mono (Nat.le_succ c), .selection hct hlt hq hdraws⟩
        rw [passTo_selection hc, hrun]
        cases r with
        | element | ended => exact hread
        | failed e | broke e =>
          dsimp only [Reach.result]
          split
          · rw [bind_apply, interrupt_apply hct]
            exact hread.interrupted hct e
          · exact hread

end

/-! ### Advancing -/

/-- Close a loop, the iteration of which is over. -/
def closeLoop [Host] (call : Callback) (id c : Nat) : Action Unit := do
  (Job.setEnumerator id { cursor := c, done := true }).run call
  (finish c).run call

/-- What comes of reading the cursor of a loop on: which elements are looked at, and what is reached.
Without a selection, every element passes. -/
inductive Searched [Host] (call : Callback) (fuel c : Nat) :
    Store → List Trial → Reach → Store → Prop
  | plain {s cell r t} : s.cursors[c]? = some cell → cell.base?.isSome = true →
      (∀ e, r ≠ .failed e) → (nextPlain c cell).run call s = r.result t →
      Searched call fuel c s (r.elements.map (·, .ok true)) r t
  | selection {s ctx pred inner trials r t} :
      s.cursors[c]? = some (.filtered ctx pred (some inner) none) →
      Sought (passTo call fuel s.cursors.size inner) (testBy call ctx pred) s trials r t →
      Searched call fuel c s trials r t

theorem Searched.passing_eq [Host] {call : Callback} {fuel c : Nat} {s t : Store}
    {trials : List Trial} {r : Reach} (h : Searched call fuel c s trials r t) :
    passing trials = r.elements := by
  cases h with
  | plain => cases r <;> rfl
  | selection _ h => exact h.passing_eq

/-- A test that fails ends the search. -/
theorem Searched.failing [Host] {call : Callback} {fuel c : Nat} {s t : Store}
    {trials : List Trial} {r : Reach} (h : Searched call fuel c s trials r t) {x : Value}
    {e : Failure} (hx : (x, .error e) ∈ trials) :
    r = .failed e ∧ ∃ before, trials = before ++ [(x, .error e)] ∧ ∀ p ∈ before, p.2 = .ok false := by
  cases h with
  | plain =>
    obtain ⟨y, -, hy⟩ := List.mem_map.1 hx
    cases hy
  | selection _ h => exact h.failing hx

/-- What a loop makes of what comes of reading its cursor on. -/
inductive Settled [Host] (call : Callback) (id c : Nat) : Reach → Store → Reach → Store → Prop
  | element {x s} : Settled call id c (.element x) s (.element x)
      { s with enumerators := s.enumerators.setIfInBounds id { cursor := c, current := x } }
  | ended {s t} : closeLoop call id c s = .ok () t → Settled call id c .ended s .ended t
  | failed {e s t} : e.isError = true →
      (Action.interrupt c e >>= fun _ => closeLoop call id c) s = .ok () t →
      Settled call id c (.failed e) s (.failed e) t
  | stopped {e s} : e.isError = false → Settled call id c (.failed e) s (.broke e) s
  | broke {e s} : Settled call id c (.broke e) s (.broke e) s

/-- How an advance ends. -/
def Reach.moved : Reach → Store → EStateM.Result Failure Store Bool
  | .element _, t => .ok true t
  | .ended, t => .ok false t
  | .failed e, t => .error e t
  | .broke e, t => .error e t

/-- A loop that is at work: its state and its cursor, and the iteration that it has open. -/
structure Watch.Loop [Host] (W : Watch) (call : Callback) (base : Option Value) (n δ : Int)
    (id c : Nat) (current : Value) (s : Store) : Prop where
  state : s.enumerators[id]? = some { cursor := c, current }
  draws : W.Draws call base s c
  goes {ctx : Nat} {pred : Value} {inner : Option Nat} {ending : Option Ending} :
    s.cursors[c]? = some (.filtered ctx pred inner ending) → ending = none
  held : W.act.read W.enum s = .ok (.enumerator id) s
  count : W.count s.toHeap = n + δ
  stays : W.stays s

/-- What an advance leaves behind: a loop at work, a loop that has closed its iteration, or one that
never will. -/
def Watch.Leaves [Host] (W : Watch) (call : Callback) (base : Option Value) (n δ : Int)
    (id c : Nat) : Reach → Store → Prop
  | .element x, t => W.Loop call base n δ id c x t
  | .ended, t => W.count t.toHeap = n
  | .failed _, t => W.count t.toHeap = n
  | .broke _, t => W.count t.toHeap = n + δ

section

variable [Host] {W : Watch} {call : Callback} {base : Option Value} {n δ : Int} {s t : Store}
  {c d id fuel : Nat} {x : Value}

/-- To close a cursor is to end the iteration over what it draws from. -/
theorem closeCursor_draws (h : W.Draws call base s c) (hd : c < d) :
    (closeCursor d c).run call s =
      (match base with
        | some v => Host.finish v
        | none => pure ()).run call s := by
  obtain ⟨d, rfl⟩ : ∃ n, d = n + 1 := ⟨d - 1, by omega⟩
  induction h generalizing d with
  | @plain c cell hc hb =>
    rw [closeCursor, run_get_bind, cursors_getD hc]
    cases cell <;> first | (cases hb; rfl) | cases hb
  | @selection c inner _ _ _ hc hlt _ _ ih =>
    rw [closeCursor, run_get_bind, cursors_getD hc]
    obtain ⟨d, rfl⟩ : ∃ n, d = n + 1 := ⟨d - 1, by omega⟩
    exact ih d (by omega)

/-- To end an iteration is left to the host, if it was begun by the host. -/
theorem finish_counts (hs : W.stays s) (hsrc : W.Source call δ base) (h : W.Draws call base s c) :
    ∃ t, (finish c).run call s = .ok () t ∧ W.Apart 0 (-δ) s t := by
  have hclose : (finish c).run call s = (match base with
      | some v => Host.finish v
      | none => pure ()).run call s := by
    rw [← closeCursor_draws h (Nat.lt_succ_of_lt h.lt)]
    rfl
  rw [hclose]
  cases base with
  | none =>
    rw [show δ = 0 from hsrc]
    exact ⟨s, rfl, .refl 0 s⟩
  | some v => exact hsrc.finish s hs

/-- A loop that closes its iteration. -/
theorem closeLoop_counts (hs : W.stays s) (hsrc : W.Source call δ base)
    (h : W.Draws call base s c) (id : Nat) :
    ∃ t, closeLoop call id c s = .ok () t ∧ W.count t.toHeap = W.count s.toHeap - δ ∧
      t.cursors[c]? = s.cursors[c]? ∧ t.kept.lookup c = s.kept.lookup c := by
  let u : Store := { s with enumerators := s.enumerators.setIfInBounds id { cursor := c, done := true } }
  have hu : W.Draws call base u c := h.congr fun _ _ => rfl
  have hstays : W.stays u := W.steady s.lists s.cursors _ s.filtered s.kept s.faults hs
  obtain ⟨t, ht, hapart⟩ := finish_counts hstays hsrc hu
  obtain ⟨cell, hcell⟩ : ∃ cell, s.cursors[c]? = some cell := ⟨_, Array.getElem?_eq_getElem h.lt⟩
  refine ⟨t, ht, ?_, ?_, hapart.kept (Nat.zero_le c) h.lt⟩
  · rw [hapart.count, show W.count u.toHeap = W.count s.toHeap from W.blind _ _ _ _ _,
      Int.sub_eq_add_neg]
  · rw [hcell]
    exact hapart.cursors (Nat.zero_le c) hcell

theorem moveNext_apply {current : Value} (h : s.enumerators[id]? = some { cursor := c, current }) :
    moveNext call fuel id s =
      match passTo call fuel (s.cursors.size + 1) c s with
      | .ok (some x) t => .ok true
        { t with enumerators := t.enumerators.setIfInBounds id { cursor := c, current := x } }
      | .ok none t => (closeLoop call id c >>= fun _ => Action.endSearch c >>= fun _ => pure false) t
      | .error e t => .error e t := by
  have hstate : s.enumerators.getD id default = { cursor := c, current } := by
    rw [Array.getD_eq_getD_getElem?, h, Option.getD_some]
  rw [moveNext, get_bind_apply]
  simp only [hstate, Bool.false_eq_true, if_false]
  rw [bind_apply]
  cases passTo call fuel (s.cursors.size + 1) c s with
  | error e t => rfl
  | ok o t => cases o <;> rfl

/-- A loop closes its iteration, and a failure that is kept for its cursor arises. -/
theorem closeLoop_endSearch {u : Store} (hclose : closeLoop call id c s = .ok () u)
    (hcursor : u.cursors[c]? = s.cursors[c]?) (hkept : u.kept.lookup c = s.kept.lookup c) :
    (closeLoop call id c >>= fun _ => Action.endSearch c >>= fun _ => pure false : Action Bool) s =
      match s.endingOf c with
      | some e => .error e u
      | none => .ok false u := by
  have hending : u.endingOf c = s.endingOf c := by
    simp only [Store.endingOf, Array.getD_eq_getD_getElem?, hcursor, hkept]
  rw [bind_apply, hclose]
  dsimp only
  rw [bind_apply, endSearch_apply, hending]
  cases s.endingOf c <;> rfl

/-- After an element was found the loop is still at work. -/
theorem Watch.Loop.reached {u : Store} (h : W.Loop call base n δ id c x s)
    (hread : W.ReadOn call base c s u)
    (hgoes : ∀ ctx pred inner ending, u.cursors[c]? = some (.filtered ctx pred inner ending) →
      ending = none) (y : Value) :
    W.Loop call base n δ id c y
      { u with enumerators := u.enumerators.setIfInBounds id { cursor := c, current := y } } where
  state := by
    have hlt := (Array.getElem?_eq_some_iff.1 (hread.apart.enumerators h.state)).1
    show (u.enumerators.setIfInBounds id _)[id]? = _
    rw [Array.getElem?_setIfInBounds_self, if_pos hlt]
  draws := hread.draws.congr fun _ _ => rfl
  goes hc := hgoes _ _ _ _ hc
  held := read_congr (s := u) rfl (hread.apart.held h.held)
  count := by
    have hcount : W.count u.toHeap = n + δ := by rw [hread.apart.count, h.count, Int.add_zero]
    exact (W.blind _ _ _ _ _).trans hcount
  stays := W.steady u.lists u.cursors _ u.filtered u.kept u.faults (hread.apart.stays h.stays)

/-- A loop that reads no further closes its iteration; the failure that is kept arises. -/
theorem Watch.ReadOn.close {u : Store} (hsrc : W.Source call δ base) (hstays : W.stays s)
    (hs : W.count s.toHeap = n + δ) (h : W.ReadOn call base c s u) (id : Nat) :
    ∃ t, closeLoop call id c u = .ok () t ∧ W.count t.toHeap = n ∧
      (closeLoop call id c >>= fun _ => Action.endSearch c >>= fun _ => pure false : Action Bool) u =
        match u.endingOf c with
        | some e => .error e t
        | none => .ok false t := by
  obtain ⟨t, hclose, hcount, hcursor, hkept⟩ :=
    closeLoop_counts (h.apart.stays hstays) hsrc h.draws id
  refine ⟨t, hclose, ?_, closeLoop_endSearch hclose hcursor hkept⟩
  rw [hcount, h.apart.count, hs]
  omega

/-- What the advance of a loop comes to: its cursor is read on, and of that is made what loops make
of it. -/
def Watch.Moves (W : Watch) (call : Callback) (base : Option Value) (n δ : Int) (fuel id c : Nat)
    (s : Store) (result : EStateM.Result Failure Store Bool) : Prop :=
  ∃ trials r u r' t, Searched call fuel c s trials r u ∧ Settled call id c r u r' t ∧
    result = r'.moved t ∧ W.Leaves call base n δ id c r' t

/-- As long as the cursor of a loop is read on, its iteration stays open. -/
theorem Watch.Loop.count_readOn {u : Store} (h : W.Loop call base n δ id c x s)
    (hread : W.ReadOn call base c s u) : W.count u.toHeap = n + δ := by
  rw [hread.apart.count, h.count, Int.add_zero]

/-- An advance of a loop without a selection. -/
theorem Watch.Loop.moves_plain {cell : Cursor} (fuel : Nat) (hsrc : W.Source call δ base)
    (h : W.Loop call base n δ id c x s) (hc : s.cursors[c]? = some cell)
    (hb : cell.base? = some base) :
    W.Moves call base n δ fuel id c s (moveNext call fuel id s) := by
  obtain ⟨hapart, cell', hc', hb'⟩ := nextPlain_base h.stays hsrc hc hb
  have hread : W.ReadOn call base c s (lastStore ((nextPlain c cell).run call s)) :=
    ⟨hapart, .plain hc' hb'⟩
  have hplain : cell.base?.isSome = true := by rw [hb]; rfl
  rw [moveNext_apply h.state, passTo_plain hc hb]
  cases hrun : (nextPlain c cell).run call s with
  | error e u =>
    rw [hrun] at hread
    exact ⟨_, .broke e, u, .broke e, u, .plain hc hplain nofun hrun, .broke, rfl,
      h.count_readOn hread⟩
  | ok o u =>
    rw [hrun, lastStore_ok] at hread hc'
    cases o with
    | some y =>
      have hgoes (ctx pred inner ending)
          (hf : u.cursors[c]? = some (.filtered ctx pred inner ending)) : ending = none := by
        cases hf.symm.trans hc'
        cases hb'
      exact ⟨_, .element y, u, .element y, _, .plain hc hplain nofun hrun, .element, rfl,
        h.reached hread hgoes y⟩
    | none =>
      obtain ⟨t, hclose, hcount, hend⟩ := hread.close hsrc h.stays h.count id
      have hending : u.endingOf c = none := by
        rw [Store.endingOf, cursors_getD hc']
        cases cell' <;> first | rfl | cases hb'
      rw [hending] at hend
      exact ⟨_, .ended, u, .ended, t, .plain hc hplain nofun hrun, .ended hclose, hend, hcount⟩

/-- An advance of a loop over a selection. -/
theorem Watch.Loop.moves_selection {inner ctx : Nat} {pred : Value} (fuel : Nat)
    (hsrc : W.Source call δ base) (h : W.Loop call base n δ id c x s)
    (hc : s.cursors[c]? = some (.filtered ctx pred (some inner) none)) (hlt : inner < c)
    (hq : ∀ x, W.Quiet (call ctx pred [x])) (hinner : W.Draws call base s inner) :
    W.Moves call base n δ fuel id c s (moveNext call fuel id s) := by
  obtain ⟨trials, r, u, hsought, hrun⟩ :=
    searchNext_sought (passTo call fuel s.cursors.size inner) (testBy call ctx pred) fuel s
  obtain ⟨hapart, hdraws⟩ := hsought.apart hlt h.stays hq hinner
    fun v hstays hv => passTo_readOn hstays hsrc (hlt.trans h.draws.lt) hv
  have hcu := hapart.cursors le_rfl hc
  have hread : W.ReadOn call base c s u :=
    ⟨hapart.mono (Nat.le_succ c), .selection hcu hlt hq hdraws⟩
  have hsearched : Searched call fuel c s trials r u := .selection hc hsought
  rw [moveNext_apply h.state, passTo_selection hc, hrun]
  cases r with
  | broke e => exact absurd rfl (hsought.ne_broke e)
  | element y =>
    have hgoes (ctx' pred' inner' ending')
        (hf : u.cursors[c]? = some (.filtered ctx' pred' inner' ending')) : ending' = none := by
      cases hf.symm.trans hcu
      rfl
    exact ⟨trials, _, u, .element y, _, hsearched, .element, rfl, h.reached hread hgoes y⟩
  | ended =>
    obtain ⟨t, hclose, hcount, hend⟩ := hread.close hsrc h.stays h.count id
    have hending : u.endingOf c = none := by rw [Store.endingOf, cursors_getD hcu]
    rw [hending] at hend
    exact ⟨trials, _, u, .ended, t, hsearched, .ended hclose, hend, hcount⟩
  | failed e =>
    cases he : e.isError with
    | false =>
      refine ⟨trials, _, u, .broke e, u, hsearched, .stopped he, ?_, h.count_readOn hread⟩
      simp only [Reach.result, he, Bool.false_eq_true, if_false]
      rfl
    | true =>
      obtain ⟨t, hclose, hcount, hend⟩ := (hread.interrupted hcu e).close hsrc h.stays h.count id
      rw [endingOf_interrupted hcu] at hend
      refine ⟨trials, _, u, .failed e, t, hsearched, .failed he ?_, ?_, hcount⟩
      · rw [bind_apply, interrupt_apply hcu]
        exact hclose
      · simp only [Reach.result, he, if_true]
        rw [bind_apply, interrupt_apply hcu]
        exact hend

/-- An advance of a loop at work reads its cursor on and makes of that what loops do. -/
theorem Watch.Loop.moves (fuel : Nat) (hsrc : W.Source call δ base)
    (h : W.Loop call base n δ id c x s) :
    W.Moves call base n δ fuel id c s (moveNext call fuel id s) := by
  cases h.draws with
  | plain hc hb => exact h.moves_plain fuel hsrc hc hb
  | selection hc hlt hq hinner =>
    obtain rfl := h.goes hc
    exact h.moves_selection fuel hsrc hc hlt hq hinner

end

end Stencil
