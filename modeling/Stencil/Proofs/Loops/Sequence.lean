import Stencil.Proofs.Loops.Course
import Stencil.Proofs.Machine.Exits
import Stencil.Proofs.Safety.Code

/-!
# Loops over sequences

A loop over a sequence begins by opening an iteration, over the sequence itself or over the source
of a selection, and then follows a course. What it does inside is assumed to leave its state alone.

Two results are read off the course. The loop closes its iteration exactly if it comes to the end of
the sequence or a test fails; when it is left by a jump, or by a failure inside, the iteration
stays open. And a test that fails is the last one, and makes the loop fail, after the body has been
run for the elements that passed before.
-/

namespace Stencil

/-! ### Variables -/

section

variable {s t : Store} {act : Activation} {v w : Variable} {x y : Value} {i j : Nat}

/-- An assignment changes slots only, and not where variables are found. -/
theorem findFrame_assigned (s : Store) (j : Nat) (v : Variable) (x : Value) (owner n i : Nat) :
    findFrame (s.assigned j v x).frames owner n i = findFrame s.frames owner n i := by
  induction n generalizing i with
  | zero => rfl
  | succ n ih =>
    have hframe : ((s.assigned j v x).frames.getD i default).lambda =
          (s.frames.getD i default).lambda ∧
        ((s.assigned j v x).frames.getD i default).outer = (s.frames.getD i default).outer := by
      rcases getD_modify s.frames j i
        (fun f => { f with vars := f.vars.setIfInBounds v.index x }) default with h | ⟨-, h⟩ <;>
      · rw [Store.assigned, h]
        exact ⟨rfl, rfl⟩
    rw [findFrame, findFrame, hframe.1, hframe.2]
    simp only [ih]

/-- The frame that holds a variable. -/
theorem home_frame (h : act.home v s = .ok i s) :
    ∃ f, s.frames[i]? = some f ∧ f.lambda = v.owner ∧ v.index < f.vars.size ∧
      findFrame s.frames v.owner s.frames.size act.frame = some i := by
  rcases home_cases act v s with ⟨k, hk, hfind, hindex⟩ | ⟨msg, e, hk⟩
  · obtain rfl : i = k := by
      rw [h] at hk
      cases hk
      rfl
    have hlambda := findFrame_lambda hfind
    rw [Array.getD_eq_getD_getElem?] at hindex hlambda
    cases hf : s.frames[i]? with
    | none =>
      rw [hf] at hindex
      exact absurd hindex (Nat.not_lt_zero _)
    | some f =>
      rw [hf] at hindex hlambda
      exact ⟨f, rfl, hlambda, hindex, hfind⟩
  · rw [h] at hk
    cases hk

theorem home_of_read (h : act.read v s = .ok x s) : ∃ i, act.home v s = .ok i s := by
  rcases home_cases act v s with ⟨i, hi, -⟩ | ⟨msg, e, hi⟩
  · exact ⟨i, hi⟩
  · rw [Activation.read, bind_apply, hi] at h
    cases h

/-- An assignment changes slots only, and not where variables are found. -/
theorem home_assigned (h : act.home w s = .ok i s) (j : Nat) (v : Variable) (x : Value) :
    act.home w (s.assigned j v x) = .ok i (s.assigned j v x) := by
  obtain ⟨f, hf, -, hindex, hfind⟩ := home_frame h
  refine home_of_found ?_ ?_
  · rw [findFrame_assigned, show (s.assigned j v x).frames.size = s.frames.size from
      Array.size_modify]
    exact hfind
  · by_cases hij : i = j
    · subst hij
      rw [frames_getD (getElem?_assigned hf v x)]
      simpa using hindex
    · rw [frames_getD ((getElem?_assigned_ne hij v x).trans hf)]
      exact hindex

theorem read_assigned (h : act.home v s = .ok i s) (x : Value) :
    act.read v (s.assigned i v x) = .ok x (s.assigned i v x) := by
  obtain ⟨f, hf, -, hindex, -⟩ := home_frame h
  rw [read_apply (home_assigned h i v x), frames_getD (getElem?_assigned hf v x)]
  simp [Array.getD_eq_getD_getElem?, hindex]

/-- What is assigned to a variable does not matter for another. -/
theorem read_write (hr : act.read w s = .ok y s) (hne : v.key ≠ w.key) (x : Value) :
    act.read w (lastStore (act.write v x s)) = .ok y (lastStore (act.write v x s)) := by
  rcases home_cases act v s with ⟨j, hj, -⟩ | ⟨msg, e, hj⟩
  · rw [write_apply hj, lastStore_ok]
    obtain ⟨i, hi⟩ := home_of_read hr
    obtain ⟨f, hf, hlambda, -⟩ := home_frame hi
    rw [read_apply hi, frames_getD hf] at hr
    rw [read_apply (home_assigned hi j v x)]
    have hsame : (f.vars.getD w.index .null) = y := by
      cases hr
      rfl
    by_cases hij : i = j
    · subst hij
      obtain ⟨g, hg, hgowner, -⟩ := home_frame hj
      obtain rfl : f = g := Option.some.inj (hf.symm.trans hg)
      have hindex : v.index ≠ w.index := fun hindex =>
        hne (Prod.ext (hgowner.symm.trans hlambda) hindex)
      rw [frames_getD (getElem?_assigned hf v x)]
      simp only [Array.getD_eq_getD_getElem?, Array.getElem?_setIfInBounds_ne hindex]
      rw [← Array.getD_eq_getD_getElem?, hsame]
    · rw [frames_getD ((getElem?_assigned_ne hij v x).trans hf), hsame]
  · rw [Activation.write, bind_apply, hj]
    exact read_congr (s := s) rfl hr

end

/-! ### Beginning -/

/-- What iterating over a value that is no selection draws from. -/
def Value.base [Host] : Value → Option Value
  | .host t d => if Host.isIterable t then some (.host t d) else none
  | _ => none

/-- The values that are no selections and can be iterated over. -/
def Value.CanIterate [Host] : Value → Bool
  | .list _ | .repeated .. | .string _ => true
  | .host t _ => Host.isIterable t || Host.isSequence t ||
    match t.base with
    | .slice _ | .array _ _ | .map _ _ => true
    | _ => false
  | _ => false

/-- Iterating over the value draws from the base. Selections are made of values that were there
before. -/
inductive Watch.Over [Host] (W : Watch) (call : Callback) (s : Heap) : Option Value → Value → Prop
  | plain {v : Value} : v.CanIterate = true → Over W call s v.base v
  | selection {id : Nat} {cell : FilteredCell} {base : Option Value} :
      s.filtered[id]? = some cell → (∀ j, cell.source = .filtered j → j < id) →
      (∀ x, W.Quiet (call cell.ctx cell.pred [x])) → Over W call s base cell.source →
      Over W call s base (.filtered id)

/-- A cursor that has been made: it comes last, and is not at its end. -/
structure Watch.Started (W : Watch) (call : Callback) (base : Option Value) (δ : Int) (c : Nat)
    (s t : Store) : Prop where
  apart : W.Apart 0 δ s t
  draws : W.Draws call base t c
  goes {ctx : Nat} {pred : Value} {inner : Option Nat} {ending : Option Ending} :
    t.cursors[c]? = some (.filtered ctx pred inner ending) → ending = none
  last : t.cursors.size = c + 1

section

variable {W : Watch} {call : Callback} {base : Option Value} {δ : Int} {s t : Store} {c : Nat}
  {v : Value}

theorem getElem?_push_of_some {α : Type} {xs : Array α} {j : Nat} {a : α} (h : xs[j]? = some a)
    (b : α) : (xs.push b)[j]? = some a := by
  rw [Array.getElem?_push, if_neg (Array.getElem?_eq_some_iff.1 h).1.ne, h]

/-- What is made anew leaves loops alone, as long as what was there stays. -/
theorem Watch.Apart.grown (s : Store) (lists : Array (Array Value)) {cursors : Array Cursor}
    {filtered : Array FilteredCell}
    (hcursors : ∀ {j : Nat} {c : Cursor}, s.cursors[j]? = some c → cursors[j]? = some c)
    (hsize : s.cursors.size ≤ cursors.size)
    (hfiltered : ∀ {i : Nat} {f : FilteredCell}, s.filtered[i]? = some f → filtered[i]? = some f) :
    W.Apart 0 0 s { s with lists, cursors, filtered } where
  enumerators := id
  cursors _ := hcursors
  size := hsize
  filtered := hfiltered
  kept _ _ := rfl
  held := read_congr rfl
  count := by rw [Int.add_zero]; exact W.blind _ _ _ _ _
  stays := W.steady lists cursors s.enumerators filtered s.kept s.faults

theorem Watch.Apart.newCursor (s : Store) (cell : Cursor) :
    W.Apart 0 0 s { s with cursors := s.cursors.push cell } :=
  .grown s s.lists (fun hc => getElem?_push_of_some hc cell) (by simp) id

theorem Watch.Apart.newList (s : Store) (items : Array Value) :
    W.Apart 0 0 s { s with lists := s.lists.push items } :=
  .grown s _ id le_rfl id

theorem Watch.Apart.newFiltered (s : Store) (cell : FilteredCell) :
    W.Apart 0 0 s { s with filtered := s.filtered.push cell } :=
  .grown s s.lists id le_rfl fun hf => getElem?_push_of_some hf cell

/-- A new plain cursor. -/
theorem started_plain {cell : Cursor} (hb : cell.base? = some base) (ha : W.Apart 0 δ s t) :
    W.Started call base δ t.cursors.size s { t with cursors := t.cursors.push cell } where
  apart := by simpa using ha.trans (.newCursor t cell)
  draws := .plain Array.getElem?_push_size hb
  goes h := by
    cases Array.getElem?_push_size.symm.trans h
    cases hb
  last := Array.size_push _

variable [Host]

theorem Watch.Over.mono {s t : Heap} (h : W.Over call s base v)
    (hf : ∀ {i : Nat} {f : FilteredCell}, s.filtered[i]? = some f → t.filtered[i]? = some f) :
    W.Over call t base v := by
  induction h with
  | plain hv => exact .plain hv
  | selection hcell hbelow hq _ ih => exact .selection (hf hcell) hbelow hq ih

theorem startPlain_started (hs : W.stays s) (hsrc : W.Source call δ v.base)
    (hv : v.CanIterate = true) :
    ∃ c t, (startPlain v).run call s = .ok c t ∧ W.Started call v.base δ c s t := by
  have uncounted {u : Store} {cell : Cursor} (hsrc : W.Source call δ none)
      (hb : cell.base? = some none) (ha : W.Apart 0 0 s u) :
      W.Started call none δ u.cursors.size s { u with cursors := u.cursors.push cell } := by
    rw [show δ = 0 from hsrc]
    exact started_plain hb ha
  have refl := Watch.Apart.refl (W := W) 0 s
  cases v with
  | list | repeated | string => exact ⟨_, _, rfl, uncounted hsrc rfl refl⟩
  | host t d =>
    rw [startPlain]
    by_cases hiter : Host.isIterable t = true
    · have hbase : (Value.host t d).base = some (.host t d) := if_pos hiter
      rw [if_pos hiter, hbase]
      rw [hbase] at hsrc
      obtain ⟨u, hstart, hapart⟩ := hsrc.start s hs
      have hb : (Cursor.host (.host t d) 0).base? = some (some (.host t d)) := rfl
      refine ⟨_, _, ?_, started_plain hb hapart⟩
      rw [Job.run_bind, bind_apply, hstart]
      rfl
    · have hbase : (Value.host t d).base = none := if_neg hiter
      rw [if_neg hiter, hbase]
      rw [hbase] at hsrc
      by_cases hseq : Host.isSequence t = true
      · rw [if_pos hseq]
        exact ⟨_, _, rfl, uncounted hsrc rfl refl⟩
      · rw [if_neg hseq]
        rw [Value.CanIterate, Bool.not_eq_true _ |>.mp hiter, Bool.not_eq_true _ |>.mp hseq] at hv
        cases hb : t.base with
        | slice | array => exact ⟨_, _, rfl, uncounted hsrc rfl refl⟩
        | map =>
          let keys := ((d.sortedKeys s.toHeap t).map (Value.fromSlot t.key)).toArray
          have hcell : (Cursor.list s.lists.size 0).base? = some none := rfl
          exact ⟨_, _, rfl, uncounted hsrc hcell (.newList s keys)⟩
        | _ =>
          rw [hb] at hv
          cases hv
  | _ => cases hv

omit [Host] in
theorem run_within {ε α : Type} {job : Job α} {a : α} (h : job.run call s = .ok a t) :
    (job.within call : ExceptT ε Action α).run s = .ok (.ok a) t := by
  show EStateM.map Except.ok (job.run call) s = _
  unfold EStateM.map
  rw [h]

/-- A new cursor over the elements of a value. -/
theorem startCursor_started {n : Nat} (hs : W.stays s) (hsrc : W.Source call δ base)
    (h : W.Over call s base v) (hn : ∀ i, v = .filtered i → i < n) :
    ∃ c t, (startCursor n v).run call s = .ok c t ∧ W.Started call base δ c s t := by
  induction n generalizing v with
  | zero =>
    cases h with
    | plain hv => exact startPlain_started hs hsrc hv
    | selection => exact absurd (hn _ rfl) (Nat.not_lt_zero _)
  | succ n ih =>
    cases h with
    | plain hv =>
      have hplain : startCursor (n + 1) v = startPlain v := by
        cases v <;> first | rfl | cases hv
      rw [hplain]
      exact startPlain_started hs hsrc hv
    | @selection i cell _ hcell hbelow hq hover =>
      have hi := hn i rfl
      obtain ⟨inner, t, hrun, hinner⟩ := ih hover fun j hj => (hbelow j hj).trans_le (by omega)
      have hget : s.filtered.getD i default = cell := by
        rw [Array.getD_eq_getD_getElem?, hcell, Option.getD_some]
      let outer : Cursor := .filtered cell.ctx cell.pred (some inner) none
      have hlt : inner < t.cursors.size := by rw [hinner.last]; exact Nat.lt_succ_self inner
      have hselect : (startCursor (n + 1) (.filtered i)).run call s =
          .ok t.cursors.size { t with cursors := t.cursors.push outer } := by
        rw [startCursor, run_get_bind]
        simp only [hget]
        rw [Job.run_bind, bind_apply, run_attempt hrun]
        rfl
      refine ⟨_, _, hselect, ?_⟩
      exact
        { apart := by simpa using hinner.apart.trans (.newCursor t outer)
          draws := .selection Array.getElem?_push_size hlt hq (hinner.draws.congr fun j hj => by
            rw [Array.getElem?_push, if_neg (by omega)])
          goes := fun h => by
            have hsame : some (Cursor.filtered cell.ctx cell.pred (some inner) none) = _ :=
              Array.getElem?_push_size.symm.trans h
            cases hsame
            rfl
          last := Array.size_push _ }

theorem iterate_started (hs : W.stays s) (hsrc : W.Source call δ base) (h : W.Over call s base v) :
    ∃ c t, (iterate v).run call s = .ok c t ∧ W.Started call base δ c s t := by
  refine startCursor_started (n := s.filtered.size + 1) hs hsrc h fun i hi => ?_
  subst hi
  cases h with
  | plain hv => cases hv
  | selection hcell => exact Nat.lt_succ_of_lt (Array.getElem?_eq_some_iff.1 hcell).1

/-- A loop begins: it opens an iteration, and its variable holds the enumerator. -/
theorem newEnumerator_loop (hs : W.stays s) (hsrc : W.Source call δ base) (h : W.Over call s base v)
    {x : Value} (hslot : W.act.read W.enum s = .ok x s) :
    ∃ i c t, ((newEnumerator v).run call >>= W.act.write W.enum) s = .ok () t ∧
      W.Loop call base (W.count s.toHeap) δ i c .null t := by
  obtain ⟨c, u, hrun, hstarted⟩ := iterate_started hs hsrc h
  let e : EnumeratorCell := { cursor := c }
  let made : Store := { u with enumerators := u.enumerators.push e }
  have hnew : (newEnumerator v).run call s = .ok (.enumerator u.enumerators.size) made := by
    rw [newEnumerator, Job.run_bind, bind_apply, hrun]
    rfl
  have hread : W.act.read W.enum made = .ok x made :=
    read_congr (s := u) rfl (hstarted.apart.held hslot)
  obtain ⟨j, hj⟩ := home_of_read hread
  refine ⟨u.enumerators.size, c, made.assigned j W.enum (.enumerator u.enumerators.size), ?_, ?_⟩
  · rw [bind_apply, hnew]
    exact write_apply hj _
  · exact
      { state := Array.getElem?_push_size
        draws := hstarted.draws.congr fun _ _ => rfl
        goes := hstarted.goes
        held := read_assigned hj _
        count := (W.blind _ _ _ _ _).trans hstarted.apart.count
        stays := W.slots j W.enum.index _
          (W.steady u.lists u.cursors _ u.filtered u.kept u.faults (hstarted.apart.stays hs)) }

/-- A selection probes its source: the iteration that it begins it closes at once. -/
theorem newFiltered_over (hs : W.stays s) (hsrc : W.Source call δ base) (h : W.Over call s base v)
    (ctx : Nat) {pred : Value} (hq : ∀ x, W.Quiet (call ctx pred [x])) :
    ∃ i t, (newFiltered ctx v pred).run call s = .ok (.filtered i) t ∧ W.Apart 0 0 s t ∧
      W.Over call t base (.filtered i) := by
  obtain ⟨c, u, hrun, hstarted⟩ := iterate_started hs hsrc h
  obtain ⟨t, hfinish, hfinished⟩ :=
    finish_counts (hstarted.apart.stays hs) hsrc hstarted.draws
  have hapart : W.Apart 0 0 s t := by simpa using hstarted.apart.trans hfinished
  let cell : FilteredCell := { ctx, source := v, pred }
  refine ⟨t.filtered.size, { t with filtered := t.filtered.push cell }, ?_,
    hapart.trans_zero (.newFiltered t cell), ?_⟩
  · rw [newFiltered, Job.run_bind, bind_apply, hrun]
    dsimp only
    rw [Job.run_bind, bind_apply, hfinish]
    rfl
  · have hpushed : (t.filtered.push cell)[t.filtered.size]? = some cell := Array.getElem?_push_size
    refine .selection hpushed ?_ hq ?_
    · rintro j rfl
      cases h with
      | plain hv => cases hv
      | selection hj => exact (Array.getElem?_eq_some_iff.1 (hapart.filtered hj)).1
    · exact h.mono fun hj => getElem?_push_of_some (hapart.filtered hj) cell

end

/-! ### Computations that leave loops alone -/

/-- A computation that is not left before its end. -/
def Straight {ε α : Type} (m : ExceptT ε Action α) : Prop := ∀ s e t, m.run s ≠ .ok (.error e) t

section

variable {ε α β : Type} {W : Watch} {s t : Store}

theorem straight_lift (m : Action α) : Straight (liftM m : ExceptT ε Action α) := by
  intro s e t
  rw [run_lift_apply]
  cases m s <;> nofun

theorem Straight.bind {m : ExceptT ε Action α} {f : α → ExceptT ε Action β} (h : Straight m)
    (hf : ∀ a, Straight (f a)) : Straight (m >>= f) := by
  intro s e t
  rw [run_bind_apply]
  cases hr : m.run s with
  | error => nofun
  | ok r u =>
    cases r with
    | ok a => exact hf a u e t
    | error e' => exact absurd hr (h s e' u)

theorem straight_pure (a : α) : Straight (pure a : ExceptT ε Action α) := fun _ _ _ => nofun

theorem Watch.Quiet.exits_bind {m : ExceptT ε Action α} {f : α → ExceptT ε Action β}
    (h : W.Quiet m.run) (hf : ∀ a, W.Quiet (f a).run) : W.Quiet (m >>= f).run := by
  refine h.bind fun r => ?_
  cases r with
  | ok a => exact hf a
  | error e => exact fun s _ => .refl 0 s

theorem Watch.Quiet.lift {m : Action α} (h : W.Quiet m) :
    W.Quiet (liftM m : ExceptT ε Action α).run := by
  intro s hs
  rw [run_lift_apply]
  have hm := h s hs
  cases hr : m s <;> rwa [hr] at hm

theorem quiet_pure (a : α) : W.Quiet (pure a : Action α) := fun s _ => .refl 0 s

/-- Only faults, frames but for the variable, and the like have changed. -/
theorem Watch.Apart.of_eq (hheap : t.toHeap = s.toHeap) (hkept : t.kept = s.kept)
    (hheld : ∀ v, W.act.read W.enum s = .ok v s → W.act.read W.enum t = .ok v t)
    (hstays : W.stays s → W.stays t) : W.Apart 0 0 s t where
  enumerators h := by rwa [hheap]
  cursors _ h := by rwa [hheap]
  size := by rw [hheap]
  filtered h := by rwa [hheap]
  kept _ _ := by rw [hkept]
  held := hheld _
  count := by rw [hheap, Int.add_zero]
  stays := hstays

/-- A fault is noted. -/
theorem Watch.Apart.faulted (s : Store) (f : Fault) :
    W.Apart 0 0 s { s with faults := f :: s.faults } :=
  .of_eq rfl rfl (fun _ => read_congr rfl)
    (W.steady s.lists s.cursors s.enumerators s.filtered s.kept (f :: s.faults))

theorem quiet_read (v : Variable) : W.Quiet (W.act.read v) := by
  intro s _
  rcases home_cases W.act v s with ⟨i, hi, -⟩ | ⟨msg, f, hi⟩
  · rw [read_apply hi]
    exact .refl 0 s
  · rw [Activation.read, bind_apply, hi]
    exact .faulted s f

theorem quiet_write {v : Variable} (hne : v.key ≠ W.enum.key) (x : Value) :
    W.Quiet (W.act.write v x) := by
  intro s _
  rcases home_cases W.act v s with ⟨i, hi, -⟩ | ⟨msg, f, hi⟩
  · have hheld (y : Value) (hr : W.act.read W.enum s = .ok y s) := read_write hr hne x
    rw [write_apply hi] at hheld ⊢
    exact .of_eq rfl rfl hheld (W.slots i v.index x)
  · rw [Activation.write, bind_apply, hi]
    exact .faulted s f

theorem quiet_clear {vs : List Variable} (h : ∀ v ∈ vs, v.key ≠ W.enum.key) :
    W.Quiet (W.act.clear vs) := by
  induction vs with
  | nil => exact quiet_pure ()
  | cons v vs ih =>
    obtain ⟨hv, hvs⟩ := List.forall_mem_cons.1 h
    exact (quiet_write hv .null).bind fun _ => ih hvs

theorem run_untilAgain (body : Exec Unit) (s : Store) :
    (untilAgain body).run s =
      match body.run s with
      | .ok (.error .again) t => .ok (.ok ()) t
      | r => r := by
  rw [untilAgain, run_outcome_bind]
  cases body.run s with
  | error => rfl
  | ok r t =>
    cases r with
    | ok => rfl
    | error x => cases x <;> rfl

theorem untilAgain_ne_again {body : Exec Unit} :
    (untilAgain body).run s ≠ .ok (.error .again) t := by
  rw [run_untilAgain]
  cases body.run s with
  | error => nofun
  | ok r u =>
    cases r with
    | ok => nofun
    | error x => cases x <;> nofun

theorem Watch.Quiet.untilAgain {body : Exec Unit} (h : W.Quiet body.run) :
    W.Quiet (untilAgain body).run := by
  intro s hs
  have hbody := h s hs
  rw [run_untilAgain]
  cases hr : body.run s with
  | error => rwa [hr] at hbody
  | ok r u =>
    rw [hr] at hbody
    cases r with
    | ok => exact hbody
    | error x => cases x <;> exact hbody

variable [Host]

theorem quiet_asEnumerator (v : Value) : W.Quiet (asEnumerator v) := by
  intro s _
  cases v <;> first | exact .refl 0 s | exact .faulted s _

theorem quiet_element : W.Quiet (W.act.element W.enum : ExceptT ε Action Value).run :=
  (quiet_read W.enum).lift.exits_bind fun v => (quiet_asEnumerator v).lift.exits_bind fun _ =>
    fun s _ => .refl 0 s

theorem straight_element (act : Activation) (enum : Variable) :
    Straight (act.element enum : ExceptT ε Action Value) :=
  (straight_lift _).bind fun _ => (straight_lift _).bind fun _ => fun _ _ _ => nofun

theorem quiet_startRound {vars : List Variable} (h : ∀ v ∈ vars, v.key ≠ W.enum.key) :
    W.Quiet (W.act.startRound vars W.enum : ExceptT ε Action Unit).run := by
  refine (quiet_clear fun v hv => h v (List.mem_of_mem_drop hv)).lift.exits_bind fun _ => ?_
  cases vars with
  | nil => exact fun s _ => .refl 0 s
  | cons v vs =>
    exact quiet_element.exits_bind fun x => (quiet_write (h v List.mem_cons_self) x).lift

theorem straight_startRound (act : Activation) (vars : List Variable) (enum : Variable) :
    Straight (act.startRound vars enum : ExceptT ε Action Unit) := by
  refine (straight_lift _).bind fun _ => ?_
  cases vars with
  | nil => exact straight_pure ()
  | cons v vs => exact (straight_element act enum).bind fun _ => straight_lift _

/-- The parts of a loop over a sequence whose enumerator `i` reads the cursor `c`. -/
def Watch.parts (W : Watch) (call : Callback) (fuel : Nat) (vars : List Variable)
    (body between : Exec Unit) (i c : Nat) : LoopParts where
  ctx := W.act.ctx
  Advances s trials r t := ∃ r₀ u, Searched call fuel c s trials r₀ u ∧ Settled call i c r₀ u r t
  visit := do
    W.act.startRound vars W.enum
    untilAgain body
  between := between

/-- What a loop adds to the count of open iterations, if each adds `δ`. -/
def LoopEnd.opened (δ : Int) : LoopEnd → Int
  | .ended | .failed _ => 0
  | .left | .returned _ | .stopped _ => δ

end

section

variable [Host] {W : Watch} {call : Callback} {base : Option Value} {n δ : Int} {s t : Store}
  {i c fuel : Nat} {v x : Value} {vars : List Variable} {body between : Exec Unit}

theorem run_advance (h : W.act.read W.enum s = .ok (.enumerator i) s) :
    (W.act.advance call fuel W.enum : Exec Bool).run s =
      match moveNext call fuel i s with
      | .ok b t => .ok (.ok b) t
      | .error e t => .error e t := by
  rw [Activation.advance, run_bind_apply, run_lift_apply, h]
  have hid : asEnumerator (.enumerator i) s = .ok i s := rfl
  dsimp only
  rw [run_bind_apply, run_lift_apply, hid]
  dsimp only
  rw [run_lift_apply]
  cases moveNext call fuel i s <;> rfl

/-- A loop at work stays at work when what it does leaves loops alone. -/
theorem Watch.Loop.apart (h : W.Loop call base n δ i c x s) (ha : W.Apart 0 0 s t) :
    W.Loop call base n δ i c x t where
  state := ha.enumerators h.state
  draws := h.draws.apart ha
  goes {ctx pred inner ending} ht := by
    obtain ⟨cell, hs⟩ : ∃ cell, s.cursors[c]? = some cell :=
      ⟨_, Array.getElem?_eq_getElem h.draws.lt⟩
    cases (ha.cursors (Nat.zero_le c) hs).symm.trans ht
    exact h.goes hs
  held := ha.held h.held
  count := by rw [ha.count, h.count, Int.add_zero]
  stays := ha.stays h.stays

/-- What a loop over a sequence sustains: at each element it is at work, and in the end it has closed
its iteration, or left it open. -/
theorem Watch.sustains (hsrc : W.Source call δ base) (hvars : ∀ v ∈ vars, v.key ≠ W.enum.key)
    (hbody : W.Quiet body.run) (hbetween : W.Quiet between.run) (i c : Nat) (n : Int) :
    (W.parts call fuel vars body between i c).Sustains (W.act.advance call fuel W.enum)
      (fun x s => W.Loop call base n δ i c x s)
      (fun w s => W.count s.toHeap = n + w.opened δ) where
  advance {x s} h := by
    obtain ⟨trials, r₀, u, r, t, hsearched, hsettled, hrun, hleaves⟩ := h.moves fuel hsrc
    refine ⟨trials, r, t, ⟨r₀, u, hsearched, hsettled⟩, ?_, ?_⟩
    · rw [run_advance h.held, hrun]
      cases r <;> rfl
    · cases r with
      | element y => exact hleaves
      | ended | failed e =>
        show W.count t.toHeap = n + 0
        rw [Int.add_zero]
        exact hleaves
      | broke e => exact hleaves
  visit {x s} h := by
    have hagain := hbody.untilAgain
    exact h.apart (((quiet_startRound hvars).exits_bind fun _ => hagain) s h.stays)
  visit_again {s t} h := by
    have hstraight := straight_startRound (ε := Exit) W.act vars W.enum s
    change (W.act.startRound vars W.enum >>= fun _ => untilAgain body : Exec Unit).run s = _ at h
    rw [run_bind_apply] at h
    cases hr : (W.act.startRound vars W.enum : Exec Unit).run s with
    | error => rw [hr] at h; cases h
    | ok r u =>
      rw [hr] at h
      cases r with
      | error e => exact hstraight e u hr
      | ok => exact untilAgain_ne_again h
  between {x s} h := h.apart (hbetween s h.stays)
  left h := h.count
  returned h := h.count
  stopped h := h.count

/-- A loop that begins goes on as a loop with its parts. -/
theorem run_forEach {source : Exec Value} {u : Store}
    (hsource : (do W.act.clear (vars ++ [W.enum]); source : Exec Value).run s = .ok (.ok v) t)
    (hstart : ((newEnumerator v).run call >>= W.act.write W.enum) t = .ok () u) (i c : Nat) :
    (W.act.forEach call fuel vars W.enum source body between).run s =
      ((W.parts call fuel vars body between i c).loop (W.act.advance call fuel W.enum) fuel).run
        u := by
  have hloop : W.act.forEach call fuel vars W.enum source body between =
      (do W.act.clear (vars ++ [W.enum]); source : Exec Value) >>= fun v =>
        (newEnumerator v).within call >>= fun e =>
          (liftM (W.act.write W.enum e) : Exec Unit) >>= fun _ =>
            (W.parts call fuel vars body between i c).loop (W.act.advance call fuel W.enum) fuel := by
    simp only [Activation.forEach, LoopParts.loop, Watch.parts, bind_assoc]
    rfl
  rw [bind_apply] at hstart
  rw [hloop, run_bind_apply, hsource]
  dsimp only
  cases hnew : (newEnumerator v).run call t with
  | error e t' =>
    rw [hnew] at hstart
    cases hstart
  | ok e t' =>
    rw [hnew] at hstart
    dsimp only at hstart
    rw [run_bind_apply, run_within hnew]
    dsimp only
    rw [run_bind_apply, run_lift_apply, hstart]

/-- A loop over a sequence opens an iteration and follows a course to its end. -/
theorem Watch.runs_forEach {source : Exec Value} {y : Value} (hsrc : W.Source call δ base)
    (hvars : ∀ v ∈ vars, v.key ≠ W.enum.key) (hbody : W.Quiet body.run)
    (hbetween : W.Quiet between.run)
    (hsource : (do W.act.clear (vars ++ [W.enum]); source : Exec Value).run s = .ok (.ok v) t)
    (hstays : W.stays t) (hover : W.Over call t base v) (hslot : W.act.read W.enum t = .ok y t) :
    ∃ i c u, ((newEnumerator v).run call >>= W.act.write W.enum) t = .ok () u ∧
      W.count u.toHeap = W.count t.toHeap + δ ∧
      ∃ trials xs w last, (W.parts call fuel vars body between i c).Course (.advance true) u
          trials xs w last ∧
        (W.act.forEach call fuel vars W.enum source body between).run s = w.result last ∧
        W.count last.toHeap = W.count t.toHeap + w.opened δ := by
  obtain ⟨i, c, u, hstart, hloop⟩ := newEnumerator_loop hstays hsrc hover hslot
  obtain ⟨trials, xs, w, last, hcourse, hrun, hcount⟩ :=
    (W.sustains hsrc hvars hbody hbetween i c (W.count t.toHeap)).runs fuel hloop
  exact ⟨i, c, u, hstart, hloop.count, trials, xs, w, last, hcourse,
    (run_forEach hsource hstart i c).trans hrun, hcount⟩

theorem Watch.parts_tests (W : Watch) (call : Callback) (fuel : Nat) (vars : List Variable)
    (body between : Exec Unit) (i c : Nat) : (W.parts call fuel vars body between i c).Tests := by
  rintro s trials r t ⟨r₀, u, hsearched, hsettled⟩
  refine ⟨?_, fun x e hx => ?_⟩
  · rw [hsearched.passing_eq]
    cases hsettled <;> rfl
  · obtain ⟨rfl, before, htrials, hbefore⟩ := hsearched.failing hx
    have hlast : FailsLast trials x e :=
      ⟨before, htrials, fun trial htrial => ⟨false, hbefore trial htrial⟩⟩
    cases hsettled with
    | failed => exact ⟨.inl rfl, hlast⟩
    | stopped => exact ⟨.inr rfl, hlast⟩

/-- A loop over a sequence of the host, or over a selection from one, opens one iteration. If it comes
to the end of the sequence, or if a test fails, it has closed the iteration in the end. If it is left
by `break` or `return`, or stopped by a failure of its body, of what stands between two elements or
because the context was cancelled, the iteration stays open. -/
theorem forEach_closes_at_end {source : Exec Value} {sequence y : Value}
    (hsequence : W.Tracks call 1 sequence) (hvars : ∀ v ∈ vars, v.key ≠ W.enum.key)
    (hbody : W.Quiet body.run) (hbetween : W.Quiet between.run)
    (hsource : (do W.act.clear (vars ++ [W.enum]); source : Exec Value).run s = .ok (.ok v) t)
    (hstays : W.stays t) (hover : W.Over call t (some sequence) v)
    (hslot : W.act.read W.enum t = .ok y t) :
    ∃ i c u, ((newEnumerator v).run call >>= W.act.write W.enum) t = .ok () u ∧
      W.count u.toHeap = W.count t.toHeap + 1 ∧
      ∃ trials xs w last, (W.parts call fuel vars body between i c).Course (.advance true) u
          trials xs w last ∧
        (W.act.forEach call fuel vars W.enum source body between).run s = w.result last ∧
        (w.IsEnd → W.count last.toHeap = W.count t.toHeap) ∧
        (¬ w.IsEnd → W.count last.toHeap = W.count t.toHeap + 1) := by
  obtain ⟨i, c, u, hstart, hopened, trials, xs, w, last, hcourse, hrun, hcount⟩ :=
    W.runs_forEach (show W.Source call 1 (some sequence) from hsequence) hvars hbody hbetween
      hsource hstays hover hslot
  refine ⟨i, c, u, hstart, hopened, trials, xs, w, last, hcourse, hrun, fun hend => ?_,
    fun hend => ?_⟩
  · rw [hcount]
    cases w <;> first | exact Int.add_zero _ | exact hend.elim
  · rw [hcount]
    cases w <;> first | rfl | exact (hend trivial).elim

end

/-- A host with sequences of two elements that notes how many iterations over them are open. -/
@[reducible]
def countingHost : Host :=
  { standalone.toHost with
    isIterable := fun _ => true
    start := fun _ => Job.modify fun s => { s with slept := [s.slept.headD 0 + 1] }
    advance := fun _ i => return if i < 2 then some (.int i.toInt64) else none
    finish := fun _ => Job.modify fun s => { s with slept := [s.slept.headD 0 - 1] } }

/-- The number of open iterations, seen from the first frame. -/
def countingWatch : Watch where
  count s := s.slept.headD 0
  act := ⟨0, 0, 0⟩
  enum := ⟨[], 1, 0, []⟩
  stays _ := True
  blind _ _ _ _ _ := rfl
  steady _ _ _ _ _ _ := id
  slots _ _ _ := id

/-- A store with one frame, for a loop variable and an enumerator. -/
def loopStore : Store :=
  { frames := #[⟨0, 0, 0, [], #[.null, .null], none, none⟩], lists := #[#[.int 1, .int 0, .int 2]] }

theorem countingWatch_noted (s : Store) (δ : Int) :
    countingWatch.Apart 0 δ s { s with slept := [s.slept.headD 0 + δ] } where
  enumerators := id
  cursors _ := id
  size := le_rfl
  filtered := id
  kept _ _ := rfl
  held := read_congr rfl
  count := rfl
  stays := id

theorem countingHost_tracks (call : Callback) (v : Value) :
    @Watch.Tracks countingHost countingWatch call 1 v :=
  letI := countingHost
  { start := fun s _ => ⟨_, rfl, countingWatch_noted s 1⟩
    advance := fun _ s _ => .refl 0 s
    finish := fun s _ => ⟨_, rfl, countingWatch_noted s (-1)⟩ }

/-- A loop that is left in its first round, and the iteration that it leaves open. -/
theorem forEach_closes_at_end_break :
    let _ : Host := countingHost
    let W := countingWatch
    let sequence := Value.host (.record []) .nil
    let call : Callback := fun _ _ _ => pure .null
    let vars : List Variable := [⟨[], 0, 0, []⟩]
    let source : Exec Value := pure sequence
    let body : Exec Unit := throw .leave
    W.Tracks call 1 sequence ∧ (∀ v ∈ vars, v.key ≠ W.enum.key) ∧ W.Quiet body.run ∧
      (do W.act.clear (vars ++ [W.enum]); source : Exec Value).run loopStore =
        .ok (.ok sequence) loopStore ∧
      W.Over call loopStore.toHeap (some sequence) sequence ∧
      W.act.read W.enum loopStore = .ok .null loopStore ∧
      ∃ (w : LoopEnd) (last : Store),
        (W.act.forEach call 3 vars W.enum source body (pure ())).run loopStore = w.result last ∧
        (w.IsEnd → W.count last.toHeap = W.count loopStore.toHeap) ∧
        (¬ w.IsEnd → W.count last.toHeap = W.count loopStore.toHeap + 1) := by
  intro _ W sequence call vars source body
  have htracks : W.Tracks call 1 sequence := countingHost_tracks call sequence
  have hvars : ∀ v ∈ vars, v.key ≠ W.enum.key := by decide
  have hbody : W.Quiet body.run := fun s _ => .refl 0 s
  have hsource : (do W.act.clear (vars ++ [W.enum]); source : Exec Value).run loopStore =
      .ok (.ok sequence) loopStore := rfl
  have hover : W.Over call loopStore.toHeap sequence.base sequence := .plain rfl
  have hslot : W.act.read W.enum loopStore = .ok .null loopStore := rfl
  refine ⟨htracks, hvars, hbody, hsource, hover, hslot, ?_⟩
  obtain ⟨i, c, u, -, -, trials, xs, w, last, -, hrun, hcount⟩ :=
    @forEach_closes_at_end _ W call loopStore loopStore 3 sequence vars body (pure ()) source
      sequence .null htracks hvars hbody (quiet_pure ()) hsource trivial hover hslot
  exact ⟨w, last, hrun, hcount⟩

/-- The loop ends well, and the iteration stays open. -/
theorem forEach_leaves_open :
    let _ : Host := countingHost
    let W := countingWatch
    W.count loopStore.toHeap = 0 ∧
      (match (W.act.forEach (fun _ _ _ => pure .null) 3 [⟨[], 0, 0, []⟩] W.enum
          (pure (.host (.record []) .nil)) (throw .leave) (pure ())).run loopStore with
        | .ok (.ok ()) last => some (W.count last.toHeap)
        | _ => none) = some 1 := by
  decide +kernel

section

variable [Host] {W : Watch} {call : Callback} {base : Option Value} {δ : Int} {s t : Store}
  {fuel : Nat} {v : Value} {vars : List Variable} {body between : Exec Unit}

/-- A test that fails is not passed over by a loop: no element is tested after it, the body has been
run for elements that passed, in order, and the loop fails with the failure of the test. The body has
been run for all elements that passed, unless a `continue` between two elements has skipped some. The
tests are those of the selection that the loop is over; one that its source makes, if that is a
selection as well, is passed over when it fails. -/
theorem forEach_failing_test {source : Exec Value} {y : Value} (hsrc : W.Source call δ base)
    (hvars : ∀ v ∈ vars, v.key ≠ W.enum.key) (hbody : W.Quiet body.run)
    (hbetween : W.Quiet between.run)
    (hsource : (do W.act.clear (vars ++ [W.enum]); source : Exec Value).run s = .ok (.ok v) t)
    (hstays : W.stays t) (hover : W.Over call t base v) (hslot : W.act.read W.enum t = .ok y t) :
    ∃ i c u, ((newEnumerator v).run call >>= W.act.write W.enum) t = .ok () u ∧
      ∃ trials xs w last, (W.parts call fuel vars body between i c).Course (.advance true) u
          trials xs w last ∧
        (W.act.forEach call fuel vars W.enum source body between).run s = w.result last ∧
        xs.Sublist (passing trials) ∧
        ∀ x e, (x, .error e) ∈ trials → FailsLast trials x e ∧ w.result last = .error e last ∧
          ((∀ s t, between.run s ≠ .ok (.error .again) t) → xs = passing trials) := by
  obtain ⟨i, c, u, hstart, -, trials, xs, w, last, hcourse, hrun, -⟩ :=
    W.runs_forEach hsrc hvars hbody hbetween hsource hstays hover hslot
  have htests := W.parts_tests call fuel vars body between i c
  refine ⟨i, c, u, hstart, trials, xs, w, last, hcourse, hrun, hcourse.sublist htests,
    fun x e hx => ?_⟩
  obtain ⟨hlast, hw, hvisited⟩ := hcourse.failing htests hx
  refine ⟨hlast, ?_, hvisited⟩
  obtain rfl | rfl := hw <;> rfl

end

/-- The function of `q` that divides one by `q`. -/
def quotient : Lambda where
  id := 0
  name := "p"
  params := [⟨"q", 0, 0, "p"⟩]
  slots := 1
  body := .dynamic { id := 0, kind := .binary, op := .binary .divide, arity := 2 }
    [.constant (.int 1), .var ⟨"q", 0, 0, "p"⟩]

/-- The loop over the elements 1, 0 and 2 for which the quotient is true fails, but to join them does
not. -/
theorem join_passes_over_failure :
    let _ : Application := standalone
    let s : Store :=
      { loopStore with units := #[[quotient]], closures := #[⟨0, quotient.id, none⟩],
                       contexts := #[{}] }
    let call := callValue 9
    let source : Job Value := newFiltered 0 (.list 0) (.function 0 ⟨quotient.name, ["q"]⟩)
    let loop := (countingWatch.act.forEach call 9 [⟨[], 0, 0, []⟩] countingWatch.enum
      (source.within call) (pure ()) (pure ())).run s
    let joined := (source >>= fun v => UniverseFn.run 9 .join [v]).run call s
    (match loop with
      | .ok .. => none
      | .error e _ => some e.message) = some (Bytes.ofString "integer division by zero") ∧
      (match joined with
        | .ok v _ => some v.bytes
        | .error .. => none) = some (Bytes.ofString "1") := by
  decide +kernel

section

variable [Host] {W : Watch} {call : Callback} {base : Option Value} {δ : Int} {s t : Store}
  {fuel : Nat} {v : Value} {vars : List Variable} {body between : Exec Unit}

/-- A loop that is not left by `break`, `return` or an error reaches every element that passes once,
in order, and before each but the first it runs once what stands between two elements. The body is
run for the first one, and for each other one unless a `continue` has ended what stands before it, so
no element is lost if and only if there is no such `continue`. -/
theorem forEach_rounds {source : Exec Value} {y : Value} (hsrc : W.Source call δ base)
    (hvars : ∀ v ∈ vars, v.key ≠ W.enum.key) (hbody : W.Quiet body.run)
    (hbetween : W.Quiet between.run)
    (hsource : (do W.act.clear (vars ++ [W.enum]); source : Exec Value).run s = .ok (.ok v) t)
    (hstays : W.stays t) (hover : W.Over call t base v) (hslot : W.act.read W.enum t = .ok y t) :
    ∃ i c u, ((newEnumerator v).run call >>= W.act.write W.enum) t = .ok () u ∧
      ∃ trials xs w last, (W.parts call fuel vars body between i c).Course (.advance true) u
          trials xs w last ∧
        (W.act.forEach call fuel vars W.enum source body between).run s = w.result last ∧
        (w = .ended → ∃ steps,
          (W.parts call fuel vars body between i c).Rounds true u trials steps last ∧
          xs = bodies steps ∧ steps.map (·.1) = passing trials ∧
          (∀ step ∈ steps.head?, step.2 = true) ∧
          (xs = passing trials ↔ ∀ step ∈ steps, step.2 = true)) := by
  obtain ⟨i, c, u, hstart, -, trials, xs, w, last, hcourse, hrun, -⟩ :=
    W.runs_forEach hsrc hvars hbody hbetween hsource hstays hover hslot
  have htests := W.parts_tests call fuel vars body between i c
  refine ⟨i, c, u, hstart, trials, xs, w, last, hcourse, hrun, fun hw => ?_⟩
  obtain ⟨steps, hrounds, rfl⟩ := hcourse.rounds hw
  exact ⟨steps, hrounds, rfl, hrounds.reached htests, hrounds.head, hrounds.bodies_eq_iff htests⟩

end

/-- A loop over three elements whose block between two of them is ended by a `continue`. -/
theorem forEach_rounds_continue :
    let _ : Host := standalone.toHost
    let W := countingWatch
    let call : Callback := fun _ _ _ => pure .null
    let vars : List Variable := [⟨[], 0, 0, []⟩]
    let source : Exec Value := pure (.list 0)
    let between : Exec Unit := throw .again
    W.Source call 0 none ∧ (∀ v ∈ vars, v.key ≠ W.enum.key) ∧ W.Quiet (pure () : Exec Unit).run ∧
      W.Quiet between.run ∧
      (do W.act.clear (vars ++ [W.enum]); source : Exec Value).run loopStore =
        .ok (.ok (.list 0)) loopStore ∧
      W.Over call loopStore.toHeap none (.list 0) ∧
      W.act.read W.enum loopStore = .ok .null loopStore ∧
      ∃ (i c : Nat) (u : Store) (trials : List Trial) (xs : List Value) (w : LoopEnd) (last : Store),
        (W.parts call 9 vars (pure ()) between i c).Course (.advance true) u trials xs w last ∧
        (W.act.forEach call 9 vars W.enum source (pure ()) between).run loopStore =
          w.result last ∧
        (w = .ended → ∃ steps,
          (W.parts call 9 vars (pure ()) between i c).Rounds true u trials steps last ∧
          xs = bodies steps ∧ steps.map (·.1) = passing trials ∧
          (xs = passing trials ↔ ∀ step ∈ steps, step.2 = true)) := by
  intro _ W call vars source between
  have hvars : ∀ v ∈ vars, v.key ≠ W.enum.key := by decide
  have hbody : W.Quiet (pure () : Exec Unit).run := quiet_pure _
  have hbetween : W.Quiet between.run := fun s _ => .refl 0 s
  have hsource : (do W.act.clear (vars ++ [W.enum]); source : Exec Value).run loopStore =
      .ok (.ok (.list 0)) loopStore := rfl
  have hover : W.Over call loopStore.toHeap (Value.list 0).base (.list 0) := .plain rfl
  have hslot : W.act.read W.enum loopStore = .ok .null loopStore := rfl
  have hsrc : W.Source call 0 none := rfl
  refine ⟨hsrc, hvars, hbody, hbetween, hsource, hover, hslot, ?_⟩
  obtain ⟨i, c, u, -, trials, xs, w, last, hcourse, hrun, hends⟩ :=
    @forEach_rounds _ W call none 0 loopStore loopStore 9 (.list 0) vars (pure ()) between source
      .null hsrc hvars hbody hbetween hsource trivial hover hslot
  refine ⟨i, c, u, trials, xs, w, last, hcourse, hrun, fun hw => ?_⟩
  obtain ⟨steps, hrounds, hbodies, hreached, -, hiff⟩ := hends hw
  exact ⟨steps, hrounds, hbodies, hreached, hiff⟩

end Stencil
