import Stencil.Proofs.Machine.Way

/-!
# Active calls

Whatever the machine is asked for, the tasks that it gets to stand under active calls, one within
the other. Each context leads to the frames of its active calls, the innermost one first, as each
call comes after all those that are around it, and one that ends leads back to its caller.

A panic ends a call without that, and the end of the fuel too. Where the host recovers from a panic,
the frames of the calls that it has ended stay in between. But a context counts them as well: so
where it is just as deep as it has active calls, it leads to no other frames than theirs.
-/

namespace Stencil

variable {s t u v : Store}

/-! ### Frames -/

/-- The frames of one array are still those of another: they have kept their names and callers. -/
def FramesLast (xs ys : Array Frame) : Prop := ∀ (i : Nat) (f : Frame), xs[i]? = some f →
  ∃ g, ys[i]? = some g ∧ g.name = f.name ∧ g.caller = f.caller

namespace FramesLast

variable {xs ys zs : Array Frame}

theorem of_eq (h : ys = xs) : FramesLast xs ys := fun _ f hf => ⟨f, h ▸ hf, rfl, rfl⟩

theorem trans (h : FramesLast xs ys) (h' : FramesLast ys zs) : FramesLast xs zs := by
  intro i f hf
  obtain ⟨g, hg, hname, hcaller⟩ := h i f hf
  obtain ⟨k, hk, hname', hcaller'⟩ := h' i g hg
  exact ⟨k, hk, hname'.trans hname, hcaller'.trans hcaller⟩

theorem push (xs : Array Frame) (f : Frame) : FramesLast xs (xs.push f) := by
  intro i g hg
  have hi := (Array.getElem?_eq_some_iff.1 hg).1
  exact ⟨g, by rw [Array.getElem?_push, if_neg (Nat.ne_of_lt hi), hg], rfl, rfl⟩

theorem size (h : FramesLast xs ys) : xs.size ≤ ys.size := by
  by_contra hlt
  obtain ⟨g, hg, -⟩ := h ys.size xs[ys.size] (by simp)
  simp at hg

end FramesLast

/-- The frames that are passed from one frame outwards, through the callers, until another. Each has
a smaller number than the one before, and than a bound. -/
inductive Outward (frames : Array Frame) : Nat → Option Nat → List Nat → Option Nat → Prop where
  | nil {bound : Nat} {i : Option Nat} : Outward frames bound i [] i
  | cons {bound i : Nat} {f : Frame} {is : List Nat} {j : Option Nat} (hlt : i < bound)
    (hf : frames[i]? = some f) (h : Outward frames i f.caller is j) :
    Outward frames bound (some i) (i :: is) j

namespace Outward

variable {frames frames' : Array Frame} {bound bound' : Nat} {i j k : Option Nat} {is js : List Nat}

theorem mono (h : Outward frames bound i is j) (hb : bound ≤ bound')
    (hf : FramesLast frames frames') : Outward frames' bound' i is j := by
  induction h generalizing bound' with
  | nil => exact .nil
  | cons hlt hget _ ih =>
    obtain ⟨g, hg, -, hcaller⟩ := hf _ _ hget
    exact .cons (Nat.lt_of_lt_of_le hlt hb) hg (hcaller ▸ ih le_rfl)

/-- First the newer frames, and then those that were there before. -/
theorem append (h : Outward frames bound i is j) (hb : bound' ≤ bound) (his : ∀ n ∈ is, bound' ≤ n)
    (h' : Outward frames bound' j js k) : Outward frames bound i (is ++ js) k := by
  induction h with
  | nil => exact h'.mono hb (.of_eq rfl)
  | cons hlt hget _ ih =>
    obtain ⟨hi, his⟩ := List.forall_mem_cons.1 his
    exact .cons hlt hget (ih hi his h')

theorem lt (h : Outward frames bound i is j) : ∀ n ∈ is, n < bound := by
  induction h with
  | nil => exact List.forall_mem_nil _
  | cons hlt _ _ ih => exact List.forall_mem_cons.2 ⟨hlt, fun n hn => Nat.lt_trans (ih n hn) hlt⟩

theorem pairwise (h : Outward frames bound i is j) : is.Pairwise (· > ·) := by
  induction h with
  | nil => exact .nil
  | cons _ _ h ih => exact List.pairwise_cons.2 ⟨h.lt, ih⟩

end Outward

/-- What a frame looks like from outside, in a store. -/
def Store.callFrame (s : Store) (id : Nat) : CallFrame :=
  ⟨(s.frames.getD id default).name, s.places.getD id .unknown⟩

theorem framesFrom_append (frames : Array Frame) (places : Array Position) (n : Nat) (i : Option Nat)
    (acc : List CallFrame) : Action.framesFrom frames places n i acc =
      Action.framesFrom frames places n i [] ++ acc := by
  induction n generalizing i acc with
  | zero => rfl
  | succ n ih =>
    cases i with
    | none => rfl
    | some i =>
      rw [Action.framesFrom, ih, Action.framesFrom, ih _ [_], List.append_assoc]
      rfl

/-- The frames that are passed are among those that are told, after others that are older. -/
theorem Outward.framesFrom_eq {bound n : Nat} {i j : Option Nat} {is : List Nat}
    (h : Outward s.frames bound i is j) (hn : bound ≤ n) :
    ∃ m, Action.framesFrom s.frames s.places n i [] =
      Action.framesFrom s.frames s.places m j [] ++ (is.map s.callFrame).reverse := by
  induction h generalizing n with
  | nil => exact ⟨n, (List.append_nil _).symm⟩
  | @cons bound i f is j hlt hf h ih =>
    obtain ⟨k, rfl⟩ : ∃ k, n = k + 1 := ⟨n - 1, by omega⟩
    have hget : s.frames.getD i default = f := by simp [Array.getD_eq_getD_getElem?, hf]
    obtain ⟨m, hm⟩ := ih (n := k) (by omega)
    refine ⟨m, ?_⟩
    rw [Action.framesFrom, hget, framesFrom_append, hm, List.map_cons, List.reverse_cons,
      List.append_assoc, Store.callFrame, hget]

/-! ### What lasts -/

/-- What is kept from a store to a later one in the same call, also by what does not come back. Each
context leads, by frames that are newer and that it counts, to the frame that it was in. -/
structure Lasts (s t : Store) : Prop where
  units : t.units = s.units
  contexts : s.contexts.size ≤ t.contexts.size
  frames : FramesLast s.frames t.frames
  places : s.frames.size ≤ s.places.size → t.frames.size ≤ t.places.size
  reach : ∀ id, ∃ is, Outward t.frames t.frames.size (t.context id).frame is (s.context id).frame ∧
    (∀ n ∈ is, s.frames.size ≤ n) ∧ (s.context id).depth + is.length ≤ (t.context id).depth

namespace Lasts

/-- Contexts are in the frames that they were in. -/
theorem of_frame (hu : t.units = s.units) (hc : s.contexts.size ≤ t.contexts.size)
    (hf : FramesLast s.frames t.frames)
    (hp : s.frames.size ≤ s.places.size → t.frames.size ≤ t.places.size)
    (hframe : ∀ id, (t.context id).frame = (s.context id).frame)
    (hdepth : ∀ id, (s.context id).depth ≤ (t.context id).depth) : Lasts s t where
  units := hu
  contexts := hc
  frames := hf
  places := hp
  reach id := by
    rw [hframe]
    exact ⟨[], .nil, List.forall_mem_nil _, hdepth id⟩

theorem of_eq (hu : t.units = s.units) (hf : t.frames = s.frames) (hp : t.places = s.places)
    (hc : t.contexts = s.contexts) : Lasts s t := by
  refine .of_frame hu (by rw [hc]) (.of_eq hf) (by rw [hf, hp]; exact id) (fun id => ?_) fun id => ?_
  · rw [Store.context, Store.context, hc]
  · rw [Store.context, Store.context, hc]

theorem refl (s : Store) : Lasts s s := .of_eq rfl rfl rfl rfl

theorem trans (h : Lasts s t) (h' : Lasts t u) : Lasts s u where
  units := h'.units.trans h.units
  contexts := Nat.le_trans h.contexts h'.contexts
  frames := h.frames.trans h'.frames
  places hs := h'.places (h.places hs)
  reach id := by
    obtain ⟨is, his, hnew, hdepth⟩ := h.reach id
    obtain ⟨js, hjs, hnew', hdepth'⟩ := h'.reach id
    have hsize := h'.frames.size
    refine ⟨js ++ is, hjs.append hsize hnew' (his.mono le_rfl h'.frames), ?_, ?_⟩
    · exact List.forall_mem_append.2 ⟨fun n hn => Nat.le_trans h.frames.size (hnew' n hn), hnew⟩
    · rw [List.length_append]
      omega

theorem of_inside {M : Manners} (h : Inside M s t) : Lasts s t :=
  .of_frame h.units h.size (.of_eq h.frames) (by rw [h.frames, h.places]; exact id) h.frame
    fun id => Nat.le_of_eq (h.depth id).symm

/-- Something is assigned to a variable, or this has no place. -/
theorem of_write (act : Activation) (v : Variable) (x : Value) (s : Store) :
    Lasts s (lastStore (act.write v x s)) := by
  rw [Activation.write, bind_apply]
  rcases home_cases act v s with ⟨id, h, -⟩ | ⟨msg, f, h⟩ <;> rw [h]
  · refine .of_frame rfl le_rfl (fun i f hf => ?_) (fun hs => ?_) (fun _ => rfl) fun _ => le_rfl
    · show ∃ g, (s.frames.modify id _)[i]? = some g ∧ _
      rw [Array.getElem?_modify, hf]
      by_cases hi : id = i
      · exact ⟨_, if_pos hi, rfl, rfl⟩
      · exact ⟨f, if_neg hi, rfl, rfl⟩
    · show (s.frames.modify id _).size ≤ s.places.size
      rwa [Array.size_modify]
  · exact .of_eq rfl rfl rfl rfl

variable {ctx : Nat} {f : Closure} {name : Bytes} {vars : Array Value}

/-- A function is entered: its frame is the newest one. -/
theorem of_entered (s : Store) (ctx : Nat) (f : Closure) (name : Bytes) (vars : Array Value) :
    Lasts s (s.entered ctx f name vars) where
  units := rfl
  contexts := by simp [Store.entered]
  frames := .push _ _
  places hs := by simpa [Store.entered] using hs
  reach id := by
    rcases context_entered s ctx f name vars id with h | ⟨rfl, h⟩ <;> rw [h]
    · exact ⟨[], .nil, List.forall_mem_nil _, le_rfl⟩
    · have hlt : s.frames.size < (s.entered id f name vars).frames.size := by simp [Store.entered]
      have hlast : (s.entered id f name vars).frames[s.frames.size]? = some _ :=
        Array.getElem?_push_size
      exact ⟨[s.frames.size], .cons hlt hlast .nil, List.forall_mem_singleton.2 le_rfl, le_rfl⟩

/-- A function was entered and left. -/
theorem leave (h : Lasts (s.entered ctx f name vars) t) :
    Lasts s (t.left ctx (s.context ctx).frame) := by
  have remained := (of_entered s ctx f name vars).trans h
  refine ⟨remained.units, ?_, remained.frames, remained.places, fun id => ?_⟩
  · simpa [Store.left] using remained.contexts
  rcases context_left t ctx (s.context ctx).frame id with hl | ⟨rfl, hl⟩ <;> rw [hl]
  · exact remained.reach id
  refine ⟨[], .nil, List.forall_mem_nil _, ?_⟩
  show (s.context id).depth ≤ (t.context id).depth - 1
  by_cases hin : id < s.contexts.size
  · obtain ⟨is, -, -, hdepth⟩ := h.reach id
    have he : (s.entered id f name vars).context id = _ := context_modify_self hin _
    rw [he] at hdepth
    dsimp only at hdepth
    omega
  · -- A context that was not there when the function was entered had no calls.
    rw [context_of_size_le (Nat.le_of_not_lt hin)]
    exact Nat.zero_le _

end Lasts

/-! ### Active calls -/

/-- A call of a lambda that is active, with the store in which its body began. -/
structure ActiveCall where
  lambda : Lambda
  act : Activation
  opened : Store

/-- What an active call looks like from outside, in a store. -/
def ActiveCall.seen (s : Store) (a : ActiveCall) : CallFrame :=
  ⟨a.lambda.name, s.places.getD a.act.frame .unknown⟩

/-- The active calls in a context, of several. -/
def callsIn (ctx : Nat) (l : List ActiveCall) : List ActiveCall := l.filter (·.act.ctx = ctx)

/-- What is known in a store that comes after another, under active calls that have begun since then.
Their frames are among those that their contexts lead to, if these were there. -/
structure Underway (s : Store) (l : List ActiveCall) (u : Store) : Prop extends Lasts s u where
  names : ∀ a ∈ l, ∃ f, u.frames[a.act.frame]? = some f ∧ f.name = a.lambda.name
  opened : ∀ a ∈ l, s.contexts.size ≤ a.opened.contexts.size
  calls : ∀ ctx, (∀ a ∈ callsIn ctx l, ctx < a.opened.contexts.size) →
    ∃ is, Outward u.frames u.frames.size (u.context ctx).frame is (s.context ctx).frame ∧
      (∀ n ∈ is, s.frames.size ≤ n) ∧ (s.context ctx).depth + is.length ≤ (u.context ctx).depth ∧
        ((callsIn ctx l).map (·.act.frame)).Sublist is

namespace Underway

variable {l : List ActiveCall}

/-- Something is done before the first call. -/
theorem start (h : Lasts s t) : Underway s [] t where
  toLasts := h
  names := List.forall_mem_nil _
  opened := List.forall_mem_nil _
  calls ctx _ := by
    obtain ⟨is, his, hnew, hdepth⟩ := h.reach ctx
    exact ⟨is, his, hnew, hdepth, List.nil_sublist _⟩

/-- Something is done under the same calls. -/
theorem lasts (h : Underway s l u) (hl : Lasts u v) : Underway s l v where
  toLasts := h.toLasts.trans hl
  names a ha := by
    obtain ⟨f, hf, hname⟩ := h.names a ha
    obtain ⟨g, hg, hname', -⟩ := hl.frames _ _ hf
    exact ⟨g, hg, hname'.trans hname⟩
  opened := h.opened
  calls ctx hin := by
    obtain ⟨is, his, hnew, hdepth, hsub⟩ := h.calls ctx hin
    obtain ⟨js, hjs, hnew', hdepth'⟩ := hl.reach ctx
    refine ⟨js ++ is, hjs.append hl.frames.size hnew' (his.mono le_rfl hl.frames), ?_, ?_, ?_⟩
    · exact List.forall_mem_append.2 ⟨fun n hn => Nat.le_trans h.frames.size (hnew' n hn), hnew⟩
    · rw [List.length_append]
      omega
    · exact hsub.trans (List.sublist_append_right js is)

/-- One more function is entered. -/
theorem enter (h : Underway s l u) (ctx : Nat) (f : Closure) (g : Lambda) (vars : Array Value) :
    Underway s (⟨g, ⟨ctx, f.unit, u.frames.size⟩, u.entered ctx f g.name vars⟩ :: l)
      (u.entered ctx f g.name vars) := by
  have hentered := Lasts.of_entered u ctx f g.name vars
  have hlast : (u.entered ctx f g.name vars).frames[u.frames.size]? = some _ :=
    Array.getElem?_push_size
  have later := h.lasts hentered
  refine ⟨later.toLasts, List.forall_mem_cons.2 ⟨⟨_, hlast, rfl⟩, later.names⟩,
    List.forall_mem_cons.2 ⟨later.contexts, h.opened⟩, fun id hin => ?_⟩
  by_cases hid : ctx = id
  · subst hid
    rw [callsIn, List.filter_cons_of_pos (by simp)] at hin ⊢
    obtain ⟨hlt, hin⟩ := List.forall_mem_cons.1 hin
    obtain ⟨is, his, hnew, hdepth, hsub⟩ := h.calls ctx hin
    have context : (u.entered ctx f g.name vars).context ctx = { u.context ctx with
        frame := some u.frames.size, depth := (u.context ctx).depth + 1 } :=
      context_modify_self (by simpa [Store.entered] using hlt) _
    have hsize : u.frames.size < (u.entered ctx f g.name vars).frames.size := by
      simp [Store.entered]
    rw [context]
    refine ⟨u.frames.size :: is, .cons hsize hlast (his.mono le_rfl hentered.frames), ?_, ?_, ?_⟩
    · exact List.forall_mem_cons.2 ⟨h.frames.size, hnew⟩
    · rw [List.length_cons]
      dsimp only
      omega
    · exact hsub.cons_cons _
  · rw [callsIn, List.filter_cons_of_neg (by simpa using hid)] at hin ⊢
    exact later.calls id hin

/-- The active calls are told, each of them, after the frames that the context led to before. -/
theorem stack (h : Underway s l u) {ctx : Nat}
    (hin : ∀ a ∈ callsIn ctx l, ctx < a.opened.contexts.size) :
    ∃ is n, ((callsIn ctx l).map (·.act.frame)).Sublist is ∧
      (∀ n ∈ is, s.frames.size ≤ n) ∧ is.Pairwise (· > ·) ∧
      (s.context ctx).depth + is.length ≤ (u.context ctx).depth ∧
      Action.framesFrom u.frames u.places u.frames.size (u.context ctx).frame [] =
        Action.framesFrom u.frames u.places n (s.context ctx).frame [] ++
          (is.map u.callFrame).reverse := by
  obtain ⟨is, his, hnew, hdepth, hsub⟩ := h.calls ctx hin
  obtain ⟨n, hn⟩ := his.framesFrom_eq le_rfl
  exact ⟨is, n, hsub, hnew, his.pairwise, hdepth, hn⟩

end Underway

/-! ### Errands -/

/-- Something that the host asks the machine for. -/
inductive Errand where
  | run (p : Program) (fuel ctx : Nat)
  | call (fuel ctx : Nat) (fn : Value) (args : List Value)

section

variable [Application]

/-- The store that an errand leaves. -/
def Errand.last (s : Store) : Errand → Store
  | .run p fuel ctx => lastStore (p.run fuel ctx s)
  | .call fuel ctx fn args => lastStore (callValue fuel ctx fn args s)

/-- What an errand begins with, and under which active calls. -/
inductive Errand.Starts (s : Store) : Errand → List ActiveCall → Task → Store → Prop where
  | run {p : Program} {fuel ctx n : Nat} {act : Activation} {u : Store}
    (h : (p.script fuel ctx).Begins s (.code n act p.lambda.body) u) :
    Starts s (.run p fuel ctx) [⟨p.lambda, act, u⟩] (.code n act p.lambda.body) u
  | call (fuel ctx : Nat) (fn : Value) (args : List Value) :
    Starts s (.call fuel ctx fn args) [] (.call fuel ctx fn args) s

/-- An errand from a store gets to a task at another, under active calls, of which the innermost
one comes first. -/
inductive Errand.Gets (d : Errand) (s : Store) : List ActiveCall → Task → Store → Prop where
  | start {l : List ActiveCall} {t : Task} {u : Store} (h : d.Starts s l t u) : Gets d s l t u
  | part {l : List ActiveCall} {n : Nat} {act : Activation} {c c' : Code} {u v : Store}
    (h : Gets d s l (.code n act c) u)
    (hb : (Task.code n act c).script.Begins u (.code n act c') v) : Gets d s l (.code n act c') v
  | call {l : List ActiveCall} {t : Task} {n ctx : Nat} {fn : Value} {args : List Value}
    {u v : Store} (h : Gets d s l t u) (hb : t.script.Begins u (.call n ctx fn args) v) :
    Gets d s l (.call n ctx fn args) v
  | enter {l : List ActiveCall} {n ctx id : Nat} {heading : Heading} {args : List Value}
    {f : Closure} {g : Lambda} {act : Activation} {u v : Store}
    (h : Gets d s l (.call (n + 1) ctx (.function id heading) args) u)
    (hf : u.closures[id]? = some f) (hg : u.lambda? f.unit f.lambda = some g)
    (hb : (Task.call (n + 1) ctx (.function id heading) args).script.Begins u
      (.code n act g.body) v) :
    Gets d s (⟨g, act, v⟩ :: l) (.code n act g.body) v

variable {d : Errand} {l : List ActiveCall}

/-- Whatever is begun is got to. -/
theorem Errand.Gets.next {t t' : Task} (h : d.Gets s l t u) (hb : t.script.Begins u t' v) :
    ∃ l', d.Gets s l' t' v := by
  cases Task.leads hb with
  | part => exact ⟨l, h.part hb⟩
  | call => exact ⟨l, h.call hb⟩
  | callback => exact ⟨l, h.call hb⟩
  | enter hf hg => exact ⟨_, h.enter hf hg hb⟩

/-- A run begins with the body of its module, after the prelude. -/
theorem Program.begins {p : Program} {fuel ctx : Nat} {t : Task}
    (h : (p.script fuel ctx).Begins s t u) : ∃ s₁, p.prelude ctx s = .ok () s₁ ∧
      t = p.body fuel ctx s₁ ∧ u = p.opened ctx s₁ := by
  have run := Way.meets_run (W := .any) p fuel ctx s trivial fun _ _ _ =>
    ⟨trivial, fun _ _ => trivial, .inr fun _ _ => trivial⟩
  obtain ⟨s₁, hprelude, -, rfl, rfl⟩ :=
    (run.sound fun t u _ _ => ⟨⟨trivial, fun _ _ => trivial⟩, rfl, rfl, False.elim⟩).2 t u h
  exact ⟨s₁, hprelude, rfl, rfl⟩

/-- What goes on with a script begins what the script does. -/
theorem Script.Begins.inspect {α β : Type} {m : Script α} {k : Except Failure α → Script β}
    {t : Task} (h : m.Begins s t u) : (m.inspect k).Begins s t u := by
  induction h with
  | read _ ih => exact .read ih
  | update _ ih => exact .update ih
  | here => exact .here
  | later _ ih => exact .later ih

/-- What is begun after steps of the machine. -/
theorem Script.Begins.act_bind {α β : Type} {m : Action α} {f : α → Script β} {a : α} {t : Task}
    (hm : m s = .ok a v) (h : (f a).Begins v t u) : ((liftM m : Script α) >>= f).Begins s t u := by
  show (Script.inspect (Script.act m) _).Begins s t u
  rw [Script.act, Script.inspect]
  refine .read ?_
  rw [hm]
  exact .update h

/-- Code is evaluated for the innermost active call, of whose body it is a part. -/
theorem Errand.Gets.own {n : Nat} {act : Activation} {c : Code} (h : d.Gets s l (.code n act c) u) :
    ∃ a l', l = a :: l' ∧ a.act = act ∧
      Relation.ReflTransGen (fun c e => e ∈ c.parts) a.lambda.body c := by
  generalize ht : Task.code n act c = t at h
  induction h generalizing c with
  | start h =>
    cases h with
    | run =>
      cases ht
      exact ⟨_, [], rfl, rfl, .refl⟩
    | call => cases ht
  | part h hb ih =>
    cases ht
    obtain ⟨a, l', rfl, ha, hc⟩ := ih rfl
    cases Task.leads hb with
    | part hd => exact ⟨a, l', rfl, ha, hc.tail hd⟩
  | call => cases ht
  | enter =>
    cases ht
    exact ⟨_, _, rfl, rfl, .refl⟩

/-- In a run the module is the outermost active call, in the context of the run. -/
theorem Errand.Gets.root {p : Program} {fuel ctx : Nat} {t : Task}
    (h : (Errand.run p fuel ctx).Gets s l t u) : ∃ l' a, l = l' ++ [a] ∧ a.lambda = p.lambda ∧
      a.act.ctx = ctx ∧ a.act.frame = s.frames.size := by
  induction h with
  | start h =>
    cases h with
    | run hb =>
      obtain ⟨s₁, hprelude, heq, -⟩ := Program.begins hb
      have hinside : Inside .none s (lastStore (p.prelude ctx s)) := (mild_prelude p ctx).inside s
      rw [hprelude] at hinside
      injection heq with _ hact _
      rw [hact]
      exact ⟨[], _, rfl, rfl, rfl, congrArg Array.size hinside.frames⟩
  | part _ _ ih | call _ _ ih => exact ih
  | enter _ _ _ _ ih =>
    obtain ⟨l', a, rfl, ha⟩ := ih
    exact ⟨_ :: l', a, rfl, ha⟩

/-! ### The way of the active calls -/

/-- A way on which calls lead back to where they came from. -/
def Way.stacking : Way where
  manners := .none
  Pre _ := True
  Rel := Lasts
  Site _ _ _ := True
  trans := .trans
  keep _ _ := trivial
  heap _ := trivial
  inside _ h := .of_inside h
  begins _ _ _ := .of_eq rfl rfl rfl rfl
  kept _ _ := trivial
  calm := False

namespace Way

theorem turn_stacking (s : Store) (ctx : Nat) (f : Closure) (name : Bytes) (vars : Array Value) :
    stacking.Turn s ctx f name vars :=
  ⟨trivial, fun _ h => h.leave, .inr fun _ h => (Lasts.of_entered ..).trans h⟩

theorem carries_stacking : stacking.Carries fun _ _ => True where
  pre _ := trivial
  admits {t s} _ := by
    cases t with
    | call => exact .call
    | code fuel act c =>
      exact .code ⟨fun _ _ _ _ => trivial, fun v _ u x hu => hu.trans (.of_write act v x u),
        fun _ _ _ _ _ _ => .of_eq rfl rfl rfl rfl, fun _ _ _ _ _ _ _ _ => trivial⟩
  begins _ _ _ := trivial
  calm h := h.elim

theorem sound_stacking (t : Task) (s : Store) :
    stacking.Ends t s (ending (t.perform s)) (lastStore (t.perform s)) ∧
      ∀ t' u, t.script.Begins s t' u → stacking.Leads t s t' u :=
  carries_stacking.sound (fun _ _ => turn_stacking ..) mannersOfAll_none trivial

end Way

/-- What a task leaves. -/
theorem Task.lasts (t : Task) (s : Store) : Lasts s (lastStore (t.perform s)) :=
  (Way.sound_stacking t s).1.rel

/-- What an errand leaves. -/
theorem Errand.lasts (d : Errand) (s : Store) : Lasts s (d.last s) := by
  cases d with
  | run p fuel ctx =>
    have run := Way.meets_run (W := .stacking) p fuel ctx s trivial fun _ _ _ => Way.turn_stacking ..
    have hrel := (run.sound fun t u _ _ => (Way.sound_stacking t u).1).1
    rwa [p.run_script] at hrel
  | call fuel ctx fn args => exact Task.lasts (.call fuel ctx fn args) s

/-- The body of a function begins where the function has been entered. -/
theorem Task.enters {n m ctx id : Nat} {heading : Heading} {args : List Value} {f : Closure}
    {g : Lambda} {act : Activation} {c : Code} (hf : s.closures[id]? = some f)
    (hg : s.lambda? f.unit f.lambda = some g)
    (hb : (Task.call n ctx (.function id heading) args).script.Begins s (.code m act c) u) :
    act = ⟨ctx, f.unit, s.frames.size⟩ ∧ u = s.entered ctx f g.name (g.variables args) := by
  cases Task.leads hb with
  | enter hf' hg' =>
    cases hf.symm.trans hf'
    cases hg.symm.trans hg'
    exact ⟨rfl, rfl⟩

/-- Wherever an errand gets to, its active calls are under way. -/
theorem Errand.Gets.underway {t : Task} (h : d.Gets s l t u) : Underway s l u := by
  induction h with
  | start h =>
    cases h with
    | @run p fuel ctx _ _ _ hb =>
      obtain ⟨s₁, hprelude, heq, rfl⟩ := Program.begins hb
      have hinside : Inside .none s (lastStore (p.prelude ctx s)) := (mild_prelude p ctx).inside s
      rw [hprelude] at hinside
      injection heq with _ hact _
      rw [hact]
      exact (Underway.start (.of_inside hinside)).enter ctx p.entry p.lambda _
    | call => exact .start (.refl s)
  | @part _ n act c _ u _ _ hb ih =>
    cases (Way.sound_stacking (.code n act c) u).2 _ _ hb with
    | part _ hl => exact ih.lasts hl
  | @call _ t _ _ _ _ u _ _ hb ih =>
    cases (Way.sound_stacking t u).2 _ _ hb with
    | call hl | callback hl => exact ih.lasts hl
  | enter h hf hg hb ih =>
    obtain ⟨rfl, rfl⟩ := Task.enters hf hg hb
    exact ih.enter _ _ _ _

end

end Stencil
