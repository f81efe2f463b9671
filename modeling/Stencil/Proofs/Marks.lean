import Mathlib.Data.List.Nodup
import Stencil.Code.Numbering
import Stencil.Proofs.Nodes

/-!
# The numbers in code

What is numbered after a construct was not numbered before it. The slots of a lambda are
counted anew inside it, and the count around it goes on where it was.
-/

namespace Stencil

/-- Nothing was numbered in `n` that is not in `m`. -/
structure Numbering.Le (n m : Numbering) : Prop where
  lambdas : n.lambdas ≤ m.lambdas
  targets : n.targets ≤ m.targets
  sites : n.sites ≤ m.sites
  slots : n.slots ≤ m.slots

namespace Numbering

variable {n m k : Numbering}

theorem Le.refl (n : Numbering) : n.Le n := ⟨Nat.le_refl _, Nat.le_refl _, Nat.le_refl _, Nat.le_refl _⟩

theorem Le.trans (h : n.Le m) (h' : m.Le k) : n.Le k :=
  ⟨Nat.le_trans h.lambdas h'.lambdas, Nat.le_trans h.targets h'.targets,
    Nat.le_trans h.sites h'.sites, Nat.le_trans h.slots h'.slots⟩

theorem Le.nextSite (h : n.Le m) : n.Le m.nextSite := ⟨h.lambdas, h.targets, h.sites.step, h.slots⟩

theorem Le.declare (h : n.Le m) (k : Nat) : n.Le (m.declare k) :=
  ⟨h.lambdas, h.targets, h.sites, Nat.le_trans h.slots (Nat.le_add_right _ _)⟩

theorem Le.nextTarget (h : n.Le m) : n.Le m.nextTarget :=
  ⟨h.lambdas, h.targets.step, h.sites, h.slots⟩

theorem Le.nextLoop (h : n.Le m) : n.Le m.nextLoop :=
  ⟨h.lambdas, Nat.le_trans h.targets (Nat.le_add_right _ _), h.sites, h.slots⟩

/-- What is numbered inside a lambda, except its slots. -/
theorem Le.leave {params : Nat} (h : (n.enter params).Le m) : n.Le (m.leave n.slots) :=
  ⟨Nat.le_of_succ_le h.lambdas, h.targets, h.sites, Nat.le_refl _⟩

end Numbering

open Stencil.Numbering in
mutual

theorem Expr.le_after (n : Numbering) : (x : Expr) → n.Le (x.after n)
  | .literal .. | .null _ => .refl n
  | .name .. => (Le.refl n).nextSite
  | .unary _ _ x | .member x _ _ _ => (x.le_after n).nextSite
  | .binary x _ _ y => ((x.le_after n).trans (y.le_after _)).nextSite
  | .assign target _ y => by
    refine Le.nextSite (Le.trans ?_ (y.le_after _))
    split
    · exact .refl n
    · exact target.le_after n
  | .index x _ args _ | .method x _ _ _ _ args _ | .new _ x _ args _ =>
    ((x.le_after n).trans (exprs_le_after _ args)).nextSite
  | .call _ _ _ args _ => (exprs_le_after n args).nextSite.nextSite
  | .list _ items _ => exprs_le_after n items
  | .template b => (b.le_after n).declare 1

theorem exprs_le_after (n : Numbering) : (xs : List Expr) → n.Le (exprsAfter xs n)
  | [] => .refl n
  | x :: xs => (x.le_after n).trans (exprs_le_after _ xs)

theorem Block.le_after (n : Numbering) : (b : Block) → n.Le (b.after n)
  | .mk _ stmts _ _ => ((Le.refl n).declare _).trans (stmts_le_after _ stmts)

theorem Block.le_afterBody (n : Numbering) : (b : Block) → n.Le (b.afterBody n)
  | .mk _ stmts _ _ => stmts_le_after n stmts

theorem stmts_le_after (n : Numbering) : (sts : List Stmt) → n.Le (stmtsAfter sts n)
  | [] => .refl n
  | st :: sts => (st.le_after n).trans (stmts_le_after _ sts)

theorem varDefs_le_after (n : Numbering) : (vs : List VarDef) → n.Le (varDefsAfter vs n)
  | [] => .refl n
  | v :: vs => (v.le_after n).trans (varDefs_le_after _ vs)

theorem VarDef.le_after (n : Numbering) : (v : VarDef) → n.Le (v.after n)
  | .mk _ _ none => .refl n
  | .mk _ _ (some x) => (x.le_after n).nextSite

theorem cases_le_after (n : Numbering) : (cs : List SwitchCase) → n.Le (casesAfter cs n)
  | [] => .refl n
  | c :: cs => (c.le_after n).trans (cases_le_after _ cs)

theorem SwitchCase.le_after (n : Numbering) : (c : SwitchCase) → n.Le (c.after n)
  | .mk _ values body => (exprs_le_after n values).trans (body.le_after _)

theorem optBlock_le_after (n : Numbering) : (b : Option Block) → n.Le (optBlockAfter b n)
  | none => .refl n
  | some b => b.le_after n

theorem WhereClause.le_after (n : Numbering) : (w : WhereClause) → n.Le (w.after n)
  | .mk _ x => Le.leave (x.le_after (n.enter 1))

theorem optWhere_le_after (n : Numbering) : (w : Option WhereClause) → n.Le (optWhereAfter w n)
  | none => .refl n
  | some w => w.le_after n

theorem Stmt.le_after (n : Numbering) : (st : Stmt) → n.Le (st.after n)
  | .block b => b.le_after n
  | .text .. | .leave _ | .again _ | .ret _ none => .refl n
  | .define _ vars => varDefs_le_after n vars
  | .output _ xs => exprs_le_after n xs
  | .expr x | .ret _ (some x) => x.le_after n
  | .cond _ test yes no =>
    (test.le_after n).trans ((yes.le_after _).trans (optBlock_le_after _ no))
  | .loop _ test body => ((Le.refl n).nextLoop.trans (test.le_after _)).trans (body.le_after _)
  | .each _ _ _ x filter body between =>
    ((Le.refl n).declare _).nextLoop.trans ((x.le_after _).trans ((optWhere_le_after _ filter).trans
      ((body.le_afterBody _).trans (optBlock_le_after _ between))))
  | .switch _ x cases dflt _ =>
    ((x.le_after n).trans ((cases_le_after _ cases).trans (optBlock_le_after _ dflt))).nextSite

end

open Stencil.Numbering in
theorem FunctionDecl.le_after (n : Numbering) (f : FunctionDecl) : n.Le (f.after n) :=
  ((Le.refl n).nextTarget.trans (Le.leave (f.body.le_after _))).nextSite

open Stencil.Numbering in
theorem functions_le_after (n : Numbering) (fs : List FunctionDecl) : n.Le (functionsAfter fs n) := by
  induction fs generalizing n with
  | nil => exact .refl n
  | cons f fs ih => exact (f.le_after n).trans (ih _)

open Stencil.Numbering in
theorem defs_le_after (n : Numbering) (ds : List GlobalDef) : n.Le (defsAfter ds n) := by
  induction ds generalizing n with
  | nil => exact .refl n
  | cons d ds ih => exact (varDefs_le_after n d.vars).trans (ih _)

/-!
## What the numbers in code tell apart

Call sites, lambdas and slots are numbered while a module is lowered. Each construct has the
numbers that were given out while it was lowered, and no others. So no two call sites of a module
have the same number, nor have two of its lambdas, and the slots that hold the states of loops are
not those of its other variables.
-/

/-! ### Intervals -/

/-- Numbers from `lo` on and below `hi`, each at most once. -/
structure Numbered (lo hi : Nat) (ids : List Nat) : Prop where
  le : lo ≤ hi
  range : ∀ i ∈ ids, lo ≤ i ∧ i < hi
  nodup : ids.Nodup

namespace Numbered

variable {lo mid hi : Nat} {xs ys : List Nat}

theorem nil (h : lo ≤ hi) : Numbered lo hi [] := ⟨h, by simp, List.nodup_nil⟩

theorem append (hx : Numbered lo mid xs) (hy : Numbered mid hi ys) : Numbered lo hi (xs ++ ys) where
  le := Nat.le_trans hx.le hy.le
  range i hi' := by
    rcases List.mem_append.1 hi' with h | h
    · exact ⟨(hx.range i h).1, Nat.lt_of_lt_of_le (hx.range i h).2 hy.le⟩
    · exact ⟨Nat.le_trans hx.le (hy.range i h).1, (hy.range i h).2⟩
  nodup := by
    refine List.nodup_append.2 ⟨hx.nodup, hy.nodup, fun i hi' j hj => ?_⟩
    have := (hx.range i hi').2
    have := (hy.range j hj).1
    omega

/-- More numbers are given out before and after. -/
theorem widen {lo' hi' : Nat} (h : Numbered lo hi xs) (hlo : lo' ≤ lo) (hhi : hi ≤ hi') :
    Numbered lo' hi' xs where
  le := Nat.le_trans hlo (Nat.le_trans h.le hhi)
  range i hi := ⟨Nat.le_trans hlo (h.range i hi).1, Nat.lt_of_lt_of_le (h.range i hi).2 hhi⟩
  nodup := h.nodup

/-- One more number is given out in the end. -/
theorem last (h : Numbered lo hi xs) : Numbered lo (hi + 1) (hi :: xs) where
  le := h.le.step
  range i hi' := by
    rcases List.mem_cons.1 hi' with rfl | h'
    · exact ⟨h.le, Nat.lt_succ_self _⟩
    · exact (h.widen (Nat.le_refl _) (Nat.le_succ _)).range i h'
  nodup := List.nodup_cons.2 ⟨fun h' => Nat.lt_irrefl _ (h.range hi h').2, h.nodup⟩

/-- One number is given out before the others. -/
theorem first (h : Numbered (lo + 1) hi xs) : Numbered lo hi (lo :: xs) where
  le := Nat.le_of_succ_le h.le
  range i hi' := by
    rcases List.mem_cons.1 hi' with rfl | h'
    · exact ⟨Nat.le_refl _, h.le⟩
    · exact ⟨Nat.le_of_succ_le (h.range i h').1, (h.range i h').2⟩
  nodup := List.nodup_cons.2 ⟨fun h' => absurd (h.range lo h').1 (Nat.not_succ_le_self lo), h.nodup⟩

theorem sublist (h : Numbered lo hi xs) (hs : ys.Sublist xs) : Numbered lo hi ys :=
  ⟨h.le, fun i hi' => h.range i (hs.subset hi'), h.nodup.sublist hs⟩

end Numbered

/-! ### Marks -/

/-- What a slot is told apart by: the lambda it belongs to, and its number there. -/
def Variable.key (v : Variable) : Nat × Nat := (v.owner, v.index)

/-- What is numbered at a node of code. -/
inductive Mark where
  | site (id : Nat)
  | lambda (id : Nat) (params : List Variable)
  | block (vars : List Variable)
  /-- A loop over a sequence, with its variables and its state, the last of them. -/
  | loop (vars : List Variable) (state : Variable)

namespace Mark

/-- The number of a call site. -/
def site? : Mark → Option Nat
  | .site id => some id
  | _ => none

/-- The number of a lambda. -/
def lambda? : Mark → Option Nat
  | .lambda id _ => some id
  | _ => none

/-- The slots of the names that are declared. -/
def users : Mark → List (Nat × Nat)
  | .site _ => []
  | .lambda _ params => params.map (·.key)
  | .block vars => vars.map (·.key)
  | .loop vars _ => vars.dropLast.map (·.key)

/-- The slot of the state of a loop. -/
def states : Mark → List (Nat × Nat)
  | .loop _ state => [state.key]
  | _ => []

end Mark

/-- The variable that code makes the state of a loop. -/
def Code.state? : Code → Option Variable
  | .assign v (.iterate _) => some v
  | _ => none

/-- What is numbered at a node. -/
def Code.mark? : Code → Option Mark
  | .dynamic site _ => some (.site site.id)
  | .switch _ _ _ equal => some (.site equal.id)
  | .lambda id _ params _ _ => some (.lambda id params)
  | .block [] _ => none
  | .block vars items =>
    match items.head?.bind Code.state? with
    | some v => some (.loop vars v)
    | none => some (.block vars)
  | _ => none

/-- What is numbered in code. -/
abbrev Code.marks (c : Code) : List Mark := c.gather Code.mark?

/-- What is numbered in several pieces of code. -/
abbrev marksOf (cs : List Code) : List Mark := gatherAll Code.mark? cs

/-! ### The forms of code -/

section

attribute [local simp] Code.mark? Code.state?

@[simp] theorem marks_noteAt (debug : Bool) (p : Position) (c : Code) :
    (noteAt debug p c).marks = c.marks := by
  unfold noteAt
  split
  · rfl
  · split <;> rfl

theorem marks_unwrap (c : Code) : c.unwrap.marks = c.marks := by
  induction c using Code.unwrap.induct with
  | case1 p x ih => exact ih
  | case2 c hc =>
    cases c with
    | debug p x => exact absurd rfl (hc p x)
    | _ => rfl

theorem marks_outputCode (c : Code) : (outputCode c).marks = c.marks := by
  unfold outputCode contextCode
  split
  · rename_i v hu
    split
    · rw [← marks_unwrap c, hu]
      simp
    · simp
  · simp

theorem marks_sequenceCode (cs : List Code) : (sequenceCode cs).marks = marksOf cs := by
  match cs with
  | [] => rfl
  | [c] => simp [sequenceCode]
  | c :: d :: cs => simp [sequenceCode]

theorem marksOf_assigns (vs : List Variable) {c : Code} (h : c.marks = []) :
    marksOf (vs.map fun v => .assign v c) = [] := by
  induction vs with
  | nil => rfl
  | cons v vs ih => simp_all

theorem marks_forCode (t : LoopTargets) (vars : List Variable) (enum : Variable)
    (source body between : Code) :
    (forCode t vars enum source body between).marks =
      .loop (vars ++ [enum]) enum :: (source.marks ++ body.marks ++ between.marks) := by
  have resets : marksOf ((vars.drop 1).map fun v => Code.assign v (.constant .null)) = [] :=
    marksOf_assigns _ (by simp)
  have current : marksOf ((vars.take 1).map fun v => .assign v (.current (.var enum))) = [] :=
    marksOf_assigns _ (by simp)
  have mark (items : List Code) : (Code.block (vars ++ [enum])
      (.assign enum (.iterate source) :: items)).mark? = some (.loop (vars ++ [enum]) enum) := by
    cases vars <;> simp
  rw [forCode, Code.marks, Code.gather_block, mark]
  simp [resets, current, -List.map_drop, -List.map_take, -List.drop_one]

theorem marks_filterCode (c : Code) (pred : Option Code) :
    (filterCode c pred).marks = c.marks ++ marksOf pred.toList := by
  cases pred <;> simp [filterCode]

theorem marks_whileCode (t : LoopTargets) (test body : Code) :
    (whileCode t test body).marks = test.marks ++ body.marks := by
  simp [whileCode]

theorem marks_templateCode (tmp : Variable) (body : Code) :
    (templateCode tmp body).marks = .block [tmp] :: body.marks := by
  simp [templateCode, contextCode]

theorem marks_getD {o : Option Code} {c : Code} (h : c.marks = []) :
    (o.getD c).marks = marksOf o.toList := by
  cases o <;> simp_all

/-- An assignment has the marks of its parts, but its own call site instead of that of its
target. -/
theorem marks_assignCode (p : Position) (target value : Code) (site : Nat) :
    (assignCode p target value site).marks = [] ∨
      ∃ ms, ms.Sublist target.marks ∧
        (assignCode p target value site).marks = .site site :: (ms ++ value.marks) := by
  unfold assignCode
  split
  · rename_i read args hu
    have hms : (marksOf args).Sublist target.marks := by
      rw [← marks_unwrap target, hu]
      simp
    split
    · exact .inr ⟨_, hms, by simp⟩
    · exact .inr ⟨_, hms, by simp⟩
    · exact .inl rfl
  · exact .inl rfl

end

/-! ### The states of loops -/

/-- Whether code makes the state of a loop. -/
def Code.isIterate : Code → Bool
  | .iterate _ => true
  | _ => false

theorem isIterate_noteAt {debug : Bool} {p : Position} {c : Code} (h : c.isIterate = false) :
    (noteAt debug p c).isIterate = false := by
  unfold noteAt
  split
  · exact h
  · split
    · exact h
    · rfl

theorem state?_noteAt {debug : Bool} {p : Position} {c : Code} (h : c.state? = none) :
    (noteAt debug p c).state? = none := by
  unfold noteAt
  split
  · exact h
  · split
    · exact h
    · rfl

theorem state?_assign {v : Variable} {c : Code} (h : c.isIterate = false) :
    (Code.assign v c).state? = none := by
  cases c with
  | iterate x => cases h
  | _ => rfl

theorem isIterate_assignCode (p : Position) (target value : Code) (site : Nat) :
    (assignCode p target value site).isIterate = false ∧
      (assignCode p target value site).state? = none := by
  unfold assignCode
  split
  · split <;> exact ⟨rfl, rfl⟩
  · exact ⟨rfl, rfl⟩

section

variable (env : LowerEnv)

theorem isIterate_store (p : Position) (name : Bytes) (c : Code) (site : Nat) :
    (env.store p name c site).isIterate = false := by
  unfold LowerEnv.store
  split <;> rfl

theorem state?_store {p : Position} {name : Bytes} {c : Code} {site : Nat}
    (h : c.isIterate = false) : (env.store p name c site).state? = none := by
  unfold LowerEnv.store
  split
  · exact state?_assign h
  · rfl
  · rfl

/-- The code of an assignment to what is no name. -/
theorem Expr.lower_assign {env : LowerEnv} {target y : Expr} {p : Position} {n : Numbering}
    (h : ¬target.isName) :
    (Expr.assign target p y).lower env n =
      assignCode p (target.lower env n) (noteAt env.debug y.start (y.lower env (target.after n)))
        (y.after (target.after n)).sites := by
  cases target <;> first | rfl | exact absurd rfl h

/-- Expressions do not begin loops. -/
theorem Expr.isIterate_lower (x : Expr) (n : Numbering) : (x.lower env n).isIterate = false := by
  cases x with
  | name p name =>
    rw [Expr.lower]
    unfold LowerEnv.load
    split <;> rfl
  | unary p op x => cases op <;> rfl
  | binary x p op y => cases op <;> rfl
  | assign target p y =>
    by_cases h : target.isName
    · cases target <;> cases h
      exact isIterate_store env ..
    · rw [Expr.lower_assign h]
      exact (isIterate_assignCode ..).1
  | _ => rfl

theorem Expr.state?_lower (x : Expr) (n : Numbering) : (x.lower env n).state? = none := by
  cases x with
  | name p name =>
    rw [Expr.lower]
    unfold LowerEnv.load
    split <;> rfl
  | unary p op x => cases op <;> rfl
  | binary x p op y => cases op <;> rfl
  | assign target p y =>
    by_cases h : target.isName
    · cases target <;> cases h
      exact state?_store env (isIterate_noteAt (y.isIterate_lower env n))
    · rw [Expr.lower_assign h]
      exact (isIterate_assignCode ..).2
  | _ => rfl

theorem state?_sequenceCode {cs : List Code} (h : ∀ c ∈ cs, c.state? = none) :
    (sequenceCode cs).state? = none := by
  match cs with
  | [] => rfl
  | [c] => exact h c (List.mem_singleton_self c)
  | c :: d :: cs => rfl

theorem state?_varDefItems (vs : List VarDef) (n : Numbering) :
    ∀ i ∈ varDefItems env vs n, i.code.state? = none := by
  induction vs generalizing n with
  | nil => simp [varDefItems]
  | cons v vs ih =>
    intro i hi
    rcases List.mem_append.1 hi with hi | hi
    · obtain ⟨p, name, x⟩ := v
      cases x with
      | none => cases hi
      | some x =>
        obtain rfl := List.mem_singleton.1 hi
        exact state?_store env (isIterate_noteAt (x.isIterate_lower env n))
    · exact ih _ i hi

theorem state?_outputCode (c : Code) : (outputCode c).state? = none := by
  unfold outputCode
  split
  · split <;> rfl
  · rfl

/-- Nor do statements, but inside blocks of their own. -/
theorem Stmt.state?_lower (st : Stmt) (n : Numbering) : (st.lower env n).state? = none := by
  cases st with
  | block b => cases b; rfl
  | define p vars =>
    refine state?_sequenceCode fun c hc => ?_
    obtain ⟨i, hi, rfl⟩ := List.mem_map.1 hc
    exact state?_noteAt (state?_varDefItems env vars n i hi)
  | output p xs =>
    refine state?_sequenceCode fun c hc => ?_
    obtain ⟨i, -, rfl⟩ := List.mem_map.1 hc
    exact state?_outputCode _
  | expr x => exact x.state?_lower env n
  | ret p x =>
    cases x <;>
    · rw [Stmt.lower]
      unfold LowerEnv.return_
      split <;> rfl
  | leave p | again p =>
    rw [Stmt.lower]
    unfold LowerEnv.jump
    split <;> rfl
  | switch p x cases dflt r =>
    rw [Stmt.lower]
    unfold switchCode
    split <;> rfl
  | _ => rfl

theorem head?_stmtItems (sts : List Stmt) (n : Numbering) :
    ((stmtItems env sts n).map (·.noted env.debug)).head?.bind Code.state? = none := by
  cases sts with
  | nil => rfl
  | cons st sts => exact state?_noteAt (st.state?_lower env n)

end

/-! ### Numbers given out -/

/-- A slot that is given out between two points, in a lambda or in those inside it. -/
def Within (owner : Nat) (n m : Numbering) (k : Nat × Nat) : Prop :=
  (k.1 = owner ∧ n.slots ≤ k.2 ∧ k.2 < m.slots) ∨ (n.lambdas ≤ k.1 ∧ k.1 < m.lambdas)

/-- The numbers in code of a lambda are those that are given out between two points. -/
structure Counted (owner : Nat) (n m : Numbering) (ms : List Mark) : Prop where
  le : n.Le m
  sites : Numbered n.sites m.sites (ms.filterMap Mark.site?)
  lambdas : Numbered n.lambdas m.lambdas (ms.filterMap Mark.lambda?)
  users : ∀ k ∈ ms.flatMap Mark.users, Within owner n m k
  states : ∀ k ∈ ms.flatMap Mark.states, Within owner n m k
  apart : ∀ k ∈ ms.flatMap Mark.users, k ∉ ms.flatMap Mark.states

theorem Within.widen {owner : Nat} {n n' m m' : Numbering} {k : Nat × Nat}
    (h : Within owner n' m' k) (hn : n.Le n') (hm : m'.Le m) : Within owner n m k := by
  have := hn.lambdas
  have := hn.slots
  have := hm.lambdas
  have := hm.slots
  unfold Within at h ⊢
  omega

/-- Slots that are given out one after the other. -/
theorem mem_slotsFrom {owner k : Nat} {ownerName : Bytes} {names : List Bytes} {v : Variable}
    (h : v ∈ slotsFrom owner ownerName k names) :
    v.owner = owner ∧ k ≤ v.index ∧ v.index < k + names.length := by
  induction names generalizing k with
  | nil => cases h
  | cons name names ih =>
    rcases List.mem_cons.1 h with rfl | h
    · simp
    · have := ih h
      simp only [List.length_cons]
      omega

@[simp] theorem length_slotsFrom (owner k : Nat) (ownerName : Bytes) (names : List Bytes) :
    (slotsFrom owner ownerName k names).length = names.length := by
  induction names generalizing k with
  | nil => rfl
  | cons name names ih => simp [slotsFrom, ih]

theorem mem_flatMap_of_subset {α β : Type} {xs ys : List α} {f : α → List β} {b : β}
    (h : xs ⊆ ys) (hb : b ∈ xs.flatMap f) : b ∈ ys.flatMap f := by
  obtain ⟨a, ha, hab⟩ := List.mem_flatMap.1 hb
  exact List.mem_flatMap.2 ⟨a, h ha, hab⟩

namespace Counted

variable {owner : Nat} {n n' m m' p : Numbering} {ms ms' : List Mark}

theorem nil (h : n.Le m) : Counted owner n m [] :=
  ⟨h, .nil h.sites, .nil h.lambdas, by simp, by simp, by simp⟩

theorem widen (h : Counted owner n' m' ms) (hn : n.Le n') (hm : m'.Le m) : Counted owner n m ms where
  le := hn.trans (h.le.trans hm)
  sites := h.sites.widen hn.sites hm.sites
  lambdas := h.lambdas.widen hn.lambdas hm.lambdas
  users k hk := (h.users k hk).widen hn hm
  states k hk := (h.states k hk).widen hn hm
  apart := h.apart

theorem sublist (h : Counted owner n m ms) (hs : ms'.Sublist ms) : Counted owner n m ms' where
  le := h.le
  sites := h.sites.sublist (hs.filterMap _)
  lambdas := h.lambdas.sublist (hs.filterMap _)
  users k hk := h.users k (mem_flatMap_of_subset hs.subset hk)
  states k hk := h.states k (mem_flatMap_of_subset hs.subset hk)
  apart k hk hk' := h.apart k (mem_flatMap_of_subset hs.subset hk)
    (mem_flatMap_of_subset hs.subset hk')

theorem owner_lt (h : Counted owner n m ms) (ho : owner < n.lambdas) : owner < m.lambdas :=
  Nat.lt_of_lt_of_le ho h.le.lambdas

theorem append (h : Counted owner n m ms) (h' : Counted owner m p ms') (ho : owner < n.lambdas) :
    Counted owner n p (ms ++ ms') where
  le := h.le.trans h'.le
  sites := by
    rw [List.filterMap_append]
    exact h.sites.append h'.sites
  lambdas := by
    rw [List.filterMap_append]
    exact h.lambdas.append h'.lambdas
  users k hk := by
    rw [List.flatMap_append, List.mem_append] at hk
    rcases hk with hk | hk
    · exact (h.users k hk).widen (.refl n) h'.le
    · exact (h'.users k hk).widen h.le (.refl _)
  states k hk := by
    rw [List.flatMap_append, List.mem_append] at hk
    rcases hk with hk | hk
    · exact (h.states k hk).widen (.refl n) h'.le
    · exact (h'.states k hk).widen h.le (.refl _)
  apart k hk hk' := by
    rw [List.flatMap_append, List.mem_append] at hk hk'
    have disjoint {j : Nat × Nat} : Within owner n m j → Within owner m p j → False := by
      have := h.owner_lt ho
      have := h'.le.lambdas
      unfold Within
      omega
    rcases hk with hk | hk <;> rcases hk' with hk' | hk'
    · exact h.apart k hk hk'
    · exact disjoint (h.users k hk) (h'.states k hk')
    · exact disjoint (h.states k hk') (h'.users k hk)
    · exact h'.apart k hk hk'

/-- A call site that is numbered last. -/
theorem site (h : Counted owner n m ms) : Counted owner n m.nextSite (.site m.sites :: ms) where
  le := h.le.nextSite
  sites := h.sites.last
  lambdas := h.lambdas
  users k hk := h.users k hk
  states k hk := h.states k hk
  apart := h.apart

/-- A number of a call site that is not used. -/
theorem noSite (h : Counted owner n m ms) : Counted owner n m.nextSite ms :=
  h.widen (.refl n) (Numbering.Le.refl m).nextSite

/-- The slots of a block come before those inside it. -/
theorem block {vars : List Variable} {size : Nat} (h : Counted owner (n.declare size) m ms)
    (hv : ∀ v ∈ vars, v.owner = owner ∧ n.slots ≤ v.index ∧ v.index < n.slots + size)
    (ho : owner < n.lambdas) : Counted owner n m (.block vars :: ms) where
  le := ((Numbering.Le.refl n).declare size).trans h.le
  sites := h.sites
  lambdas := h.lambdas
  users k hk := by
    rcases List.mem_append.1 hk with hk | hk
    · obtain ⟨v, hmem, rfl⟩ := List.mem_map.1 hk
      obtain ⟨h₁, h₂, h₃⟩ := hv v hmem
      exact .inl ⟨h₁, h₂, Nat.lt_of_lt_of_le h₃ h.le.slots⟩
    · exact (h.users k hk).widen ((Numbering.Le.refl n).declare size) (.refl m)
  states k hk := (h.states k hk).widen ((Numbering.Le.refl n).declare size) (.refl m)
  apart k hk hk' := by
    rcases List.mem_append.1 hk with hk | hk
    · obtain ⟨v, hmem, rfl⟩ := List.mem_map.1 hk
      have := hv v hmem
      have := h.states _ hk'
      simp only [Within, Variable.key, Numbering.declare] at this
      omega
    · exact h.apart k hk hk'

/-- The slots of a loop over a sequence come before those inside it. -/
theorem loop {vars : List Variable} {state : Variable}
    (h : Counted owner (n.declare (vars.length + 1)) m ms)
    (hv : ∀ v ∈ vars, v.owner = owner ∧ n.slots ≤ v.index ∧ v.index < n.slots + vars.length)
    (hs : state.owner = owner ∧ state.index = n.slots + vars.length) (ho : owner < n.lambdas) :
    Counted owner n m (.loop (vars ++ [state]) state :: ms) := by
  have hblock : Counted owner n m (.block vars :: ms) :=
    h.block (fun v hmem => by have := hv v hmem; omega) ho
  have hle : n.slots + (vars.length + 1) ≤ m.slots := h.le.slots
  have huser : ∀ k, k ∈ (Mark.loop (vars ++ [state]) state :: ms).flatMap Mark.users ↔
      k ∈ (Mark.block vars :: ms).flatMap Mark.users := by
    simp [Mark.users]
  have hstate : Within owner n m state.key := .inl ⟨hs.1, by simp [Variable.key, hs], by
    simp only [Variable.key, hs]
    omega⟩
  refine ⟨hblock.le, hblock.sites, hblock.lambdas, fun k hk => hblock.users k ((huser k).1 hk), ?_, ?_⟩
  · intro k hk
    rcases List.mem_cons.1 hk with rfl | hk
    · exact hstate
    · exact hblock.states k hk
  · intro k hk hk'
    rw [huser] at hk
    rcases List.mem_cons.1 hk' with rfl | hk'
    · rcases List.mem_append.1 hk with hk | hk
      · obtain ⟨v, hmem, heq⟩ := List.mem_map.1 hk
        have := hv v hmem
        simp only [Variable.key, Prod.mk.injEq] at heq
        omega
      · have := h.users _ hk
        simp only [Within, Variable.key, Numbering.declare] at this
        omega
    · exact hblock.apart k hk hk'

/-- The slot of a template comes after those inside it. -/
theorem template {tmp : Variable} (h : Counted owner n m ms) (ht : tmp.key = (owner, m.slots))
    (ho : owner < n.lambdas) : Counted owner n (m.declare 1) (.block [tmp] :: ms) where
  le := h.le.declare 1
  sites := h.sites
  lambdas := h.lambdas
  users k hk := by
    rcases List.mem_cons.1 hk with rfl | hk
    · change Within owner n _ tmp.key
      rw [ht]
      exact .inl ⟨rfl, h.le.slots, Nat.lt_succ_self _⟩
    · exact (h.users k hk).widen (.refl n) ((Numbering.Le.refl m).declare 1)
  states k hk := (h.states k hk).widen (.refl n) ((Numbering.Le.refl m).declare 1)
  apart k hk hk' := by
    rcases List.mem_cons.1 hk with rfl | hk
    · have : Within owner n m tmp.key := h.states _ hk'
      rw [ht] at this
      have := h.le.lambdas
      unfold Within at *
      omega
    · exact h.apart k hk hk'

/-- The slots of a lambda inside are counted on their own. -/
theorem lambda {params : List Variable} {size : Nat} (hle : (n.enter size).Le n')
    (hn : n'.lambdas = n.lambdas + 1 ∧ n'.slots = size) (h : Counted n.lambdas n' m ms)
    (hp : ∀ v ∈ params, v.owner = n.lambdas ∧ v.index < size) :
    Counted owner n (m.leave n.slots) (.lambda n.lambdas params :: ms) := by
  have hlt : n.lambdas + 1 ≤ m.lambdas := hn.1 ▸ h.le.lambdas
  have inside {k : Nat × Nat} (hk : Within n.lambdas n' m k) :
      Within owner n (m.leave n.slots) k := by
    rw [Within, hn.1, hn.2] at hk
    exact .inr ⟨by omega, show k.1 < m.lambdas by omega⟩
  refine ⟨Numbering.Le.leave (hle.trans h.le), h.sites.widen hle.sites (Nat.le_refl _),
    Numbered.first (hn.1 ▸ h.lambdas), ?_, ?_, ?_⟩
  · intro k hk
    rcases List.mem_append.1 hk with hk | hk
    · obtain ⟨v, hmem, rfl⟩ := List.mem_map.1 hk
      have := (hp v hmem).1
      exact .inr ⟨show n.lambdas ≤ v.owner by omega, show v.owner < m.lambdas by omega⟩
    · exact inside (h.users k hk)
  · exact fun k hk => inside (h.states k hk)
  · intro k hk hk'
    rcases List.mem_append.1 hk with hk | hk
    · obtain ⟨v, hmem, rfl⟩ := List.mem_map.1 hk
      have := hp v hmem
      have := h.states _ hk'
      simp only [Within, Variable.key, hn.1, hn.2] at this
      omega
    · exact h.apart k hk hk'

end Counted

end Stencil
