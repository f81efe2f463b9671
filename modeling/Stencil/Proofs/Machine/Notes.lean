import Stencil.Code.Basic
import Stencil.Machine.Evaluate

/-!
# Notes of places

Code with its notes of places, or without them. Leaving the notes out changes neither the labels
of a block nor, where no note stands for missing code or in front of an arm of a switch, which
parts are missing.
-/

namespace Stencil

mutual

/-- Code with its notes of places, or without them. -/
def Code.withNotes (keep : Bool) : Code → Code
  | .absent => .absent
  | .constant v => .constant v
  | .empty => .empty
  | .block vars items => .block vars (listWithNotes keep items)
  | .var v => .var v
  | .assign v x => .assign v (x.withNotes keep)
  | .lambda id name params slots body => .lambda id name params slots (body.withNotes keep)
  | .cond test yes no => .cond (test.withNotes keep) (yes.withNotes keep) (no.withNotes keep)
  | .not x => .not (x.withNotes keep)
  | .toBool x => .toBool (x.withNotes keep)
  | .andAlso x y => .andAlso (x.withNotes keep) (y.withNotes keep)
  | .orElse x y => .orElse (x.withNotes keep) (y.withNotes keep)
  | .loop brk cont body => .loop brk cont (body.withNotes keep)
  | .label t dflt => .label t (dflt.withNotes keep)
  | .goto t value => .goto t (value.withNotes keep)
  | .switch x cases dflt equal =>
    .switch (x.withNotes keep) (listWithNotes keep cases) (dflt.withNotes keep) equal
  | .case values body => .case (listWithNotes keep values) (body.withNotes keep)
  | .tryFinally body finally_ => .tryFinally (body.withNotes keep) (finally_.withNotes keep)
  | .contextCall method ctx args =>
    .contextCall method (ctx.withNotes keep) (listWithNotes keep args)
  | .dynamic site args => .dynamic site (listWithNotes keep args)
  | .iterate x => .iterate (x.withNotes keep)
  | .moveNext x => .moveNext (x.withNotes keep)
  | .current x => .current (x.withNotes keep)
  | .filter x pred => .filter (x.withNotes keep) (pred.withNotes keep)
  | .list items => .list (listWithNotes keep items)
  | .debug pos x => if keep then .debug pos (x.withNotes keep) else x.withNotes keep

/-- Several pieces of code with their notes of places, or without them. -/
def listWithNotes (keep : Bool) : List Code → List Code
  | [] => []
  | c :: cs => c.withNotes keep :: listWithNotes keep cs

end

/-- A lambda with the notes in its body, or without them. -/
def Lambda.withNotes (keep : Bool) (f : Lambda) : Lambda := { f with body := f.body.withNotes keep }

mutual

theorem Code.withNotes_true : (c : Code) → c.withNotes true = c
  | .absent | .constant _ | .empty | .var _ => rfl
  | .block _ items | .dynamic _ items | .list items => by
    rw [Code.withNotes, listWithNotes_true items]
  | .assign _ x | .lambda _ _ _ _ x | .not x | .toBool x | .loop _ _ x | .label _ x | .goto _ x
  | .iterate x | .moveNext x | .current x => by
    rw [Code.withNotes, Code.withNotes_true x]
  | .andAlso x y | .orElse x y | .tryFinally x y | .filter x y => by
    rw [Code.withNotes, Code.withNotes_true x, Code.withNotes_true y]
  | .cond x y z => by
    rw [Code.withNotes, Code.withNotes_true x, Code.withNotes_true y, Code.withNotes_true z]
  | .switch x cases d _ => by
    rw [Code.withNotes, Code.withNotes_true x, listWithNotes_true cases, Code.withNotes_true d]
  | .case values body => by
    rw [Code.withNotes, listWithNotes_true values, Code.withNotes_true body]
  | .contextCall _ ctx args => by
    rw [Code.withNotes, Code.withNotes_true ctx, listWithNotes_true args]
  | .debug _ x => by
    rw [Code.withNotes, Code.withNotes_true x, if_pos rfl]

theorem listWithNotes_true : (cs : List Code) → listWithNotes true cs = cs
  | [] => rfl
  | c :: cs => by rw [listWithNotes, c.withNotes_true, listWithNotes_true cs]

end

theorem listWithNotes_eq_map (keep : Bool) (cs : List Code) :
    listWithNotes keep cs = cs.map (Code.withNotes keep) := by
  induction cs with
  | nil => rfl
  | cons c cs ih => rw [listWithNotes, ih, List.map_cons]

theorem Code.unwrap_withNotes (keep : Bool) (c : Code) :
    (c.withNotes keep).unwrap = c.unwrap.withNotes keep := by
  induction c using Code.unwrap.induct with
  | case1 pos x ih =>
    rw [withNotes, unwrap, ← ih]
    cases keep <;> rfl
  | case2 c hc =>
    cases c with
    | debug pos x => exact absurd rfl (hc pos x)
    | _ => rfl

theorem Code.unwrap_ne_debug (c : Code) (pos : Position) (x : Code) : c.unwrap ≠ .debug pos x := by
  induction c using Code.unwrap.induct with
  | case1 p y ih => exact ih
  | case2 c hc =>
    cases c with
    | debug p y => exact absurd rfl (hc p y)
    | _ => exact Code.noConfusion

theorem Code.unwrap_withNotes_false (c : Code) : (c.withNotes false).unwrap = c.withNotes false := by
  induction c using Code.unwrap.induct with
  | case1 p y ih => exact ih
  | case2 c hc =>
    cases c with
    | debug p y => exact absurd rfl (hc p y)
    | _ => rfl

theorem labelIndex_withNotes (keep : Bool) (items : List Code) :
    labelIndex (listWithNotes keep items) = labelIndex items := by
  funext t
  rw [labelIndex, listWithNotes_eq_map, List.findIdx?_map]
  congr 1
  funext c
  simp only [Function.comp, Code.unwrap_withNotes]
  cases h : c.unwrap with
  | debug pos x => exact absurd h (c.unwrap_ne_debug pos x)
  | _ => rfl

/-- A node whose notes can be left out: none stands for missing code, and none in front of an arm
of a switch. -/
def Code.Loose : Code → Prop
  | .debug _ x => x.unwrap.isAbsent = false
  | .switch _ cases _ _ => ∀ c ∈ cases, c.unwrap = c
  | _ => True

theorem Code.isAbsent_withNotes {keep : Bool} {c : Code} (h : keep = false → c.Loose) :
    (c.withNotes keep).isAbsent = c.isAbsent := by
  cases c with
  | debug pos x =>
    cases keep with
    | true => rfl
    | false =>
      have hx : x.unwrap.isAbsent = false := h rfl
      show (x.withNotes false).isAbsent = false
      rw [← x.unwrap_withNotes_false, x.unwrap_withNotes]
      cases hu : x.unwrap with
      | absent =>
        rw [hu] at hx
        exact hx
      | debug p y => exact absurd hu (x.unwrap_ne_debug p y)
      | _ => rfl
  | _ => rfl

end Stencil
