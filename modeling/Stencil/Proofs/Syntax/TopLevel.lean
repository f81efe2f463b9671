import Stencil.Syntax.Parser
import Stencil.Scope.Resolution

/-!
# The statements of a parsed module

Definitions at the level of a module are kept apart from its statements, so none of the
statements of a parsed module declares a name.
-/

namespace Stencil

/-- No statement of the module declares a name. -/
def Module.NoDefinitions (m : Module) : Prop := ∀ st ∈ m.stmts, st.declares = []

namespace Parser

variable {α β : Type}

/-- Whenever the reader succeeds, what it has read satisfies `Q`. -/
def Ensures (p : Parser α) (Q : α → Prop) : Prop :=
  ∀ s a s', StateT.run p s = .ok (a, s') → Q a

theorem Ensures.bind {p : Parser α} {f : α → Parser β} {R : α → Prop} {Q : β → Prop}
    (hp : p.Ensures R) (hf : ∀ a, R a → (f a).Ensures Q) : Ensures (p >>= f) Q := by
  intro s b s' h
  rw [StateT.run_bind] at h
  cases hr : StateT.run p s with
  | error e => simp [hr, Bind.bind, Except.bind] at h
  | ok r => exact hf r.1 (hp s r.1 r.2 hr) r.2 b s' (by simpa [hr, Bind.bind, Except.bind] using h)

theorem ensures_true (p : Parser α) : p.Ensures fun _ => True := fun _ _ _ _ => trivial

theorem Ensures.after {p : Parser α} {f : α → Parser β} {Q : β → Prop}
    (hf : ∀ a, (f a).Ensures Q) : Ensures (p >>= f) Q :=
  (ensures_true p).bind fun a _ => hf a

theorem ensures_pure {Q : α → Prop} {a : α} (h : Q a) : (pure a : Parser α).Ensures Q := by
  intro s b s' hr
  cases hr
  exact h

theorem ensures_refuse {Q : α → Prop} (c : SyntaxCause) : (refuse c : Parser α).Ensures Q := by
  intro s b s' hr
  simp [refuse, throw, throwThe, MonadExceptOf.throw, StateT.run, StateT.lift, StateT.bind,
    get, getThe, MonadStateOf.get, StateT.get, Bind.bind, Except.bind, Pure.pure, Except.pure] at hr

/-- A reader that first looks at the token at hand. -/
theorem run_peek {f : TokenKind → Parser α} {s : TokenStream} :
    StateT.run (peek >>= f) s = StateT.run (f s.current.token.kind) s := rfl

theorem ensures_conditional (n : Nat) (p : Position) :
    (conditional n p).Ensures fun st => st.declares = [] := by
  cases n with
  | zero => exact ensures_refuse _
  | succ n =>
    rw [conditional]
    refine .after fun test => .after fun yes => .after fun isElse => ?_
    split
    · refine .after fun e => .after fun isIf => ?_
      split
      · exact .after fun _ => .after fun _ => ensures_pure rfl
      · exact .after fun _ => ensures_pure rfl
    · exact ensures_pure rfl

/-- A statement that does not start with the keyword of a definition is none. -/
theorem stmt_declares {n : Nat} {s s' : TokenStream} {st : Stmt}
    (hk : s.current.token.kind ≠ .keyword .defWord) (h : StateT.run (stmt n) s = .ok (st, s')) :
    st.declares = [] := by
  cases n with
  | zero => exact ensures_refuse (Q := fun st : Stmt => st.declares = []) _ s st s' h
  | succ n =>
    rw [stmt, run_peek] at h
    revert h
    suffices hq : Ensures _ (fun st : Stmt => st.declares = []) from hq s st s'
    split
    · exact absurd ‹_› hk
    · exact .after fun _ => .after fun _ => .after fun _ => ensures_pure rfl
    · refine .after fun _ => .after fun k => ?_
      split
      · exact .after fun _ => ensures_pure rfl
      · exact .after fun _ => ensures_pure rfl
      · exact .after fun _ => ensures_pure rfl
      · exact .after fun _ => .after fun _ => ensures_pure rfl
    · exact .after fun p => ensures_conditional n p
    · exact .after fun _ => .after fun _ => .after fun _ => ensures_pure rfl
    · refine .after fun p => .after fun _ => .after fun v => .after fun _ => .after fun x =>
        .after fun isWhere => ?_
      have rest (filter : Option WhereClause) : Ensures (do
          discard (mark .rparen)
          let body ← block n
          if ← seesWord .betweenWord then
            discard advance
            return Stmt.each p v.1 v.2 x filter body (some (← block n))
          return Stmt.each p v.1 v.2 x filter body none) fun st => st.declares = [] := by
        refine .after fun _ => .after fun _ => .after fun isBetween => ?_
        split
        · exact .after fun _ => .after fun _ => ensures_pure rfl
        · exact ensures_pure rfl
      dsimp only
      split
      · exact .after fun _ => .after fun _ => rest _
      · exact rest none
    · exact .after fun _ => .after fun _ => .after fun _ => .after fun _ => .after fun _ =>
        ensures_pure rfl
    · exact .after fun _ => .after fun _ => ensures_pure rfl
    · exact .after fun _ => .after fun _ => ensures_pure rfl
    · exact .after fun _ => ensures_pure rfl
    · exact .after fun _ => ensures_pure rfl
    · exact ensures_refuse _
    · exact ensures_refuse _
    · exact .after fun _ => .after fun _ => ensures_pure rfl

theorem ensures_moduleItems (n : Nat) (m : Module) (hm : m.NoDefinitions) :
    (moduleItems n m).Ensures Module.NoDefinitions := by
  induction n generalizing m with
  | zero => exact ensures_refuse _
  | succ n ih =>
    intro s a s' h
    rw [moduleItems, run_peek] at h
    revert h
    split
    · exact Ensures.after (p := here) (Q := Module.NoDefinitions)
        (fun p => ensures_pure (a := { m with endPos := p }) hm) s a s'
    · exact Ensures.after (p := load) (Q := Module.NoDefinitions)
        (fun l => ih { m with loads := m.loads ++ [l] } hm) s a s'
    · exact Ensures.after (p := function n) (Q := Module.NoDefinitions)
        (fun f => ih { m with functions := m.functions ++ [f] } hm) s a s'
    · exact Ensures.after (p := advance) (Q := Module.NoDefinitions)
        (fun p => .after fun vars => ih { m with defs := m.defs ++ [⟨p, vars⟩] } hm) s a s'
    · rename_i hk
      intro h
      rw [StateT.run_bind] at h
      cases hr : StateT.run (stmt n) s with
      | error e => simp [hr, Bind.bind, Except.bind] at h
      | ok r =>
        have hst := stmt_declares hk hr
        refine ih _ ?_ r.2 a s' (by simpa [hr, Bind.bind, Except.bind] using h)
        intro st hm'
        rcases List.mem_append.1 hm' with hm' | hm'
        · exact hm st hm'
        · rw [List.mem_singleton.1 hm', hst]

end Parser

/-- The definitions of a parsed module are not among its statements. -/
theorem parseModule_noDefinitions {file src : Bytes} {m : Module}
    (h : parseModule file src = .ok m) : m.NoDefinitions := by
  have hq (n : Nat) := Parser.ensures_moduleItems n ⟨file, [], [], [], [], default⟩
    (by simp [Module.NoDefinitions])
  have ok {n : Nat} {s : TokenStream}
      (h : (Parser.moduleItems n ⟨file, [], [], [], [], default⟩ s).map (·.1) = .ok m) :
      m.NoDefinitions := by
    cases hr : Parser.moduleItems n ⟨file, [], [], [], [], default⟩ s with
    | error e => simp [hr, Except.map] at h
    | ok r =>
      obtain rfl : r.1 = m := by simpa [hr, Except.map] using h
      exact hq n s r.1 r.2 hr
  unfold parseModule Parser.run at h
  dsimp only at h
  split at h
  · exact ok h
  · cases h
  · exact ok h

end Stencil
