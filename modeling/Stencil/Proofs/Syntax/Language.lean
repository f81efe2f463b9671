import Mathlib
import Stencil.Proofs.Syntax.Derivation.Statements
import Stencil.Proofs.Syntax.Recognition.Phrases

/-!
# Every module is read

The constructs of a module, and the text of a module: it is read as the module it is the text
of.
-/

namespace Stencil

open TokenStream

namespace Parser

theorem names_yields {ls : List Lexeme} {ps : List Param} (h : IsNames ls ps) :
    ∀ {s : TokenStream} {n : Nat} (seen : List Param), s.current.Is .rparen → ls.length + 1 ≤ n →
      ∃ p s₁, ident.Yields (ls ++ s) (p.pos, p.name) s₁ ∧
        (params n (p :: seen)).Yields s₁ (seen.reverse ++ ps) s := by
  induction h with
  | one hl =>
    intro s n seen hr hn
    obtain ⟨n, rfl⟩ := exists_succ hn
    refine ⟨⟨_, _⟩, s, yields_ident hl, ?_⟩
    rw [params, ← List.reverse_cons]
    exact .sees hr yields_pure
  | @more l c _ m _ hl hc _ ih =>
    intro s n seen hr hn
    obtain ⟨n, rfl⟩ := exists_succ hn
    simp only [List.length_cons] at hn
    obtain ⟨p, s₁, hp, hps⟩ := ih (n := n) (⟨l.pos, m⟩ :: seen) hr (by omega)
    rw [List.reverse_cons, List.append_assoc] at hps
    refine ⟨⟨l.pos, m⟩, _, yields_ident hl, ?_⟩
    rw [params]
    exact .unseen (fun h => by cases hc.symm.trans h)
      (.discard (.mark hc (hp.bind hps)))

theorem params_yields {ls : List Lexeme} {ps : List Param} (h : IsParams ls ps) {s : TokenStream}
    {n : Nat} (hr : s.current.Is .rparen) (hn : ls.length + 2 ≤ n) :
    (params n []).Yields (ls ++ s) ps s := by
  obtain ⟨n, rfl⟩ := exists_succ hn
  rw [params]
  cases h with
  | none => exact .sees hr yields_pure
  | some h =>
    obtain ⟨p, s₁, hp, hps⟩ := names_yields h (n := n) [] hr (by omega)
    have hs : ¬ (ls ++ s).current.Is .rparen := by
      cases h with
      | one hl => exact fun h => by cases hl.symm.trans h
      | more hl _ _ => exact fun h => by cases hl.symm.trans h
    exact .unseen hs (hp.bind hps)

theorem load_yields {ls : List Lexeme} {x : LoadDirective} (h : IsLoad ls x) {s : TokenStream} :
    load.Yields (ls ++ s) x s := by
  cases h with
  | mk hl hs he =>
    rw [load]
    exact .advance (.token hs (.advance (.mark he yields_pure)))

theorem function_yields {ls : List Lexeme} {f : FunctionDecl} (h : IsFunction .accepted ls f)
    {s : TokenStream} {n : Nat} (hn : 16 * ls.length ≤ n) : (function n).Yields (ls ++ s) f s := by
  cases h with
  | mk hl hf hp hps hr hb =>
    simp only [List.length_append, List.length_cons] at hn
    simp only [append_append, cons_append]
    rw [function]
    exact .advance (.ident hf (.discard (.mark hp ((params_yields hps hr (by omega)).bind
      (.discard (.advance ((block_yields hb (by omega)).bind yields_pure)))))))

/-- What comes after a statement of a module ends it. -/
theorem endsStmt_module {d : Dialect} {file : Bytes} {e : Position} {ls : List Lexeme} {m : Module}
    {s : TokenStream} (h : IsModule d file e ls m) (hs : s.current.token = .eof) :
    EndsStmt (ls ++ s).current := by
  obtain rfl | ⟨l, ls, rfl, hl⟩ := h.starts
  · exact endsStmt_of_kind (Token.kind_eq_eof.2 hs) ⟨nofun, nofun⟩
  · exact endsStmt_of_kind rfl ⟨ne_of_starts hl rfl, ne_of_starts hl rfl⟩

/-- The constructs that are read go after those that were there. -/
theorem moduleItems_yields {file : Bytes} {e : Position} {ls : List Lexeme} {rest : Module}
    (h : IsModule .accepted file e ls rest) :
    ∀ {s : TokenStream} {n : Nat} (m : Module), m.path = file → s.current.token = .eof →
      s.current.pos = e → 16 * ls.length + 9 ≤ n →
        (moduleItems n m).Yields (ls ++ s) (m.followedBy rest) s := by
  induction h with
  | nil =>
    rintro s n m - hs rfl hn
    obtain ⟨n, rfl⟩ := exists_succ hn
    rw [moduleItems, show m.followedBy _ = { m with endPos := s.current.pos } by
      simp [Module.followedBy]]
    exact .peek (Token.kind_eq_eof.2 hs) yields_pure
  | @load ls ms x rest hx _ ih =>
    intro s n m hm hs he hn
    obtain ⟨n, rfl⟩ := exists_succ hn
    have hl : (ls ++ (ms ++ s)).current.token.kind = .keyword .loadWord := by
      cases hx with
      | mk hl _ _ => exact hl.kind
    have hpos : 0 < ls.length := by
      cases hx
      exact Nat.succ_pos _
    rw [List.length_append] at hn
    rw [append_append, moduleItems, show m.followedBy _ =
      Module.followedBy { m with loads := m.loads ++ [x] } rest by simp [Module.followedBy]]
    exact .peek hl ((load_yields hx).bind (ih _ hm hs he (by omega)))
  | @function ls ms f rest hf _ ih =>
    intro s n m hm hs he hn
    obtain ⟨n, rfl⟩ := exists_succ hn
    have hl : (ls ++ (ms ++ s)).current.token.kind = .keyword .functionWord := by
      cases hf with
      | mk hl _ _ _ _ _ => exact hl.kind
    have hpos : 0 < ls.length := by
      cases hf
      exact Nat.succ_pos _
    rw [List.length_append] at hn
    rw [append_append, moduleItems, show m.followedBy _ =
      Module.followedBy { m with functions := m.functions ++ [f] } rest by simp [Module.followedBy]]
    exact .peek hl ((function_yields hf (by omega)).bind (ih _ hm hs he (by omega)))
  | @define l ls _ ms vs rest hl hvs hsemi _ ih =>
    intro s n m hm hs he hn
    obtain ⟨n, rfl⟩ := exists_succ hn
    simp only [List.length_append, List.length_cons] at hn
    simp only [append_append, cons_append]
    rw [moduleItems, show m.followedBy _ =
      Module.followedBy { m with defs := m.defs ++ [⟨l.pos, vs⟩] } rest by simp [Module.followedBy]]
    have hend : IsEnd false [_] := .semi hsemi
    have hvars := varDefs_yields hvs (s := ms ++ s) (n := n) [] hend (by intro h; cases h) (by omega)
    exact .peek hl.kind (.advance (hvars.bind (ih _ hm hs he (by omega))))
  | @stmt l ls ms st rest hl hst hrest ih =>
    intro s n m hm hs he hn
    obtain ⟨n, rfl⟩ := exists_succ hn
    simp only [List.length_append, List.length_cons] at hn
    rw [append_append, moduleItems, show m.followedBy _ =
      Module.followedBy { m with stmts := m.stmts ++ [st] } rest by simp [Module.followedBy]]
    have hend : EndsStmt (ms ++ s).current := endsStmt_module hrest hs
    have hitem := stmt_yields hst (s := ms ++ s) (n := n) (by intro h; cases h) hend (by rw [List.length_cons]; omega)
    rw [yields_peek]
    split
    · exact absurd ‹_› (ne_of_starts (starts_current hst.starts) rfl)
    · exact absurd ‹_› (ne_of_starts (starts_current hst.starts) rfl)
    · exact absurd ‹_› (ne_of_starts (starts_current hst.starts) rfl)
    · exact absurd (Token.kind_eq_keyword.1 ‹_›) hl
    · exact hitem.bind (ih _ hm hs he (by omega))

end Parser

/-- The text of a module of the grammar is read as that module. -/
theorem parseModule_of_isProgram {file src : Bytes} {m : Module}
    (h : IsProgram .accepted file src m) : parseModule file src = .ok m := by
  obtain ⟨ls, e, hs, he, hm⟩ := h
  let eof : TokenStream := ⟨e, [], none⟩
  have hlex : (ls ++ eof).lexemes = ls ++ [e] := lexemes_append
  have hlen : (ls ++ eof).rest.length = ls.length := by
    simpa [TokenStream.lexemes] using congrArg List.length hlex
  refine Parser.run_eq_ok.2 ⟨ls ++ eof, eof, ?_, ?_⟩
  · rw [hs, hlex, fault_append]
  · have hy := Parser.moduleItems_yields hm (s := eof) (n := 16 * (ls.length + 4))
      ⟨file, [], [], [], [], default⟩ rfl he rfl (by omega)
    rw [hlen]
    obtain ⟨_, _, _, _, _, _⟩ := m
    obtain rfl := hm.path_eq
    exact hy

/-!
## The language that is read

A text is read without error if and only if it is the text of a module of the grammar, and
what is read is the tree of that module. The grammar is the one that is written down but for
the three choices of `Dialect`; `grammars_differ` shows for each of them that it makes a
difference.
-/

/-- The texts that are read are those of the modules of the accepted language, and each is
read as the module it is the text of. -/
theorem parseModule_eq_ok_iff (file src : Bytes) (m : Module) :
    parseModule file src = .ok m ↔ IsProgram .accepted file src m :=
  ⟨isProgram_of_parseModule, parseModule_of_isProgram⟩

/-- A text has one tree at most. -/
theorem IsProgram.unique {file src : Bytes} {m m' : Module} (h : IsProgram .accepted file src m)
    (h' : IsProgram .accepted file src m') : m = m' :=
  Except.ok.inj ((parseModule_of_isProgram h).symm.trans (parseModule_of_isProgram h'))

/-! ### The documented grammar -/

/-- A module that consists of one statement. -/
theorem IsStmt.program {d : Dialect} {file src : Bytes} {l e : Lexeme} {ls : List Lexeme}
    {st : Stmt} (hs : scan file src = ⟨l :: ls ++ [e], none⟩) (he : e.token = .eof)
    (hl : ¬ l.IsWord .defWord) (h : IsStmt d false (l :: ls) st) :
    IsProgram d file src ⟨file, [], [], [], [st], e.pos⟩ := by
  have hm := IsModule.stmt hl h (@IsModule.nil d file e.pos)
  rw [List.append_nil] at hm
  exact ⟨l :: ls, e, hs, he, hm⟩

theorem IsPrimary.expr {d : Dialect} {ls : List Lexeme} {x : Expr} (h : IsPrimary d ls x) :
    IsExpr d ls x :=
  .level (.weaken (.unary (.operand (.primary h))) (Nat.le_add_left 1 9))

/-- A template without islands, as a statement of its own. -/
theorem documented_template {o t c e : Lexeme} {s : Bytes} (ho : o.Is .openTemplate)
    (ht : t.token = .text s) (hc : c.Is .closeTemplate) (he : e.Is .semi) :
    IsStmt .documented false [o, t, c, e]
      (.expr (.template (.mk o.pos [.text t.pos s] c.pos true))) :=
  @IsStmt.expr _ _ o [t, c] _ _ (fun h => Bool.noConfusion h)
    (IsPrimary.template (.mk ho (.text ht .nil) hc)).expr (.semi he)

/-- An index without arguments. -/
theorem documented_index {x lb rb e : Lexeme} {n : Bytes} (hx : x.Names n) (hl : lb.Is .lbrack)
    (hr : rb.Is .rbrack) (he : e.Is .semi) :
    IsStmt .documented false [x, lb, rb, e] (.expr (.index (.name x.pos n) lb.pos [] rb.pos)) :=
  @IsStmt.expr _ _ x [lb, rb] _ _ (fun h => Bool.noConfusion h)
    (.level (.weaken (.unary (.operand (.index (.primary (.name hx)) hl .none
      (fun h => Bool.noConfusion h) hr))) (Nat.le_add_left 1 9))) (.semi he)

/-- A template with an empty island. -/
theorem accepted_emptyIsland {o p q c : Lexeme} (ho : o.Is .openTemplate) (hp : p.Is .dollar)
    (hq : q.Is .dollar) (hc : c.Is .closeTemplate) :
    IsStmt .accepted false [o, p, q, c] (.block (.mk o.pos [] c.pos true)) :=
  .block (.template (.mk ho (.island hp .nil (fun h => Bool.noConfusion h) hq .nil) hc))

/-- In the documented grammar no island is empty. -/
theorem documented_emptyIsland {o p q c : Lexeme} {file : Bytes} {e : Position} {m : Module}
    (ho : o.Is .openTemplate) (hp : p.Is .dollar) (hq : q.Is .dollar) (hc : c.Is .closeTemplate) :
    ¬ IsModule .documented file e [o, p, q, c] m := by
  have body {ls : List Lexeme} {sts : List Stmt} (h : IsTemplateBody .documented ls sts) :
      ls ≠ [p, q] := by
    intro hls
    cases h with
    | nil => cases hls
    | text hl _ =>
      obtain ⟨rfl, -⟩ := List.cons.inj hls
      cases hl.symm.trans hp
    | @island _ is _ ms _ _ _ hi hone _ _ =>
      obtain ⟨-, hms⟩ := List.cons.inj hls
      -- one of the two lexemes is left, and it closes the island
      cases is with
      | nil => simpa [hi.eq_nil rfl] using hone rfl
      | cons _ _ => simp at hms
  have notWord {k : Keyword} : ¬ o.IsWord k := fun hl => by cases hl.symm.trans ho
  -- the template is a block of its own
  have stmt {st : Stmt} : ¬ IsStmt .documented false [o, p, q, c] st := by
    intro h
    generalize hls : [o, p, q, c] = ls at h
    have first {l : Lexeme} {k : Keyword} {ms : List Lexeme} (hl : l.IsWord k) :
        [o, p, q, c] ≠ l :: ms := fun h => notWord ((List.cons.inj h).1 ▸ hl)
    cases h with
    | define hl _ _ => exact first hl hls
    | output hl _ _ => exact first hl hls
    | ret hl _ => exact first hl hls
    | retValue hl _ _ => exact first hl hls
    | cond h => cases h with
      | one hl _ _ _ _ => exact first hl hls
      | two hl _ _ _ _ _ _ => exact first hl hls
      | chain hl _ _ _ _ _ _ => exact first hl hls
    | loop hl _ _ _ _ => exact first hl hls
    | each hl _ _ _ _ _ _ _ _ => exact first hl hls
    | switch hl _ _ _ _ _ _ => exact first hl hls
    | leave hl _ => exact first hl hls
    | again hl _ => exact first hl hls
    | block h => cases h with
      | braces hl _ _ =>
        obtain ⟨rfl, -⟩ := List.cons.inj hls
        cases hl.symm.trans ho
      | template h => cases h with
        | mk _ hb _ =>
          obtain ⟨-, hls⟩ := List.cons.inj hls
          exact body hb (List.append_inj' (show [p, q] ++ [c] = _ from hls) rfl).1.symm
    | expr _ _ he => cases he with
      | semi he =>
        obtain rfl := List.singleton_inj.1
          (List.append_inj' (show [o, p, q] ++ [c] = _ from hls) rfl).2
        cases he.symm.trans hc
      | missing h => cases h
  intro h
  generalize hls : [o, p, q, c] = ls at h
  cases h with
  | nil => cases hls
  | load h _ => cases h with
    | mk hl _ _ => exact notWord ((List.cons.inj hls).1 ▸ hl)
  | function h _ => cases h with
    | mk hl _ _ _ _ _ => exact notWord ((List.cons.inj hls).1 ▸ hl)
  | define hl _ _ _ => exact notWord ((List.cons.inj hls).1 ▸ hl)
  | @stmt l ls ms _ _ _ hst hm =>
    obtain rfl | ⟨x, ms, rfl, hx⟩ := hm.starts
    · rw [List.append_nil] at hls
      exact stmt (hls ▸ hst)
    · -- no construct of a module starts with one of the other lexemes
      have hmem : x ∈ [p, q, c] := by
        rw [(List.cons.inj hls).2]
        exact List.mem_append_right ls List.mem_cons_self
      simp only [List.mem_cons, List.not_mem_nil, or_false] at hmem
      obtain rfl | rfl | rfl := hmem
      · exact ne_of_starts hx rfl hp.kind
      · exact ne_of_starts hx rfl hq.kind
      · exact ne_of_starts hx rfl hc.kind

/-- Each of the choices of `Dialect` makes a difference: a template as an expression statement
and an index without arguments are documented and not read, and an empty island is read and
not documented. -/
theorem grammars_differ :
    ((∃ m, IsProgram .documented "t" "<|a|>;" m) ∧ ∀ m, parseModule "t" "<|a|>;" ≠ .ok m) ∧
      ((∃ m, IsProgram .documented "t" "a[];" m) ∧ ∀ m, parseModule "t" "a[];" ≠ .ok m) ∧
      (∃ m, parseModule "t" "<|$ $|>" = .ok m) ∧ ¬ ∃ m, IsProgram .documented "t" "<|$ $|>" m := by
  have template : scan "t" "<|a|>;" = ⟨[⟨.punct .openTemplate, ⟨some "t", 1, 1⟩, []⟩,
      ⟨.text "a", ⟨some "t", 1, 3⟩, "a"⟩, ⟨.punct .closeTemplate, ⟨some "t", 1, 4⟩, "|>"⟩,
      ⟨.punct .semi, ⟨some "t", 1, 6⟩, []⟩] ++ [⟨.eof, ⟨some "t", 1, 7⟩, []⟩], none⟩ := by cbv
  have index : scan "t" "a[];" = ⟨[⟨.ident "a", ⟨some "t", 1, 1⟩, "a"⟩,
      ⟨.punct .lbrack, ⟨some "t", 1, 2⟩, []⟩, ⟨.punct .rbrack, ⟨some "t", 1, 3⟩, []⟩,
      ⟨.punct .semi, ⟨some "t", 1, 4⟩, []⟩] ++ [⟨.eof, ⟨some "t", 1, 5⟩, []⟩], none⟩ := by cbv
  have island : scan "t" "<|$ $|>" = ⟨[⟨.punct .openTemplate, ⟨some "t", 1, 1⟩, []⟩,
      ⟨.punct .dollar, ⟨some "t", 1, 3⟩, "$"⟩, ⟨.punct .dollar, ⟨some "t", 1, 5⟩, []⟩,
      ⟨.punct .closeTemplate, ⟨some "t", 1, 6⟩, "|>"⟩] ++
      [⟨.eof, ⟨some "t", 1, 8⟩, []⟩], none⟩ := by cbv
  have refused {src : Bytes} (h : (parseModule "t" src).toOption.isNone = true) (m : Module) :
      parseModule "t" src ≠ .ok m := by
    intro hm
    rw [hm] at h
    cases h
  refine ⟨⟨⟨_, IsStmt.program template rfl (by intro h; cases h) (documented_template rfl rfl rfl rfl)⟩,
    refused (by decide +kernel)⟩,
    ⟨⟨_, IsStmt.program index rfl (by intro h; cases h) (documented_index rfl rfl rfl rfl)⟩,
    refused (by decide +kernel)⟩, ⟨_, parseModule_of_isProgram
      (IsStmt.program island rfl (by intro h; cases h) (accepted_emptyIsland rfl rfl rfl rfl))⟩, ?_⟩
  rintro ⟨m, ls, e, hs, -, hm⟩
  obtain ⟨hls, -⟩ := Scan.mk.inj (island.symm.trans hs)
  rw [← (List.append_inj' hls rfl).1] at hm
  refine documented_emptyIsland ?_ ?_ ?_ ?_ hm
  iterate 4 rfl

end Stencil
