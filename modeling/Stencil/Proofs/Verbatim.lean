import Stencil.Host.Basic
import Stencil.Proofs.Generation
import Stencil.Proofs.Printing
import Stencil.Proofs.Source.Templates
import Stencil.Proofs.Syntax.Language

/-!
# Verbatim text

What stands in a template is written as it stands there. The text of a template may hold anything
but its closing mark, if every dollar sign in it is doubled; numbers may stand in islands between
texts. `verbatim_written` follows such a program from its characters to what its run writes.
-/

namespace Stencil

/-! ### Statements that only write -/

/-- Statements that write texts and numbers, and what they write. -/
inductive VerbatimStmts : List Stmt → Bytes → Prop where
  | nil : VerbatimStmts [] []
  | text {p x sts y} : VerbatimStmts sts y → VerbatimStmts (.text p x :: sts) (x ++ y)
  | number {p q raw n sts y} : VerbatimStmts sts y →
      VerbatimStmts (.output p [.literal q raw (.int n)] :: sts) (Bytes.ofInt n.toInt ++ y)

namespace VerbatimStmts

variable {sts : List Stmt} {text : Bytes}

theorem findings (h : VerbatimStmts sts text) (s : Surroundings) : stmtsFindings s sts = [] := by
  induction h with
  | nil => rfl
  | text _ ih => rw [stmtsFindings, ih]; rfl
  | number _ ih => rw [stmtsFindings, ih]; rfl

theorem declares (h : VerbatimStmts sts text) : sts.flatMap Stmt.declares = [] := by
  induction h with
  | nil => rfl
  | text _ ih | number _ ih => rw [List.flatMap_cons, ih]; rfl

theorem names (h : VerbatimStmts sts text) (p e : Position) (isTemplate : Bool) :
    Block.names (.mk p sts e isTemplate) = [] := by
  rw [Block.names, Block.scope, Block.declares, Block.stmts, h.declares]
  rfl

variable [Host] {call : Callback} {fuel : Nat} {act : Activation}

/-- Their code prints what they write. -/
theorem printInOrder (h : VerbatimStmts sts text) (env : LowerEnv) (n : Numbering) :
    PrintInOrder call fuel act ((stmtItems env sts n).map (·.noted env.debug)) text := by
  induction h generalizing n with
  | nil => exact .nil
  | @text p x _ _ _ ih =>
    rw [stmtItems, List.map_cons]
    refine .cons ?_ (ih _)
    exact Code.Prints.noted (prints_write x) env.debug _
  | @number p q raw k _ _ _ ih =>
    rw [stmtItems, List.map_cons]
    refine .cons (Code.Prints.noted ?_ env.debug _) (ih _)
    have houtput : outputCode (noteAt env.debug q (.constant (.int k))) =
        contextCode .write [.constant (.string (Bytes.ofInt k.toInt))] := by
      unfold outputCode
      rw [unwrap_noteAt]
      rfl
    show (outputCode (noteAt env.debug q (.constant (.int k)))).Prints _ _ _ _
    rw [houtput]
    exact prints_write _

/-- A block of them prints what they write. -/
theorem prints (h : VerbatimStmts sts text) (p e : Position) (isTemplate : Bool) (env : LowerEnv)
    (n : Numbering) :
    (Block.lower env (.mk p sts e isTemplate) n).Prints call fuel act text := by
  rw [Block.lower, h.names]
  exact (h.printInOrder (env.within []) (n.declare 0)).block

end VerbatimStmts

/-- A module that is a block of such statements. -/
def verbatimModule (file : Bytes) (p : Position) (sts : List Stmt) (e q : Position) : Module :=
  ⟨file, [], [], [], [.block (.mk p sts e true)], q⟩

/-- Nothing is wrong with it, whatever is predeclared. -/
theorem VerbatimStmts.diagnose {sts : List Stmt} {text : Bytes} (h : VerbatimStmts sts text)
    (file : Bytes) (p e q : Position) {opts : Options} (hload : opts.load = []) :
    (verbatimModule file p sts e q).diagnose opts.resolveEnv = [] := by
  have hloaded : (verbatimModule file p sts e q).loaded opts.resolveEnv = ([], []) := by
    simp [Module.loaded, Module.loadNames, Options.resolveEnv, hload, verbatimModule]
  have hscope : (Block.mk p sts e true).scope = ({}, []) := by
    rw [Block.scope, Block.declares, Block.stmts, h.declares]
    rfl
  have hfindings : ((verbatimModule file p sts e q).findings opts.resolveEnv).2 =
      [.region (Block.mk p sts e true).span "StatementBlock" 1 false {}] := by
    rw [Module.findings, hloaded]
    simp only [verbatimModule, stmtsFindings, Stmt.findings, Block.findings, hscope, h.findings]
    rfl
  have hnone (pass : Pass) : problemsOf pass
      [.region (Block.mk p sts e true).span "StatementBlock" 1 false {}] = [] := rfl
  rw [Module.diagnose, hfindings]
  simp only [hnone, List.append_nil]
  simp [Diagnostic.sort]

/-- The code of the module prints what the statements write. -/
theorem VerbatimStmts.prints_module [Host] {call : Callback} {fuel : Nat} {act : Activation}
    {sts : List Stmt} {text : Bytes} (h : VerbatimStmts sts text) (file : Bytes) (p e q : Position)
    (env : LowerEnv) :
    ((verbatimModule file p sts e q).lower env).body.Prints call fuel act text := by
  have hbody := @VerbatimStmts.prints sts text _ call fuel act h p e true
    { env with owner := 0, ownerName := contextVariable.ownerName } .start
  have hblock := hbody.noted env.debug p
  have hitems := PrintInOrder.cons hblock (.cons prints_empty .nil)
  rw [List.append_nil, List.append_nil] at hitems
  exact hitems.block

/-! ### Templates of texts and numbers -/

/-- The islands of a template with the texts that follow them. -/
def islandChars (islands : List (Nat × List Char)) : List Char :=
  islands.flatMap fun i => '$' :: (Nat.toDigits 10 i.1 ++ '$' :: doubleDollars i.2)

/-- What is written for the islands and the texts that follow them. -/
def islandText (islands : List (Nat × List Char)) : Bytes :=
  islands.flatMap fun i => Bytes.ofNat i.1 ++ Bytes.ofChars i.2

/-- The source text of a template of texts and numbers. -/
def verbatimSource (s : List Char) (islands : List (Nat × List Char)) : Bytes :=
  Bytes.ofChars ('<' :: '|' :: (doubleDollars s ++ (islandChars islands ++ ['|', '>'])))

/-- A text that a template can hold. -/
def IsHeld (s : List Char) : Prop := ¬ ['|', '>'] <:+: s

/-- Numbers that can be written in an island, and texts that can follow. -/
def AreHeld (islands : List (Nat × List Char)) : Prop :=
  ∀ i ∈ islands, i.1 < 2 ^ 63 ∧ IsHeld i.2

theorem ofInt_of_lt {n : Nat} (h : n < 2 ^ 63) :
    Bytes.ofInt (Int64.ofInt n).toInt = Bytes.ofNat n := by
  have hn : (Int64.ofInt n).toInt = n := Int64.toInt_ofInt_of_le (by omega) (by omega)
  rw [hn, Bytes.ofInt, if_neg (Int.not_lt.2 (Int.natCast_nonneg n)), Int.natAbs_natCast]

/-- A text that may be empty, before the other pieces of a template. -/
theorem textLexemes_body {ls : List Lexeme} {sts : List Stmt} {x : Bytes}
    (h : IsTemplateBody .accepted ls sts) (hv : VerbatimStmts sts x) (p : Position)
    (cs : List Char) : ∃ sts', IsTemplateBody .accepted (textLexemes p cs ++ ls) sts' ∧
      VerbatimStmts sts' (Bytes.ofChars cs ++ x) := by
  unfold textLexemes
  split
  · rename_i hcs
    subst hcs
    exact ⟨sts, h, hv⟩
  · exact ⟨_, .text rfl h, hv.text⟩

theorem stopsText_islands (islands : List (Nat × List Char)) :
    StopsText ((islandChars islands ++ ['|', '>']).map .char) := by
  cases islands with
  | nil => exact .close []
  | cons i islands =>
    refine .dollar ?_
    obtain ⟨c, cs, hc⟩ := List.exists_cons_of_ne_nil (isDigits_toDigits i.1).1
    have hdigit : Decimal.isDigit c = true := (isDigits_toDigits i.1).2 c (hc ▸ List.mem_cons_self)
    rw [hc]
    intro hdollar
    cases hdollar
    cases hdigit

/-- The islands of a template are read up to its closing mark. -/
theorem lexes_islands (islands : List (Nat × List Char)) (h : AreHeld islands) (p : Position) :
    ∃ ls c e sts, Lexes ⟨(islandChars islands ++ ['|', '>']).map .char, p, [.template, .code]⟩
        ⟨ls ++ [c, e], none⟩ ∧ c.Is .closeTemplate ∧ e.token = .eof ∧
      IsTemplateBody .accepted ls sts ∧ VerbatimStmts sts (islandText islands) := by
  induction islands generalizing p with
  | nil =>
    exact ⟨[], _, _, [], (Lexes.eof rfl rfl : Lexes ⟨[], p.right 2, [.code]⟩ _).close, rfl, rfl,
      .nil, .nil⟩
  | cons i islands ih =>
    obtain ⟨n, t⟩ := i
    obtain ⟨⟨hn, ht⟩, hislands⟩ := List.forall_mem_cons.1 h
    let q := (p.right 1).advanceAll ((Nat.toDigits 10 n).map .char)
    obtain ⟨ls, c, e, sts, hlex, hc, he, hbody, hv⟩ :=
      ih hislands ((q.right 1).advanceAll ((doubleDollars t).map .char))
    obtain ⟨sts', hbody', hv'⟩ := textLexemes_body hbody hv (q.right 1) t
    have htext := Lexes.text ht (stopsText_islands islands) hlex
    have hall := Lexes.island hn htext
    refine ⟨⟨.punct .dollar, p, "$"⟩ :: ⟨.int (Int64.ofInt n), p.right 1, Bytes.ofNat n⟩ ::
      ⟨.punct .dollar, q, []⟩ :: (textLexemes (q.right 1) t ++ ls), c, e,
      .output (p.right 1) [.literal (p.right 1) (Bytes.ofNat n) (.int (Int64.ofInt n))] :: sts',
      ?_, hc, he, ?_, ?_⟩
    · simpa [islandChars] using hall
    · have hexpr : IsExpr .accepted [⟨.int (Int64.ofInt n), p.right 1, Bytes.ofNat n⟩]
          (.literal (p.right 1) (Bytes.ofNat n) (.int (Int64.ofInt n))) :=
        (IsPrimary.literal rfl).expr
      have hisland := @IsIsland.output .accepted _ [] _ [] hexpr (by simp) .nil
      exact @IsTemplateBody.island .accepted ⟨.punct .dollar, p, "$"⟩ _ ⟨.punct .dollar, q, []⟩ _ _
        _ rfl hisland (by simp [Dialect.accepted]) rfl hbody'
    · have hnumber := @VerbatimStmts.number (p.right 1) (p.right 1) (Bytes.ofNat n) (Int64.ofInt n)
        _ _ hv'
      rw [ofInt_of_lt hn] at hnumber
      simpa [islandText] using hnumber

/-- The text is that of a module which writes what stands in the template. -/
theorem parse_verbatimSource (file : Bytes) {s : List Char} {islands : List (Nat × List Char)}
    (hs : IsHeld s) (hi : AreHeld islands) :
    ∃ p sts e q, parseModule file (verbatimSource s islands) =
        .ok (verbatimModule file p sts e q) ∧
      VerbatimStmts sts (Bytes.ofChars s ++ islandText islands) := by
  let p := Position.start file
  obtain ⟨ls, c, e, sts, hlex, hc, he, hbody, hv⟩ :=
    lexes_islands islands hi ((p.right 2).advanceAll ((doubleDollars s).map .char))
  obtain ⟨sts', hbody', hv'⟩ := textLexemes_body hbody hv (p.right 2) s
  have hall := (Lexes.text hs (stopsText_islands islands) hlex).open_
  have hscan : scan file (verbatimSource s islands) = ⟨⟨.punct .openTemplate, p, []⟩ ::
      (textLexemes (p.right 2) s ++ ls) ++ [c] ++ [e], none⟩ := by
    refine (scan_lexes file _).unique ?_
    have hpoint : ScanPoint.ofBytes file (verbatimSource s islands) =
        ⟨.char '<' :: .char '|' :: ((doubleDollars s).map .char ++
          (islandChars islands ++ ['|', '>']).map .char), p, [.code]⟩ := by
      rw [ScanPoint.ofBytes, verbatimSource, glyphs_ofChars]
      simp [p]
    rw [hpoint]
    simpa using hall
  have hstmt : IsStmt .accepted false (⟨.punct .openTemplate, p, []⟩ ::
      (textLexemes (p.right 2) s ++ ls) ++ [c]) (.block (.mk p sts' c.pos true)) :=
    .block (.template (.mk rfl hbody' hc))
  exact ⟨p, sts', c.pos, e.pos, parseModule_of_isProgram
    (IsStmt.program hscan he (by intro h; cases h) hstmt), hv'⟩

/-! ### What is written -/

/-- The source text compiles, and every program made of it writes the text, without an error, in
every context that can be written to and in which a function can be called. -/
def SourceWrites [Application] (file src : Bytes) (opts : Options) (stamp : Nat) (text : Bytes) :
    Prop :=
  ∃ f, compile file src opts stamp = .ok f ∧
    ∀ (p : Program) (fuel ctx : Nat) (s : Store) (before : Bytes), p.lambda = f →
      (s.context ctx).Callable → s.Shows ctx before →
        ∃ t, p.run fuel ctx s = .ok () t ∧ t.Shows ctx (before ++ text)

/-- A template of texts and numbers compiles to a program that writes them. -/
theorem verbatimSource_writes [Application] (file : Bytes) {s : List Char}
    {islands : List (Nat × List Char)} (hs : IsHeld s) (hi : AreHeld islands) {opts : Options}
    (hload : opts.load = []) (stamp : Nat) :
    SourceWrites file (verbatimSource s islands) opts stamp
      (Bytes.ofChars s ++ islandText islands) := by
  obtain ⟨p, sts, e, q, hparse, hv⟩ := parse_verbatimSource file hs hi
  have hcompile := (verbatimModule file p sts e q).compile_eq_lower
    (parseModule_noDefinitions hparse) (hv.diagnose file p e q hload) stamp
  refine ⟨_, by rw [compile, hparse]; exact hcompile, ?_⟩
  intro program fuel ctx store before hp hc hshows
  refine Program.run_prints ?_ ?_ (fun call fuel act => ?_) fuel hc hshows
  · rw [hp]
    rfl
  · rw [hp]
    rfl
  · rw [hp]
    exact hv.prints_module file p e q _

/-- **Verbatim text is written as it is.** A text without a closing mark, its dollar signs
doubled, between the marks of a template is a program that writes the text; with a number in an
island between two such texts, it writes one text, the number in decimal and the other text. -/
theorem verbatim_written [Application] (file : Bytes) {s t : List Char} {n : Nat}
    (hs : ¬ ['|', '>'] <:+: s) (ht : ¬ ['|', '>'] <:+: t) (hn : n < 2 ^ 63) {opts : Options}
    (hload : opts.load = []) (stamp : Nat) :
    SourceWrites file ("<|" ++ Bytes.ofChars (doubleDollars s) ++ "|>") opts stamp
        (Bytes.ofChars s) ∧
      SourceWrites file ("<|" ++ Bytes.ofChars (doubleDollars s) ++ "$" ++ Bytes.ofNat n ++ "$" ++
          Bytes.ofChars (doubleDollars t) ++ "|>") opts stamp
        (Bytes.ofChars s ++ Bytes.ofNat n ++ Bytes.ofChars t) := by
  have one := @verbatimSource_writes _ file s [] hs (by simp [AreHeld]) opts hload stamp
  have two := @verbatimSource_writes _ file s [(n, t)] hs
    (by simpa [AreHeld] using ⟨hn, ht⟩) opts hload stamp
  constructor
  · simpa [verbatimSource, islandChars, islandText, ofString_eq_ofChars, Bytes.ofChars] using one
  · simpa [verbatimSource, islandChars, islandText, ofString_eq_ofChars, ofNat_eq_ofChars,
      Bytes.ofChars] using two

/-- Bars, angle brackets and dollar signs beside the marks. -/
theorem verbatim_written_bars :
    let text := Bytes.ofString "|$12>$\n<|"
    ∃ f, compile [] "<||$$$12$>$$\n<||>" {} 0 = .ok f ∧ ∀ fuel,
      let p : Program := ⟨[], [], 0, f⟩
      let s : Store := { units := #[f.lambdas], contexts := #[{ sink := some 0 }],
                         sinks := #[.collect []] }
      ∃ t, @Program.run standalone fuel p 0 s = .ok () t ∧ t.Shows 0 text := by
  intro text
  obtain ⟨-, f, hf, hrun⟩ := @verbatim_written standalone [] ['|', '$'] ['>', '$', '\n', '<', '|'] 12
    (by decide) (by decide) (by decide) {} rfl 0
  have hsource : Bytes.ofString "<|" ++ Bytes.ofChars (doubleDollars ['|', '$']) ++ "$" ++
      Bytes.ofNat 12 ++ "$" ++ Bytes.ofChars (doubleDollars ['>', '$', '\n', '<', '|']) ++ "|>" =
      "<||$$$12$>$$\n<||>" := by decide_cbv
  have htext : Bytes.ofChars ['|', '$'] ++ Bytes.ofNat 12 ++
      Bytes.ofChars ['>', '$', '\n', '<', '|'] = text := by decide +kernel
  rw [hsource] at hf
  rw [htext] at hrun
  refine ⟨f, hf, fun fuel => ?_⟩
  exact hrun ⟨[], [], 0, f⟩ fuel 0 _ [] rfl ⟨rfl, Nat.zero_lt_succ 1999⟩
    (@Store.Shows.collected _ 0 0 [] rfl rfl rfl)

end Stencil
