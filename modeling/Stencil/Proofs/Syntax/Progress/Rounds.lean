import Stencil.Proofs.Source.Progress
import Stencil.Proofs.Syntax.Lexemes

/-!
# Readers that come to an end, and the rounds of the loops

`Halts file s p P` says that the reader `p` comes to an end on the lexemes `s`: with a value and
with lexemes left of which `P` holds, or with an error that has a position in the file and is not
that the bound on the depth of recursion was reached. For each way to build a reader there is a
lemma.

Each loop of the parser is then taken apart into its rounds: what one round reads, and whether
another one follows. `Loop` lists the loops with their rounds; each of them is the loop of its
rounds (`Loop.eq`). If every round takes a lexeme or is the last one, the loop comes to an end
(`Halts.next`).
-/

namespace Stencil

/-- The lexemes have positions in the file. Unless they break off with an error, which has one too,
the end of the file is the last of them. -/
structure TokenStream.Placed (file : Bytes) (s : TokenStream) : Prop where
  lexemes : ∀ l ∈ s.lexemes, l.pos.InFile file
  fault : ∀ e, s.fault = some e → e.Placed file
  ended : s.Ended

theorem TokenStream.Placed.current {file : Bytes} {s : TokenStream} (h : s.Placed file) :
    s.current.pos.InFile file := h.lexemes _ List.mem_cons_self

/-- What follows the lexeme at hand. -/
theorem TokenStream.Placed.tail {file : Bytes} {l l' : Lexeme} {rest : List Lexeme}
    {fault : Option SyntaxError} (h : TokenStream.Placed file ⟨l, l' :: rest, fault⟩) :
    TokenStream.Placed file ⟨l', rest, fault⟩ := by
  refine ⟨fun k hk => h.lexemes k (List.mem_cons_of_mem l hk), h.fault, fun hfault => ?_⟩
  obtain ⟨k, hlast, hk⟩ := h.ended hfault
  exact ⟨k, by rwa [TokenStream.lexemes, List.getLast?_cons_cons] at hlast, hk⟩

/-- The stream of a text. -/
theorem placed_of_scan {file src : Bytes} {s : TokenStream}
    (h : scan file src = ⟨s.lexemes, s.fault⟩) : s.Placed file := by
  have hplaced := scan_placed file src
  have hclosed := scan_closed file src
  rw [h] at hplaced hclosed
  exact ⟨hplaced.lexemes, hplaced.fault, hclosed.ended_stream⟩

namespace Parser

open TokenStream

variable {α β σ : Type}

/-- How a run comes to an end: as `P` says, or with an error at a position. -/
inductive Ends (file : Bytes) (P : α → TokenStream → Prop) :
    Except SyntaxError (α × TokenStream) → Prop where
  | ok {a s} : s.Placed file → P a s → Ends file P (.ok (a, s))
  | error {e : SyntaxError} : e.Placed file → Ends file P (.error e)

/-- The reader comes to an end on the stream. -/
def Halts (file : Bytes) (s : TokenStream) (p : Parser α) (P : α → TokenStream → Prop) : Prop :=
  Ends file P (StateT.run p s)

/-- The reader comes to an end and leaves fewer than `N` lexemes after the one at hand. -/
def Shrinks (file : Bytes) (N : Nat) (s : TokenStream) (p : Parser α) : Prop :=
  Halts file s p fun _ s' => s'.rest.length < N

section

variable {file : Bytes} {s : TokenStream} {p : Parser α} {f : α → Parser β} {N M : Nat}
variable {P P' : α → TokenStream → Prop} {Q : β → TokenStream → Prop}

theorem Halts.bind (h : Halts file s p P)
    (hf : ∀ a s₁, s₁.Placed file → P a s₁ → Halts file s₁ (f a) Q) : Halts file s (p >>= f) Q := by
  unfold Halts at h ⊢
  rw [run_bind_eq]
  generalize StateT.run p s = r at h
  cases h with
  | ok hs hP => exact hf _ _ hs hP
  | error he => exact .error he

theorem Halts.mono (h : Halts file s p P) (hP : ∀ a s', P a s' → P' a s') : Halts file s p P' := by
  unfold Halts at h ⊢
  generalize StateT.run p s = r at h
  cases h with
  | ok hs hP' => exact .ok hs (hP _ _ hP')
  | error he => exact .error he

theorem Shrinks.mono (h : Shrinks file M s p) (hM : M ≤ N) : Shrinks file N s p :=
  Halts.mono h fun _ _ hlt => Nat.lt_of_lt_of_le hlt hM

theorem halts_pure (hs : s.Placed file) {a : α} (h : P a s) : Halts file s (pure a) P := .ok hs h

theorem halts_refuse (hs : s.Placed file) {cause : SyntaxCause} (hcause : cause ≠ .nestingLimit) :
    Halts file s (refuse cause : Parser α) P := .error ⟨hs.current, hcause⟩

/-- Looking at the lexeme at hand leaves the stream as it is. -/
theorem halts_peek {f : TokenKind → Parser β} (h : Halts file s (f s.current.token.kind) Q) :
    Halts file s (peek >>= f) Q := h

theorem halts_token {f : Token → Parser β} (h : Halts file s (f s.current.token) Q) :
    Halts file s (token >>= f) Q := h

theorem halts_here {f : Position → Parser β} (h : Halts file s (f s.current.pos) Q) :
    Halts file s (here >>= f) Q := h

theorem halts_get {f : TokenStream → Parser β} (h : Halts file s (f s) Q) :
    Halts file s ((get : Parser TokenStream) >>= f) Q := h

theorem halts_sees {m : Punct} {a b : Parser β}
    (ha : s.current.token.kind = .punct m → Halts file s a Q) (hb : Halts file s b Q) :
    Halts file s (sees m >>= fun c => if c = true then a else b) Q := by
  refine halts_peek (f := fun k => if decide (k = .punct m) = true then a else b) ?_
  split
  · rename_i h
    exact ha (of_decide_eq_true h)
  · exact hb

theorem halts_seesWord {k : Keyword} {a b : Parser β}
    (ha : s.current.token.kind = .keyword k → Halts file s a Q) (hb : Halts file s b Q) :
    Halts file s (seesWord k >>= fun c => if c = true then a else b) Q := by
  refine halts_peek (f := fun k' => if decide (k' = .keyword k) = true then a else b) ?_
  split
  · rename_i h
    exact ha (of_decide_eq_true h)
  · exact hb

theorem Halts.discard {f : Unit → Parser β} (h : Halts file s (p >>= fun _ => f ()) Q) :
    Halts file s (Functor.discard p >>= f) Q := by
  change Halts file s ((p >>= fun _ => pure ()) >>= f) Q
  simpa only [bind_assoc, pure_bind] using h

/-! Moving on. -/

/-- Before the end of the file, moving on takes a lexeme, or comes to the error. -/
theorem shrinks_advance (hs : s.Placed file) (hne : s.current.token.kind ≠ .eof) :
    Shrinks file s.rest.length s advance := by
  obtain ⟨l, rest, fault⟩ := s
  cases rest with
  | cons l' rest => exact .ok hs.tail (Nat.lt_succ_self _)
  | nil =>
    cases fault with
    | some e => exact .error (hs.fault e rfl)
    | none =>
      obtain ⟨k, hlast, hk⟩ := hs.ended rfl
      obtain rfl : l = k := by simpa [TokenStream.lexemes] using hlast
      exact absurd (Token.kind_eq_eof.2 hk) hne

/-- Moving on never gives lexemes back. -/
theorem shrinks_advance_succ (hs : s.Placed file) : Shrinks file (s.rest.length + 1) s advance := by
  by_cases hne : s.current.token.kind = .eof
  · obtain ⟨l, rest, fault⟩ := s
    cases rest with
    | cons l' rest => exact .ok hs.tail (Nat.lt_succ_of_lt (Nat.lt_succ_self _))
    | nil =>
      cases fault with
      | some e => exact .error (hs.fault e rfl)
      | none => exact .ok hs (Nat.lt_succ_self _)
  · exact (shrinks_advance hs hne).mono (Nat.le_succ _)

theorem shrinks_consume (hs : s.Placed file) {k : TokenKind} (hk : k ≠ .eof) :
    Shrinks file s.rest.length s (consume k) := by
  rw [consume]
  refine halts_peek ?_
  split
  · rename_i h
    exact shrinks_advance hs (h ▸ hk)
  · exact halts_refuse hs (by simp)

theorem shrinks_mark (hs : s.Placed file) (m : Punct) : Shrinks file s.rest.length s (mark m) :=
  shrinks_consume hs (by simp)

theorem shrinks_ident (hs : s.Placed file) : Shrinks file s.rest.length s ident := by
  rw [ident]
  refine halts_token ?_
  split
  · rename_i n hn
    refine (shrinks_advance hs (by simp [hn, Token.kind])).bind fun p s₁ h₁ hlt₁ => ?_
    exact halts_pure h₁ hlt₁
  · exact halts_refuse hs (by simp)

theorem shrinks_semi (hs : s.Placed file) : Shrinks file (s.rest.length + 1) s semi := by
  rw [semi]
  refine halts_sees (fun _ => halts_pure hs (Nat.lt_succ_self _)) ?_
  change Halts file s (mark .semi >>= fun _ => pure ()) _
  refine (shrinks_mark hs .semi).bind fun p s₁ h₁ hlt₁ => ?_
  exact halts_pure h₁ (Nat.lt_succ_of_lt hlt₁)

/-- The end of a statement. -/
theorem shrinks_end (hs : s.Placed file) (hN : s.rest.length < N) (a : α) :
    Shrinks file N s (semi >>= fun _ => pure a) :=
  (shrinks_semi hs).bind fun _ s₁ h₁ hlt₁ => halts_pure h₁ (by omega)

end

/-! ### Loops -/

/-- What a round of a loop comes to: the next round, or the end of the loop. -/
inductive Round (σ β : Type) where
  | again (x : σ)
  | done (b : β)

/-- Go on with the next round, if there is one. -/
def Round.next (k : σ → Parser β) : Round σ β → Parser β
  | .again x => k x
  | .done b => pure b

/-- One round after the other. -/
def loop (round : Nat → σ → Parser (Round σ β)) : Nat → σ → Parser β
  | 0, _ => refuse .nestingLimit
  | n + 1, x => round n x >>= Round.next (loop round n)

/-- A round takes a lexeme, or it is the last one and leaves fewer than `M`. -/
def Round.Takes (N M : Nat) : Round σ β → TokenStream → Prop
  | .again _, s => s.rest.length < N
  | .done _, s => s.rest.length < M

/-- Every round of the loop, on any lexemes, takes one of them, or is the last one and gives none
back, or fails at a position. -/
def Progresses (file : Bytes) (round : Nat → σ → Parser (Round σ β)) : Prop :=
  ∀ s n x, TokenStream.Placed file s → 16 * s.rest.length + 16 ≤ n →
    Halts file s (round n x) fun r s' => r.Takes s.rest.length (s.rest.length + 1) s'

section

variable {file : Bytes} {s : TokenStream} {M : Nat}

/-- A round, and then the rest of the loop on fewer lexemes. -/
theorem Halts.next {r : Parser (Round σ β)} {k : σ → Parser β}
    (h : Halts file s r fun r s' => r.Takes s.rest.length M s')
    (hk : ∀ x s₁, s₁.Placed file → s₁.rest.length < s.rest.length → Shrinks file M s₁ (k x)) :
    Shrinks file M s (r >>= Round.next k) := by
  refine h.bind fun r s₁ h₁ htakes => ?_
  cases r with
  | again x => exact hk x s₁ h₁ htakes
  | done b => exact halts_pure h₁ htakes

/-- A reader that reads a round and then itself is the loop of these rounds. -/
theorem eq_loop {p : Nat → σ → Parser β} {round : Nat → σ → Parser (Round σ β)}
    (hzero : ∀ x, p 0 x = refuse .nestingLimit)
    (hsucc : ∀ n x, p (n + 1) x = round n x >>= Round.next (p n)) : p = loop round := by
  funext n
  induction n with
  | zero => exact funext hzero
  | succ n ih =>
    funext x
    rw [hsucc, ih]
    rfl

end

end Parser

/-! ### The rounds of the loops -/

namespace Parser

/-- A further segment of a dotted type name. -/
def typePathRound (_ : Nat) (x : Expr) : Parser (Round Expr Expr) := do
  if ← sees .dot then
    let dot ← advance
    let (p, name) ← ident
    return .again (.member x dot p name)
  else return .done x

/-- A parameter of a function. -/
def paramsRound (_ : Nat) (seen : List Param) : Parser (Round (List Param) (List Param)) := do
  if ← sees .rparen then return .done seen.reverse
  if !seen.isEmpty then discard (mark .comma)
  let (p, name) ← ident
  return .again (⟨p, name⟩ :: seen)

/-- An operator that binds tightly enough, and its second operand. -/
def binaryRound (level n : Nat) (x : Expr) : Parser (Round Expr Expr) := do
  match binaryOp? (← peek) with
  | none => return .done x
  | some op =>
    if op.level < level then return .done x
    let p ← advance
    let y ← binary n (op.level + 1)
    return .again (.binary x p op y)

/-- A member access, a call of a method or an index. -/
def selectorsRound (n : Nat) (x : Expr) : Parser (Round Expr Expr) := do
  match ← peek with
  | .punct .dot => do
    let dot ← advance
    let (p, name) ← ident
    if ← sees .lparen then
      let l ← advance
      let args ← args n .rparen []
      let r ← advance
      return .again (.method x dot p name l args r)
    else return .again (.member x dot p name)
  | .punct .lbrack => do
    let l ← advance
    if ← sees .rbrack then refuse .emptyIndex
    let args ← args n .rbrack []
    let r ← advance
    return .again (.index x l args r)
  | _ => return .done x

/-- An argument before the closing mark. -/
def argsRound (closing : Punct) (n : Nat) (seen : List Expr) :
    Parser (Round (List Expr) (List Expr)) := do
  if ← sees closing then return .done seen.reverse
  if !seen.isEmpty then discard (mark .comma)
  let x ← expr n
  return .again (x :: seen)

/-- An expression of a list, and the comma after it. -/
def exprListRound (n : Nat) (seen : List Expr) : Parser (Round (List Expr) (List Expr)) := do
  let x ← expr n
  if ← sees .comma then
    discard advance
    return .again (x :: seen)
  else return .done (x :: seen).reverse

/-- A text or an island of a template. -/
def templateRound (n : Nat) (seen : List Stmt) : Parser (Round (List Stmt) (List Stmt)) := do
  match ← token with
  | .text s => do
    let p ← advance
    return .again (.text p s :: seen)
  | .punct .dollar => do
    discard advance
    let stmts ← island n []
    discard advance
    return .again (stmts.reverse ++ seen)
  | .punct .closeTemplate => return .done seen.reverse
  | t => refuse (.unclosedTemplate t.kind)

/-- A statement of an island. -/
def islandRound (n : Nat) (seen : List Stmt) : Parser (Round (List Stmt) (List Stmt)) := do
  if ← sees .dollar then return .done seen.reverse
  let s ← islandStmt n
  return .again (s :: seen)

/-- A statement of a block. -/
def stmtsRound (n : Nat) (seen : List Stmt) : Parser (Round (List Stmt) (List Stmt)) := do
  match ← peek with
  | .punct .rbrace => return .done seen.reverse
  | .eof => refuse (.expected .eof (.punct .rbrace))
  | _ => do
    let s ← stmt n
    return .again (s :: seen)

/-- The definition of a variable, and the comma after it. -/
def varDefsRound (n : Nat) (seen : List VarDef) : Parser (Round (List VarDef) (List VarDef)) := do
  let (p, name) ← ident
  let init ← if ← sees .assign then do
      discard advance
      pure (some (← expr n))
    else pure none
  let seen := .mk p name init :: seen
  if ← sees .comma then
    discard advance
    return .again seen
  else
    semi
    return .done seen.reverse

/-- A statement after a case label. -/
def caseStmtsRound (n : Nat) (seen : List Stmt) : Parser (Round (List Stmt) (List Stmt)) := do
  match ← peek with
  | .keyword .caseWord | .keyword .defaultWord | .punct .rbrace => return .done seen.reverse
  | _ => do
    let s ← stmt n
    return .again (s :: seen)

/-- An arm of a switch. -/
def switchRound (n : Nat) (seen : List SwitchCase × Option Block) :
    Parser (Round (List SwitchCase × Option Block) (List SwitchCase × Option Block)) := do
  match ← peek with
  | .punct .rbrace => return .done (seen.1.reverse, seen.2)
  | .keyword .caseWord => do
    if seen.2.isSome then refuse .caseAfterDefault
    let p ← advance
    let values ← exprList n []
    let body ← caseBody n
    return .again (.mk p values body :: seen.1, seen.2)
  | .keyword .defaultWord => do
    if seen.2.isSome then refuse .secondDefault
    discard advance
    let body ← caseBody n
    return .again (seen.1, some body)
  | k => refuse (.expectedCase k)

/-- An item of a module. -/
def moduleRound (n : Nat) (m : Module) : Parser (Round Module Module) := do
  match ← peek with
  | .eof => return .done { m with endPos := ← here }
  | .keyword .loadWord => do
    let l ← load
    return .again { m with loads := m.loads ++ [l] }
  | .keyword .functionWord => do
    let f ← function n
    return .again { m with functions := m.functions ++ [f] }
  | .keyword .defWord => do
    let p ← advance
    let vars ← varDefs n []
    return .again { m with defs := m.defs ++ [⟨p, vars⟩] }
  | _ => do
    let s ← stmt n
    return .again { m with stmts := m.stmts ++ [s] }

/-- The loops of the parser, each with its rounds. -/
inductive Loop : {σ β : Type} → (Nat → σ → Parser β) → (Nat → σ → Parser (Round σ β)) → Prop where
  | typePath : Loop typePath typePathRound
  | params : Loop params paramsRound
  | binary (level : Nat) : Loop (fun n => binaryRest n level) (binaryRound level)
  | selectors : Loop selectors selectorsRound
  | args (closing : Punct) : Loop (fun n => args n closing) (argsRound closing)
  | exprList : Loop exprList exprListRound
  | template : Loop templateBody templateRound
  | island : Loop island islandRound
  | stmts : Loop stmts stmtsRound
  | varDefs : Loop varDefs varDefsRound
  | caseStmts : Loop caseStmts caseStmtsRound
  | switch : Loop (fun n seen => switchArms n seen.1 seen.2) switchRound
  | module : Loop moduleItems moduleRound

section

variable (n : Nat)

theorem refuse_bind {α β : Type} (cause : SyntaxCause) (f : α → Parser β) :
    refuse cause >>= f = refuse cause := rfl

theorem typePath_succ (x : Expr) :
    typePath (n + 1) x = typePathRound n x >>= Round.next (typePath n) := by
  rw [typePath, typePathRound, bind_assoc]
  refine bind_congr fun c => ?_
  split <;> simp [Round.next]

theorem params_succ (seen : List Param) :
    params (n + 1) seen = paramsRound n seen >>= Round.next (params n) := by
  rw [params, paramsRound, bind_assoc]
  refine bind_congr fun c => ?_
  split
  · simp [Round.next]
  · dsimp only
    split <;> simp [Round.next]

theorem binaryRest_succ (level : Nat) (x : Expr) :
    binaryRest (n + 1) level x = binaryRound level n x >>= Round.next (binaryRest n level) := by
  rw [binaryRest, binaryRound, bind_assoc]
  refine bind_congr fun k => ?_
  cases binaryOp? k with
  | none => simp [Round.next]
  | some op =>
    dsimp only
    split <;> simp [Round.next]

theorem selectors_succ (x : Expr) :
    selectors (n + 1) x = selectorsRound n x >>= Round.next (selectors n) := by
  rw [selectors, selectorsRound, bind_assoc]
  refine bind_congr fun k => ?_
  split
  · simp only [bind_assoc]
    refine bind_congr fun dot => bind_congr fun name => bind_congr fun c => ?_
    split <;> simp [Round.next]
  · simp only [bind_assoc]
    refine bind_congr fun l => bind_congr fun c => ?_
    split <;> simp [Round.next]
  · simp [Round.next]

theorem args_succ (closing : Punct) (seen : List Expr) :
    args (n + 1) closing seen = argsRound closing n seen >>= Round.next (args n closing) := by
  rw [args, argsRound, bind_assoc]
  refine bind_congr fun c => ?_
  split
  · simp [Round.next]
  · dsimp only
    split <;> simp [Round.next]

theorem exprList_succ (seen : List Expr) :
    exprList (n + 1) seen = exprListRound n seen >>= Round.next (exprList n) := by
  rw [exprList, exprListRound, bind_assoc]
  refine bind_congr fun x => ?_
  rw [bind_assoc]
  refine bind_congr fun c => ?_
  split <;> simp [Round.next]

theorem templateBody_succ (seen : List Stmt) :
    templateBody (n + 1) seen = templateRound n seen >>= Round.next (templateBody n) := by
  rw [templateBody, templateRound, bind_assoc]
  refine bind_congr fun t => ?_
  split <;> simp [Round.next, refuse_bind]

theorem island_succ (seen : List Stmt) :
    island (n + 1) seen = islandRound n seen >>= Round.next (island n) := by
  rw [island, islandRound, bind_assoc]
  refine bind_congr fun c => ?_
  split <;> simp [Round.next]

theorem stmts_succ (seen : List Stmt) :
    stmts (n + 1) seen = stmtsRound n seen >>= Round.next (stmts n) := by
  rw [stmts, stmtsRound, bind_assoc]
  refine bind_congr fun k => ?_
  split <;> simp [Round.next, refuse_bind]

theorem varDefs_succ (seen : List VarDef) :
    varDefs (n + 1) seen = varDefsRound n seen >>= Round.next (varDefs n) := by
  rw [varDefs, varDefsRound, bind_assoc]
  refine bind_congr fun name => ?_
  rw [bind_assoc]
  refine bind_congr fun c => ?_
  split <;> simp only [bind_assoc, pure_bind]
  · refine bind_congr fun _ => bind_congr fun x => bind_congr fun c => ?_
    split <;> simp [Round.next]
  · refine bind_congr fun c => ?_
    split <;> simp [Round.next]

theorem caseStmts_succ (seen : List Stmt) :
    caseStmts (n + 1) seen = caseStmtsRound n seen >>= Round.next (caseStmts n) := by
  rw [caseStmts, caseStmtsRound, bind_assoc]
  refine bind_congr fun k => ?_
  split <;> simp [Round.next]

theorem switchArms_succ (seen : List SwitchCase × Option Block) :
    switchArms (n + 1) seen.1 seen.2 =
      switchRound n seen >>= Round.next fun seen => switchArms n seen.1 seen.2 := by
  rw [switchArms, switchRound, bind_assoc]
  refine bind_congr fun k => ?_
  split
  · simp [Round.next]
  · split <;> simp [Round.next]
  · split <;> simp [Round.next]
  · simp [refuse_bind]

theorem moduleItems_succ (m : Module) :
    moduleItems (n + 1) m = moduleRound n m >>= Round.next (moduleItems n) := by
  rw [moduleItems, moduleRound, bind_assoc]
  refine bind_congr fun k => ?_
  split <;> simp [Round.next]

end

/-- Each loop is the loop of its rounds. -/
theorem Loop.eq {σ β : Type} {p : Nat → σ → Parser β} {round : Nat → σ → Parser (Round σ β)}
    (h : Loop p round) : p = loop round := by
  cases h with
  | typePath => exact eq_loop (fun _ => rfl) typePath_succ
  | params => exact eq_loop (fun _ => rfl) params_succ
  | binary level => exact eq_loop (fun _ => rfl) fun n => binaryRest_succ n level
  | selectors => exact eq_loop (fun _ => rfl) selectors_succ
  | args closing => exact eq_loop (fun _ => rfl) fun n => args_succ n closing
  | exprList => exact eq_loop (fun _ => rfl) exprList_succ
  | template => exact eq_loop (fun _ => rfl) templateBody_succ
  | island => exact eq_loop (fun _ => rfl) island_succ
  | stmts => exact eq_loop (fun _ => rfl) stmts_succ
  | varDefs => exact eq_loop (fun _ => rfl) varDefs_succ
  | caseStmts => exact eq_loop (fun _ => rfl) caseStmts_succ
  | switch => exact eq_loop (fun _ => rfl) switchArms_succ
  | module => exact eq_loop (fun _ => rfl) moduleItems_succ

end Parser

end Stencil
