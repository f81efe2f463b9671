import Stencil.Syntax.Parser

/-!
# The grammar

Which sequences of lexemes are an expression, a statement or a module, and which tree they
are written for. There is one inductive relation for each phrase of the grammar and one rule
for each of its alternatives; nothing here says how a text is read.

The grammar comes in two dialects. `Dialect.documented` is the grammar as it is written down;
`Dialect.accepted` is the language that is read. They differ in three choices only, the fields
of `Dialect`: what an index may hold, how an expression statement may start, and what an
island of a template may hold.

Binary operators are left-associative on nine levels, above the right-associative assignment
and below the unary operators; `IsLevel d k` are the expressions whose outermost operator
binds at least as tightly as level `k`, and those of level ten have no binary operator outside
of brackets.

Every alternative of the grammar is told by its first lexeme: `Starts P ls` says that `ls` is
not empty and starts with a token of the kinds `P`. `Continues` says which lexeme after an
expression would still belong to it.
-/

namespace Stencil

/-- The choices in which the documented grammar and the accepted language differ. -/
structure Dialect where
  /-- An index may hold no argument at all. -/
  emptyIndex : Bool
  /-- An expression statement may start with a template. -/
  leadingTemplate : Bool
  /-- An island holds any number of items, and statements in braces among them, and the last
  item may miss its semicolon. Otherwise it holds one item. -/
  freeIslands : Bool
  deriving DecidableEq, Repr

/-- The grammar as it is written down. -/
def Dialect.documented : Dialect := ⟨true, true, false⟩

/-- The grammar of the language that is read. -/
def Dialect.accepted : Dialect := ⟨false, false, true⟩

/-! ### Lexemes -/

/-- The lexeme is the given mark. -/
def Lexeme.Is (l : Lexeme) (p : Punct) : Prop := l.token = .punct p

/-- The lexeme is the given keyword. -/
def Lexeme.IsWord (l : Lexeme) (k : Keyword) : Prop := l.token = .keyword k

/-- The lexeme is the given name. -/
def Lexeme.Names (l : Lexeme) (n : Bytes) : Prop := l.token = .ident n

/-- The lexeme is the given binary operator. -/
def Lexeme.IsOperator (l : Lexeme) (op : BinaryOp) : Prop :=
  Parser.binaryOp? l.token.kind = some op

/-- The last of the lexemes is a name. -/
def EndsInName (ls : List Lexeme) : Prop := ∃ l n, ls.getLast? = some l ∧ l.Names n

/-- An expression written as `ls`, to which operators of at least the given level may be
added, would go on with the lexeme `next`. Assignment counts as level zero. -/
inductive Continues (level : Nat) (ls : List Lexeme) (next : Lexeme) : Prop where
  | member : next.Is .dot → Continues level ls next
  | index : next.Is .lbrack → Continues level ls next
  | call : next.Is .lparen → EndsInName ls → Continues level ls next
  | operator {op : BinaryOp} : next.IsOperator op → level ≤ op.level → Continues level ls next
  | assign : next.Is .assign → level = 0 → Continues level ls next

/-- The words a statement with a keyword of its own starts with. -/
def Keyword.startsStatement : Keyword → Bool
  | .defWord | .outWord | .returnWord | .ifWord | .whileWord | .forWord | .switchWord
  | .breakWord | .continueWord => true
  | _ => false

/-- What an item of an island starts with if it is not an expression. -/
def Lexeme.StartsItem (d : Dialect) (l : Lexeme) : Prop :=
  (∃ k, l.IsWord k ∧ k.startsStatement = true) ∨ (d.freeIslands = true ∧ l.Is .lbrace)

/-- The end of a simple statement: a semicolon, which may be missing if the statement is
`last` in an island. -/
inductive IsEnd (last : Bool) : List Lexeme → Prop where
  | semi {l : Lexeme} : l.Is .semi → IsEnd last [l]
  | missing : last = true → IsEnd last []

/-! ### Expressions and statements -/

/-- type = IDENT {'.' IDENT} -/
inductive IsTypeName : List Lexeme → Expr → Prop where
  | name {l n} : l.Names n → IsTypeName [l] (.name l.pos n)
  | member {ts dot l t n} : IsTypeName ts t → dot.Is .dot → l.Names n →
      IsTypeName (ts ++ [dot, l]) (.member t dot.pos l.pos n)

mutual

/-- expr = level₁ ['=' expr] -/
inductive IsExpr (d : Dialect) : List Lexeme → Expr → Prop where
  | level {ls x} : IsLevel d 1 ls x → IsExpr d ls x
  | assign {ls l ms x y} : IsLevel d 1 ls x → l.Is .assign → IsExpr d ms y →
      IsExpr d (ls ++ l :: ms) (.assign x l.pos y)

/-- levelₖ = levelₖ₊₁ | levelₖ opₖ levelₖ₊₁, level₁₀ = unary -/
inductive IsLevel (d : Dialect) : Nat → List Lexeme → Expr → Prop where
  | unary {ls x} : IsUnary d ls x → IsLevel d 10 ls x
  | up {k ls x} : IsLevel d (k + 1) ls x → IsLevel d k ls x
  | binary {op ls l ms x y} : IsLevel d op.level ls x → l.IsOperator op →
      IsLevel d (op.level + 1) ms y → IsLevel d op.level (ls ++ l :: ms) (.binary x l.pos op y)

/-- unary = ('!' | '-') unary | postfix -/
inductive IsUnary (d : Dialect) : List Lexeme → Expr → Prop where
  | not {l ls x} : l.Is .bang → IsUnary d ls x → IsUnary d (l :: ls) (.unary l.pos .not x)
  | negate {l ls x} : l.Is .minus → IsUnary d ls x → IsUnary d (l :: ls) (.unary l.pos .negate x)
  | operand {ls x} : IsPostfix d ls x → IsUnary d ls x

/-- postfix = primary | postfix '.' IDENT ['(' args ')'] | postfix '[' args ']' -/
inductive IsPostfix (d : Dialect) : List Lexeme → Expr → Prop where
  | primary {ls x} : IsPrimary d ls x → IsPostfix d ls x
  | member {ls dot l x n} : IsPostfix d ls x → dot.Is .dot → l.Names n →
      IsPostfix d (ls ++ [dot, l]) (.member x dot.pos l.pos n)
  | method {ls dot l lp as rp x n xs} : IsPostfix d ls x → dot.Is .dot → l.Names n →
      lp.Is .lparen → IsArgs d as xs → rp.Is .rparen →
      IsPostfix d (ls ++ dot :: l :: lp :: as ++ [rp])
        (.method x dot.pos l.pos n lp.pos xs rp.pos)
  | index {ls lb as rb x xs} : IsPostfix d ls x → lb.Is .lbrack → IsArgs d as xs →
      (d.emptyIndex = false → xs ≠ []) → rb.Is .rbrack →
      IsPostfix d (ls ++ lb :: as ++ [rb]) (.index x lb.pos xs rb.pos)

/-- primary = INT | FLOAT | STRING | 'true' | 'false' | 'null' | IDENT ['(' args ')']
| 'new' type '(' args ')' | '(' expr ')' | '[' args ']' | template -/
inductive IsPrimary (d : Dialect) : List Lexeme → Expr → Prop where
  | literal {l v} : Parser.literal? l.token = some v → IsPrimary d [l] (.literal l.pos l.raw v)
  | null {l} : l.IsWord .nullWord → IsPrimary d [l] (.null l.pos)
  | name {l n} : l.Names n → IsPrimary d [l] (.name l.pos n)
  | call {l lp as rp n xs} : l.Names n → lp.Is .lparen → IsArgs d as xs → rp.Is .rparen →
      IsPrimary d (l :: lp :: as ++ [rp]) (.call l.pos n lp.pos xs rp.pos)
  | new {l ts lp as rp t xs} : l.IsWord .newWord → IsTypeName ts t → lp.Is .lparen →
      IsArgs d as xs → rp.Is .rparen →
      IsPrimary d (l :: ts ++ lp :: as ++ [rp]) (.new l.pos t lp.pos xs rp.pos)
  | paren {lp ls rp x} : lp.Is .lparen → IsExpr d ls x → rp.Is .rparen →
      IsPrimary d (lp :: ls ++ [rp]) x
  | list {lb as rb xs} : lb.Is .lbrack → IsArgs d as xs → rb.Is .rbrack →
      IsPrimary d (lb :: as ++ [rb]) (.list lb.pos xs rb.pos)
  | template {ls b} : IsTemplate d ls b → IsPrimary d ls (.template b)

/-- args = [exprs] -/
inductive IsArgs (d : Dialect) : List Lexeme → List Expr → Prop where
  | none : IsArgs d [] []
  | some {ls xs} : IsExprs d ls xs → IsArgs d ls xs

/-- exprs = expr {',' expr} -/
inductive IsExprs (d : Dialect) : List Lexeme → List Expr → Prop where
  | one {ls x} : IsExpr d ls x → IsExprs d ls [x]
  | more {ls c ms x xs} : IsExpr d ls x → c.Is .comma → IsExprs d ms xs →
      IsExprs d (ls ++ c :: ms) (x :: xs)

/-- template = '<|' {TEXT | '$' island '$'} '|>' -/
inductive IsTemplate (d : Dialect) : List Lexeme → Block → Prop where
  | mk {o ls c sts} : o.Is .openTemplate → IsTemplateBody d ls sts → c.Is .closeTemplate →
      IsTemplate d (o :: ls ++ [c]) (.mk o.pos sts c.pos true)

/-- The pieces of a template. -/
inductive IsTemplateBody (d : Dialect) : List Lexeme → List Stmt → Prop where
  | nil : IsTemplateBody d [] []
  | text {l s ls sts} : l.token = .text s → IsTemplateBody d ls sts →
      IsTemplateBody d (l :: ls) (.text l.pos s :: sts)
  | island {o is c ls items sts} : o.Is .dollar → IsIsland d is items →
      (d.freeIslands = false → items.length = 1) → c.Is .dollar → IsTemplateBody d ls sts →
      IsTemplateBody d (o :: is ++ c :: ls) (items ++ sts)

/-- island = {expr | expr ';' | keyword-statement}. An expression without a semicolon, whose
value is written to the output, is read as far as it goes. -/
inductive IsIsland (d : Dialect) : List Lexeme → List Stmt → Prop where
  | nil : IsIsland d [] []
  | output {ls ms x sts} : IsExpr d ls x →
      (∀ l, ms.head? = some l → ¬ Continues 0 ls l ∧ ¬ l.Is .semi) → IsIsland d ms sts →
      IsIsland d (ls ++ ms) (.output x.start [x] :: sts)
  | expr {ls l ms x sts} : IsExpr d ls x → l.Is .semi → IsIsland d ms sts →
      IsIsland d (ls ++ l :: ms) (.expr x :: sts)
  | stmt {l ls ms st sts} : l.StartsItem d → IsStmt d false (l :: ls) st → IsIsland d ms sts →
      IsIsland d (l :: ls ++ ms) (st :: sts)
  | last {l ls st} : d.freeIslands = true → l.StartsItem d → IsStmt d true (l :: ls) st →
      IsIsland d (l :: ls) [st]

/-- block = '{' {stmt} '}' | template -/
inductive IsBlock (d : Dialect) : List Lexeme → Block → Prop where
  | braces {lb ls rb sts} : lb.Is .lbrace → IsStmts d ls sts → rb.Is .rbrace →
      IsBlock d (lb :: ls ++ [rb]) (.mk lb.pos sts rb.pos false)
  | template {ls b} : IsTemplate d ls b → IsBlock d ls b

/-- {stmt} -/
inductive IsStmts (d : Dialect) : List Lexeme → List Stmt → Prop where
  | nil : IsStmts d [] []
  | cons {ls ms st sts} : IsStmt d false ls st → IsStmts d ms sts → IsStmts d (ls ++ ms) (st :: sts)

/-- stmt = def | out | return | if | while | for | switch | break | continue | block
| expr ';'. A statement that is `last` in an island may miss its semicolon. -/
inductive IsStmt (d : Dialect) : Bool → List Lexeme → Stmt → Prop where
  | define {last l ls es vs} : l.IsWord .defWord → IsVarDefs d ls vs → IsEnd last es →
      IsStmt d last (l :: ls ++ es) (.define l.pos vs)
  | output {last l ls es xs} : l.IsWord .outWord → IsExprs d ls xs → IsEnd last es →
      IsStmt d last (l :: ls ++ es) (.output l.pos xs)
  | ret {last l es} : l.IsWord .returnWord → IsEnd last es → IsStmt d last (l :: es) (.ret l.pos none)
  | retValue {last l ls es x} : l.IsWord .returnWord → IsExpr d ls x → IsEnd last es →
      IsStmt d last (l :: ls ++ es) (.ret l.pos (some x))
  | cond {last ls st} : IsConditional d ls st → IsStmt d last ls st
  | loop {last l lp ls rp bs x b} : l.IsWord .whileWord → lp.Is .lparen → IsExpr d ls x →
      rp.Is .rparen → IsBlock d bs b →
      IsStmt d last (l :: lp :: ls ++ rp :: bs) (.loop l.pos x b)
  | each {last l lp v i ls fs rp bs ws n x filter b between} : l.IsWord .forWord →
      lp.Is .lparen → v.Names n → i.IsWord .inWord → IsExpr d ls x → IsFilter d fs filter →
      rp.Is .rparen → IsBlock d bs b → IsBetween d ws between →
      IsStmt d last (l :: lp :: v :: i :: ls ++ fs ++ rp :: bs ++ ws)
        (.each l.pos v.pos n x filter b between)
  | switch {last l lp ls rp lb as rb x cases dflt} : l.IsWord .switchWord → lp.Is .lparen →
      IsExpr d ls x → rp.Is .rparen → lb.Is .lbrace → IsArms d rb as cases dflt →
      rb.Is .rbrace →
      IsStmt d last (l :: lp :: ls ++ rp :: lb :: as ++ [rb]) (.switch l.pos x cases dflt rb.pos)
  | leave {last l es} : l.IsWord .breakWord → IsEnd last es → IsStmt d last (l :: es) (.leave l.pos)
  | again {last l es} : l.IsWord .continueWord → IsEnd last es →
      IsStmt d last (l :: es) (.again l.pos)
  | block {last ls b} : IsBlock d ls b → IsStmt d last ls (.block b)
  | expr {last l ls es x} : (d.leadingTemplate = false → ¬ l.Is .openTemplate) →
      IsExpr d (l :: ls) x → IsEnd last es → IsStmt d last (l :: ls ++ es) (.expr x)

/-- IDENT ['=' expr] {',' IDENT ['=' expr]} -/
inductive IsVarDefs (d : Dialect) : List Lexeme → List VarDef → Prop where
  | one {ls v} : IsVarDef d ls v → IsVarDefs d ls [v]
  | more {ls c ms v vs} : IsVarDef d ls v → c.Is .comma → IsVarDefs d ms vs →
      IsVarDefs d (ls ++ c :: ms) (v :: vs)

/-- IDENT ['=' expr] -/
inductive IsVarDef (d : Dialect) : List Lexeme → VarDef → Prop where
  | bare {l n} : l.Names n → IsVarDef d [l] (.mk l.pos n none)
  | init {l e ls n x} : l.Names n → e.Is .assign → IsExpr d ls x →
      IsVarDef d (l :: e :: ls) (.mk l.pos n (some x))

/-- if = 'if' '(' expr ')' block ['else' (if | block)] -/
inductive IsConditional (d : Dialect) : List Lexeme → Stmt → Prop where
  | one {l lp ls rp bs x b} : l.IsWord .ifWord → lp.Is .lparen → IsExpr d ls x → rp.Is .rparen →
      IsBlock d bs b → IsConditional d (l :: lp :: ls ++ rp :: bs) (.cond l.pos x b none)
  | two {l lp ls rp bs e cs x b c} : l.IsWord .ifWord → lp.Is .lparen → IsExpr d ls x →
      rp.Is .rparen → IsBlock d bs b → e.IsWord .elseWord → IsBlock d cs c →
      IsConditional d (l :: lp :: ls ++ rp :: bs ++ e :: cs) (.cond l.pos x b (some c))
  | chain {l lp ls rp bs e cs x b st} : l.IsWord .ifWord → lp.Is .lparen → IsExpr d ls x →
      rp.Is .rparen → IsBlock d bs b → e.IsWord .elseWord → IsConditional d cs st →
      IsConditional d (l :: lp :: ls ++ rp :: bs ++ e :: cs)
        (.cond l.pos x b (some (.mk e.pos [st] st.span.last false)))

/-- ['where' expr] -/
inductive IsFilter (d : Dialect) : List Lexeme → Option WhereClause → Prop where
  | none : IsFilter d [] none
  | some {l ls x} : l.IsWord .whereWord → IsExpr d ls x → IsFilter d (l :: ls) (some (.mk l.pos x))

/-- ['between' block] -/
inductive IsBetween (d : Dialect) : List Lexeme → Option Block → Prop where
  | none : IsBetween d [] none
  | some {l ls b} : l.IsWord .betweenWord → IsBlock d ls b → IsBetween d (l :: ls) (some b)

/-- {'case' exprs ':' {stmt}} ['default' ':' {stmt}]. The statements of an arm are a block
that ends where the next arm starts or, after the last arm, at the closing brace `r`. -/
inductive IsArms (d : Dialect) :
    Lexeme → List Lexeme → List SwitchCase → Option Block → Prop where
  | nil {r} : IsArms d r [] [] none
  | dflt {r l c ls sts} : l.IsWord .defaultWord → c.Is .colon → IsStmts d ls sts →
      IsArms d r (l :: c :: ls) [] (some (.mk c.pos sts r.pos false))
  | case {r l vs c ls ms xs sts cases dflt} : l.IsWord .caseWord → IsExprs d vs xs → c.Is .colon →
      IsStmts d ls sts → IsArms d r ms cases dflt →
      IsArms d r (l :: vs ++ c :: ls ++ ms)
        (.mk l.pos xs (.mk c.pos sts (ms.headD r).pos false) :: cases) dflt

end

/-! ### Modules -/

/-- load = 'load' STRING ';' -/
inductive IsLoad : List Lexeme → LoadDirective → Prop where
  | mk {l s e n} : l.IsWord .loadWord → s.token = .string n → e.Is .semi →
      IsLoad [l, s, e] ⟨l.pos, s.pos, n, e.pos⟩

/-- IDENT {',' IDENT} -/
inductive IsNames : List Lexeme → List Param → Prop where
  | one {l n} : l.Names n → IsNames [l] [⟨l.pos, n⟩]
  | more {l c ls n ps} : l.Names n → c.Is .comma → IsNames ls ps →
      IsNames (l :: c :: ls) (⟨l.pos, n⟩ :: ps)

/-- [IDENT {',' IDENT}] -/
inductive IsParams : List Lexeme → List Param → Prop where
  | none : IsParams [] []
  | some {ls ps} : IsNames ls ps → IsParams ls ps

/-- function = 'function' IDENT '(' params ')' block -/
inductive IsFunction (d : Dialect) : List Lexeme → FunctionDecl → Prop where
  | mk {l f lp ls rp bs n ps b} : l.IsWord .functionWord → f.Names n → lp.Is .lparen →
      IsParams ls ps → rp.Is .rparen → IsBlock d bs b →
      IsFunction d (l :: f :: lp :: ls ++ rp :: bs) ⟨l.pos, f.pos, n, ps, b⟩

/-- module = {load | function | def | stmt}, before the end of the file at `e`. The tree keeps
the constructs of each kind in their order; a definition is one of global variables. -/
inductive IsModule (d : Dialect) (file : Bytes) (e : Position) : List Lexeme → Module → Prop where
  | nil : IsModule d file e [] ⟨file, [], [], [], [], e⟩
  | load {ls ms x m} : IsLoad ls x → IsModule d file e ms m →
      IsModule d file e (ls ++ ms) { m with loads := x :: m.loads }
  | function {ls ms f m} : IsFunction d ls f → IsModule d file e ms m →
      IsModule d file e (ls ++ ms) { m with functions := f :: m.functions }
  | define {l ls s ms vs m} : l.IsWord .defWord → IsVarDefs d ls vs → s.Is .semi →
      IsModule d file e ms m →
      IsModule d file e (l :: ls ++ s :: ms) { m with defs := ⟨l.pos, vs⟩ :: m.defs }
  | stmt {l ls ms st m} : ¬ l.IsWord .defWord → IsStmt d false (l :: ls) st →
      IsModule d file e ms m → IsModule d file e (l :: ls ++ ms) { m with stmts := st :: m.stmts }

/-- The text is that of the module: its lexemes, up to the end of the file, are. -/
def IsProgram (d : Dialect) (file src : Bytes) (m : Module) : Prop :=
  ∃ ls e, scan file src = ⟨ls ++ [e], none⟩ ∧ e.token = .eof ∧ IsModule d file e.pos ls m

/-! ### Kinds of lexemes -/

section

variable {t : Token} {l : Lexeme} {p : Punct} {k : Keyword} {n : Bytes}

theorem Token.kind_eq_punct : t.kind = .punct p ↔ t = .punct p := by
  cases t <;> simp [Token.kind]

theorem Token.kind_eq_keyword : t.kind = .keyword k ↔ t = .keyword k := by
  cases t <;> simp [Token.kind]

theorem Token.kind_eq_ident : t.kind = .ident ↔ ∃ n, t = .ident n := by
  cases t <;> simp [Token.kind]

theorem Token.kind_eq_eof : t.kind = .eof ↔ t = .eof := by
  cases t <;> simp [Token.kind]

theorem Lexeme.Is.kind (h : l.Is p) : l.token.kind = .punct p := Token.kind_eq_punct.2 h

theorem Lexeme.IsWord.kind (h : l.IsWord k) : l.token.kind = .keyword k :=
  Token.kind_eq_keyword.2 h

theorem Lexeme.Names.kind (h : l.Names n) : l.token.kind = .ident := Token.kind_eq_ident.2 ⟨n, h⟩

end

/-! ### First lexemes -/

/-- The tokens an operand without a sign starts with. -/
def TokenKind.startsOperand : TokenKind → Bool
  | .ident | .int | .float | .string => true
  | .keyword .trueWord | .keyword .falseWord | .keyword .nullWord | .keyword .newWord => true
  | .punct .lparen | .punct .lbrack | .punct .openTemplate => true
  | _ => false

/-- The tokens an expression starts with. -/
def TokenKind.startsExpr : TokenKind → Bool
  | .punct .bang | .punct .minus => true
  | k => k.startsOperand

/-- The tokens a statement starts with. -/
def TokenKind.startsStmt : TokenKind → Bool
  | .keyword k => k.startsStatement || (TokenKind.keyword k).startsExpr
  | .punct .lbrace => true
  | k => k.startsExpr

theorem ne_of_starts {P : TokenKind → Bool} {k k' : TokenKind} (hk : P k = true)
    (hk' : P k' = false) : k ≠ k' := by
  rintro rfl
  exact Bool.noConfusion (hk.symm.trans hk')

/-- The tokens a construct of a module starts with. -/
def TokenKind.startsConstruct : TokenKind → Bool
  | .keyword .loadWord | .keyword .functionWord => true
  | k => k.startsStmt

/-- The lexemes start with a token of the given kinds. -/
def Starts (P : TokenKind → Bool) (ls : List Lexeme) : Prop :=
  ∃ l ms, ls = l :: ms ∧ P l.token.kind = true

theorem starts_cons {P : TokenKind → Bool} {l : Lexeme} {ls : List Lexeme} :
    Starts P (l :: ls) ↔ P l.token.kind = true := by
  simp [Starts]

theorem Starts.append {P : TokenKind → Bool} {ls ms : List Lexeme} (h : Starts P ls) :
    Starts P (ls ++ ms) := by
  obtain ⟨l, ls, rfl, hl⟩ := h
  exact ⟨l, ls ++ ms, rfl, hl⟩

theorem Starts.mono {P Q : TokenKind → Bool} {ls : List Lexeme} (h : Starts P ls)
    (hPQ : ∀ k, P k = true → Q k = true) : Starts Q ls := by
  obtain ⟨l, ls, rfl, hl⟩ := h
  exact ⟨l, ls, rfl, hPQ _ hl⟩

theorem Starts.ne_nil {P : TokenKind → Bool} {ls : List Lexeme} (h : Starts P ls) : ls ≠ [] := by
  obtain ⟨l, ls, rfl, -⟩ := h
  exact List.cons_ne_nil _ _

theorem startsExpr_of_startsOperand (k : TokenKind) (h : k.startsOperand = true) :
    k.startsExpr = true := by
  cases k with
  | punct p => cases p <;> first | rfl | exact h
  | _ => exact h

theorem startsStmt_of_startsExpr (k : TokenKind) (h : k.startsExpr = true) :
    k.startsStmt = true := by
  cases k with
  | punct p => cases p <;> first | rfl | exact h
  | keyword k => simp [TokenKind.startsStmt, h]
  | _ => exact h

section

variable {d : Dialect} {ls : List Lexeme} {x : Expr}

theorem startsOperand_literal {t : Token} {v : Literal} (h : Parser.literal? t = some v) :
    t.kind.startsOperand = true := by
  unfold Parser.literal? at h
  split at h <;> first | rfl | cases h

theorem IsTemplate.starts {b : Block} (h : IsTemplate d ls b) :
    Starts TokenKind.startsOperand ls := by
  cases h with
  | mk ho _ _ => exact starts_cons.2 (by rw [ho.kind]; rfl)

theorem IsPrimary.starts (h : IsPrimary d ls x) : Starts TokenKind.startsOperand ls := by
  cases h with
  | literal h => exact starts_cons.2 (startsOperand_literal h)
  | null h => exact starts_cons.2 (by rw [h.kind]; rfl)
  | name h => exact starts_cons.2 (by rw [h.kind]; rfl)
  | call h _ _ _ => exact starts_cons.2 (by rw [h.kind]; rfl)
  | new h _ _ _ _ => exact starts_cons.2 (by rw [h.kind]; rfl)
  | paren h _ _ => exact starts_cons.2 (by rw [h.kind]; rfl)
  | list h _ _ => exact starts_cons.2 (by rw [h.kind]; rfl)
  | template h => exact h.starts

theorem IsPostfix.starts : {ls : List Lexeme} → {x : Expr} → IsPostfix d ls x →
    Starts TokenKind.startsOperand ls
  | _, _, .primary h => h.starts
  | _, _, .member h _ _ => h.starts.append
  | _, _, .method h _ _ _ _ _ => h.starts.append.append
  | _, _, .index h _ _ _ _ => h.starts.append.append

theorem IsUnary.starts (h : IsUnary d ls x) : Starts TokenKind.startsExpr ls := by
  cases h with
  | not h _ => exact starts_cons.2 (by rw [h.kind]; rfl)
  | negate h _ => exact starts_cons.2 (by rw [h.kind]; rfl)
  | operand h => exact h.starts.mono startsExpr_of_startsOperand

theorem IsLevel.starts : {k : Nat} → {ls : List Lexeme} → {x : Expr} → IsLevel d k ls x →
    Starts TokenKind.startsExpr ls
  | _, _, _, .unary h => h.starts
  | _, _, _, .up h => h.starts
  | _, _, _, .binary h _ _ => h.starts.append

theorem IsLevel.weaken {j k : Nat} (h : IsLevel d j ls x) (hk : k ≤ j) : IsLevel d k ls x := by
  obtain ⟨m, rfl⟩ := Nat.exists_eq_add_of_le hk
  clear hk
  induction m with
  | zero => exact h
  | succ m ih => exact ih (.up h)

theorem IsExpr.starts (h : IsExpr d ls x) : Starts TokenKind.startsExpr ls := by
  cases h with
  | level h => exact h.starts
  | assign h _ _ => exact h.starts.append

theorem IsExprs.starts {xs : List Expr} (h : IsExprs d ls xs) : Starts TokenKind.startsExpr ls := by
  cases h with
  | one h => exact h.starts
  | more h _ _ => exact h.starts.append

theorem IsArgs.starts {xs : List Expr} (h : IsArgs d ls xs) (hx : xs ≠ []) :
    Starts TokenKind.startsExpr ls := by
  cases h with
  | none => exact absurd rfl hx
  | some h => exact h.starts

theorem IsConditional.starts {st : Stmt} (h : IsConditional d ls st) :
    Starts TokenKind.startsStmt ls := by
  cases h with
  | one h => exact starts_cons.2 (by rw [h.kind]; rfl)
  | two h => exact starts_cons.2 (by rw [h.kind]; rfl)
  | chain h => exact starts_cons.2 (by rw [h.kind]; rfl)

theorem IsBlock.starts {b : Block} (h : IsBlock d ls b) : Starts TokenKind.startsStmt ls := by
  cases h with
  | braces h _ _ => exact starts_cons.2 (by rw [h.kind]; rfl)
  | template h =>
    exact (h.starts.mono startsExpr_of_startsOperand).mono startsStmt_of_startsExpr

theorem IsStmt.starts {last : Bool} {st : Stmt} (h : IsStmt d last ls st) :
    Starts TokenKind.startsStmt ls := by
  cases h with
  | define h => exact starts_cons.2 (by rw [h.kind]; rfl)
  | output h => exact starts_cons.2 (by rw [h.kind]; rfl)
  | ret h => exact starts_cons.2 (by rw [h.kind]; rfl)
  | retValue h => exact starts_cons.2 (by rw [h.kind]; rfl)
  | cond h => exact h.starts
  | loop h => exact starts_cons.2 (by rw [h.kind]; rfl)
  | each h => exact starts_cons.2 (by rw [h.kind]; rfl)
  | switch h => exact starts_cons.2 (by rw [h.kind]; rfl)
  | leave h => exact starts_cons.2 (by rw [h.kind]; rfl)
  | again h => exact starts_cons.2 (by rw [h.kind]; rfl)
  | block h => exact h.starts
  | expr _ h _ => exact (h.starts.mono startsStmt_of_startsExpr).append

theorem IsStmts.starts {sts : List Stmt} (h : IsStmts d ls sts) :
    ls = [] ∨ Starts TokenKind.startsStmt ls := by
  cases h with
  | nil => exact .inl rfl
  | cons h _ => exact .inr h.starts.append

theorem IsIsland.starts {sts : List Stmt} (h : IsIsland d ls sts) :
    ls = [] ∨ Starts TokenKind.startsStmt ls := by
  cases h with
  | nil => exact .inl rfl
  | output h _ _ => exact .inr (h.starts.mono startsStmt_of_startsExpr).append
  | expr h _ _ => exact .inr (h.starts.mono startsStmt_of_startsExpr).append
  | stmt _ h _ => exact .inr h.starts.append
  | last _ _ h => exact .inr h.starts

theorem startsConstruct_of_startsStmt (k : TokenKind) (h : k.startsStmt = true) :
    k.startsConstruct = true := by
  cases k with
  | keyword k => cases k <;> first | rfl | exact h
  | _ => exact h

theorem IsModule.starts {file : Bytes} {e : Position} {m : Module} (h : IsModule d file e ls m) :
    ls = [] ∨ Starts TokenKind.startsConstruct ls := by
  cases h with
  | nil => exact .inl rfl
  | load h _ => cases h with
    | mk hl _ _ => exact .inr (starts_cons.2 (by rw [hl.kind]; rfl))
  | function h _ => cases h with
    | mk hl _ _ _ _ _ => exact .inr (starts_cons.2 (by rw [hl.kind]; rfl))
  | define hl _ _ _ => exact .inr (starts_cons.2 (by rw [hl.kind]; rfl))
  | stmt _ h _ => exact .inr (h.starts.mono startsConstruct_of_startsStmt).append

theorem IsIsland.eq_nil {sts : List Stmt} (h : IsIsland d ls sts) (hl : ls = []) : sts = [] := by
  cases h with
  | nil => rfl
  | output h _ _ => exact absurd hl h.starts.append.ne_nil
  | expr h _ _ => exact absurd hl h.starts.append.ne_nil
  | stmt _ _ _ => cases hl
  | last _ _ _ => cases hl

end

/-! ### The lexeme after an expression -/

/-- The tokens that may go on with some expression. -/
def TokenKind.continuesExpr : TokenKind → Bool
  | .punct .dot | .punct .lbrack | .punct .lparen | .punct .assign => true
  | k => (Parser.binaryOp? k).isSome

section

variable {k j : Nat} {ls ms : List Lexeme} {next : Lexeme}

theorem endsInName_append (h : ms ≠ []) : EndsInName (ls ++ ms) ↔ EndsInName ms := by
  simp only [EndsInName, List.getLast?_append, List.getLast?_eq_some_getLast h, Option.some_or]

theorem not_endsInName {l : Lexeme} (h : l.token.kind ≠ .ident) : ¬ EndsInName (ls ++ [l]) := by
  rintro ⟨l', n, hl, hn⟩
  obtain rfl : l = l' := by simpa using hl
  exact h hn.kind

/-- Only the last part of a phrase decides what may follow it. -/
theorem continues_append (h : ms ≠ []) : Continues k (ls ++ ms) next ↔ Continues k ms next := by
  constructor <;> rintro (h' | h' | ⟨h', hn⟩ | ⟨h', ho⟩ | ⟨h', hz⟩)
  · exact .member h'
  · exact .index h'
  · exact .call h' ((endsInName_append h).1 hn)
  · exact .operator h' ho
  · exact .assign h' hz
  · exact .member h'
  · exact .index h'
  · exact .call h' ((endsInName_append h).2 hn)
  · exact .operator h' ho
  · exact .assign h' hz

theorem not_continues (h : next.token.kind.continuesExpr = false) : ¬ Continues k ls next := by
  rintro (h' | h' | ⟨h', -⟩ | ⟨h', -⟩ | ⟨h', -⟩)
  · rw [h'.kind] at h
    cases h
  · rw [h'.kind] at h
    cases h
  · rw [h'.kind] at h
    cases h
  · rename_i op
    unfold TokenKind.continuesExpr at h
    split at h
    iterate 4 cases h
    rw [show Parser.binaryOp? _ = _ from h'] at h
    cases h
  · rw [h'.kind] at h
    cases h

theorem binaryOp_level (op : BinaryOp) : 1 ≤ op.level ∧ op.level ≤ 9 := by
  cases op <;> decide

theorem Lexeme.IsOperator.continuesExpr {op : BinaryOp} (h : next.IsOperator op) :
    next.token.kind.continuesExpr = true := by
  unfold TokenKind.continuesExpr
  split
  iterate 4 rfl
  rw [show Parser.binaryOp? _ = _ from h]
  rfl

/-- An operator is no other mark. -/
theorem Lexeme.IsOperator.not_is {op : BinaryOp} {m : Punct} (h : next.IsOperator op)
    (hm : Parser.binaryOp? (.punct m) = none) : ¬ next.Is m := by
  intro hn
  rw [Lexeme.IsOperator, hn.kind, hm] at h
  cases h

/-- After an operator of some level no operand of a tighter level goes on. -/
theorem Lexeme.IsOperator.not_continues {op : BinaryOp} (h : next.IsOperator op) :
    ¬ Continues (op.level + 1) ls next := by
  rintro (h' | h' | ⟨h', -⟩ | ⟨h', hl⟩ | ⟨h', -⟩)
  · exact h.not_is rfl h'
  · exact h.not_is rfl h'
  · exact h.not_is rfl h'
  · rename_i op'
    obtain rfl : op = op' := Option.some.inj (h.symm.trans h')
    omega
  · exact h.not_is rfl h'

theorem not_continues_assign (h : next.Is .assign) : ¬ Continues (k + 1) ls next := by
  rintro (h' | h' | ⟨h', -⟩ | ⟨h', -⟩ | ⟨-, h'⟩)
  · cases h.symm.trans h'
  · cases h.symm.trans h'
  · cases h.symm.trans h'
  · exact h'.not_is rfl h
  · omega

/-- No operator binds as tightly as the operands do. -/
theorem Continues.level_ten (h : Continues 10 ls next) : Continues k ls next := by
  cases h with
  | member h => exact .member h
  | index h => exact .index h
  | call h hn => exact .call h hn
  | @operator op _ h => exact absurd (binaryOp_level op).2 (by omega)
  | assign _ h => cases h

theorem Continues.mono (h : Continues j ls next) (hk : k ≤ j) : Continues k ls next := by
  cases h with
  | member h => exact .member h
  | index h => exact .index h
  | call h hn => exact .call h hn
  | operator h ho => exact .operator h (by omega)
  | assign h hz => exact .assign h (by omega)

end

end Stencil
