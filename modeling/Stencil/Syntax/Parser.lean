import Stencil.Source.Lexer
import Stencil.Syntax.Tree

/-!
# From lexemes to trees

A recursive-descent reader with one lexeme of lookahead. `parseModule` reads a
whole module and `parseExpr` a single expression.

Every function takes a bound on the depth of its recursion. The bound given by
the two entry points grows with the number of lexemes; since every round of
every loop and every nested construct takes a lexeme, it is never reached.
-/

namespace Stencil

/-- The lexemes still to be read, the one at hand first. -/
structure TokenStream where
  current : Lexeme
  rest : List Lexeme
  fault : Option SyntaxError
  deriving Inhabited

/-- A reader of lexemes. -/
abbrev Parser (α : Type) := StateT TokenStream (Except SyntaxError) α

namespace Parser

/-- The kind of the token at hand. -/
def peek : Parser TokenKind := do return (← get).current.token.kind

/-- The token at hand. -/
def token : Parser Token := do return (← get).current.token

/-- The position of the token at hand. -/
def here : Parser Position := do return (← get).current.pos

/-- Whether the token at hand is the given mark. -/
def sees (p : Punct) : Parser Bool := do return (← peek) = .punct p

/-- Whether the token at hand is the given keyword. -/
def seesWord (k : Keyword) : Parser Bool := do return (← peek) = .keyword k

/-- Refuse the token at hand. More input can mend this if the token is the end. -/
def refuse {α : Type} (cause : SyntaxCause) : Parser α := do
  let l := (← get).current
  throw ⟨l.pos, cause, l.token.kind = .eof⟩

/-- Move to the next token and give the position of the one left behind. After the
end of the input comes the end of the input. -/
def advance : Parser Position := do
  let s ← get
  match s.rest, s.fault with
  | l :: rest, _ => set { s with current := l, rest := rest }
  | [], some e => throw e
  | [], none => pure ()
  return s.current.pos

/-- Require a token of the given kind and move past it. -/
def consume (k : TokenKind) : Parser Position := do
  let got ← peek
  if got = k then advance else refuse (.expected got k)

/-- Require a mark and move past it. -/
def mark (p : Punct) : Parser Position := consume (.punct p)

/-- Move past the semicolon of a statement, which may be missing before the `$` that
closes an island. -/
def semi : Parser Unit := do
  if ← sees .dollar then return
  discard (mark .semi)

/-- Require a name; give its position and spelling. -/
def ident : Parser (Position × Bytes) := do
  match ← token with
  | .ident n => return (← advance, n)
  | t => refuse (.expectedIdent t.kind)

/-- The binary operation a token stands for. -/
def binaryOp? : TokenKind → Option BinaryOp
  | .punct .plus => some .add
  | .punct .minus => some .subtract
  | .punct .star => some .multiply
  | .punct .slash => some .divide
  | .punct .percent => some .mod
  | .punct .andAnd => some .logicalAnd
  | .punct .orOr => some .logicalOr
  | .punct .caret => some .xor
  | .punct .amp => some .bitAnd
  | .punct .pipe => some .bitOr
  | .punct .equal => some .equal
  | .punct .notEqual => some .notEqual
  | .punct .greater => some .greater
  | .punct .less => some .less
  | .punct .greaterEq => some .greaterEq
  | .punct .lessEq => some .lessEq
  | _ => none

/-- The value of a literal token. -/
def literal? : Token → Option Literal
  | .int n => some (.int n)
  | .float x => some (.float x)
  | .string s => some (.string s)
  | .keyword .trueWord => some (.bool true)
  | .keyword .falseWord => some (.bool false)
  | _ => none

/-- The further segments of a dotted type name. -/
def typePath : Nat → Expr → Parser Expr
  | 0, _ => refuse .nestingLimit
  | n + 1, x => do
    if ← sees .dot then
      let dot ← advance
      let (p, name) ← ident
      typePath n (.member x dot p name)
    else return x

/-- The parameters of a function, up to the closing parenthesis; `seen` are those
read so far, last first. -/
def params : Nat → List Param → Parser (List Param)
  | 0, _ => refuse .nestingLimit
  | n + 1, seen => do
    if ← sees .rparen then return seen.reverse
    if !seen.isEmpty then discard (mark .comma)
    let (p, name) ← ident
    params n (⟨p, name⟩ :: seen)

mutual

/-- expr = binary ['=' expr] -/
def expr : Nat → Parser Expr
  | 0 => refuse .nestingLimit
  | n + 1 => do
    let x ← binary n 1
    if ← sees .assign then
      let p ← advance
      return .assign x p (← expr n)
    return x

/-- Operands joined by operators that bind at least as tightly as `level`. -/
def binary : Nat → Nat → Parser Expr
  | 0, _ => refuse .nestingLimit
  | n + 1, level => do binaryRest n level (← unary n)

/-- The operators and operands after `x`. -/
def binaryRest : Nat → Nat → Expr → Parser Expr
  | 0, _, _ => refuse .nestingLimit
  | n + 1, level, x => do
    match binaryOp? (← peek) with
    | none => return x
    | some op =>
      if op.level < level then return x
      let p ← advance
      let y ← binary n (op.level + 1)
      binaryRest n level (.binary x p op y)

/-- unary = ('!' | '-') unary | postfix -/
def unary : Nat → Parser Expr
  | 0 => refuse .nestingLimit
  | n + 1 => do
    match ← peek with
    | .punct .bang => do
      let p ← advance
      return .unary p .not (← unary n)
    | .punct .minus => do
      let p ← advance
      return .unary p .negate (← unary n)
    | _ => do selectors n (← primary n)

/-- The member accesses, calls and indices after `x`. -/
def selectors : Nat → Expr → Parser Expr
  | 0, _ => refuse .nestingLimit
  | n + 1, x => do
    match ← peek with
    | .punct .dot => do
      let dot ← advance
      let (p, name) ← ident
      if ← sees .lparen then
        let l ← advance
        let args ← args n .rparen []
        let r ← advance
        selectors n (.method x dot p name l args r)
      else selectors n (.member x dot p name)
    | .punct .lbrack => do
      let l ← advance
      if ← sees .rbrack then refuse .emptyIndex
      let args ← args n .rbrack []
      let r ← advance
      selectors n (.index x l args r)
    | _ => return x

/-- args = [expr {',' expr}] up to a closing mark, which is left; `seen` are those
read so far, last first. -/
def args : Nat → Punct → List Expr → Parser (List Expr)
  | 0, _, _ => refuse .nestingLimit
  | n + 1, closing, seen => do
    if ← sees closing then return seen.reverse
    if !seen.isEmpty then discard (mark .comma)
    let x ← expr n
    args n closing (x :: seen)

/-- exprlist = expr {',' expr} -/
def exprList : Nat → List Expr → Parser (List Expr)
  | 0, _ => refuse .nestingLimit
  | n + 1, seen => do
    let x ← expr n
    if ← sees .comma then
      discard advance
      exprList n (x :: seen)
    else return (x :: seen).reverse

/-- A literal, a name, a call, a construction, a list, a template, or an expression
in parentheses. -/
def primary : Nat → Parser Expr
  | 0 => refuse .nestingLimit
  | n + 1 => do
    let s ← get
    match literal? s.current.token with
    | some v => do
      let p ← advance
      return .literal p s.current.raw v
    | none =>
      match s.current.token with
      | .keyword .nullWord => return .null (← advance)
      | .ident _ => do
        let (p, name) ← ident
        if ← sees .lparen then
          let l ← advance
          let args ← args n .rparen []
          return .call p name l args (← advance)
        return .name p name
      | .keyword .newWord => do
        let p ← advance
        let (np, name) ← ident
        let type ← typePath n (.name np name)
        let l ← mark .lparen
        let args ← args n .rparen []
        return .new p type l args (← advance)
      | .punct .lparen => do
        discard advance
        let x ← expr n
        discard (mark .rparen)
        return x
      | .punct .lbrack => do
        let l ← advance
        let items ← args n .rbrack []
        return .list l items (← advance)
      | .punct .openTemplate => return .template (← template n)
      | t => refuse (.expectedPrimary t.kind)

/-- template = '<|' {text | '$' island '$'} '|>' -/
def template : Nat → Parser Block
  | 0 => refuse .nestingLimit
  | n + 1 => do
    let l ← advance
    let stmts ← templateBody n []
    return .mk l stmts (← advance) true

/-- The text and islands of a template, up to its closing mark, which is left. -/
def templateBody : Nat → List Stmt → Parser (List Stmt)
  | 0, _ => refuse .nestingLimit
  | n + 1, seen => do
    match ← token with
    | .text s => do
      let p ← advance
      templateBody n (.text p s :: seen)
    | .punct .dollar => do
      discard advance
      let stmts ← island n []
      discard advance
      templateBody n (stmts.reverse ++ seen)
    | .punct .closeTemplate => return seen.reverse
    | t => refuse (.unclosedTemplate t.kind)

/-- The statements of an island, up to the closing `$`, which is left. -/
def island : Nat → List Stmt → Parser (List Stmt)
  | 0, _ => refuse .nestingLimit
  | n + 1, seen => do
    if ← sees .dollar then return seen.reverse
    let s ← islandStmt n
    island n (s :: seen)

/-- A statement of an island. A bare expression is written to the output; one
followed by a semicolon is evaluated for its effects. -/
def islandStmt : Nat → Parser Stmt
  | 0 => refuse .nestingLimit
  | n + 1 => do
    match ← peek with
    | .keyword .defWord | .keyword .outWord | .keyword .returnWord | .keyword .ifWord
    | .keyword .whileWord | .keyword .forWord | .keyword .switchWord | .keyword .breakWord
    | .keyword .continueWord | .punct .lbrace => stmt n
    | .eof => refuse (.unclosedIsland .eof)
    | _ => do
      let x ← expr n
      if ← sees .semi then
        discard advance
        return .expr x
      return .output x.start [x]

/-- block = '{' {stmt} '}' | template -/
def block : Nat → Parser Block
  | 0 => refuse .nestingLimit
  | n + 1 => do
    match ← peek with
    | .punct .lbrace => do
      let l ← advance
      let stmts ← stmts n []
      return .mk l stmts (← advance) false
    | .punct .openTemplate => template n
    | k => refuse (.expectedBlock k)

/-- Statements up to a closing brace, which is left. -/
def stmts : Nat → List Stmt → Parser (List Stmt)
  | 0, _ => refuse .nestingLimit
  | n + 1, seen => do
    match ← peek with
    | .punct .rbrace => return seen.reverse
    | .eof => refuse (.expected .eof (.punct .rbrace))
    | _ => do
      let s ← stmt n
      stmts n (s :: seen)

/-- def = 'def' IDENT ['=' expr] {',' IDENT ['=' expr]} ';', after its keyword -/
def varDefs : Nat → List VarDef → Parser (List VarDef)
  | 0, _ => refuse .nestingLimit
  | n + 1, seen => do
    let (p, name) ← ident
    let init ← if ← sees .assign then do
        discard advance
        pure (some (← expr n))
      else pure none
    let seen := .mk p name init :: seen
    if ← sees .comma then
      discard advance
      varDefs n seen
    else
      semi
      return seen.reverse

/-- An expression in parentheses. -/
def parenExpr : Nat → Parser Expr
  | 0 => refuse .nestingLimit
  | n + 1 => do
    discard (mark .lparen)
    let x ← expr n
    discard (mark .rparen)
    return x

/-- if = 'if' '(' expr ')' block ['else' (if | block)], after its keyword at `p` -/
def conditional : Nat → Position → Parser Stmt
  | 0, _ => refuse .nestingLimit
  | n + 1, p => do
    let test ← parenExpr n
    let yes ← block n
    if ← seesWord .elseWord then
      let e ← advance
      if ← seesWord .ifWord then
        let p' ← advance
        let inner ← conditional n p'
        return .cond p test yes (some (.mk e [inner] inner.span.last false))
      return .cond p test yes (some (← block n))
    return .cond p test yes none

/-- The statements after a case label, up to the next label or the closing brace. -/
def caseStmts : Nat → List Stmt → Parser (List Stmt)
  | 0, _ => refuse .nestingLimit
  | n + 1, seen => do
    match ← peek with
    | .keyword .caseWord | .keyword .defaultWord | .punct .rbrace => return seen.reverse
    | _ => do
      let s ← stmt n
      caseStmts n (s :: seen)

/-- The implicit block after a case label. -/
def caseBody : Nat → Parser Block
  | 0 => refuse .nestingLimit
  | n + 1 => do
    let l ← mark .colon
    let stmts ← caseStmts n []
    return .mk l stmts (← here) false

/-- The arms of a switch, up to its closing brace, which is left. -/
def switchArms : Nat → List SwitchCase → Option Block →
    Parser (List SwitchCase × Option Block)
  | 0, _, _ => refuse .nestingLimit
  | n + 1, seen, dflt => do
    match ← peek with
    | .punct .rbrace => return (seen.reverse, dflt)
    | .keyword .caseWord => do
      if dflt.isSome then refuse .caseAfterDefault
      let p ← advance
      let values ← exprList n []
      let body ← caseBody n
      switchArms n (.mk p values body :: seen) dflt
    | .keyword .defaultWord => do
      if dflt.isSome then refuse .secondDefault
      discard advance
      let body ← caseBody n
      switchArms n seen (some body)
    | k => refuse (.expectedCase k)

/-- A statement. -/
def stmt : Nat → Parser Stmt
  | 0 => refuse .nestingLimit
  | n + 1 => do
    match ← peek with
    | .keyword .defWord => do
      let p ← advance
      return .define p (← varDefs n [])
    | .keyword .outWord => do
      let p ← advance
      let xs ← exprList n []
      semi
      return .output p xs
    | .keyword .returnWord => do
      let p ← advance
      match ← peek with
      | .punct .semi | .punct .dollar | .punct .rbrace => do
        semi
        return .ret p none
      | _ => do
        let x ← expr n
        semi
        return .ret p (some x)
    | .keyword .ifWord => do
      let p ← advance
      conditional n p
    | .keyword .whileWord => do
      let p ← advance
      let test ← parenExpr n
      return .loop p test (← block n)
    | .keyword .forWord => do
      let p ← advance
      discard (mark .lparen)
      let (vp, var) ← ident
      discard (consume (.keyword .inWord))
      let x ← expr n
      let filter ← if ← seesWord .whereWord then do
          let wp ← advance
          pure (some (.mk wp (← expr n)))
        else pure none
      discard (mark .rparen)
      let body ← block n
      if ← seesWord .betweenWord then
        discard advance
        return .each p vp var x filter body (some (← block n))
      return .each p vp var x filter body none
    | .keyword .switchWord => do
      let p ← advance
      let x ← parenExpr n
      discard (mark .lbrace)
      let (cases, dflt) ← switchArms n [] none
      return .switch p x cases dflt (← advance)
    | .keyword .breakWord => do
      let p ← advance
      semi
      return .leave p
    | .keyword .continueWord => do
      let p ← advance
      semi
      return .again p
    | .punct .lbrace | .punct .openTemplate => return .block (← block n)
    | .keyword .functionWord => refuse .nestedFunction
    | .keyword .loadWord => refuse .nestedLoad
    | _ => do
      let x ← expr n
      semi
      return .expr x

end

/-- load = 'load' STRING ';' -/
def load : Parser LoadDirective := do
  let p ← advance
  match ← token with
  | .string name => do
    let np ← advance
    return ⟨p, np, name, ← mark .semi⟩
  | t => refuse (.expectedNamespace t.kind)

/-- function = 'function' IDENT '(' [IDENT {',' IDENT}] ')' block -/
def function (n : Nat) : Parser FunctionDecl := do
  let p ← advance
  let (np, name) ← ident
  discard (mark .lparen)
  let ps ← params n []
  discard advance
  return ⟨p, np, name, ps, ← block n⟩

/-- module = {load | function | def | stmt} EOF; `m` holds what was read so far. -/
def moduleItems : Nat → Module → Parser Module
  | 0, _ => refuse .nestingLimit
  | n + 1, m => do
    match ← peek with
    | .eof => return { m with endPos := ← here }
    | .keyword .loadWord => do
      let l ← load
      moduleItems n { m with loads := m.loads ++ [l] }
    | .keyword .functionWord => do
      let f ← function n
      moduleItems n { m with functions := m.functions ++ [f] }
    | .keyword .defWord => do
      let p ← advance
      let vars ← varDefs n []
      moduleItems n { m with defs := m.defs ++ [⟨p, vars⟩] }
    | _ => do
      let s ← stmt n
      moduleItems n { m with stmts := m.stmts ++ [s] }

/-- Run a reader on the lexemes of a text. -/
def run {α : Type} (p : Nat → Parser α) (file src : Bytes) : Except SyntaxError α :=
  let s := scan file src
  match s.lexemes, s.fault with
  | l :: rest, fault => (p (16 * (rest.length + 4)) ⟨l, rest, fault⟩).map (·.1)
  | [], some e => .error e
  | [], none => (p 64 ⟨⟨.eof, .start file, []⟩, [], none⟩).map (·.1)

end Parser

/-- The tree of a source text. -/
def parseModule (file src : Bytes) : Except SyntaxError Module :=
  Parser.run (fun n => Parser.moduleItems n ⟨file, [], [], [], [], default⟩) file src

/-- The tree of a source text that is one expression, with an optional semicolon. -/
def parseExpr (file src : Bytes) : Except SyntaxError Expr :=
  Parser.run (fun n => do
    let x ← Parser.expr n
    if ← Parser.sees .semi then discard Parser.advance
    match ← Parser.peek with
    | .eof => return x
    | k => throw ⟨← Parser.here, .afterExpression k, false⟩) file src

end Stencil
