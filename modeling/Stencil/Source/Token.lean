import Stencil.Source.Position
import Stencil.Text.Quoted

/-!
# Tokens

The words of the language: names, literals, template text, punctuation and
keywords. A `Lexeme` is a token together with its place and its spelling.
-/

namespace Stencil

/-- Punctuation marks. -/
inductive Punct where
  | plus | minus | star | slash | percent | amp | pipe | caret | bang | dot | comma | assign
  | semi | colon | lparen | rparen | lbrack | rbrack | lbrace | rbrace | less | greater
  | greaterEq | lessEq | equal | notEqual | andAnd | orOr | openTemplate | closeTemplate | dollar
  deriving DecidableEq, Repr, Inhabited

/-- How a punctuation mark is written. -/
def Punct.spelling : Punct → String
  | .plus => "+"
  | .minus => "-"
  | .star => "*"
  | .slash => "/"
  | .percent => "%"
  | .amp => "&"
  | .pipe => "|"
  | .caret => "^"
  | .bang => "!"
  | .dot => "."
  | .comma => ","
  | .assign => "="
  | .semi => ";"
  | .colon => ":"
  | .lparen => "("
  | .rparen => ")"
  | .lbrack => "["
  | .rbrack => "]"
  | .lbrace => "\x7b"
  | .rbrace => "\x7d"
  | .less => "<"
  | .greater => ">"
  | .greaterEq => ">="
  | .lessEq => "<="
  | .equal => "=="
  | .notEqual => "!="
  | .andAnd => "&&"
  | .orOr => "||"
  | .openTemplate => "<|"
  | .closeTemplate => "|>"
  | .dollar => "$"

/-- Words with a meaning of their own, which cannot be names. -/
inductive Keyword where
  | betweenWord | breakWord | caseWord | continueWord | defWord | defaultWord | elseWord | falseWord
  | forWord | functionWord | ifWord | inWord | loadWord | newWord | nullWord | outWord | returnWord
  | switchWord | trueWord | whereWord | whileWord
  deriving DecidableEq, Repr, Inhabited

namespace Keyword

/-- How a keyword is written. -/
def spelling : Keyword → String
  | .betweenWord => "between"
  | .breakWord => "break"
  | .caseWord => "case"
  | .continueWord => "continue"
  | .defWord => "def"
  | .defaultWord => "default"
  | .elseWord => "else"
  | .falseWord => "false"
  | .forWord => "for"
  | .functionWord => "function"
  | .ifWord => "if"
  | .inWord => "in"
  | .loadWord => "load"
  | .newWord => "new"
  | .nullWord => "null"
  | .outWord => "out"
  | .returnWord => "return"
  | .switchWord => "switch"
  | .trueWord => "true"
  | .whereWord => "where"
  | .whileWord => "while"

/-- Every keyword. -/
def all : List Keyword :=
  [.betweenWord, .breakWord, .caseWord, .continueWord, .defWord, .defaultWord, .elseWord,
   .falseWord, .forWord, .functionWord, .ifWord, .inWord, .loadWord, .newWord, .nullWord, .outWord,
   .returnWord, .switchWord, .trueWord, .whereWord, .whileWord]

/-- The keyword with the given spelling. -/
def ofChars? (cs : List Char) : Option Keyword := all.find? fun k => k.spelling.toList = cs

end Keyword

/-- The kind of a token, without the value it carries. -/
inductive TokenKind where
  | eof | ident | int | float | string | text
  | punct (p : Punct)
  | keyword (k : Keyword)
  deriving DecidableEq, Repr, Inhabited

/-- The name of a kind of token. -/
def TokenKind.name : TokenKind → String
  | .eof => "end of file"
  | .ident => "identifier"
  | .int => "int literal"
  | .float => "float literal"
  | .string => "string literal"
  | .text => "template text"
  | .punct p => p.spelling
  | .keyword k => k.spelling

/-- The name of a kind of token as messages give it: marks and keywords are quoted. -/
def TokenKind.describe : TokenKind → String
  | .punct p => "'" ++ p.spelling ++ "'"
  | .keyword k => "'" ++ k.spelling ++ "'"
  | k => k.name

/-- A token. -/
inductive Token where
  | eof
  | ident (name : Bytes)
  | int (n : Int64)
  | float (x : Float)
  | string (s : Bytes)
  | text (s : Bytes)
  | punct (p : Punct)
  | keyword (k : Keyword)
  deriving Repr, Inhabited

/-- The kind of a token. -/
def Token.kind : Token → TokenKind
  | .eof => .eof
  | .ident _ => .ident
  | .int _ => .int
  | .float _ => .float
  | .string _ => .string
  | .text _ => .text
  | .punct p => .punct p
  | .keyword k => .keyword k

/-- A token with its place and its spelling. Punctuation outside templates and the
end of the input have no recorded spelling. -/
structure Lexeme where
  token : Token
  pos : Position
  raw : Bytes := []
  deriving Repr, Inhabited

/-!
## Syntax errors

Why a source text is refused, where, and whether it was refused only because it
ended too soon. `SyntaxCause.message` is the one place where the wording stands.
-/

/-- The reason a source text is refused. -/
inductive SyntaxCause where
  -- the spelling of a token
  | invalidEncoding
  | dollarOutsideTemplate
  | unexpectedChar (c : Char)
  | unterminatedComment
  | invalidFloat
  | intOutOfRange (raw : Bytes)
  | endInString
  | newlineInString
  | invalidEscape (raw : Bytes)
  -- the order of tokens
  | expected (got want : TokenKind)
  | expectedIdent (got : TokenKind)
  | expectedBlock (got : TokenKind)
  | expectedPrimary (got : TokenKind)
  | expectedNamespace (got : TokenKind)
  | expectedCase (got : TokenKind)
  | unclosedTemplate (got : TokenKind)
  | unclosedIsland (got : TokenKind)
  | afterExpression (got : TokenKind)
  | nestedFunction
  | nestedLoad
  | caseAfterDefault
  | secondDefault
  | emptyIndex
  | nestingLimit
  deriving DecidableEq, Repr

/-- The wording of a reason. -/
def SyntaxCause.message : SyntaxCause → Bytes
  | .invalidEncoding => "invalid UTF-8 encoding"
  | .dollarOutsideTemplate => "unexpected '$' outside template"
  | .unexpectedChar c => Bytes.ofString "unexpected input character " ++ quoteChar c
  | .unterminatedComment => "unterminated comment"
  | .invalidFloat => "invalid float literal"
  | .intOutOfRange raw => Bytes.ofString "int literal " ++ raw ++ " out of range"
  | .endInString => "unexpected EOF in string"
  | .newlineInString => "unexpected newline in string"
  | .invalidEscape raw => Bytes.ofString "invalid escape sequence in " ++ raw
  | .expected got want => "got " ++ got.describe ++ ", want " ++ want.describe
  | .expectedIdent got => "got " ++ got.describe ++ ", want identifier"
  | .expectedBlock got => "got " ++ got.describe ++ ", want block"
  | .expectedPrimary got => "got " ++ got.describe ++ ", want primary expression"
  | .expectedNamespace got =>
    "load directive needs a namespace name string, got " ++ got.describe
  | .expectedCase got => "got " ++ got.describe ++ " in switch, want case or default"
  | .unclosedTemplate got => "got " ++ got.describe ++ " in template, want '|>'"
  | .unclosedIsland got => "got " ++ got.describe ++ " in template, want '$'"
  | .afterExpression got => "got " ++ got.describe ++ " after expression, want EOF"
  | .nestedFunction => "function declarations are only permitted at top level"
  | .nestedLoad => "load directives are only permitted at top level"
  | .caseAfterDefault => "case follows default in switch"
  | .secondDefault => "multiple defaults in switch"
  | .emptyIndex => "index expression needs at least one argument"
  | .nestingLimit => "source text is nested too deeply"

/-- A refusal: where, why, and whether more input could mend it. -/
structure SyntaxError where
  pos : Position
  cause : SyntaxCause
  atEnd : Bool := false
  deriving DecidableEq, Repr

/-- The position and the wording of a refusal. -/
def SyntaxError.message (e : SyntaxError) : Bytes := e.pos.text ++ ": " ++ e.cause.message

end Stencil
