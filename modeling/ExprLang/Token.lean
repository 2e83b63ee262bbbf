import ExprLang.Text.Quoted

/-!
# Tokens

* `TokenKind` — the classes of tokens; `name` is the word for a class in listings and messages.
* `TokenKind.ofWord` — a word is a keyword or an identifier.
* `Token` — a kind with the text it stands for; `display` writes both, the text in quotes.
-/

namespace ExprLang

inductive TokenKind where
  | illegal
  | eof
  | ident
  | int
  | assign
  | plus
  | minus
  | bang
  | asterisk
  | slash
  | lt
  | gt
  | eq
  | notEq
  | comma
  | semicolon
  | lParen
  | rParen
  | lBrace
  | rBrace
  | fnWord
  | letWord
  | trueWord
  | falseWord
  | ifWord
  | elseWord
  | returnWord
  deriving DecidableEq, Repr

namespace TokenKind

/-- Symbols are named by themselves, the other kinds by a word in capitals. -/
def name : TokenKind → String
  | illegal => "ILLEGAL"
  | eof => "EOF"
  | ident => "IDENT"
  | int => "INT"
  | assign => "="
  | plus => "+"
  | minus => "-"
  | bang => "!"
  | asterisk => "*"
  | slash => "/"
  | lt => "<"
  | gt => ">"
  | eq => "=="
  | notEq => "!="
  | comma => ","
  | semicolon => ";"
  | lParen => "("
  | rParen => ")"
  | lBrace => "\x7b"
  | rBrace => "\x7d"
  | fnWord => "FUNCTION"
  | letWord => "LET"
  | trueWord => "TRUE"
  | falseWord => "FALSE"
  | ifWord => "IF"
  | elseWord => "ELSE"
  | returnWord => "RETURN"

/-- The kind of a whole word: its keyword, or an identifier. -/
def ofWord (word : String) : TokenKind :=
  if word = "fn" then fnWord
  else if word = "let" then letWord
  else if word = "true" then trueWord
  else if word = "false" then falseWord
  else if word = "if" then ifWord
  else if word = "else" then elseWord
  else if word = "return" then returnWord
  else ident

end TokenKind

/-- A piece of text and its class. -/
structure Token where
  kind : TokenKind
  literal : String
  deriving DecidableEq, Repr

namespace Token

/-- The token that stands for the end of input. -/
def eof : Token := ⟨.eof, ""⟩

/-- The kind's name and the quoted literal. -/
def display (t : Token) : String :=
  t.kind.name ++ " " ++ Text.quote t.literal

end Token

end ExprLang
