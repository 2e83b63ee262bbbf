import ExprLang.Expr

/-!
# Statements and programs

* `Statement` — a binding, a return or an expression by itself, with the token it starts with.
* `Program` — statements in order.
* `render` — both as text; statements follow each other without a separator.
-/

namespace ExprLang

inductive Statement where
  | binding (token : Token) (name : Ident) (value : Expr)
  | ret (token : Token) (value : Expr)
  | expr (token : Token) (value : Expr)
  deriving DecidableEq, Repr

namespace Statement

/-- The token that the statement starts with. -/
def token : Statement → Token
  | binding token _ _ => token
  | ret token _ => token
  | expr token _ => token

/-- The expression that is bound, returned or evaluated. -/
def value : Statement → Expr
  | binding _ _ value => value
  | ret _ value => value
  | expr _ value => value

/-- A binding or return is shown with its keyword and a semicolon, an expression as it is. -/
def render : Statement → String
  | binding token name value =>
    token.literal ++ " " ++ name.name ++ " = " ++ value.render ++ ";"
  | ret token value => token.literal ++ " " ++ value.render ++ ";"
  | expr _ value => value.render

end Statement

structure Program where
  statements : List Statement
  deriving DecidableEq, Repr

namespace Program

/-- The statements one after the other. -/
def render (p : Program) : String := String.join (p.statements.map Statement.render)

/-- The literal of the token that the program starts with, empty for no statements. -/
def tokenLiteral (p : Program) : String :=
  match p.statements with
  | [] => ""
  | s :: _ => s.token.literal

end Program

end ExprLang
