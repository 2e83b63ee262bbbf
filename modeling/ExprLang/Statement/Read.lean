import ExprLang.Expr.Read
import ExprLang.Statement

/-!
# From tokens to one statement

* `skipSemicolon` — steps over one semicolon if it comes next.
* `Statement.read` — the statement that starts with a given token, and the tokens after it.

The first token decides the form: `let NAME = expression`, `return expression`, and otherwise an
expression. Each form may end with a semicolon.
-/

namespace ExprLang

/-- The tokens after an optional semicolon. -/
def skipSemicolon : List Token → List Token
  | [] => []
  | t :: rest => if t.kind = .semicolon then rest else t :: rest

theorem skipSemicolon_cons {semi : Token} (hs : semi.kind = .semicolon) (rest : List Token) :
    skipSemicolon (semi :: rest) = rest := by
  simp [skipSemicolon, hs]

theorem skipSemicolon_cons_of_ne {t : Token} (ht : t.kind ≠ .semicolon) (rest : List Token) :
    skipSemicolon (t :: rest) = t :: rest := by
  simp [skipSemicolon, ht]

namespace Statement

/-- An expression with all levels of nesting left, then an optional semicolon. -/
def readValue (ts : List Token) : Except Failure (Expr × List Token) :=
  match Expr.read maxNesting .lowest ts with
  | .error f => .error f
  | .ok r => .ok (r.expr, skipSemicolon r.rest)

/-- The rest of a binding after its keyword. -/
def readBinding (keyword : Token) (ts : List Token) : Except Failure (Statement × List Token) :=
  match expect .ident ts with
  | .error f => .error f
  | .ok (name, ts) =>
    match expect .assign ts with
    | .error f => .error f
    | .ok (_, ts) =>
      match readValue ts with
      | .error f => .error f
      | .ok (value, ts) => .ok (.binding keyword ⟨name, name.literal⟩ value, ts)

/-- The statement that starts with the token `t`. -/
def read (t : Token) (rest : List Token) : Except Failure (Statement × List Token) :=
  match t.kind with
  | .letWord => readBinding t rest
  | .returnWord =>
    match readValue rest with
    | .error f => .error f
    | .ok (value, ts) => .ok (.ret t value, ts)
  | _ =>
    match readValue (t :: rest) with
    | .error f => .error f
    | .ok (value, ts) => .ok (.expr t value, ts)

end Statement

end ExprLang
