import ExprLang.Token

/-!
# Expressions

* `Ident` — a name with its token.
* `Expr` — expression trees; every node keeps the token it comes from.
* `Expr.render` — the tree as text, with parentheses around every operator.
* `Expr.height` — the number of nodes on the longest path.

A node's other fields repeat what its token says in trees that come from a text; in a tree that is
built by hand they may differ, and then the fields count.
-/

namespace ExprLang

structure Ident where
  token : Token
  name : String
  deriving DecidableEq, Repr

inductive Expr where
  | ident (id : Ident)
  | int (token : Token) (value : Int)
  | bool (token : Token) (value : Bool)
  | prefixed (token : Token) (operator : String) (operand : Expr)
  | binary (token : Token) (operator : String) (left right : Expr)
  deriving DecidableEq, Repr

namespace Expr

/-- Operators stand in parentheses with their operands; an integer is shown as it was written. -/
def render : Expr → String
  | ident id => id.name
  | int token _ => token.literal
  | bool _ value => if value then "true" else "false"
  | prefixed _ operator operand => "(" ++ operator ++ operand.render ++ ")"
  | binary _ operator left right =>
    "(" ++ left.render ++ " " ++ operator ++ " " ++ right.render ++ ")"

/-- A leaf has height 1. -/
def height : Expr → Nat
  | ident _ => 1
  | int _ _ => 1
  | bool _ _ => 1
  | prefixed _ _ operand => operand.height + 1
  | binary _ _ left right => max left.height right.height + 1

theorem height_pos (e : Expr) : 0 < e.height := by
  cases e <;> simp [height]

end Expr

end ExprLang
