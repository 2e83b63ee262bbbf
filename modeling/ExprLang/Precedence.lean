import ExprLang.Token

/-!
# Precedence

* `Precedence` — how tightly an operator binds, from `lowest` to `call`.
* `rank` — the place in that order; `<` compares ranks.
* `TokenKind.precedence` — the precedence of a binary operator, `lowest` for every other kind.
* `TokenKind.isBinary` — the kinds that join two operands.
-/

namespace ExprLang

inductive Precedence where
  | lowest
  | equals
  | lessGreater
  | sum
  | product
  | prefixed
  | call
  deriving DecidableEq, Repr

namespace Precedence

/-- The place in the order, from 0. -/
def rank : Precedence → Nat
  | lowest => 0
  | equals => 1
  | lessGreater => 2
  | sum => 3
  | product => 4
  | prefixed => 5
  | call => 6

instance : LT Precedence := ⟨fun p q => p.rank < q.rank⟩

instance (p q : Precedence) : Decidable (p < q) := inferInstanceAs (Decidable (p.rank < q.rank))

theorem lt_iff {p q : Precedence} : p < q ↔ p.rank < q.rank := Iff.rfl

/-- Which of two precedences binds more tightly. -/
def order (p q : Precedence) : Ordering := compare p.rank q.rank

end Precedence

/-- The precedence of a binary operator; a kind that joins no operands is at the bottom. -/
def TokenKind.precedence : TokenKind → Precedence
  | eq | notEq => .equals
  | lt | gt => .lessGreater
  | plus | minus => .sum
  | asterisk | slash => .product
  | _ => .lowest

/-- The kinds that join two operands. -/
def TokenKind.isBinary (k : TokenKind) : Bool := decide (.lowest < k.precedence)

/-- Only a binary operator binds more tightly than something. -/
theorem TokenKind.isBinary_of_lt {bound : Precedence} {k : TokenKind} (h : bound < k.precedence) :
    k.isBinary = true := by
  have h0 : Precedence.lowest < k.precedence :=
    Precedence.lt_iff.mpr (Nat.lt_of_le_of_lt (Nat.zero_le _) (Precedence.lt_iff.mp h))
  simpa [isBinary] using h0

theorem TokenKind.ne_semicolon_of_lt {bound : Precedence} {k : TokenKind}
    (h : bound < k.precedence) : k ≠ .semicolon := by
  rintro rfl
  exact absurd (isBinary_of_lt h) (by decide)

end ExprLang
