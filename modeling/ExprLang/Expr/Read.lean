import ExprLang.Expr
import ExprLang.Failure
import ExprLang.Precedence

/-!
# From tokens to expressions

* `Reading` — an expression, the height it was written with, and the tokens after it.
* `limited` — refuses a reading that is too high.
* `prefixOperation`, `group` — what follows a prefix operator or an opening parenthesis.
* `operand` — a leaf, a prefix operator with its operand, or a group.
* `chain` — the binary operators that follow an operand and bind more tightly than a bound.
* `read` — an operand with its chain, within a number of levels of nesting.

`operand` and `chain` take the reader for what is nested inside them as a parameter, and `read`
ties the knot by recursion on the levels that are left. The height of a reading counts groups as
well as operators; it never passes `maxNesting`, which also bounds the length of a chain.
-/

namespace ExprLang

/-- The levels of nesting and the height that an expression may have. -/
def maxNesting : Nat := 256

/-- The largest integer that may be written: the largest one of 64 bits with a sign. -/
def maxInteger : Nat := 9223372036854775807

namespace Expr

/-- An expression that was read; a leaf has height 1 and a group is one higher than its inside. -/
structure Reading where
  expr : Expr
  height : Nat
  rest : List Token
  deriving DecidableEq, Repr

/-- Reads an expression whose binary operators outside groups bind more tightly than a bound. -/
abbrev Reader := Precedence → List Token → Except Failure Reading

/-- The value of a run of decimal digits, if it is not too large; leading zeros do not count. -/
def integer? (literal : String) : Option Int :=
  let n := Nat.ofDigitChars 10 literal.toList 0
  if n ≤ maxInteger then some n else none

theorem integer?_eq_some_iff {literal : String} {value : Int} :
    integer? literal = some value ↔
      value = Nat.ofDigitChars 10 literal.toList 0 ∧
        Nat.ofDigitChars 10 literal.toList 0 ≤ maxInteger := by
  unfold integer?
  simp only
  split
  · rename_i hle
    rw [Option.some.injEq, eq_comm]
    exact ⟨fun h => ⟨h, hle⟩, And.left⟩
  · rename_i hgt
    constructor
    · exact nofun
    · rintro ⟨-, hle⟩
      exact absurd hle hgt

/-- The same reading, unless it is too high. -/
def limited (r : Reading) : Except Failure Reading :=
  if r.height ≤ maxNesting then .ok r else .error ⟨.nestingTooDeep, r.rest⟩

/-- The operand of the prefix operator `op`. -/
def prefixOperation (inner : Reader) (op : Token) (ts : List Token) : Except Failure Reading :=
  match inner .prefixed ts with
  | .error f => .error f
  | .ok r => limited ⟨.prefixed op op.literal r.expr, r.height + 1, r.rest⟩

/-- The inside of a group and its closing parenthesis; the group makes no node. -/
def group (inner : Reader) (ts : List Token) : Except Failure Reading :=
  match inner .lowest ts with
  | .error f => .error f
  | .ok r =>
    match expect .rParen r.rest with
    | .error f => .error f
    | .ok (_, after) => limited ⟨r.expr, r.height + 1, after⟩

/-- An integer that is not too large. -/
def integer (t : Token) (rest : List Token) : Except Failure Reading :=
  match integer? t.literal with
  | some value => .ok ⟨.int t value, 1, rest⟩
  | none => .error ⟨.invalidInteger t.literal, t :: rest⟩

/-- What stands before a binary operator or on its right. -/
def operand (inner : Reader) : List Token → Except Failure Reading
  | [] => .error ⟨.noOperand .eof, []⟩
  | t :: rest =>
    match t.kind with
    | .ident => .ok ⟨.ident ⟨t, t.literal⟩, 1, rest⟩
    | .int => integer t rest
    | .trueWord => .ok ⟨.bool t true, 1, rest⟩
    | .falseWord => .ok ⟨.bool t false, 1, rest⟩
    | .bang | .minus => prefixOperation inner t rest
    | .lParen => group inner rest
    | kind => .error ⟨.noOperand kind, t :: rest⟩

/-- Extends the left operand by each operator that binds more tightly than `bound`. The right
operand takes what binds more tightly still, so equal operators group to the left. -/
def chain (inner : Reader) (bound : Precedence) (left : Reading) : Except Failure Reading :=
  match left.rest with
  | [] => .ok left
  | op :: rest =>
    if bound < op.kind.precedence then
      match inner op.kind.precedence rest with
      | .error f => .error f
      | .ok right =>
        let height := max left.height right.height + 1
        if height ≤ maxNesting then
          chain inner bound ⟨.binary op op.literal left.expr right.expr, height, right.rest⟩
        else .error ⟨.nestingTooDeep, right.rest⟩
    else .ok left
termination_by maxNesting - left.height

/-- Reads an expression with `room` levels of nesting left. -/
def read : Nat → Reader
  | 0, _, ts => .error ⟨.nestingTooDeep, ts⟩
  | room + 1, bound, ts =>
    match operand (read room) ts with
    | .error f => .error f
    | .ok left => chain (read room) bound left

end Expr

end ExprLang
