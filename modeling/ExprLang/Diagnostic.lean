import ExprLang.Token

/-!
# Diagnostics

* `Diagnostic` — why a statement could not be read.
* `Diagnostic.message` — its wording.
-/

namespace ExprLang

inductive Diagnostic where
  | unexpectedToken (expected got : TokenKind)
  | noOperand (kind : TokenKind)
  | invalidInteger (literal : String)
  | nestingTooDeep
  deriving DecidableEq, Repr

namespace Diagnostic

/-- The wording that a user sees. -/
def message : Diagnostic → String
  | unexpectedToken expected got =>
    "expected next token to be " ++ expected.name ++ ", got " ++ got.name ++ " instead"
  | noOperand kind => "no prefix parse function for " ++ kind.name ++ " found"
  | invalidInteger literal => "could not parse " ++ Text.quote literal ++ " as integer"
  | nestingTooDeep => "expression nested too deeply"

end Diagnostic

end ExprLang
