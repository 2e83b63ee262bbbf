import ExprLang.Diagnostic

/-!
# Failures of reading

* `Failure` — why reading stopped, and the tokens that were not consumed.
* `expect` — takes one token of a given kind.
-/

namespace ExprLang

/-- The cause, and the tokens from the place where it was found. -/
structure Failure where
  diagnostic : Diagnostic
  rest : List Token
  deriving DecidableEq, Repr

/-- The first token, if it is of this kind, and the others. -/
def expect (kind : TokenKind) : List Token → Except Failure (Token × List Token)
  | [] => .error ⟨.unexpectedToken kind .eof, []⟩
  | t :: rest =>
    if t.kind = kind then .ok (t, rest) else .error ⟨.unexpectedToken kind t.kind, t :: rest⟩

theorem expect_eq_ok {kind : TokenKind} {ts rest : List Token} {t : Token}
    (h : expect kind ts = .ok (t, rest)) : ts = t :: rest ∧ t.kind = kind := by
  unfold expect at h
  split at h
  · cases h
  · split at h
    · cases h
      exact ⟨rfl, by assumption⟩
    · cases h

theorem expect_eq_error {kind : TokenKind} {ts : List Token} {f : Failure}
    (h : expect kind ts = .error f) : f.rest = ts := by
  unfold expect at h
  split at h
  · cases h; rfl
  · split at h
    · cases h
    · cases h; rfl

end ExprLang
