import ExprLang.Event
import ExprLang.Statement.Consumed

/-!
# Attempts at statements

* `Attempt` — one statement that was kept, or one that failed and was skipped.
* `toSemicolon` — the tokens from the first semicolon on.
* `Attempt.all` — the attempts at all statements of a token sequence.
* `Attempt.events` — what is reported about one attempt.

A failed statement is skipped up to and including the first semicolon at or after the place of the
failure, or up to the end of input. So each attempt gives either one statement or one diagnostic.
-/

namespace ExprLang

/-- What became of the statement that starts with the token `first`. -/
inductive Attempt where
  | kept (first : Token) (statement : Statement)
  | failed (first : Token) (diagnostic : Diagnostic) (stop : Token)
  deriving DecidableEq, Repr

/-- The tokens from the first semicolon on. -/
def toSemicolon (ts : List Token) : List Token :=
  ts.dropWhile fun t => decide (t.kind ≠ .semicolon)

theorem length_tail_toSemicolon_lt {ts : List Token} {n : Nat} (h : ts.length ≤ n + 1) :
    (toSemicolon ts).tail.length < n + 1 := by
  have hd : (toSemicolon ts).length ≤ ts.length := (List.dropWhile_sublist _).length_le
  rw [List.length_tail]
  omega

namespace Attempt

/-- The attempts at the statements of `ts`, in order. -/
def all : List Token → List Attempt
  | [] => []
  | t :: rest =>
    match _h : Statement.read t rest with
    | .ok (statement, after) => kept t statement :: all after
    | .error f =>
      failed t f.diagnostic ((toSemicolon f.rest).head?.getD Token.eof) ::
        all (toSemicolon f.rest).tail
termination_by ts => ts.length
decreasing_by
  · exact Nat.lt_succ_of_le (Statement.length_read_le _h)
  · exact length_tail_toSemicolon_lt (Statement.length_le_of_read_error _h)

theorem all_cons_of_ok {t : Token} {rest after : List Token} {s : Statement}
    (h : Statement.read t rest = .ok (s, after)) : all (t :: rest) = kept t s :: all after := by
  rw [all]
  split <;> simp_all

theorem all_cons_of_error {t : Token} {rest : List Token} {f : Failure}
    (h : Statement.read t rest = .error f) :
    all (t :: rest) =
      failed t f.diagnostic ((toSemicolon f.rest).head?.getD Token.eof) ::
        all (toSemicolon f.rest).tail := by
  rw [all]
  split <;> simp_all

/-- The statement, if it was kept. -/
def statement? : Attempt → Option Statement
  | kept _ statement => some statement
  | failed _ _ _ => none

/-- The cause, if it failed. -/
def diagnostic? : Attempt → Option Diagnostic
  | kept _ _ => none
  | failed _ diagnostic _ => some diagnostic

/-- A start for every attempt; for a failure also its cause and the token where skipping stopped. -/
def events : Attempt → List Event
  | kept first _ => [.statementStarted first]
  | failed first diagnostic stop =>
    [.statementStarted first, .syntaxError diagnostic, .resynchronized stop]

end Attempt

end ExprLang
