import ExprLang.Expr.Consumed
import ExprLang.Statement.Read

/-!
# What reading a statement consumes

* `Statement.Progress` — a success takes tokens other than semicolons, at least one, and then an
  optional semicolon; a failure steps over no semicolon.

Principal results: `progress_read`, and its corollaries on lengths `length_read_le` and
`length_le_of_read_error`.
-/

namespace ExprLang

theorem length_skipSemicolon_le (ts : List Token) : (skipSemicolon ts).length ≤ ts.length := by
  unfold skipSemicolon
  split
  · exact Nat.le_refl _
  · split <;> simp

namespace Statement

/-- What a result of reading `ts` leaves. -/
def Progress {α : Type} (ts : List Token) : Except Failure (α × List Token) → Prop
  | .ok (_, rest) => ∃ body, Leaves ts body ∧ body.length < ts.length ∧ rest = skipSemicolon body
  | .error f => Leaves ts f.rest

theorem Progress.cons {α : Type} {t : Token} {ts : List Token}
    {res : Except Failure (α × List Token)} (ht : t.kind ≠ .semicolon) (h : Progress ts res) :
    Progress (t :: ts) res := by
  cases res with
  | error f => exact Leaves.cons ht h
  | ok r =>
    obtain ⟨body, hl, hlt, he⟩ := h
    exact ⟨body, Leaves.cons ht hl, Nat.lt_succ_of_lt hlt, he⟩

/-- Progress does not depend on what is made of the expression. -/
theorem Progress.of_value {α : Type} {ts rest : List Token} {e : Expr} {a : α}
    (h : Progress ts (.ok (e, rest))) : Progress ts (.ok (a, rest)) := h

theorem progress_readValue (ts : List Token) : Progress ts (readValue ts) := by
  have h := Expr.progress_read maxNesting .lowest ts
  unfold readValue
  split <;> rename_i hr <;> rw [hr] at h
  · exact h
  · exact ⟨_, h.1, h.2, rfl⟩

theorem progress_readBinding (keyword : Token) (ts : List Token) :
    Progress ts (readBinding keyword ts) := by
  unfold readBinding
  split <;> rename_i hn
  · simp only [Progress, expect_eq_error hn]
    exact Leaves.refl _
  · obtain ⟨rfl, hk⟩ := expect_eq_ok hn
    refine Progress.cons (by simp [hk]) ?_
    split <;> rename_i ha
    · simp only [Progress, expect_eq_error ha]
      exact Leaves.refl _
    · obtain ⟨rfl, hk⟩ := expect_eq_ok ha
      refine Progress.cons (by simp [hk]) ?_
      rename_i body
      have hv := progress_readValue body
      split <;> rename_i hr <;> rw [hr] at hv
      · exact hv
      · exact hv.of_value

/-- **A statement takes its first token and stops at the first semicolon.** -/
theorem progress_read (t : Token) (rest : List Token) :
    Progress (t :: rest) (read t rest) := by
  unfold read
  split <;> rename_i hk
  · exact (progress_readBinding t rest).cons (by simp [hk])
  · refine Progress.cons (by simp [hk]) ?_
    have hv := progress_readValue rest
    split <;> rename_i hr <;> rw [hr] at hv
    · exact hv
    · exact hv.of_value
  · have hv := progress_readValue (t :: rest)
    split <;> rename_i hr <;> rw [hr] at hv
    · exact hv
    · exact hv.of_value

theorem length_read_le {t : Token} {rest after : List Token} {s : Statement}
    (h : read t rest = .ok (s, after)) : after.length ≤ rest.length := by
  have hp := progress_read t rest
  rw [h] at hp
  obtain ⟨body, -, hlt, rfl⟩ := hp
  have := length_skipSemicolon_le body
  simp only [List.length_cons] at hlt
  omega

theorem length_le_of_read_error {t : Token} {rest : List Token} {f : Failure}
    (h : read t rest = .error f) : f.rest.length ≤ rest.length + 1 := by
  have hp := progress_read t rest
  rw [h] at hp
  exact hp.length_le

end Statement

end ExprLang
