import ExprLang.Expr.Read

/-!
# What reading an expression consumes

* `Leaves` — some tokens are what is left of others after a part without a semicolon.
* `Progress` — a result leaves a shorter rest if it is a success, and some rest if it is a failure.

Principal result: `progress_read` — an expression takes at least one token, and neither a success
nor a failure steps over a semicolon.
-/

namespace ExprLang

/-- `rest` is left of `ts` after a part that holds no semicolon. -/
def Leaves (ts rest : List Token) : Prop :=
  ∃ used, ts = used ++ rest ∧ ∀ t ∈ used, t.kind ≠ .semicolon

namespace Leaves

theorem refl (ts : List Token) : Leaves ts ts := ⟨[], rfl, by simp⟩

theorem cons {t : Token} {ts rest : List Token} (ht : t.kind ≠ .semicolon) (h : Leaves ts rest) :
    Leaves (t :: ts) rest := by
  obtain ⟨used, rfl, hu⟩ := h
  exact ⟨t :: used, rfl, by simpa using ⟨ht, hu⟩⟩

theorem trans {a b c : List Token} (hab : Leaves a b) (hbc : Leaves b c) : Leaves a c := by
  obtain ⟨u, rfl, hu⟩ := hab
  obtain ⟨v, rfl, hv⟩ := hbc
  refine ⟨u ++ v, by simp, fun t ht => ?_⟩
  rcases List.mem_append.mp ht with h | h
  · exact hu t h
  · exact hv t h

theorem length_le {ts rest : List Token} (h : Leaves ts rest) : rest.length ≤ ts.length := by
  obtain ⟨used, rfl, _⟩ := h
  simp

end Leaves

namespace Expr

/-- What a result of reading `ts` leaves. -/
def Progress (ts : List Token) : Except Failure Reading → Prop
  | .ok r => Leaves ts r.rest ∧ r.rest.length < ts.length
  | .error f => Leaves ts f.rest

theorem Progress.cons {t : Token} {ts : List Token} {res : Except Failure Reading}
    (ht : t.kind ≠ .semicolon) (h : Progress ts res) : Progress (t :: ts) res := by
  cases res with
  | error f => exact Leaves.cons ht h
  | ok r => exact ⟨Leaves.cons ht h.1, Nat.lt_succ_of_lt h.2⟩

theorem progress_limited {ts : List Token} {r : Reading} (h : Leaves ts r.rest)
    (hl : r.rest.length < ts.length) : Progress ts (limited r) := by
  unfold limited
  split
  · exact ⟨h, hl⟩
  · exact h

variable {inner : Reader}

theorem progress_prefixOperation (hi : ∀ bound ts, Progress ts (inner bound ts)) (op : Token)
    (ts : List Token) : Progress ts (prefixOperation inner op ts) := by
  have h := hi .prefixed ts
  unfold prefixOperation
  split <;> rename_i hr <;> rw [hr] at h
  · exact h
  · exact progress_limited h.1 h.2

theorem progress_group (hi : ∀ bound ts, Progress ts (inner bound ts)) (ts : List Token) :
    Progress ts (group inner ts) := by
  have h := hi .lowest ts
  unfold group
  split <;> rename_i hr <;> rw [hr] at h
  · exact h
  · split <;> rename_i he
    · have := expect_eq_error he
      simp only [Progress, this]
      exact h.1
    · obtain ⟨hrest, hk⟩ := expect_eq_ok he
      obtain ⟨hl, hlt⟩ := h
      rw [hrest] at hl hlt
      have ht := hl.trans (Leaves.cons (by simp [hk]) (Leaves.refl _))
      exact progress_limited ht (by simp only [List.length_cons] at hlt ⊢; omega)

theorem progress_integer {t : Token} (ht : t.kind ≠ .semicolon) (rest : List Token) :
    Progress (t :: rest) (integer t rest) := by
  unfold integer
  split
  · exact ⟨(Leaves.refl rest).cons ht, by simp⟩
  · exact Leaves.refl _

theorem progress_operand (hi : ∀ bound ts, Progress ts (inner bound ts)) (ts : List Token) :
    Progress ts (operand inner ts) := by
  cases ts with
  | nil => exact Leaves.refl _
  | cons t rest =>
    have leaf {e : Expr} (ht : t.kind ≠ .semicolon) : Progress (t :: rest) (.ok ⟨e, 1, rest⟩) :=
      ⟨(Leaves.refl rest).cons ht, by simp⟩
    simp only [operand]
    split <;> rename_i hk
    · exact leaf (by simp [hk])
    · exact progress_integer (by simp [hk]) rest
    · exact leaf (by simp [hk])
    · exact leaf (by simp [hk])
    · exact (progress_prefixOperation hi t rest).cons (by simp [hk])
    · exact (progress_prefixOperation hi t rest).cons (by simp [hk])
    · exact (progress_group hi rest).cons (by simp [hk])
    · exact Leaves.refl _

theorem progress_chain (hi : ∀ bound ts, Progress ts (inner bound ts)) {ts : List Token}
    (bound : Precedence) (left : Reading) (h : Leaves ts left.rest)
    (hl : left.rest.length < ts.length) : Progress ts (chain inner bound left) := by
  fun_induction chain inner bound left with
  | case1 left hr => exact ⟨h, hl⟩
  | case2 left op rest hr hb f hf =>
    have hp := hi op.kind.precedence rest
    rw [hf] at hp
    have hop := TokenKind.ne_semicolon_of_lt hb
    rw [hr] at h
    exact h.trans (Leaves.cons hop hp)
  | case3 left op rest hr hb right hok height hh ih =>
    have hp := hi op.kind.precedence rest
    rw [hok] at hp
    have hop := TokenKind.ne_semicolon_of_lt hb
    rw [hr] at h hl
    refine ih (h.trans (Leaves.cons hop hp.1)) ?_
    have := hp.2
    simp only [List.length_cons] at hl
    simp only
    omega
  | case4 left op rest hr hb right hok height hh =>
    have hp := hi op.kind.precedence rest
    rw [hok] at hp
    have hop := TokenKind.ne_semicolon_of_lt hb
    rw [hr] at h
    exact h.trans (Leaves.cons hop hp.1)
  | case5 left op rest hr hb => exact ⟨h, hl⟩

/-- **Reading an expression takes at least one token and never a semicolon.** -/
theorem progress_read (room : Nat) (bound : Precedence) (ts : List Token) :
    Progress ts (read room bound ts) := by
  induction room generalizing bound ts with
  | zero => exact Leaves.refl _
  | succ room ih =>
    have h := progress_operand ih ts
    unfold read
    split <;> rename_i hr <;> rw [hr] at h
    · exact h
    · exact progress_chain ih bound _ h.1 h.2

end Expr

end ExprLang
