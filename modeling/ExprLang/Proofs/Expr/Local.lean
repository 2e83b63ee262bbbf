import ExprLang.Proofs.Expr.Complete

/-!
# Reading does not look past a semicolon

* `Expr.Alike` — two results that differ only in the tokens after a point that neither has passed.

Principal result: `alike_read` — token sequences that agree up to a semicolon are read alike,
wherever the reading succeeds or breaks off.
-/

namespace ExprLang

namespace Expr

/-- The same success or the same failure, at the same place before `u` in one and `v` in the
other. -/
def Alike (u v : List Token) (a b : Except Failure Reading) : Prop :=
  (∃ e n y, a = .ok ⟨e, n, y ++ u⟩ ∧ b = .ok ⟨e, n, y ++ v⟩) ∨
    ∃ d y, a = .error ⟨d, y ++ u⟩ ∧ b = .error ⟨d, y ++ v⟩

theorem Alike.ok {u v : List Token} (e : Expr) (n : Nat) (y : List Token) :
    Alike u v (.ok ⟨e, n, y ++ u⟩) (.ok ⟨e, n, y ++ v⟩) := .inl ⟨e, n, y, rfl, rfl⟩

theorem Alike.error {u v : List Token} (d : Diagnostic) (y : List Token) :
    Alike u v (.error ⟨d, y ++ u⟩) (.error ⟨d, y ++ v⟩) := .inr ⟨d, y, rfl, rfl⟩

theorem alike_limited (u v : List Token) (e : Expr) (n : Nat) (y : List Token) :
    Alike u v (limited ⟨e, n, y ++ u⟩) (limited ⟨e, n, y ++ v⟩) := by
  unfold limited
  simp only
  split
  · exact .ok e n y
  · exact .error .nestingTooDeep y

section

variable {inner : Reader} {semi : Token} {us vs : List Token}

theorem alike_prefixOperation
    (hi : ∀ bound x, Alike (semi :: us) (semi :: vs) (inner bound (x ++ semi :: us))
      (inner bound (x ++ semi :: vs)))
    (op : Token) (x : List Token) :
    Alike (semi :: us) (semi :: vs) (prefixOperation inner op (x ++ semi :: us))
      (prefixOperation inner op (x ++ semi :: vs)) := by
  unfold prefixOperation
  rcases hi .prefixed x with ⟨e, n, y, ha, hb⟩ | ⟨d, y, ha, hb⟩ <;> rw [ha, hb]
  · exact alike_limited _ _ _ _ y
  · exact .error d y

theorem alike_group (hs : semi.kind = .semicolon)
    (hi : ∀ bound x, Alike (semi :: us) (semi :: vs) (inner bound (x ++ semi :: us))
      (inner bound (x ++ semi :: vs)))
    (x : List Token) :
    Alike (semi :: us) (semi :: vs) (group inner (x ++ semi :: us))
      (group inner (x ++ semi :: vs)) := by
  unfold group
  rcases hi .lowest x with ⟨e, n, y, ha, hb⟩ | ⟨d, y, ha, hb⟩ <;> rw [ha, hb]
  · cases y with
    | nil =>
      simp only [List.nil_append, expect, hs, reduceCtorEq, if_false]
      exact .error _ []
    | cons t y =>
      simp only [List.cons_append, expect]
      by_cases ht : t.kind = .rParen
      · simp only [ht, if_true]
        exact alike_limited _ _ _ _ y
      · simp only [ht, if_false]
        exact .error _ (t :: y)
  · exact .error d y

theorem alike_operand (hs : semi.kind = .semicolon)
    (hi : ∀ bound x, Alike (semi :: us) (semi :: vs) (inner bound (x ++ semi :: us))
      (inner bound (x ++ semi :: vs)))
    (x : List Token) :
    Alike (semi :: us) (semi :: vs) (operand inner (x ++ semi :: us))
      (operand inner (x ++ semi :: vs)) := by
  cases x with
  | nil =>
    simp only [List.nil_append, operand, hs]
    exact .error _ []
  | cons t x =>
    simp only [List.cons_append, operand]
    split
    · exact .ok _ 1 x
    · unfold integer
      split
      · exact .ok _ 1 x
      · exact .error _ (t :: x)
    · exact .ok _ 1 x
    · exact .ok _ 1 x
    · exact alike_prefixOperation hi t x
    · exact alike_prefixOperation hi t x
    · exact alike_group hs hi x
    · exact .error _ (t :: x)

theorem alike_chain (hs : semi.kind = .semicolon)
    (hi : ∀ bound x, Alike (semi :: us) (semi :: vs) (inner bound (x ++ semi :: us))
      (inner bound (x ++ semi :: vs)))
    (bound : Precedence) (e : Expr) (n : Nat) (y : List Token) :
    Alike (semi :: us) (semi :: vs) (chain inner bound ⟨e, n, y ++ semi :: us⟩)
      (chain inner bound ⟨e, n, y ++ semi :: vs⟩) := by
  cases y with
  | nil =>
    rw [chain_of_stops (stops_semicolon hs _ _), chain_of_stops (stops_semicolon hs _ _)]
    exact .ok e n []
  | cons op y =>
    by_cases hb : bound < op.kind.precedence
    · rw [List.cons_append, List.cons_append, chain_cons_of_lt hb, chain_cons_of_lt hb]
      rcases hi op.kind.precedence y with ⟨r, m, z, ha, hb⟩ | ⟨d, z, ha, hb⟩ <;> rw [ha, hb]
      · simp only
        split
        · exact alike_chain hs hi bound _ _ z
        · exact .error .nestingTooDeep z
      · exact .error d z
    · have hstop (rest : List Token) : Stops bound.rank (op :: rest) :=
        .cons (Nat.le_of_not_lt fun hlt => hb (Precedence.lt_iff.mpr hlt))
      rw [chain_of_stops (hstop _), chain_of_stops (hstop _)]
      exact .ok e n (op :: y)
termination_by maxNesting - n

end

/-- **Token sequences that agree up to a semicolon are read alike.** -/
theorem alike_read {semi : Token} (hs : semi.kind = .semicolon) (us vs : List Token) (room : Nat)
    (bound : Precedence) (x : List Token) :
    Alike (semi :: us) (semi :: vs) (read room bound (x ++ semi :: us))
      (read room bound (x ++ semi :: vs)) := by
  induction room generalizing bound x with
  | zero => exact .error .nestingTooDeep x
  | succ room ih =>
    unfold read
    rcases alike_operand hs ih x with ⟨e, n, y, ha, hb⟩ | ⟨d, y, ha, hb⟩ <;> rw [ha, hb]
    · exact alike_chain hs ih bound e n y
    · exact .error d y

end Expr

end ExprLang
