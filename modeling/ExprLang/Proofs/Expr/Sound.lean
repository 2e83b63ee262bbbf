import ExprLang.Proofs.Expr.Derivation

/-!
# What is read is derived

* `Expr.Sound` — a successful reading consumed a derivation at a level and stopped there.

Principal result: `sound_read` — every successful reading of an expression is sound, at every level
and with any room.
-/

namespace ExprLang

namespace Expr

/-- If the result is a success, the tokens it consumed derive its tree with its height, which is
within the limit, and what is left does not go on at the level. -/
def Sound (level : Nat) (ts : List Token) : Except Failure Reading → Prop
  | .ok r => ∃ used, ts = used ++ r.rest ∧ Derives level r.height r.expr used ∧
      Stops level r.rest ∧ r.height ≤ maxNesting
  | .error _ => True

/-- The same for an operand, which is derived at every level; anything may come after it. -/
def SoundOperand (ts : List Token) : Except Failure Reading → Prop
  | .ok r => ∃ used, ts = used ++ r.rest ∧ (∀ level, Derives level r.height r.expr used) ∧
      r.height ≤ maxNesting
  | .error _ => True

theorem soundOperand_limited {ts used : List Token} {r : Reading} (hts : ts = used ++ r.rest)
    (h : ∀ level, Derives level r.height r.expr used) : SoundOperand ts (limited r) := by
  unfold limited
  split
  · exact ⟨used, hts, h, by assumption⟩
  · trivial

variable {inner : Reader}

theorem soundOperand_prefixOperation (hi : ∀ bound ts, Sound bound.rank ts (inner bound ts))
    {op : Token} (hop : op.kind = .bang ∨ op.kind = .minus) (ts : List Token) :
    SoundOperand (op :: ts) (prefixOperation inner op ts) := by
  have h := hi .prefixed ts
  unfold prefixOperation
  split <;> rename_i hr <;> rw [hr] at h
  · trivial
  · obtain ⟨used, hts, hd, -, -⟩ := h
    exact soundOperand_limited (by simp [hts]) fun _ => .prefixed hop hd

theorem soundOperand_group (hi : ∀ bound ts, Sound bound.rank ts (inner bound ts))
    {opening : Token} (ho : opening.kind = .lParen) (ts : List Token) :
    SoundOperand (opening :: ts) (group inner ts) := by
  have h := hi .lowest ts
  unfold group
  split <;> rename_i hr <;> rw [hr] at h
  · trivial
  · split <;> rename_i he
    · trivial
    · obtain ⟨used, hts, hd, -, -⟩ := h
      obtain ⟨hrest, hc⟩ := expect_eq_ok he
      refine soundOperand_limited ?_ fun _ => .group ho hc hd
      rw [hts, hrest]
      simp

theorem soundOperand_operand (hi : ∀ bound ts, Sound bound.rank ts (inner bound ts))
    (ts : List Token) : SoundOperand ts (operand inner ts) := by
  cases ts with
  | nil => trivial
  | cons t rest =>
    have leaf {e : Expr} (h : ∀ level, Derives level 1 e [t]) :
        SoundOperand (t :: rest) (.ok ⟨e, 1, rest⟩) := ⟨[t], rfl, h, Nat.le_add_left 1 255⟩
    simp only [operand]
    split <;> rename_i hk
    · exact leaf fun _ => .ident hk
    · unfold integer
      split
      · exact leaf fun _ => .int hk (by assumption)
      · trivial
    · exact leaf fun _ => .trueWord hk
    · exact leaf fun _ => .falseWord hk
    · exact soundOperand_prefixOperation hi (.inl hk) rest
    · exact soundOperand_prefixOperation hi (.inr hk) rest
    · exact soundOperand_group hi hk rest
    · trivial

/-- The invariant of the loop over binary operators: what was consumed so far derives the left side
at the level, and also at the level that the next operator asks of its left side. -/
def SoundLeft (level : Nat) (ts : List Token) (left : Reading) : Prop :=
  ∃ used, ts = used ++ left.rest ∧ Derives level left.height left.expr used ∧
    left.height ≤ maxNesting ∧
    ∀ op ∈ left.rest.head?, ∀ k, op.kind.precedence.rank = k + 1 →
      Derives k left.height left.expr used

/-- One turn of the loop keeps the invariant: the right side stopped at the rank of its operator, so
the next operator binds no more tightly. -/
theorem SoundLeft.step {bound : Precedence} {ts rest : List Token} {left right : Reading}
    {op : Token} (h : SoundLeft bound.rank ts left) (hr : left.rest = op :: rest)
    (hb : bound < op.kind.precedence)
    (hright : Sound op.kind.precedence.rank rest (.ok right))
    (hh : max left.height right.height + 1 ≤ maxNesting) :
    SoundLeft bound.rank ts ⟨.binary op op.literal left.expr right.expr,
      max left.height right.height + 1, right.rest⟩ := by
  obtain ⟨used, hts, -, -, hn⟩ := h
  obtain ⟨more, hrest, hdr, hstop, -⟩ := hright
  rw [Precedence.lt_iff] at hb
  obtain ⟨k, hk⟩ := Nat.exists_eq_succ_of_ne_zero (Nat.ne_zero_of_lt hb)
  rw [hk] at hb hdr hstop
  have hdl := hn op (by simp [hr]) k hk
  have both {level : Nat} (hle : level ≤ k) :
      Derives level (max left.height right.height + 1)
        (.binary op op.literal left.expr right.expr) (used ++ op :: more) :=
    .binary hk hle hdl hdr
  refine ⟨used ++ op :: more, by simp [hts, hr, hrest], both (Nat.le_of_lt_succ hb), hh, ?_⟩
  intro op' hop' k' hk'
  have := hstop op' hop'
  exact both (by omega)

theorem sound_chain (hi : ∀ bound ts, Sound bound.rank ts (inner bound ts)) {ts : List Token}
    (bound : Precedence) (left : Reading) (h : SoundLeft bound.rank ts left) :
    Sound bound.rank ts (chain inner bound left) := by
  fun_induction chain inner bound left with
  | case1 left hr =>
    obtain ⟨used, hts, hd, hl, -⟩ := h
    exact ⟨used, hts, hd, hr ▸ .nil _, hl⟩
  | case2 => trivial
  | case3 left op rest hr hb right hok height hh ih =>
    exact ih (h.step hr hb (hok ▸ hi _ rest) hh)
  | case4 => trivial
  | case5 left op rest hr hb =>
    obtain ⟨used, hts, hd, hl, -⟩ := h
    refine ⟨used, hts, hd, ?_, hl⟩
    rw [hr]
    exact .cons (Nat.le_of_not_lt fun hlt => hb (Precedence.lt_iff.mpr hlt))

/-- **What is read is derived at its level, within the limit, and the reading goes as far as the
level allows.** -/
theorem sound_read (room : Nat) (bound : Precedence) (ts : List Token) :
    Sound bound.rank ts (read room bound ts) := by
  induction room generalizing bound ts with
  | zero => trivial
  | succ room ih =>
    have h := soundOperand_operand ih ts
    unfold read
    split <;> rename_i hr <;> rw [hr] at h
    · trivial
    · obtain ⟨used, hts, hd, hl⟩ := h
      exact sound_chain ih bound _ ⟨used, hts, hd _, hl, fun _ _ k _ => hd k⟩

end Expr

end ExprLang
