import ExprLang.Proofs.Expr.Complete
import ExprLang.Statement.Read

/-!
# Derivations of statements

* `Statement.Derives` — the tokens of a statement without its semicolon, its tree and the height of
  its expression.

Principal results: `derives_of_read` — a statement that was read is derived, and the reading went
as far as it could; `read_of_derives`, `tooDeep_of_derives` — a derivation is read back if its
height is within the limit, and refused as too deep if it is not.
-/

namespace ExprLang

namespace Statement

open ExprLang.Expr (Stops)

/-- The tokens `ts`, without a semicolon, spell the statement with an expression of height `n`. -/
inductive Derives (n : Nat) : Statement → List Token → Prop
  | binding {keyword name sign : Token} {value : Expr} {ts : List Token}
      (hk : keyword.kind = .letWord) (hn : name.kind = .ident) (hs : sign.kind = .assign)
      (h : Expr.Derives 0 n value ts) :
      Derives n (.binding keyword ⟨name, name.literal⟩ value) (keyword :: name :: sign :: ts)
  | ret {keyword : Token} {value : Expr} {ts : List Token} (hk : keyword.kind = .returnWord)
      (h : Expr.Derives 0 n value ts) : Derives n (.ret keyword value) (keyword :: ts)
  | expr {t : Token} {value : Expr} {ts : List Token} (h : Expr.Derives 0 n value (t :: ts)) :
      Derives n (.expr t value) (t :: ts)

variable {n : Nat} {s : Statement} {ts rest : List Token}

theorem Derives.ne_nil (h : Derives n s ts) : ts ≠ [] := by
  cases h <;> simp

theorem Derives.ne_semicolon (h : Derives n s ts) : ∀ t ∈ ts, t.kind ≠ .semicolon := by
  cases h with
  | binding hk hn hs h =>
    simp only [List.forall_mem_cons]
    exact ⟨by simp [hk], by simp [hn], by simp [hs], h.ne_semicolon⟩
  | ret hk h => exact List.forall_mem_cons.mpr ⟨by simp [hk], h.ne_semicolon⟩
  | expr h => exact h.ne_semicolon

/-! ## What is read is derived -/

theorem derives_of_readValue {value : Expr} {after : List Token}
    (h : readValue ts = .ok (value, after)) :
    ∃ n used left, ts = used ++ left ∧ Expr.Derives 0 n value used ∧ Stops 0 left ∧
      n ≤ maxNesting ∧ after = skipSemicolon left := by
  have hsound := Expr.sound_read maxNesting .lowest ts
  unfold readValue at h
  split at h <;> rename_i hr <;> rw [hr] at hsound
  · cases h
  · cases h
    obtain ⟨used, hts, hd, hstop, hn⟩ := hsound
    exact ⟨_, used, _, hts, hd, hstop, hn, rfl⟩

/-- **A statement that was read is derived,** its height is within the limit, and a semicolon that
comes next was taken with it. -/
theorem derives_of_read {t : Token} {after : List Token} (h : read t ts = .ok (s, after)) :
    ∃ n body left, t :: ts = body ++ left ∧ Derives n s body ∧ Stops 0 left ∧ n ≤ maxNesting ∧
      after = skipSemicolon left := by
  unfold read at h
  split at h <;> rename_i hk
  · unfold readBinding at h
    split at h
    · cases h
    rename_i name ts hn
    split at h
    · cases h
    rename_i sign ts ha
    split at h
    · cases h
    rename_i value ts hv
    cases h
    obtain ⟨rfl, hident⟩ := expect_eq_ok hn
    obtain ⟨rfl, hassign⟩ := expect_eq_ok ha
    obtain ⟨n, used, left, rfl, hd, hrest⟩ := derives_of_readValue hv
    exact ⟨n, t :: name :: sign :: used, left, rfl, .binding hk hident hassign hd, hrest⟩
  · split at h
    · cases h
    rename_i value ts hv
    cases h
    obtain ⟨n, used, left, rfl, hd, hrest⟩ := derives_of_readValue hv
    exact ⟨n, t :: used, left, rfl, .ret hk hd, hrest⟩
  · split at h
    · cases h
    rename_i value ts hv
    cases h
    obtain ⟨n, used, left, hts, hd, hrest⟩ := derives_of_readValue hv
    obtain ⟨u, used, rfl⟩ := List.exists_cons_of_ne_nil hd.ne_nil
    cases hts
    exact ⟨n, t :: used, left, rfl, .expr hd, hrest⟩

/-! ## What is derived is read -/

theorem readValue_of_derives {value : Expr} (h : Expr.Derives 0 n value ts) (hs : Stops 0 rest)
    (hn : n ≤ maxNesting) : readValue (ts ++ rest) = .ok (value, skipSemicolon rest) := by
  simp only [readValue, Expr.readTop_of_derives h hs hn]

theorem tooDeep_readValue {value : Expr} (h : Expr.Derives 0 n value ts) (hs : Stops 0 rest)
    (hn : maxNesting < n) : ∃ left, readValue (ts ++ rest) = .error ⟨.nestingTooDeep, left⟩ := by
  obtain ⟨left, hl⟩ := Expr.tooDeep_of_derives h hs hn
  exact ⟨left, by simp only [readValue, hl]⟩

/-- The first token of an expression does not begin a statement of another form. -/
theorem read_of_beginsExpr {t : Token} (ht : t.kind.beginsExpr = true) (rest : List Token) :
    read t rest =
      match readValue (t :: rest) with
      | .error f => .error f
      | .ok (value, ts) => .ok (.expr t value, ts) := by
  unfold read
  split <;> rename_i hk
  · rw [hk] at ht
    cases ht
  · rw [hk] at ht
    cases ht
  · rfl

/-- **A statement within the limit is read back whole,** with a semicolon that comes next. -/
theorem read_of_derives {t : Token} (h : Derives n s (t :: ts)) (hs : Stops 0 rest)
    (hn : n ≤ maxNesting) : read t (ts ++ rest) = .ok (s, skipSemicolon rest) := by
  cases h with
  | binding hk hname hsign h =>
    simp [read, hk, readBinding, expect, hname, hsign, readValue_of_derives h hs hn]
  | ret hk h => simp [read, hk, readValue_of_derives h hs hn]
  | expr h =>
    rw [read_of_beginsExpr h.beginsExpr_head, ← List.cons_append, readValue_of_derives h hs hn]

/-- **A statement above the limit is refused as too deep.** -/
theorem tooDeep_of_derives {t : Token} (h : Derives n s (t :: ts)) (hs : Stops 0 rest)
    (hn : maxNesting < n) : ∃ left, read t (ts ++ rest) = .error ⟨.nestingTooDeep, left⟩ := by
  cases h with
  | binding hk hname hsign h =>
    obtain ⟨left, hl⟩ := tooDeep_readValue h hs hn
    exact ⟨left, by simp [read, hk, readBinding, expect, hname, hsign, hl]⟩
  | ret hk h =>
    obtain ⟨left, hl⟩ := tooDeep_readValue h hs hn
    exact ⟨left, by simp [read, hk, hl]⟩
  | expr h =>
    obtain ⟨left, hl⟩ := tooDeep_readValue h hs hn
    exact ⟨left, by rw [read_of_beginsExpr h.beginsExpr_head, ← List.cons_append, hl]⟩

end Statement

end ExprLang
