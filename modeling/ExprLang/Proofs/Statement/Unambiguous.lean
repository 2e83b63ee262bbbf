import ExprLang.Proofs.Expr.Unambiguous
import ExprLang.Proofs.Statement.Rendering

/-!
# The rendering of a statement is unambiguous

Principal results: `Derives.eq_of_append_eq` — the statement at the head of some tokens is determined
by the tokens; `render_eq_iff` — coherent statements with the same rendering are the same, apart from
the first token of an expression by itself.

There is no limit on the height here. A rendering that is too high for the reader is still scanned to
its own tokens, and these tokens derive one statement only.
-/

namespace ExprLang

namespace Statement

open ExprLang.Expr (Stops)

variable {n n' : Nat} {s u : Statement} {ts ts' rest rest' : List Token}

/-- **What is derived at the head of some tokens, its statement and where it ends are determined by the
tokens,** if nothing goes on with it. -/
theorem Derives.eq_of_append_eq (h : Derives n s ts) (h' : Derives n' u ts') (hs : Stops 0 rest)
    (hs' : Stops 0 rest') (heq : ts ++ rest = ts' ++ rest') :
    ts' = ts ∧ rest' = rest ∧ u = s := by
  cases h with
  | binding hk _ _ h =>
    cases h' with
    | binding _ _ _ h' =>
      simp only [List.cons_append, List.cons.injEq] at heq
      obtain ⟨rfl, rfl, rfl, heq⟩ := heq
      obtain ⟨rfl, rfl, rfl⟩ := h.eq_of_append_eq h' hs hs' heq
      exact ⟨rfl, rfl, rfl⟩
    | ret hk' _ =>
      obtain ⟨rfl, -⟩ := List.cons_eq_cons.mp heq
      exact absurd (hk.symm.trans hk') nofun
    | expr h' =>
      obtain ⟨rfl, -⟩ := List.cons_eq_cons.mp heq
      exact absurd hk (h'.ne_letWord _ List.mem_cons_self)
  | ret hk h =>
    cases h' with
    | binding hk' _ _ _ =>
      obtain ⟨rfl, -⟩ := List.cons_eq_cons.mp heq
      exact absurd (hk.symm.trans hk') nofun
    | ret _ h' =>
      obtain ⟨rfl, htail⟩ := List.cons_eq_cons.mp heq
      obtain ⟨rfl, rfl, rfl⟩ := h.eq_of_append_eq h' hs hs' htail
      exact ⟨rfl, rfl, rfl⟩
    | expr h' =>
      obtain ⟨rfl, -⟩ := List.cons_eq_cons.mp heq
      exact absurd hk (h'.ne_returnWord _ List.mem_cons_self)
  | expr h =>
    cases h' with
    | binding hk' _ _ _ =>
      obtain ⟨rfl, -⟩ := List.cons_eq_cons.mp heq
      exact absurd hk' (h.ne_letWord _ List.mem_cons_self)
    | ret hk' _ =>
      obtain ⟨rfl, -⟩ := List.cons_eq_cons.mp heq
      exact absurd hk' (h.ne_returnWord _ List.mem_cons_self)
    | expr h' =>
      obtain ⟨hts, rfl, rfl⟩ := h.eq_of_append_eq h' hs hs' heq
      cases hts
      exact ⟨rfl, rfl, rfl⟩

namespace Coherent

theorem ofText_render (h : s.Coherent) : Token.ofText s.render = s.spelled := by
  have hscan := h.scan_render (fun t _ => .nil t)
  rwa [List.append_nil, Token.scan_nil, List.append_nil] at hscan

/-- Statements with the same tokens in their renderings come back as the same. -/
theorem reread_eq_of_spelled_eq (hs : s.Coherent) (hu : u.Coherent) (h : s.spelled = u.spelled) :
    u.reread = s.reread := by
  have hopens : Opens [] := ⟨.nil 0, rfl⟩
  obtain ⟨t, body, left, hspelled, hd, hstop, -⟩ := hs.derives_spelled hopens
  obtain ⟨t', body', left', hspelled', hd', hstop', -⟩ := hu.derives_spelled hopens
  have htokens : t :: body ++ left = t' :: body' ++ left' := by
    rw [List.cons_append, List.cons_append, ← hspelled, ← hspelled', h]
  exact (hd.eq_of_append_eq hd' hstop hstop' htokens).2.2

end Coherent

theorem render_forgetToken (s : Statement) : s.forgetToken.render = s.render := by
  cases s <;> rfl

/-- **The rendering of a statement is unambiguous, at every height.** Coherent statements with the same
rendering are the same, with all their tokens, apart from the first token of an expression by
itself, which is not rendered. -/
theorem render_eq_iff (hs : s.Coherent) (hu : u.Coherent) :
    s.render = u.render ↔ s.forgetToken = u.forgetToken := by
  constructor
  · intro h
    have hspelled : s.spelled = u.spelled := by
      rw [← hs.ofText_render, ← hu.ofText_render, h]
    rw [← s.forgetToken_reread, ← u.forgetToken_reread, hs.reread_eq_of_spelled_eq hu hspelled]
  · intro h
    rw [← s.render_forgetToken, h, u.render_forgetToken]

/-- Two readings of one expression, with and without parentheses around it. -/
theorem render_eq_iff_group :
    let value : Expr := .prefixed ⟨.minus, "-"⟩ "-" (.int ⟨.int, "07"⟩ 7)
    let s : Statement := .expr ⟨.lParen, "("⟩ value
    let u : Statement := .expr ⟨.minus, "-"⟩ value
    s.Coherent ∧ u.Coherent ∧ s ≠ u ∧ s.render = u.render ∧ s.forgetToken = u.forgetToken := by
  intro value s u
  have hdigits : ∀ c ∈ "07".toList, c.isDigit = true := by simp
  have hv : value.Coherent :=
    .prefixed (.inr rfl) (.int rfl (by decide) hdigits (by decide) (by decide))
  have hs : s.Coherent := .expr hv
  have hu : u.Coherent := .expr hv
  have hr : s.render = u.render := rfl
  exact ⟨hs, hu, by decide, hr, (render_eq_iff hs hu).mp hr⟩

end Statement

end ExprLang
