import ExprLang.Proofs.Program.Segment
import ExprLang.Proofs.Token.Lexeme

/-!
# The limit on nesting

* `Statement.Spelled` — the tokens of one statement, with or without a semicolon, its tree and the
  height of its expression.

Principal results: `isStatement_iff_spelled` — these are the statements of the grammar, which knows
no limit; `nestingLimit_exact` — a text that is one statement is kept if its height is at most 256,
and otherwise it is refused with one diagnostic; no text gives a tree of a greater height.

The height counts groups, which make no node, so a tree may be lower than the height it was written
with and is never higher: `Expr.Derives.height_le`.
-/

namespace ExprLang

theorem IsEnd.tail_toSemicolon {last : List Token} (h : IsEnd last) :
    (toSemicolon last).tail = [] := by
  rcases h with rfl | ⟨semi, hs, rfl⟩
  · rfl
  · rw [toSemicolon_cons hs, List.tail_cons]

theorem Expr.Derives.height_le {level n : Nat} {e : Expr} {ts : List Token}
    (h : Expr.Derives level n e ts) : e.height ≤ n := by
  induction h with
  | ident _ | int _ _ | trueWord _ | falseWord _ => exact Nat.le_refl 1
  | prefixed _ _ ih => exact Nat.succ_le_succ ih
  | group _ _ _ ih => exact Nat.le_succ_of_le ih
  | binary _ _ _ _ ihl ihr =>
    simp only [Expr.height]
    omega

theorem Statement.Derives.height_le {n : Nat} {s : Statement} {ts : List Token}
    (h : Statement.Derives n s ts) : s.value.height ≤ n := by
  cases h with
  | binding _ _ _ h => exact h.height_le
  | ret _ h => exact h.height_le
  | expr h => exact h.height_le

/-! ## One statement -/

/-- The tokens are one statement with an expression of height `n`, and perhaps a semicolon. -/
def Statement.Spelled (n : Nat) (s : Statement) (ts : List Token) : Prop :=
  ∃ body last, ts = body ++ last ∧ Statement.Derives n s body ∧ IsEnd last

theorem isStatement_iff_spelled {ts : List Token} :
    IsStatement ts ↔ ∃ n s, Statement.Spelled n s ts := by
  constructor
  · rintro ⟨head, value, last, rfl, hh, hv, hl⟩
    obtain ⟨n, s, hd⟩ := hh.exists_derives hv
    exact ⟨n, s, head ++ value, last, by simp, hd, hl⟩
  · rintro ⟨n, s, body, last, rfl, hd, hl⟩
    exact hd.isStatement hl

namespace Attempt

variable {n : Nat} {s : Statement} {ts : List Token}

/-- **One statement within the limit is kept.** -/
theorem all_of_spelled (h : s.Spelled n ts) (hn : n ≤ maxNesting) :
    ∃ first, all ts = [.kept first s] := by
  obtain ⟨body, last, rfl, hd, hl⟩ := h
  obtain ⟨t, body, rfl⟩ := List.exists_cons_of_ne_nil hd.ne_nil
  have hr := Statement.read_of_derives hd hl.stops hn
  refine ⟨t, ?_⟩
  rw [List.cons_append, all_cons_of_ok hr, hl.skipSemicolon_eq, all]

/-- **One statement above the limit is refused,** and nothing of it is left. -/
theorem all_of_spelled_tooDeep (h : s.Spelled n ts) (hn : maxNesting < n) :
    ∃ first stop, all ts = [.failed first .nestingTooDeep stop] := by
  obtain ⟨body, last, rfl, hd, hl⟩ := h
  obtain ⟨t, body, rfl⟩ := List.exists_cons_of_ne_nil hd.ne_nil
  obtain ⟨left, hr⟩ := Statement.tooDeep_of_derives hd hl.stops hn
  have hleft : Leaves (t :: body ++ last) left := by
    have hp := Statement.progress_read t (body ++ last)
    rwa [hr] at hp
  have hskip : toSemicolon left = toSemicolon last := by
    rw [← toSemicolon_of_leaves hleft]
    exact toSemicolon_of_leaves ⟨t :: body, rfl, hd.ne_semicolon⟩
  refine ⟨t, (toSemicolon left).head?.getD Token.eof, ?_⟩
  rw [List.cons_append, all_cons_of_error hr]
  show _ :: all (toSemicolon left).tail = _
  rw [hskip, hl.tail_toSemicolon, all]

end Attempt

/-- **The limit on nesting is exact.** What is one statement of the grammar has a height. A text of
one statement is kept if that height is at most 256, and otherwise it is refused as a whole, with
one diagnostic. No text gives a higher tree. -/
theorem nestingLimit_exact (text : String) :
    (IsStatement (Token.ofText text) → ∃ n s, Statement.Spelled n s (Token.ofText text)) ∧
      (∀ n s, Statement.Spelled n s (Token.ofText text) →
        parse text = if n ≤ 256 then (⟨[s]⟩, []) else (⟨[]⟩, [.nestingTooDeep])) ∧
      ∀ s ∈ (parse text).1.statements, s.value.height ≤ 256 := by
  refine ⟨isStatement_iff_spelled.mp, ?_, ?_⟩
  · intro n s h
    rw [parse_eq]
    split
    · rename_i hn
      obtain ⟨t, hall⟩ := Attempt.all_of_spelled h hn
      rw [hall]
      rfl
    · rename_i hn
      obtain ⟨t, stop, hall⟩ := Attempt.all_of_spelled_tooDeep h (Nat.lt_of_not_le hn)
      rw [hall]
      rfl
  · intro s hs
    obtain ⟨n, body, hd, hn, -⟩ := Attempt.exists_derives_of_mem hs
    exact Nat.le_trans hd.height_le hn

/-! ## The height at the limit -/

/-- The name `x` behind prefix operators. -/
def bangs (n : Nat) : String := String.ofList (List.replicate n '!' ++ ['x'])

theorem ofText_bangs (n : Nat) :
    Token.ofText (bangs n) = List.replicate n (Token.symbol '!') ++ [Token.word ['x']] := by
  rw [Token.ofText, bangs, String.toList_ofList]
  induction n with
  | zero =>
    have hx : (Token.word ['x']).Lexeme := .word (by simp) (List.forall_mem_singleton.mpr rfl)
    have h := Token.scan_lexeme hx (.nil _)
    rwa [Token.scan_nil] at h
  | succ n ih =>
    have he : (Token.symbol '!').EndsBefore (List.replicate n '!' ++ ['x']) := by
      cases n with
      | zero => exact .cons rfl
      | succ n => exact .cons rfl
    have h := Token.scan_lexeme (.symbol (c := '!') rfl) he
    rwa [ih] at h

theorem derives_bangs (n : Nat) :
    ∃ e, ∀ level, Expr.Derives level (n + 1) e
      (List.replicate n (Token.symbol '!') ++ [Token.word ['x']]) := by
  induction n with
  | zero => exact ⟨_, fun _ => .ident (by decide)⟩
  | succ n ih =>
    obtain ⟨e, he⟩ := ih
    exact ⟨_, fun _ => .prefixed (.inl rfl) (he _)⟩

theorem spelled_bangs (n : Nat) :
    ∃ s, Statement.Spelled (n + 1) s (Token.ofText (bangs n)) := by
  obtain ⟨e, he⟩ := derives_bangs n
  obtain ⟨t, ts, hts⟩ := List.exists_cons_of_ne_nil (he 0).ne_nil
  refine ⟨.expr t e, _, [], by rw [List.append_nil], ?_, .inl rfl⟩
  rw [ofText_bangs, hts]
  exact .expr (hts ▸ he 0)

/-- With 255 operators the limit is reached, and one more passes it. -/
theorem nestingLimit_exact_bangs :
    (∃ s, Statement.Spelled 256 s (Token.ofText (bangs 255)) ∧
        parse (bangs 255) = (⟨[s]⟩, [])) ∧
      ∃ s, Statement.Spelled 257 s (Token.ofText (bangs 256)) ∧
        parse (bangs 256) = (⟨[]⟩, [.nestingTooDeep]) := by
  constructor
  · obtain ⟨s, hs⟩ := spelled_bangs 255
    exact ⟨s, hs, (nestingLimit_exact (bangs 255)).2.1 256 s hs⟩
  · obtain ⟨s, hs⟩ := spelled_bangs 256
    exact ⟨s, hs, (nestingLimit_exact (bangs 256)).2.1 257 s hs⟩

end ExprLang
