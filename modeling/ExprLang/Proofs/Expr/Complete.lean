import ExprLang.Proofs.Expr.Sound
import ExprLang.Proofs.Expr.Written

/-!
# What is derived is read

* `Expr.TooDeep` — a result that refuses an expression for its depth or height.
* `Expr.Exact` — a result is the wanted one if the expression fits, and this refusal if it does not.
* `Written.Fits` — there is room for the depth, and the height is within the limit.

Principal results: `Stratum.exact_read` — in front of tokens that do not go on with it, what is written
in a stratum is read back if it fits, and otherwise it is refused; `readTop_of_derives`,
`tooDeep_of_derives` — with all levels of nesting left, the height alone decides.
-/

namespace ExprLang

namespace Expr

/-- The result is the refusal of what is nested too deeply. -/
def TooDeep (res : Except Failure Reading) : Prop :=
  ∃ rest, res = .error ⟨.nestingTooDeep, rest⟩

/-- The result is `target` if something fits, and the refusal of what is nested too deeply if it does
not. -/
def Exact (fits : Prop) (target res : Except Failure Reading) : Prop :=
  fits ∧ res = target ∨ ¬ fits ∧ TooDeep res

section

variable {p q : Prop} {a b c : Except Failure Reading} {r : Reading}

theorem Exact.congr (hpq : p ↔ q) (h : Exact p b a) : Exact q b a := by
  rwa [Exact, ← hpq]

theorem Exact.of_eq (hp : p) (h : a = b) : Exact p b a := .inl ⟨hp, h⟩

theorem Exact.eq (h : Exact p b a) (hp : p) : a = b := by
  rcases h with ⟨-, h⟩ | ⟨hn, -⟩
  · exact h
  · exact absurd hp hn

theorem Exact.tooDeep (h : Exact p b a) (hp : ¬ p) : TooDeep a := by
  rcases h with ⟨hp', -⟩ | ⟨-, h⟩
  · exact absurd hp' hp
  · exact h

theorem Exact.trans (hab : Exact p b a) (hbc : Exact q c b) : Exact (p ∧ q) c a := by
  rcases hab with ⟨hp, rfl⟩ | ⟨hp, ha⟩
  · exact hbc.congr (by simp [hp])
  · exact .inr ⟨fun h => hp h.1, ha⟩

/-- What is done with a reading is done if there is one, and a refusal is passed on. -/
theorem Exact.bind {f : Reading → Except Failure Reading} :
    Exact p (.ok r) a →
      Exact p (f r)
        (match a with
          | .error f => .error f
          | .ok r => f r) := by
  rintro (⟨hp, rfl⟩ | ⟨hp, rest, rfl⟩)
  · exact .of_eq hp rfl
  · exact .inr ⟨hp, rest, rfl⟩

theorem exact_ite (p : Prop) [Decidable p] (a : Except Failure Reading) (rest : List Token) :
    Exact p a (if p then a else .error ⟨.nestingTooDeep, rest⟩) := by
  split
  · exact .of_eq (by assumption) rfl
  · exact .inr ⟨by assumption, rest, rfl⟩

end

theorem chain_of_stops {inner : Reader} {bound : Precedence} {left : Reading}
    (h : Stops bound.rank left.rest) : chain inner bound left = .ok left := by
  rw [chain]
  split
  · rfl
  · rename_i op rest hr
    rw [hr] at h
    rw [if_neg fun hlt => Nat.not_lt.mpr h.of_cons (Precedence.lt_iff.mp hlt)]

section

variable {inner : Reader} {p : Prop} {n : Nat} {e : Expr} {ts rest : List Token}

theorem exact_prefixOperation (op : Token) (h : Exact p (.ok ⟨e, n, rest⟩) (inner .prefixed ts)) :
    Exact (p ∧ n + 1 ≤ maxNesting) (.ok ⟨.prefixed op op.literal e, n + 1, rest⟩)
      (prefixOperation inner op ts) :=
  (h.bind (f := fun r => limited ⟨.prefixed op op.literal r.expr, r.height + 1, r.rest⟩)).trans
    (exact_ite _ _ _)

theorem exact_group {closing : Token} (hc : closing.kind = .rParen)
    (h : Exact p (.ok ⟨e, n, closing :: rest⟩) (inner .lowest ts)) :
    Exact (p ∧ n + 1 ≤ maxNesting) (.ok ⟨e, n + 1, rest⟩) (group inner ts) := by
  have hclose : Exact p (limited ⟨e, n + 1, rest⟩) (group inner ts) := by
    rcases h with ⟨hp, h⟩ | ⟨hp, left, h⟩
    · exact .of_eq hp (by simp [group, h, expect, hc])
    · exact .inr ⟨hp, left, by simp [group, h]⟩
  exact hclose.trans (exact_ite _ _ _)

theorem chain_cons_of_lt {bound : Precedence} {op : Token} {l : Expr} {m : Nat}
    (hb : bound < op.kind.precedence) :
    chain inner bound ⟨l, m, op :: ts⟩ =
      match inner op.kind.precedence ts with
      | .error f => .error f
      | .ok right =>
        if max m right.height + 1 ≤ maxNesting then
          chain inner bound
            ⟨.binary op op.literal l right.expr, max m right.height + 1, right.rest⟩
        else .error ⟨.nestingTooDeep, right.rest⟩ := by
  rw [chain]
  exact if_pos hb

/-- One turn of the loop over binary operators. -/
theorem exact_chain {bound : Precedence} {op : Token} {l : Expr} {m : Nat}
    (hb : bound < op.kind.precedence)
    (h : Exact p (.ok ⟨e, n, rest⟩) (inner op.kind.precedence ts)) :
    Exact (p ∧ max m n + 1 ≤ maxNesting)
      (chain inner bound ⟨.binary op op.literal l e, max m n + 1, rest⟩)
      (chain inner bound ⟨l, m, op :: ts⟩) := by
  rw [chain_cons_of_lt hb]
  exact (Exact.bind h).trans (exact_ite _ _ _)

end

/-- There is room for the readers, and the height is within the limit. -/
def Written.Fits (room : Nat) (w : Written) : Prop := w.depth ≤ room ∧ w.height ≤ maxNesting

instance (room : Nat) (w : Written) : Decidable (w.Fits room) :=
  inferInstanceAs (Decidable (w.depth ≤ room ∧ w.height ≤ maxNesting))

section

variable {room k : Nat} {bound : Precedence} {w : Written} {rest : List Token}

/-- Reading begins with an operand and goes on with the loop. -/
theorem exact_read_of_operand {p : Prop} {left : Reading} {ts : List Token}
    (h : Exact p (.ok left) (operand (read room) ts)) :
    Exact p (chain (read room) bound left) (read (room + 1) bound ts) := by
  rw [read]
  exact h.bind

/-- Without room everything is too deep; otherwise the loop ends at once where the tokens stop. -/
theorem exact_of_stops (hs : Stops bound.rank rest)
    (h : ∀ j, room = j + 1 → Exact (w.Fits (j + 1)) (chain (read j) bound ⟨w.tree, w.height, rest⟩)
      (read (j + 1) bound (w.tokens ++ rest))) :
    Exact (w.Fits room) (.ok ⟨w.tree, w.height, rest⟩) (read room bound (w.tokens ++ rest)) := by
  cases room with
  | zero => exact .inr ⟨fun hf => Nat.not_le.mpr w.depth_pos hf.1, _, rfl⟩
  | succ j =>
    have := h j rfl
    rwa [chain_of_stops hs] at this

theorem operand_ofLeaf {inner : Reader} {t : Token} (ht : t.kind.isLeaf = true)
    (hi : t.kind = .int → Nat.ofDigitChars 10 t.literal.toList 0 ≤ maxInteger) :
    operand inner (t :: rest) = .ok ⟨ofLeaf t, 1, rest⟩ := by
  cases hk : t.kind with
  | int => simp [operand, integer, ofLeaf, hk, integer?_eq_some_iff.mpr ⟨rfl, hi hk⟩]
  | ident | trueWord | falseWord => simp [operand, ofLeaf, hk]
  | _ =>
    rw [hk] at ht
    cases ht

/-- Reading what is written comes to the loop with its tree as left side. The tokens after it may go on
with operators that bind one step more tightly than the level, for a right side of such an operator
has stopped in front of them. -/
theorem Stratum.exact (h : Stratum k w) (hi : w.InRange) (hb : bound.stratum ≤ k)
    (hs : Stops (k + 1) rest) :
    Exact (w.Fits (room + 1)) (chain (read room) bound ⟨w.tree, w.height, rest⟩)
      (read (room + 1) bound (w.tokens ++ rest)) := by
  induction h generalizing room bound rest with
  | @leaf t ht =>
    have hfits : Written.Fits (room + 1) (.leaf t) :=
      ⟨Nat.le_add_left 1 room, Nat.le_add_left 1 255⟩
    exact exact_read_of_operand (.of_eq hfits (operand_ofLeaf ht (hi _ List.mem_cons_self)))
  | tighter _ _ ih => exact ih hi (Nat.le_succ_of_le hb) (hs.mono (Nat.le_succ _))
  | @prefixed w op hop _ ih =>
    have hin : Exact (w.Fits room) (.ok ⟨w.tree, w.height, rest⟩)
        (read room .prefixed (w.tokens ++ rest)) :=
      exact_of_stops (stops_prefixed rest) fun _ _ =>
        ih hi.of_prefixed (Nat.le_refl 4) (stops_prefixed rest)
    have := exact_prefixOperation op hin
    refine (exact_read_of_operand (p := w.Fits room ∧ w.height + 1 ≤ maxNesting) ?_).congr ?_
    · rcases hop with hk | hk <;> simpa only [operand, hk, Written.tokens, List.cons_append]
    · simp only [Written.Fits, Written.depth, Written.height]
      omega
  | @group w opening closing ho hc _ ih =>
    have hin : Exact (w.Fits room) (.ok ⟨w.tree, w.height, closing :: rest⟩)
        (read room .lowest (w.tokens ++ closing :: rest)) :=
      exact_of_stops (stops_closing hc _ rest) fun _ _ =>
        ih hi.of_group (Nat.le_refl 0) (stops_closing hc _ rest)
    have := exact_group hc hin
    refine (exact_read_of_operand (p := w.Fits room ∧ w.height + 1 ≤ maxNesting) ?_).congr ?_
    · simpa only [operand, ho, Written.tokens, List.cons_append, List.append_assoc,
        List.nil_append]
    · simp only [Written.Fits, Written.depth, Written.height]
      omega
  | @binary k l r op hop _ _ ihl ihr =>
    obtain ⟨hil, hir⟩ := hi.of_binary
    have hrank := TokenKind.stratum?_eq_some_iff.mp hop
    have hlt := (Precedence.stratum_le_iff hop).mp hb
    have hleft : Exact (l.Fits (room + 1))
        (chain (read room) bound ⟨l.tree, l.height, op :: (r.tokens ++ rest)⟩)
        (read (room + 1) bound (l.tokens ++ op :: (r.tokens ++ rest))) :=
      ihl hil hb (.cons (Nat.le_of_eq hrank))
    have hright : Exact (r.Fits room) (.ok ⟨r.tree, r.height, rest⟩)
        (read room op.kind.precedence (r.tokens ++ rest)) :=
      exact_of_stops (hrank ▸ hs) fun _ _ =>
        ihr hir (by rw [Precedence.stratum_eq_min]; omega) (hs.mono (Nat.le_succ _))
    rw [Written.tokens, List.append_assoc, List.cons_append]
    refine (hleft.trans (exact_chain hlt hright)).congr ?_
    simp only [Written.Fits, Written.depth, Written.height]
    omega

/-- **What is written in a stratum is read back if it fits, and refused if it does not.** -/
theorem Stratum.exact_read (room : Nat) (h : Stratum bound.stratum w) (hi : w.InRange)
    (hs : Stops bound.rank rest) :
    Exact (w.Fits room) (.ok ⟨w.tree, w.height, rest⟩) (read room bound (w.tokens ++ rest)) := by
  have hs' : Stops bound.stratum rest := bound.stratum_eq_min ▸ hs.min_four
  exact exact_of_stops hs fun _ _ => h.exact hi (Nat.le_refl _) (hs'.mono (Nat.le_succ _))

end

section

variable {n : Nat} {e : Expr} {ts rest : List Token}

theorem exact_readTop (h : Derives 0 n e ts) (hs : Stops 0 rest) :
    Exact (n ≤ maxNesting) (.ok ⟨e, n, rest⟩) (read maxNesting .lowest (ts ++ rest)) := by
  obtain ⟨w, hw, hi, rfl, rfl, rfl⟩ := h.exists_written
  have hw' : Stratum (Precedence.stratum .lowest) w := hw
  exact (hw'.exact_read maxNesting hi hs).congr
    (and_iff_right_of_imp (Nat.le_trans w.depth_le_height))

/-- **A derivation within the limit is read back whole.** -/
theorem readTop_of_derives (h : Derives 0 n e ts) (hs : Stops 0 rest) (hn : n ≤ maxNesting) :
    read maxNesting .lowest (ts ++ rest) = .ok ⟨e, n, rest⟩ :=
  (exact_readTop h hs).eq hn

/-- **A derivation above the limit is refused as too deep.** -/
theorem tooDeep_of_derives (h : Derives 0 n e ts) (hs : Stops 0 rest) (hn : maxNesting < n) :
    TooDeep (read maxNesting .lowest (ts ++ rest)) :=
  (exact_readTop h hs).tooDeep (Nat.not_le.mpr hn)

end

end Expr

end ExprLang
