import ExprLang.Proofs.Expr.Written

/-!
# The stratified grammar is unambiguous

* `Expr.Steps` — operators of one level with their right sides, which go on with a left side.
* `Written.extend` — the left side with the steps taken; `Expr.Extends` compares two left sides.

Principal results: `Stratum.eq_of_append_eq` — what is written at the head of some tokens, up to where
nothing goes on with it, is determined by the tokens, and so is its tree (`Derives.eq_of_append_eq`);
`Stratum.eq_of_tokens_eq` — tokens have at most one derivation from a level;
`Derives.exists_stratum` — what is derived has one in the stratum of its precedence.

Two derivations are compared from the left, for the last operator of a level is found only at the end:
by `Stratum.extends` the second one begins with all of the first one and goes on with steps.
-/

namespace ExprLang

namespace Expr

/-- A left side that goes on with operators and their right sides. -/
def Written.extend : Written → List (Token × Written) → Written
  | w, [] => w
  | w, (op, r) :: steps => extend (.binary w op r) steps

/-- The tokens of the operators and their right sides. -/
def Written.stepTokens (steps : List (Token × Written)) : List Token :=
  steps.flatMap fun s => s.1 :: s.2.tokens

/-- The operators are of this level, and their right sides are tighter. -/
def Steps (k : Nat) (steps : List (Token × Written)) : Prop :=
  ∀ s ∈ steps, s.1.kind.stratum? = some k ∧ Stratum (k + 1) s.2

open Written (extend stepTokens)

variable {k : Nat} {w w' : Written} {steps : List (Token × Written)} {rest rest' : List Token}

theorem Written.extend_concat (w : Written) (steps : List (Token × Written)) (op : Token)
    (r : Written) : w.extend (steps ++ [(op, r)]) = .binary (w.extend steps) op r := by
  induction steps generalizing w with
  | nil => rfl
  | cons s steps ih => exact ih _

theorem Written.tokens_extend (w : Written) (steps : List (Token × Written)) :
    (w.extend steps).tokens = w.tokens ++ stepTokens steps := by
  induction steps generalizing w with
  | nil => simp [extend, stepTokens]
  | cons s steps ih => simp [extend, ih, tokens, stepTokens]

/-! ## The forms of what a level holds -/

/-- On the levels of binary operators: a tighter left side with steps. -/
theorem Stratum.exists_steps (h : Stratum k w) (hk : k < 4) :
    ∃ x steps, w = x.extend steps ∧ Stratum (k + 1) x ∧ Steps k steps := by
  induction h with
  | @binary k l r op hop hl hr ihl _ =>
    obtain ⟨x, steps, rfl, hx, hsteps⟩ := ihl hk
    refine ⟨x, steps ++ [(op, r)], (x.extend_concat steps op r).symm, hx, ?_⟩
    exact List.forall_mem_append.mpr ⟨hsteps, List.forall_mem_singleton.mpr ⟨hop, hr⟩⟩
  | tighter _ h _ => exact ⟨_, [], rfl, h, by simp [Steps]⟩
  | prefixed _ _ _ | leaf _ | group _ _ _ _ => omega

/-- On the level of prefix operators: one with its operand, or something tighter. -/
theorem Stratum.prefixed_cases (h : Stratum 4 w) :
    (∃ op x, w = .prefixed op x ∧ (op.kind = .bang ∨ op.kind = .minus) ∧ Stratum 4 x) ∨
      Stratum 5 w := by
  cases h with
  | binary hop _ _ => exact absurd (TokenKind.lt_four_of_stratum hop) (Nat.lt_irrefl 4)
  | tighter _ h => exact .inr h
  | prefixed hop h => exact .inl ⟨_, _, rfl, hop, h⟩

/-- On the tightest level: a leaf or a group. -/
theorem Stratum.tightest_cases (h : Stratum 5 w) :
    (∃ t, w = .leaf t ∧ t.kind.isLeaf = true) ∨
      ∃ opening x closing, w = .group opening x closing ∧ opening.kind = .lParen ∧
        closing.kind = .rParen ∧ Stratum 0 x := by
  cases h with
  | binary hop _ _ =>
    have := TokenKind.lt_four_of_stratum hop
    omega
  | tighter hk _ => exact absurd hk (Nat.lt_irrefl 5)
  | leaf ht => exact .inl ⟨_, rfl, ht⟩
  | group ho hc h => exact .inr ⟨_, _, _, rfl, ho, hc, h⟩

/-- The tightest level begins with no prefix operator. -/
theorem Stratum.append_ne_cons {op : Token} {ts : List Token} (h : Stratum 5 w)
    (hop : op.kind = .bang ∨ op.kind = .minus) : w.tokens ++ rest ≠ op :: ts := by
  intro heq
  rcases h.tightest_cases with ⟨t, rfl, ht⟩ | ⟨opening, x, closing, rfl, ho, -, -⟩
  · obtain ⟨rfl, -⟩ := List.cons_eq_cons.mp heq
    rcases hop with hk | hk <;> rw [hk] at ht <;> cases ht
  · obtain ⟨rfl, -⟩ := List.cons_eq_cons.mp heq
    rcases hop with hk | hk <;> rw [hk] at ho <;> cases ho

/-! ## Comparing from the left -/

/-- In front of tokens that stop the level there is no step. -/
theorem Steps.eq_nil (h : Steps k steps) (hs : Stops k (stepTokens steps ++ rest)) :
    steps = [] := by
  cases steps with
  | nil => rfl
  | cons s steps =>
    obtain ⟨hop, -⟩ := h s List.mem_cons_self
    have hrank := TokenKind.stratum?_eq_some_iff.mp hop
    have := hs.of_cons
    omega

/-- Steps stop the next tighter level. -/
theorem Steps.stops (h : Steps k steps) (hs : Stops k rest) :
    Stops (k + 1) (stepTokens steps ++ rest) := by
  cases steps with
  | nil => exact hs.mono (Nat.le_succ k)
  | cons s steps =>
    obtain ⟨hop, -⟩ := h s List.mem_cons_self
    exact .cons (Nat.le_of_eq (TokenKind.stratum?_eq_some_iff.mp hop))

/-- In front of `rest`, something written goes on by steps of the level, up to `rest'`. -/
def Extends (k : Nat) (w : Written) (rest : List Token) (w' : Written) (rest' : List Token) :
    Prop :=
  ∃ steps, Steps k steps ∧ w' = w.extend steps ∧ rest = stepTokens steps ++ rest'

theorem Extends.refl (k : Nat) (w : Written) (rest : List Token) : Extends k w rest w rest :=
  ⟨[], by simp [Steps], rfl, rfl⟩

theorem Extends.eq (h : Extends k w rest w' rest') (hs : Stops k rest) : w' = w ∧ rest' = rest := by
  obtain ⟨steps, hsteps, rfl, rfl⟩ := h
  obtain rfl := hsteps.eq_nil hs
  exact ⟨rfl, rfl⟩

/-- **Of two derivations at the head of the same tokens, the second one goes on with the first one** by
steps of its level, if it goes as far as the level allows. -/
theorem Stratum.extends (h : Stratum k w) (h' : Stratum k w') (hs : Stops (k + 1) rest)
    (hs' : Stops k rest') (heq : w.tokens ++ rest = w'.tokens ++ rest') :
    Extends k w rest w' rest' := by
  induction h generalizing w' rest rest' with
  | @binary k l r op hop hl hr ihl ihr =>
    have hrank := TokenKind.stratum?_eq_some_iff.mp hop
    rw [Written.tokens, List.append_assoc, List.cons_append] at heq
    obtain ⟨steps, hsteps, rfl, hrest⟩ := ihl h' (.cons (Nat.le_of_eq hrank)) hs' heq
    cases steps with
    | nil =>
      obtain rfl : op :: (r.tokens ++ rest) = rest' := hrest
      have := hs'.of_cons
      omega
    | cons s steps =>
      -- the first step is the operator with its right side, and the others come after that
      obtain ⟨⟨-, hr'⟩, hsteps⟩ := List.forall_mem_cons.mp hsteps
      rw [stepTokens, List.flatMap_cons, List.cons_append, List.cons_append,
        List.append_assoc] at hrest
      obtain ⟨rfl, htail⟩ := List.cons_eq_cons.mp hrest
      have hright := ihr hr' (hs.mono (Nat.le_succ _)) (Steps.stops hsteps hs') htail
      obtain ⟨rfl, rfl⟩ := hright.eq hs
      exact ⟨steps, hsteps, rfl, rfl⟩
  | @tighter k w hk h ih =>
    by_cases hk4 : k < 4
    · obtain ⟨x, steps, rfl, hx, hsteps⟩ := h'.exists_steps hk4
      rw [Written.tokens_extend, List.append_assoc] at heq
      obtain ⟨rfl, rfl⟩ := (ih hx (hs.mono (Nat.le_succ _)) (hsteps.stops hs') heq).eq hs
      exact ⟨steps, hsteps, rfl, rfl⟩
    · obtain rfl : k = 4 := by omega
      rcases h'.prefixed_cases with ⟨op, x, rfl, hop, -⟩ | h'
      · exact absurd heq (h.append_ne_cons hop)
      · obtain ⟨rfl, rfl⟩ := (ih h' (hs.mono (by omega)) (hs'.mono (by omega)) heq).eq hs
        exact .refl 4 _ _
  | @prefixed w op hop h ih =>
    rcases h'.prefixed_cases with ⟨op', x, rfl, -, hx⟩ | h'
    · obtain ⟨rfl, htail⟩ := List.cons_eq_cons.mp heq
      obtain ⟨rfl, rfl⟩ := (ih hx hs hs' htail).eq (stops_four rest)
      exact .refl 4 _ _
    · exact absurd heq.symm (h'.append_ne_cons hop)
  | @leaf t ht =>
    rcases h'.tightest_cases with ⟨t', rfl, -⟩ | ⟨opening, x, closing, rfl, ho, -, -⟩
    · obtain ⟨rfl, rfl⟩ := List.cons_eq_cons.mp heq
      exact .refl 5 _ _
    · obtain ⟨rfl, -⟩ := List.cons_eq_cons.mp heq
      rw [ho] at ht
      cases ht
  | @group w opening closing ho hc h ih =>
    rcases h'.tightest_cases with ⟨t', rfl, ht⟩ | ⟨opening', x, closing', rfl, -, hc', hx⟩
    · obtain ⟨rfl, -⟩ := List.cons_eq_cons.mp heq
      rw [ho] at ht
      cases ht
    · simp only [Written.tokens, List.cons_append, List.append_assoc, List.nil_append] at heq
      obtain ⟨rfl, htail⟩ := List.cons_eq_cons.mp heq
      have hin := ih hx (stops_closing hc _ rest) (stops_closing hc' _ rest') htail
      obtain ⟨rfl, hclose⟩ := hin.eq (stops_closing hc _ rest)
      obtain ⟨rfl, rfl⟩ := List.cons_eq_cons.mp hclose
      exact .refl 5 _ _

/-- **What is written at the head of some tokens, and where it ends, is determined by the tokens,** if
nothing goes on with it. -/
theorem Stratum.eq_of_append_eq (h : Stratum k w) (h' : Stratum k w') (hs : Stops k rest)
    (hs' : Stops k rest') (heq : w.tokens ++ rest = w'.tokens ++ rest') :
    w' = w ∧ rest' = rest :=
  (h.extends h' (hs.mono (Nat.le_succ k)) hs' heq).eq hs

/-- **Tokens have at most one derivation from a level.** -/
theorem Stratum.eq_of_tokens_eq (h : Stratum k w) (h' : Stratum k w')
    (heq : w.tokens = w'.tokens) : w' = w :=
  (h.eq_of_append_eq h' (.nil k) (.nil k) (by rw [heq])).1

/-- **What is derived at the head of some tokens, its tree and where it ends are determined by the
tokens,** if nothing goes on with it. -/
theorem Derives.eq_of_append_eq {level n n' : Nat} {e e' : Expr} {ts ts' : List Token}
    (h : Derives level n e ts) (h' : Derives level n' e' ts') (hs : Stops level rest)
    (hs' : Stops level rest') (heq : ts ++ rest = ts' ++ rest') :
    ts' = ts ∧ rest' = rest ∧ e' = e := by
  obtain ⟨w, hw, -, rfl, rfl, rfl⟩ := h.exists_written
  obtain ⟨w', hw', -, rfl, rfl, rfl⟩ := h'.exists_written
  obtain ⟨rfl, rfl⟩ := hw.eq_of_append_eq hw' hs.min_four hs'.min_four heq
  exact ⟨rfl, rfl, rfl⟩

/-- **What is derived at the rank of a precedence is written in one way** in the stratum of the operators
that bind more tightly. -/
theorem Derives.exists_stratum {bound : Precedence} {n : Nat} {e : Expr} {ts : List Token}
    (h : Derives bound.rank n e ts) :
    ∃ w, Stratum bound.stratum w ∧ w.tokens = ts ∧ w.tree = e ∧ w.height = n ∧
      ∀ w', Stratum bound.stratum w' → w'.tokens = w.tokens → w' = w := by
  obtain ⟨w, hw, -, hts, he, hn⟩ := h.exists_written
  rw [← Precedence.stratum_eq_min] at hw
  exact ⟨w, hw, hts, he, hn, fun w' hw' heq => hw.eq_of_tokens_eq hw' heq.symm⟩

end Expr

end ExprLang
