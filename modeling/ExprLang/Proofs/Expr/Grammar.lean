import ExprLang.Proofs.Expr.Derivation

/-!
# The grammar of expressions

* `Expr.IsExpr` — the token sequences of expressions, without precedence and without trees.

Principal results: `Derives.isExpr`, `IsExpr.derivable` — it has the sentences of the stratified
grammar, whose derivations have one tree each.

The grammar is ambiguous: an operator may join any two expressions, and a minus sign may stand
before any expression.
-/

namespace ExprLang

/-- The kinds of the operators that join two expressions. -/
def TokenKind.binaryOperators : List TokenKind :=
  [plus, minus, asterisk, slash, eq, notEq, lt, gt]

theorem TokenKind.mem_binaryOperators_iff {k : TokenKind} :
    k ∈ binaryOperators ↔ 0 < k.precedence.rank := by
  cases k <;> decide

namespace Expr

/-- An expression is a name, a truth value, an integer that is not too large, a prefix operator
before an expression, two expressions joined by an operator, or an expression in parentheses. -/
inductive IsExpr : List Token → Prop
  | ident {t : Token} (hk : t.kind = .ident) : IsExpr [t]
  | bool {t : Token} (hk : t.kind = .trueWord ∨ t.kind = .falseWord) : IsExpr [t]
  | int {t : Token} (hk : t.kind = .int)
      (hv : Nat.ofDigitChars 10 t.literal.toList 0 ≤ maxInteger) : IsExpr [t]
  | prefixed {t : Token} {ts : List Token} (hk : t.kind = .bang ∨ t.kind = .minus)
      (h : IsExpr ts) : IsExpr (t :: ts)
  | binary {op : Token} {ls rs : List Token} (hk : op.kind ∈ TokenKind.binaryOperators)
      (hl : IsExpr ls) (hr : IsExpr rs) : IsExpr (ls ++ op :: rs)
  | group {opening closing : Token} {ts : List Token} (ho : opening.kind = .lParen)
      (hc : closing.kind = .rParen) (h : IsExpr ts) : IsExpr (opening :: (ts ++ [closing]))

namespace Derives

/-- **What is derived is a sentence of the ambiguous grammar.** -/
theorem isExpr {level n : Nat} {e : Expr} {ts : List Token} (h : Derives level n e ts) :
    IsExpr ts := by
  induction h with
  | ident hk => exact .ident hk
  | int hk hv => exact .int hk (integer?_eq_some_iff.mp hv).2
  | trueWord hk => exact .bool (.inl hk)
  | falseWord hk => exact .bool (.inr hk)
  | prefixed hk _ ih => exact .prefixed hk ih
  | group ho hc _ ih => exact .group ho hc ih
  | binary hop _ _ _ ihl ihr =>
    exact .binary (TokenKind.mem_binaryOperators_iff.mpr (by omega)) ihl ihr

end Derives

/-- Some tree is derived at the level. -/
def Derivable (level : Nat) (ts : List Token) : Prop := ∃ n e, Derives level n e ts

section

variable {k level m n : Nat} {op t : Token} {e x : Expr} {ts us : List Token}

/-- An operator and an operand after a derivation: the operator goes down the right edge until the
operators above it bind no more tightly. -/
theorem Derives.append_operand (h : Derives level n e ts) (hop : op.kind.precedence.rank = k + 1)
    (hk : level ≤ k) (hx : ∀ level, Derives level m x us) : Derivable level (ts ++ op :: us) := by
  induction h with
  | ident ht => exact ⟨_, _, .binary hop hk (.ident ht) (hx _)⟩
  | int ht hv => exact ⟨_, _, .binary hop hk (.int ht hv) (hx _)⟩
  | trueWord ht => exact ⟨_, _, .binary hop hk (.trueWord ht) (hx _)⟩
  | falseWord ht => exact ⟨_, _, .binary hop hk (.falseWord ht) (hx _)⟩
  | prefixed ht h _ => exact ⟨_, _, .binary hop hk (.prefixed ht h) (hx _)⟩
  | group ho hc h _ => exact ⟨_, _, .binary hop hk (.group ho hc h) (hx _)⟩
  | @binary level j _ _ op' _ _ ls rs hop' hj hl hr _ ihr =>
    by_cases hkj : k ≤ j
    · exact ⟨_, _, .binary hop hk (.binary hop' hkj hl hr) (hx _)⟩
    · obtain ⟨n', e', hr'⟩ := ihr (by omega)
      have hboth := Derives.binary hop' hj hl hr'
      exact ⟨_, _, by simpa using hboth⟩

theorem Derivable.append_operand (h : Derivable 0 ts) (hop : 0 < op.kind.precedence.rank)
    (hx : ∀ level, Derives level m x us) : Derivable 0 (ts ++ op :: us) := by
  obtain ⟨n, e, hd⟩ := h
  obtain ⟨k, hk⟩ := Nat.exists_eq_succ_of_ne_zero (Nat.ne_zero_of_lt hop)
  exact hd.append_operand hk (Nat.zero_le k) hx

/-- Two derivations joined by an operator: the operands of the second one follow one by one. -/
theorem Derivable.append_derives (hts : Derivable 0 ts) (hop : 0 < op.kind.precedence.rank)
    (h : Derives level m x us) : Derivable 0 (ts ++ op :: us) := by
  induction h generalizing ts op with
  | ident ht => exact hts.append_operand hop fun _ => .ident ht
  | int ht hv => exact hts.append_operand hop fun _ => .int ht hv
  | trueWord ht => exact hts.append_operand hop fun _ => .trueWord ht
  | falseWord ht => exact hts.append_operand hop fun _ => .falseWord ht
  | prefixed ht h _ => exact hts.append_operand hop fun _ => .prefixed ht h
  | group ho hc h _ => exact hts.append_operand hop fun _ => .group ho hc h
  | @binary _ j _ _ op' _ _ ls rs hop' _ _ _ ihl ihr =>
    have hboth := ihr (ihl hts hop) (by omega : 0 < op'.kind.precedence.rank)
    simpa using hboth

/-- A prefix operator before a derivation: it takes the first operand. -/
theorem Derives.cons_prefix (ht : t.kind = .bang ∨ t.kind = .minus) (h : Derives level n e ts) :
    Derivable 0 (t :: ts) := by
  induction h with
  | ident hk => exact ⟨_, _, .prefixed ht (.ident hk)⟩
  | int hk hv => exact ⟨_, _, .prefixed ht (.int hk hv)⟩
  | trueWord hk => exact ⟨_, _, .prefixed ht (.trueWord hk)⟩
  | falseWord hk => exact ⟨_, _, .prefixed ht (.falseWord hk)⟩
  | prefixed hk h _ => exact ⟨_, _, .prefixed ht (.prefixed hk h)⟩
  | group ho hc h _ => exact ⟨_, _, .prefixed ht (.group ho hc h)⟩
  | binary hop _ _ hr ihl _ => exact ihl.append_derives (by omega) hr

/-- **Every sentence of the ambiguous grammar has a derivation that respects precedence.** -/
theorem IsExpr.derivable (h : IsExpr ts) : Derivable 0 ts := by
  induction h with
  | ident hk => exact ⟨_, _, .ident hk⟩
  | bool hk =>
    rcases hk with hk | hk
    · exact ⟨_, _, .trueWord hk⟩
    · exact ⟨_, _, .falseWord hk⟩
  | @int t hk hv =>
    exact ⟨_, _, .int hk (if_pos hv)⟩
  | prefixed hk _ ih =>
    obtain ⟨n, e, hd⟩ := ih
    exact hd.cons_prefix hk
  | binary hk _ _ ihl ihr =>
    obtain ⟨n, e, hd⟩ := ihr
    exact ihl.append_derives (TokenKind.mem_binaryOperators_iff.mp hk) hd
  | group ho hc _ ih =>
    obtain ⟨n, e, hd⟩ := ih
    exact ⟨_, _, .group ho hc hd⟩

end

namespace IsExpr

variable {t : Token} {ts : List Token}

theorem ne_nil (h : IsExpr ts) : ts ≠ [] := by
  cases h <;> simp

/-- An expression that begins with a binary operator is a prefix before an expression: without the
operator it is an expression too. -/
theorem tail_of_mem_binaryOperators (h : IsExpr (t :: ts))
    (ht : t.kind ∈ TokenKind.binaryOperators) : IsExpr ts := by
  generalize hus : t :: ts = us at h
  induction h generalizing ts with
  | ident hk | int hk _ =>
    cases hus
    rw [hk] at ht
    exact absurd ht (by decide)
  | bool hk =>
    cases hus
    rcases hk with hk | hk <;> rw [hk] at ht <;> exact absurd ht (by decide)
  | prefixed hk h _ =>
    cases hus
    exact h
  | @binary op ls rs hk hl hr ihl _ =>
    obtain ⟨u, ls, rfl⟩ := List.exists_cons_of_ne_nil hl.ne_nil
    cases hus
    exact .binary hk (ihl rfl) hr
  | group ho _ _ _ =>
    cases hus
    rw [ho] at ht
    exact absurd ht (by decide)

end IsExpr

end Expr

end ExprLang
