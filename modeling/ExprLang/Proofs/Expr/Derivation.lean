import ExprLang.Expr.Read

/-!
# Derivations of expressions

* `Expr.Derives` — the stratified grammar: the tokens of an expression, its tree and its height.
* `Expr.Stops` — tokens that do not go on with an expression at a level.

A level is a rank of `Precedence`: at level `k` the binary operators outside groups bind more
tightly than `k`. The left side of an operator may hold operators of the same rank and the right
side may not, so equal operators group to the left. The height counts groups and operators.
-/

namespace ExprLang

/-- The kinds of the tokens that an expression may begin with. -/
def TokenKind.beginsExpr : TokenKind → Bool
  | ident | int | trueWord | falseWord | bang | minus | lParen => true
  | _ => false

namespace Expr

/-- The tokens `ts` spell the tree `e` at a level, with height `n`. -/
inductive Derives : Nat → Nat → Expr → List Token → Prop
  | ident {level : Nat} {t : Token} (hk : t.kind = .ident) :
      Derives level 1 (.ident ⟨t, t.literal⟩) [t]
  | int {level : Nat} {t : Token} {value : Int} (hk : t.kind = .int)
      (hv : integer? t.literal = some value) : Derives level 1 (.int t value) [t]
  | trueWord {level : Nat} {t : Token} (hk : t.kind = .trueWord) :
      Derives level 1 (.bool t true) [t]
  | falseWord {level : Nat} {t : Token} (hk : t.kind = .falseWord) :
      Derives level 1 (.bool t false) [t]
  | prefixed {level n : Nat} {t : Token} {e : Expr} {ts : List Token}
      (hk : t.kind = .bang ∨ t.kind = .minus) (h : Derives Precedence.prefixed.rank n e ts) :
      Derives level (n + 1) (.prefixed t t.literal e) (t :: ts)
  | group {level n : Nat} {opening closing : Token} {e : Expr} {ts : List Token}
      (ho : opening.kind = .lParen) (hc : closing.kind = .rParen) (h : Derives 0 n e ts) :
      Derives level (n + 1) e (opening :: (ts ++ [closing]))
  | binary {level k m n : Nat} {op : Token} {l r : Expr} {ls rs : List Token}
      (hop : op.kind.precedence.rank = k + 1) (hk : level ≤ k) (hl : Derives k m l ls)
      (hr : Derives (k + 1) n r rs) :
      Derives level (max m n + 1) (.binary op op.literal l r) (ls ++ op :: rs)

/-- The next token, if there is one, is no binary operator above the level. -/
def Stops (level : Nat) (rest : List Token) : Prop :=
  ∀ t ∈ rest.head?, t.kind.precedence.rank ≤ level

theorem Stops.nil (level : Nat) : Stops level [] := by simp [Stops]

theorem Stops.cons {level : Nat} {t : Token} {rest : List Token}
    (h : t.kind.precedence.rank ≤ level) : Stops level (t :: rest) := by
  simpa [Stops] using h

theorem Stops.of_cons {level : Nat} {t : Token} {rest : List Token}
    (h : Stops level (t :: rest)) : t.kind.precedence.rank ≤ level := h t rfl

theorem Stops.mono {level level' : Nat} {rest : List Token} (hle : level ≤ level')
    (h : Stops level rest) : Stops level' rest :=
  fun t ht => Nat.le_trans (h t ht) hle

/-- No binary operator binds more tightly than a prefix operator. -/
theorem stops_prefixed (rest : List Token) : Stops Precedence.prefixed.rank rest := by
  intro t _
  unfold TokenKind.precedence
  split <;> decide

theorem stops_semicolon {semi : Token} (hs : semi.kind = .semicolon) (level : Nat)
    (rest : List Token) : Stops level (semi :: rest) :=
  .cons (by simp [hs, TokenKind.precedence, Precedence.rank])

theorem stops_closing {closing : Token} (hc : closing.kind = .rParen) (level : Nat)
    (rest : List Token) : Stops level (closing :: rest) :=
  .cons (by simp [hc, TokenKind.precedence, Precedence.rank])

/-- No binary operator binds more tightly than those of the fourth rank. -/
theorem stops_four (rest : List Token) : Stops 4 rest := by
  intro t _
  cases t.kind <;> decide

theorem Stops.min_four {level : Nat} {rest : List Token} (h : Stops level rest) :
    Stops (min level 4) rest := by
  rcases Nat.le_total level 4 with hle | hle
  · rwa [Nat.min_eq_left hle]
  · rw [Nat.min_eq_right hle]
    exact stops_four rest

namespace Derives

variable {level n : Nat} {e : Expr} {ts : List Token}

theorem height_pos (h : Derives level n e ts) : 0 < n := by
  cases h <;> omega

theorem ne_nil (h : Derives level n e ts) : ts ≠ [] := by
  cases h <;> simp

/-- A kind that begins no expression, joins no operands and closes no group is not part of an
expression. -/
theorem kind_ne (h : Derives level n e ts) {k : TokenKind} (hb : k.beginsExpr = false)
    (ho : k.precedence.rank = 0) (hc : k ≠ .rParen) : ∀ t ∈ ts, t.kind ≠ k := by
  have begins {t : Token} (ht : t.kind.beginsExpr = true) : t.kind ≠ k := by
    rintro rfl
    rw [hb] at ht
    cases ht
  induction h with
  | ident hk | int hk _ | trueWord hk | falseWord hk =>
    exact List.forall_mem_singleton.mpr (begins (by rw [hk]; rfl))
  | prefixed hk _ ih =>
    refine List.forall_mem_cons.mpr ⟨begins ?_, ih⟩
    rcases hk with hk | hk <;> rw [hk] <;> rfl
  | group hopen hclose _ ih =>
    refine List.forall_mem_cons.mpr ⟨begins (by rw [hopen]; rfl), ?_⟩
    exact List.forall_mem_append.mpr ⟨ih, List.forall_mem_singleton.mpr (hclose ▸ hc.symm)⟩
  | binary hop _ _ _ ihl ihr =>
    refine List.forall_mem_append.mpr ⟨ihl, List.forall_mem_cons.mpr ⟨?_, ihr⟩⟩
    rintro rfl
    omega

theorem ne_semicolon (h : Derives level n e ts) : ∀ t ∈ ts, t.kind ≠ .semicolon :=
  h.kind_ne rfl rfl nofun

theorem ne_letWord (h : Derives level n e ts) : ∀ t ∈ ts, t.kind ≠ .letWord :=
  h.kind_ne rfl rfl nofun

theorem ne_returnWord (h : Derives level n e ts) : ∀ t ∈ ts, t.kind ≠ .returnWord :=
  h.kind_ne rfl rfl nofun

theorem beginsExpr_head {t : Token} (h : Derives level n e (t :: ts)) :
    t.kind.beginsExpr = true := by
  generalize hus : t :: ts = us at h
  induction h generalizing ts with
  | ident hk | int hk _ | trueWord hk | falseWord hk =>
    cases hus
    rw [hk]
    rfl
  | prefixed hk _ _ =>
    cases hus
    rcases hk with hk | hk <;> rw [hk] <;> rfl
  | group ho _ _ _ =>
    cases hus
    rw [ho]
    rfl
  | binary _ _ hl _ ihl _ =>
    obtain ⟨u, ls, rfl⟩ := List.exists_cons_of_ne_nil hl.ne_nil
    cases hus
    exact ihl rfl

end Derives

end Expr

end ExprLang
