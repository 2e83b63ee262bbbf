import ExprLang.Proofs.Expr.Derivation

/-!
# Expressions as they are written

* `Expr.Written` — an expression with its groups; `tokens` are its text, and `tree` is what is left
  without the groups.
* `Written.height`, `Written.depth` — how high it is, and how many readers are active in it at once.
* `TokenKind.stratum?` — the level of a binary operator in the stratified grammar.
* `Expr.Stratum` — the non-terminals of that grammar, one for each level.

Principal result: `Derives.exists_written` — the stratified grammar has the derivations of
`Expr.Derives`, with their trees and heights.

Levels 0 to 3 are those of the binary operators, level 4 is that of the prefix operators, and leaves
and groups are on level 5. A level holds every expression of the tighter ones.
-/

namespace ExprLang

/-- The level of a binary operator, from the loosest one. -/
def TokenKind.stratum? : TokenKind → Option Nat
  | eq | notEq => some 0
  | lt | gt => some 1
  | plus | minus => some 2
  | asterisk | slash => some 3
  | _ => none

theorem TokenKind.stratum?_eq_some_iff {k : TokenKind} {i : Nat} :
    k.stratum? = some i ↔ k.precedence.rank = i + 1 := by
  cases k <;> simp [stratum?, precedence, Precedence.rank] <;> omega

theorem TokenKind.lt_four_of_stratum {k : TokenKind} {i : Nat} (h : k.stratum? = some i) :
    i < 4 := by
  revert h
  cases k <;> simp [stratum?] <;> omega

/-- The level of the loosest operators that bind more tightly; the level of the prefix operators if
there are none. -/
def Precedence.stratum : Precedence → Nat
  | lowest => 0
  | equals => 1
  | lessGreater => 2
  | sum => 3
  | product | prefixed | call => 4

theorem Precedence.stratum_eq_min (p : Precedence) : p.stratum = min p.rank 4 := by
  cases p <;> rfl

/-- From this level on there are exactly the operators that bind more tightly. -/
theorem Precedence.stratum_le_iff {p : Precedence} {k : TokenKind} {i : Nat}
    (h : k.stratum? = some i) : p.stratum ≤ i ↔ p < k.precedence := by
  have hi := TokenKind.lt_four_of_stratum h
  rw [TokenKind.stratum?_eq_some_iff] at h
  rw [stratum_eq_min, lt_iff]
  omega

/-- The kinds of the tokens that are an expression by themselves. -/
def TokenKind.isLeaf : TokenKind → Bool
  | ident | int | trueWord | falseWord => true
  | _ => false

namespace Expr

/-- An expression as it is written: operators with their operands, and groups. -/
inductive Written where
  | leaf (token : Token)
  | prefixed (op : Token) (operand : Written)
  | group (opening : Token) (inside : Written) (closing : Token)
  | binary (left : Written) (op : Token) (right : Written)
  deriving DecidableEq, Repr

/-- The tree of a token that is an expression by itself. -/
def ofLeaf (t : Token) : Expr :=
  match t.kind with
  | .int => .int t (Nat.ofDigitChars 10 t.literal.toList 0)
  | .trueWord => .bool t true
  | .falseWord => .bool t false
  | _ => .ident ⟨t, t.literal⟩

namespace Written

def tokens : Written → List Token
  | leaf t => [t]
  | prefixed op w => op :: w.tokens
  | group opening w closing => opening :: (w.tokens ++ [closing])
  | binary l op r => l.tokens ++ op :: r.tokens

/-- A group makes no node. -/
def tree : Written → Expr
  | leaf t => ofLeaf t
  | prefixed op w => .prefixed op op.literal w.tree
  | group _ w _ => w.tree
  | binary l op r => .binary op op.literal l.tree r.tree

/-- Operators and groups are one higher than what they hold. -/
def height : Written → Nat
  | leaf _ => 1
  | prefixed _ w => w.height + 1
  | group _ w _ => w.height + 1
  | binary l _ r => max l.height r.height + 1

/-- A reader stays active while the operand of a prefix operator, the inside of a group or the right
side of a binary operator is read, but not for what comes after a left side. -/
def depth : Written → Nat
  | leaf _ => 1
  | prefixed _ w => w.depth + 1
  | group _ w _ => w.depth + 1
  | binary l _ r => max l.depth (r.depth + 1)

/-- No integer is too large. -/
def InRange (w : Written) : Prop :=
  ∀ t ∈ w.tokens, t.kind = .int → Nat.ofDigitChars 10 t.literal.toList 0 ≤ maxInteger

instance (w : Written) : Decidable w.InRange :=
  inferInstanceAs (Decidable (∀ t ∈ w.tokens, t.kind = .int →
    Nat.ofDigitChars 10 t.literal.toList 0 ≤ maxInteger))

theorem depth_pos (w : Written) : 0 < w.depth := by
  induction w with
  | leaf _ => exact Nat.one_pos
  | prefixed _ _ _ | group _ _ _ _ => exact Nat.succ_pos _
  | binary _ _ _ ihl _ => exact Nat.lt_of_lt_of_le ihl (Nat.le_max_left _ _)

theorem depth_le_height (w : Written) : w.depth ≤ w.height := by
  induction w with
  | leaf _ => exact Nat.le_refl 1
  | prefixed _ _ ih | group _ _ _ ih => exact Nat.succ_le_succ ih
  | binary _ _ _ ihl ihr =>
    simp only [depth, height]
    omega

variable {l r w : Written} {op opening closing : Token}

theorem InRange.of_prefixed (h : (prefixed op w).InRange) : w.InRange :=
  fun t ht => h t (List.mem_cons_of_mem op ht)

theorem InRange.of_group (h : (group opening w closing).InRange) : w.InRange :=
  fun t ht => h t (List.mem_cons_of_mem opening (List.mem_append_left _ ht))

theorem InRange.of_binary (h : (binary l op r).InRange) : l.InRange ∧ r.InRange :=
  ⟨fun t ht => h t (List.mem_append_left _ ht),
    fun t ht => h t (List.mem_append_right _ (List.mem_cons_of_mem op ht))⟩

end Written

open Written

/-- What is written is derived from the non-terminal of a level. The left side of a binary operator may
hold operators of the same level and the right side may not. -/
inductive Stratum : Nat → Written → Prop
  | binary {k : Nat} {l r : Written} {op : Token} (hop : op.kind.stratum? = some k)
      (hl : Stratum k l) (hr : Stratum (k + 1) r) : Stratum k (.binary l op r)
  | tighter {k : Nat} {w : Written} (hk : k < 5) (h : Stratum (k + 1) w) : Stratum k w
  | prefixed {w : Written} {op : Token} (hop : op.kind = .bang ∨ op.kind = .minus)
      (h : Stratum 4 w) : Stratum 4 (.prefixed op w)
  | leaf {t : Token} (ht : t.kind.isLeaf = true) : Stratum 5 (.leaf t)
  | group {w : Written} {opening closing : Token} (ho : opening.kind = .lParen)
      (hc : closing.kind = .rParen) (h : Stratum 0 w) : Stratum 5 (.group opening w closing)

variable {k level n : Nat} {e : Expr} {ts : List Token} {w : Written}

theorem Stratum.mono {j : Nat} (hjk : j ≤ k) (hk : k ≤ 5) (h : Stratum k w) : Stratum j w := by
  induction k generalizing j with
  | zero => exact Nat.le_zero.mp hjk ▸ h
  | succ k ih =>
    rcases Nat.le_succ_iff.mp hjk with hjk | rfl
    · exact ih hjk (by omega) (.tighter (by omega) h)
    · exact h

/-! ## The derivations of the stratified grammar -/

/-- **What is derived can be written in a stratum,** with that tree and that height. -/
theorem Derives.exists_written (h : Derives level n e ts) :
    ∃ w, Stratum (min level 4) w ∧ w.InRange ∧ w.tokens = ts ∧ w.tree = e ∧ w.height = n := by
  have leaf {level : Nat} {t : Token} (ht : t.kind.isLeaf = true) :
      Stratum (min level 4) (.leaf t) :=
    (Stratum.leaf ht).mono (by omega) (Nat.le_refl 5)
  induction h with
  | @ident _ t hk =>
    exact ⟨.leaf t, leaf (by rw [hk]; rfl), by simp [InRange, Written.tokens, hk], rfl,
      by simp [tree, ofLeaf, hk], rfl⟩
  | @int _ t value hk hv =>
    obtain ⟨hval, hle⟩ := integer?_eq_some_iff.mp hv
    exact ⟨.leaf t, leaf (by rw [hk]; rfl), by simpa [InRange, Written.tokens, hk] using hle, rfl,
      by simp [tree, ofLeaf, hk, hval], rfl⟩
  | @trueWord _ t hk | @falseWord _ t hk =>
    exact ⟨.leaf t, leaf (by rw [hk]; rfl), by simp [InRange, Written.tokens, hk], rfl,
      by simp [tree, ofLeaf, hk], rfl⟩
  | @prefixed _ _ t _ _ hk _ ih =>
    obtain ⟨w, hw, hi, rfl, rfl, rfl⟩ := ih
    refine ⟨.prefixed t w, (Stratum.prefixed hk hw).mono (by omega) (by omega), ?_, rfl, rfl, rfl⟩
    exact List.forall_mem_cons.mpr ⟨by rcases hk with hk | hk <;> simp [hk], hi⟩
  | @group _ _ opening closing _ _ ho hc _ ih =>
    obtain ⟨w, hw, hi, rfl, rfl, rfl⟩ := ih
    refine ⟨.group opening w closing, (Stratum.group ho hc hw).mono (by omega) (by omega), ?_, rfl,
      rfl, rfl⟩
    have hclose : ∀ t ∈ [closing], t.kind = .int →
        Nat.ofDigitChars 10 t.literal.toList 0 ≤ maxInteger := by simp [hc]
    exact List.forall_mem_cons.mpr ⟨by simp [ho], List.forall_mem_append.mpr ⟨hi, hclose⟩⟩
  | @binary _ k _ _ op _ _ _ _ hop hk _ _ ihl ihr =>
    obtain ⟨l, hl, hil, rfl, rfl, rfl⟩ := ihl
    obtain ⟨r, hr, hir, rfl, rfl, rfl⟩ := ihr
    have hs := TokenKind.stratum?_eq_some_iff.mpr hop
    have hlt := TokenKind.lt_four_of_stratum hs
    rw [Nat.min_eq_left (by omega)] at hl hr
    refine ⟨.binary l op r, (Stratum.binary hs hl hr).mono (by omega) (by omega), ?_, rfl, rfl, rfl⟩
    refine List.forall_mem_append.mpr ⟨hil, List.forall_mem_cons.mpr ⟨?_, hir⟩⟩
    intro hi
    simp [hi, TokenKind.stratum?] at hs

end Expr

end ExprLang
