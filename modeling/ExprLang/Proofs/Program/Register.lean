import ExprLang.Proofs.Expr.Unambiguous
import ExprLang.Proofs.Program.Frame
import ExprLang.Proofs.Program.Nesting

/-!
# The height in the register

* `Machine.Spans` — a machine has moved on to the last one of some tokens.
* `Step.Gives` — a step has a result, and what it comes to after a success.
* `Step.Reads` — a machine has moved over a derivation of a tree.
* `Step.Operand`, `Step.Left`, `Step.Passed` — the same for an operand, for the left side of the next
  operator, and for a whole expression, the height of which is in the register.
* `Step.Settles` — at a depth, an expression has a result, and a success is such a passage.

Principal results: `gives_raised`, `gives_operand`, `gives_chain` — the rules of an expression have a
result, and after a success the height is that of what was passed, if this is so for what is nested;
`settles_expression` — so it is for expressions, at any depth; `expression_counters` — the depth, the
diagnostics and the height after an expression.

Nothing is assumed about the window: the tokens in it may be any tokens, also end tokens with other
tokens behind them. An expression stops in front of an end token, for there is no rule for it.
-/

namespace ExprLang

/-- Without groups the tree is as high as what was written. -/
theorem Expr.Derives.height_eq {level n : Nat} {e : Expr} {ts : List Token}
    (h : Expr.Derives level n e ts) (hts : ∀ t ∈ ts, t.kind ≠ .lParen) : e.height = n := by
  induction h with
  | ident _ | int _ _ | trueWord _ | falseWord _ => rfl
  | prefixed _ _ ih => exact congrArg (· + 1) (ih (List.forall_mem_cons.mp hts).2)
  | group ho _ _ _ => exact absurd ho (hts _ List.mem_cons_self)
  | binary _ _ _ _ ihl ihr =>
    obtain ⟨hl, hr⟩ := List.forall_mem_append.mp hts
    rw [Expr.height, ihl hl, ihr (List.forall_mem_cons.mp hr).2]

namespace Machine

/-- The tokens from the current one of the first machine to the current one of the second machine,
which is the first one moved on to there. The register may hold another height. -/
inductive Spans : Machine → List Token → Machine → Prop
  | last {m : Machine} (height : Nat) : Spans m [m.current] (m.setHeight height)
  | cons {m m' : Machine} {ts : List Token} (h : Spans m.advance ts m') :
      Spans m (m.current :: ts) m'

namespace Spans

variable {m m' m'' : Machine} {ts us : List Token}

theorem self (m : Machine) : m.Spans [m.current] m := .last m.height

theorem depth (h : m.Spans ts m') : m'.depth = m.depth := by
  induction h with
  | last _ => rfl
  | cons _ ih => exact ih

/-- It makes no difference what the counters were before: the depth is that of the first machine, and
the height is that of the last one. -/
theorem of_counters {d n : Nat} (h : ((m.setDepth d).setHeight n).Spans ts m') :
    m.Spans ts (m'.setDepth m.depth) := by
  generalize hv : (m.setDepth d).setHeight n = v at h
  induction h generalizing m with
  | last height =>
    subst hv
    exact .last height
  | cons _ ih =>
    subst hv
    exact .cons (ih rfl)

theorem of_setDepth {d : Nat} (h : (m.setDepth d).Spans ts m') : m.Spans ts (m'.setDepth m.depth) :=
  of_counters (d := d) (n := m.height) h

theorem of_setHeight {n : Nat} (h : (m.setHeight n).Spans ts m') : m.Spans ts m' := by
  have hdepth : m'.setDepth m.depth = m' := by
    rw [show m.depth = m'.depth from h.depth.symm]
    rfl
  have hspans := of_counters (d := m.depth) h
  rwa [hdepth] at hspans

theorem setHeight (n : Nat) (h : m.Spans ts m') : m.Spans ts (m'.setHeight n) := by
  induction h with
  | last _ => exact .last n
  | cons _ ih => exact .cons ih

/-- From the token after the last one it goes on. -/
theorem append (h : m.Spans ts m') (h' : m'.advance.Spans us m'') : m.Spans (ts ++ us) m'' := by
  induction h with
  | last height => exact .cons (of_setHeight (n := height) h')
  | cons _ ih => exact .cons (ih h')

end Spans

end Machine

namespace Step

variable {α β : Type} {m m' : Machine}

/-! ## Results -/

/-- There is a result, and if it is a success, it is done. -/
def Gives (done : α → Machine → Prop) : Option (Option α × Machine) → Prop
  | none => False
  | some (none, _) => True
  | some (some a, m) => done a m

variable {done : α → Machine → Prop} {done' : β → Machine → Prop}

theorem Gives.bind {x : Step α} {f : α → Step β} (h : Gives done (x m))
    (hf : ∀ a m', done a m' → Gives done' (f a m')) : Gives done' ((x >>= f) m) := by
  cases hx : x m with
  | none =>
    rw [hx] at h
    exact h.elim
  | some out =>
    rw [hx] at h
    obtain ⟨_ | a, m'⟩ := out
    · rw [bind_of_none hx]
      exact h
    · rw [bind_of_some hx]
      exact hf a m' h

theorem Gives.mono {out : Option (Option α × Machine)} {done' : α → Machine → Prop}
    (h : Gives done out) (hd : ∀ a m', done a m' → done' a m') : Gives done' out := by
  match out, h with
  | some (none, _), _ => trivial
  | some (some a, m'), h => exact hd a m' h

theorem gives_pure {a : α} (h : done a m) : Gives done ((pure a : Step α) m) := h

theorem gives_expectPeek (kind : TokenKind) (m : Machine) :
    Gives (fun _ m' => m' = m.advance ∧ m.peek.kind = kind) (expectPeek kind m) := by
  unfold expectPeek
  rw [look_bind]
  by_cases hk : m.peek.kind = kind
  · rw [if_pos hk]
    exact ⟨rfl, hk⟩
  · rw [if_neg hk]
    trivial

/-- **The height next to another part comes from the register** that the rule leaves, and it is
within the limit. -/
theorem gives_raised {n : Nat} {rule : Step Expr} {done : Expr → Machine → Prop}
    (h : Gives done (rule (m.setHeight 0))) :
    Gives (fun a m' => a.2 = max n m'.height + 1 ∧ a.2 ≤ maxNesting ∧ done a.1 m')
      (raised n rule m) := by
  unfold raised
  rw [move_bind]
  refine h.bind fun e m' he => ?_
  rw [look_bind, checkHeight]
  by_cases hle : max n m'.height + 1 ≤ maxNesting
  · rw [if_neg (Nat.not_lt.mpr hle)]
    exact ⟨rfl, hle, he⟩
  · rw [if_pos (Nat.lt_of_not_le hle)]
    trivial

/-! ## What was passed -/

/-- The machine has moved over a derivation of the tree at a level, with this height. -/
def Reads (level : Nat) (m : Machine) (e : Expr) (height : Nat) (m' : Machine) : Prop :=
  ∃ ts, m.Spans ts m' ∧ Expr.Derives level height e ts ∧ height ≤ maxNesting

/-- The invariant of the loop over binary operators: what was passed is derived at the level, and also
at the level that the next operator asks of its left side. -/
def Left (level : Nat) (m : Machine) (e : Expr) (height : Nat) (m' : Machine) : Prop :=
  Reads level m e height m' ∧
    ∀ k, m'.peek.kind.precedence.rank = k + 1 → Reads k m e height m'

/-- What an expression comes to: its height is in the register, and no operator goes on with it. -/
def Passed (level : Nat) (m : Machine) (e : Expr) (m' : Machine) : Prop :=
  Reads level m e m'.height m' ∧ m'.peek.kind.precedence.rank ≤ level

/-- At depth `d` an expression always has a result. -/
def Settles (d : Nat) (step : Precedence → Step Expr) : Prop :=
  ∀ bound (m : Machine), m.depth = d → Gives (Passed bound.rank m) (step bound m)

variable {d level n k : Nat} {e l r : Expr}

theorem Reads.leaf (h : Expr.Derives level 1 e [m.current]) (height : Nat) :
    Reads level m e 1 (m.setHeight height) :=
  ⟨_, .last height, h, Nat.le_add_left 1 255⟩

theorem Reads.prefixed (ht : m.current.kind = .bang ∨ m.current.kind = .minus)
    (h : Reads Precedence.prefixed.rank (m.setHeight k).advance e n m') (hn : n + 1 ≤ maxNesting) :
    Reads level m (.prefixed m.current m.current.literal e) (n + 1) m' := by
  obtain ⟨ts, hts, hd, -⟩ := h
  exact ⟨_, .of_setHeight (.cons hts), .prefixed ht hd, hn⟩

theorem Reads.group (ho : m.current.kind = .lParen) (hc : m'.peek.kind = .rParen)
    (h : Reads 0 (m.setHeight k).advance e n m') (hn : n + 1 ≤ maxNesting) :
    Reads level m e (n + 1) m'.advance := by
  obtain ⟨ts, hts, hd, -⟩ := h
  exact ⟨_, .of_setHeight (.cons (hts.append (.self _))), .group ho hc hd, hn⟩

/-- An operator, which is the next token, and its right side. -/
theorem Reads.binary {j : Nat} {m'' : Machine} (hl : Reads j m l n m')
    (hop : m'.peek.kind.precedence.rank = j + 1)
    (hr : Reads (j + 1) (m'.advance.setHeight 0).advance r k m'') (hlevel : level ≤ j)
    (hn : max n k + 1 ≤ maxNesting) :
    Reads level m (.binary m'.peek m'.peek.literal l r) (max n k + 1) m'' := by
  obtain ⟨ls, hls, hdl, -⟩ := hl
  obtain ⟨rs, hrs, hdr, -⟩ := hr
  exact ⟨_, hls.append (.of_setHeight (.cons hrs)), .binary hop hlevel hdl hdr, hn⟩

/-- One turn of the loop keeps the invariant: the right side stopped at the rank of its operator, so
the next operator binds no more tightly. -/
theorem Left.step {bound : Precedence} {m'' : Machine} (h : Left bound.rank m l n m')
    (hb : bound < m'.peek.kind.precedence)
    (hr : Passed m'.peek.kind.precedence.rank (m'.advance.setHeight 0).advance r m'')
    (hn : max n m''.height + 1 ≤ maxNesting) :
    Left bound.rank m (.binary m'.peek m'.peek.literal l r) (max n m''.height + 1) m'' := by
  obtain ⟨j, hj⟩ := Nat.exists_eq_succ_of_ne_zero (Nat.ne_zero_of_lt (Precedence.lt_iff.mp hb))
  obtain ⟨hright, hstop⟩ := hr
  rw [hj] at hright hstop
  have both {i : Nat} (hi : i ≤ j) := (h.2 j hj).binary hj hright hi hn
  constructor
  · rw [Precedence.lt_iff, hj] at hb
    exact both (Nat.le_of_lt_succ hb)
  · intro i hi
    rw [hi] at hstop
    exact both (Nat.le_of_succ_le_succ hstop)

/-! ## Rules -/

variable {step : Precedence → Step Expr}

/-- What an operand comes to is derived at every level. -/
def Operand (m : Machine) (a : Expr × Nat) (m' : Machine) : Prop :=
  ∀ level, Reads level m a.1 a.2 m'

theorem gives_leaf {rule : Step Expr}
    (hr : rule (m.setHeight 0) = some (some e, m.setHeight 0))
    (h : ∀ level, Expr.Derives level 1 e [m.current]) : Gives (Operand m) (raised 0 rule m) := by
  have hrule : Gives (fun a m' => a = e ∧ m' = m.setHeight 0) (rule (m.setHeight 0)) := by
    rw [hr]
    exact ⟨rfl, rfl⟩
  refine (gives_raised hrule).mono ?_
  rintro ⟨_, _⟩ _ ⟨rfl, -, rfl, rfl⟩ level
  exact .leaf (h level) 0

theorem gives_integer (hk : m.current.kind = .int) : Gives (Operand m) (raised 0 integer m) := by
  have hcurrent : (m.setHeight 0).current = m.current := rfl
  cases hv : Expr.integer? m.current.literal with
  | some value =>
    have hrun : integer (m.setHeight 0) = some (some (.int m.current value), m.setHeight 0) := by
      rw [integer, look_bind, hcurrent, hv]
      rfl
    exact gives_leaf hrun fun _ => .int hk hv
  | none =>
    have hrule : Gives (fun _ _ => False) (integer (m.setHeight 0)) := by
      rw [integer, look_bind, hcurrent, hv]
      trivial
    exact (gives_raised hrule).mono fun _ _ h => h.2.2.elim

theorem gives_boolean (hk : m.current.kind = .trueWord ∨ m.current.kind = .falseWord) :
    Gives (Operand m) (raised 0 boolean m) := by
  have hvalue : ∀ level,
      Expr.Derives level 1 (.bool m.current (m.current.kind == .trueWord)) [m.current] := by
    intro level
    rcases hk with hk | hk <;> rw [hk]
    · exact .trueWord hk
    · exact .falseWord hk
  exact gives_leaf rfl hvalue

theorem gives_prefixOperation (hi : Settles d step) (hm : m.depth = d)
    (ht : m.current.kind = .bang ∨ m.current.kind = .minus) :
    Gives (Operand m) (raised 0 (prefixOperation step) m) := by
  have hrule : Gives (fun a m' => ∃ e, a = .prefixed m.current m.current.literal e ∧
      Passed Precedence.prefixed.rank (m.setHeight 0).advance e m')
      (prefixOperation step (m.setHeight 0)) := by
    unfold prefixOperation
    rw [look_bind, move_bind]
    exact (hi .prefixed (m.setHeight 0).advance hm).bind fun e _ he => gives_pure ⟨e, rfl, he⟩
  refine (gives_raised hrule).mono ?_
  rintro ⟨_, _⟩ m' ⟨rfl, hn, e, rfl, he, -⟩ level
  rw [Nat.zero_max] at hn ⊢
  exact he.prefixed ht hn

theorem gives_group (hi : Settles d step) (hm : m.depth = d) (ho : m.current.kind = .lParen) :
    Gives (Operand m) (raised 0 (group step) m) := by
  have hrule : Gives (fun e m'' => ∃ m' : Machine, m'' = m'.advance ∧ m'.peek.kind = .rParen ∧
      Passed 0 (m.setHeight 0).advance e m') (group step (m.setHeight 0)) := by
    unfold group
    rw [move_bind]
    refine (hi .lowest (m.setHeight 0).advance hm).bind fun e m' he => ?_
    refine (gives_expectPeek .rParen m').bind ?_
    rintro _ _ ⟨rfl, hc⟩
    exact gives_pure ⟨m', rfl, hc, he⟩
  refine (gives_raised hrule).mono ?_
  rintro ⟨e, _⟩ _ ⟨rfl, hn, m', rfl, hc, he, -⟩ level
  rw [Nat.zero_max] at hn ⊢
  exact he.group ho hc hn

/-- **An operand has a result,** and its height is that of what was passed. -/
theorem gives_operand (hi : Settles d step) (hm : m.depth = d) :
    Gives (Operand m) (operand step m) := by
  unfold operand
  rw [look_bind]
  cases hrule : prefixRule? step m.current.kind with
  | none => trivial
  | some rule =>
    unfold prefixRule? at hrule
    split at hrule <;> rename_i hk <;> cases hrule
    · exact gives_leaf rfl fun _ => .ident hk
    · exact gives_integer hk
    · exact gives_boolean (.inl hk)
    · exact gives_boolean (.inr hk)
    · exact gives_prefixOperation hi hm (.inl hk)
    · exact gives_prefixOperation hi hm (.inr hk)
    · exact gives_group hi hm hk

theorem gives_binary {bound : Precedence} (hi : Settles d step) (hm : m'.depth = d)
    (hb : bound < m'.peek.kind.precedence) (h : Left bound.rank m l n m') :
    Gives (fun a m'' => Left bound.rank m a.1 a.2 m'' ∧ n < a.2)
      (raised n (binary step l) m'.advance) := by
  have hrule : Gives (fun a m'' => ∃ r, a = .binary m'.peek m'.peek.literal l r ∧
      Passed m'.peek.kind.precedence.rank (m'.advance.setHeight 0).advance r m'')
      (binary step l (m'.advance.setHeight 0)) := by
    unfold binary
    rw [look_bind, move_bind]
    exact (hi _ (m'.advance.setHeight 0).advance hm).bind fun r _ hr => gives_pure ⟨r, rfl, hr⟩
  refine (gives_raised hrule).mono ?_
  rintro ⟨_, _⟩ m'' ⟨rfl, hn, r, rfl, hr⟩
  exact ⟨h.step hb hr hn, Nat.lt_succ_of_le (Nat.le_max_left _ _)⟩

/-- **A chain of operators has a result,** and leaves the height of the whole in the register. Each
operator makes the tree higher, so the fuel need not be more than what the limit leaves. -/
theorem gives_chain {bound : Precedence} {fuel : Nat} (hi : Settles d step) (hm : m.depth = d)
    (hfuel : maxNesting < fuel + n) (h : Left bound.rank m l n m') :
    Gives (Passed bound.rank m) (chain step bound fuel l n m') := by
  induction fuel generalizing l n m' with
  | zero =>
    obtain ⟨-, -, -, hn⟩ := h.1
    omega
  | succ fuel ih =>
    obtain ⟨ts, hts, hd, hn⟩ := h.1
    unfold chain
    rw [look_bind]
    by_cases hb : bound < m'.peek.kind.precedence
    · rw [if_pos ⟨TokenKind.ne_semicolon_of_lt hb, hb⟩, infixRule?_of_lt hb]
      refine (gives_binary hi (hts.depth.trans hm) hb h).bind ?_
      rintro ⟨l', n'⟩ m'' ⟨hleft, hlt⟩
      exact ih (by simp only at hlt; omega) hleft
    · rw [if_neg fun hc => hb hc.2]
      exact ⟨⟨ts, hts.setHeight n, hd, hn⟩, Nat.le_of_not_lt hb⟩

theorem gives_within {fuel : Nat} (hi : Settles d step) (hm : m.depth = d)
    (hfuel : maxNesting ≤ fuel) (bound : Precedence) :
    Gives (Passed bound.rank m) (within step fuel bound m) := by
  refine (gives_operand hi hm).bind ?_
  rintro ⟨e, n⟩ m' h
  obtain ⟨ts, -, hd, -⟩ := h bound.rank
  have hpos := hd.height_pos
  exact gives_chain hi hm (by omega) ⟨h _, fun k _ => h k⟩

theorem gives_nested {x : Step Expr}
    (h : Gives (Passed level (m.setDepth (m.depth + 1))) (x (m.setDepth (m.depth + 1)))) :
    Gives (Passed level m) (nested x m) := by
  unfold nested
  match hx : x (m.setDepth (m.depth + 1)), h with
  | some (none, _), _ => trivial
  | some (some e, m'), h =>
    obtain ⟨⟨ts, hts, hd, hn⟩, hstop⟩ := h
    have hback : m'.depth - 1 = m.depth := congrArg (· - 1) hts.depth
    refine ⟨⟨ts, ?_, hd, hn⟩, hstop⟩
    show m.Spans ts (m'.setDepth (m'.depth - 1))
    rw [hback]
    exact hts.of_setDepth

/-- **An expression has a result at any depth up to the limit,** and after a success its height is in
the register. -/
theorem settles_expression {room fuel : Nat} (hd : d + room = maxNesting)
    (hfuel : maxNesting + room < fuel) : Settles d (expression fuel) := by
  induction room generalizing d fuel with
  | zero =>
    intro bound m hm
    obtain ⟨fuel, rfl⟩ := Nat.exists_eq_add_one_of_ne_zero (Nat.ne_zero_of_lt hfuel)
    unfold expression
    rw [look_bind, if_pos (by rw [hm]; omega)]
    trivial
  | succ room ih =>
    intro bound m hm
    obtain ⟨fuel, rfl⟩ := Nat.exists_eq_add_one_of_ne_zero (Nat.ne_zero_of_lt hfuel)
    unfold expression
    rw [look_bind, if_neg (by rw [hm]; omega)]
    have hi : Settles (d + 1) (expression fuel) := ih (by omega) (by omega)
    exact gives_nested (gives_within hi (congrArg (· + 1) hm) (by omega) bound)

end Step

/-- **What an expression does to the counters of a machine.** Take any machine that is not beyond the
limit, with any tokens in its window and ahead. With enough fuel an expression comes to a result, and
then the depth is what it was, after a success and after a failure. A watch that allows only the
depths from there to the limit has no effect. The diagnostics begin with those from before. After a
success the register holds the height of what was passed: of the one derivation from the level of the
precedence that these tokens have, in which operators and groups are one higher than what they hold.
It is within the limit, and the tree is not higher; without a group it is just as high. -/
theorem expression_counters (m : Machine) (bound : Precedence) (fuel : Nat)
    (hd : m.depth ≤ maxNesting) (hfuel : 2 * maxNesting < fuel) :
    ∃ result m', Step.expression fuel bound m = some (result, m') ∧
      Step.watchedExpression (fun v => m.depth ≤ v.depth ∧ v.depth ≤ maxNesting) fuel bound m =
        some (result, m') ∧
      m'.depth = m.depth ∧ m.diagnostics <+: m'.diagnostics ∧
      ∀ e, result = some e →
        ∃ w : Expr.Written, Expr.Stratum bound.stratum w ∧ m.Spans w.tokens m' ∧ e = w.tree ∧
          (∀ w', Expr.Stratum bound.stratum w' → w'.tokens = w.tokens → w' = w) ∧
          m'.height = w.height ∧ m'.height ≤ maxNesting ∧ e.height ≤ m'.height ∧
          ((∀ t ∈ w.tokens, t.kind ≠ .lParen) → e.height = m'.height) := by
  have hroom : m.depth + (maxNesting - m.depth) = maxNesting := Nat.add_sub_cancel' hd
  have hgives := Step.settles_expression hroom (by omega : _ < fuel) bound m rfl
  have hwatch : Step.Same m.depth (Step.expression fuel bound) (Step.watchedExpression
      (fun v => m.depth ≤ v.depth ∧ v.depth ≤ maxNesting) fuel bound) :=
    Step.same_expression hd (fun v hlow hhigh => ⟨hlow, hhigh⟩) fuel bound
  obtain ⟨hsame, hframe⟩ := hwatch m rfl
  match hx : Step.expression fuel bound m, hgives with
  | some (result, m'), hgives =>
    have hkept := hframe _ _ hx
    refine ⟨result, m', rfl, hsame.trans hx, hkept.depth, hkept.diagnostics, ?_⟩
    rintro e rfl
    obtain ⟨⟨ts, hts, hderives, hlimit⟩, -⟩ := hgives
    obtain ⟨w, hw, rfl, rfl, hheight, hunique⟩ := hderives.exists_stratum
    exact ⟨w, hw, hts, rfl, hunique, hheight.symm, hlimit, hderives.height_le, hderives.height_eq⟩

/-- A group under a prefix operator, at the left end of a chain: three levels of nesting are enough,
and two are not. The group makes the height in the register one more than the height of the tree. -/
theorem expression_counters_group :
    let m : Machine := ((Machine.ofText "-(a) * 2 - b; c").setDepth 253).report (.noOperand .eq)
    (m.depth ≤ maxNesting ∧ (m.setDepth 254).depth ≤ maxNesting ∧ 2 * maxNesting < 513) ∧
      (∃ e m', Step.expression 513 .lowest m = some (some e, m') ∧
        m'.depth = 253 ∧ [.noOperand .eq] <+: m'.diagnostics ∧ e.height = 4 ∧ m'.height = 5 ∧
        ∃ w : Expr.Written, m.Spans w.tokens m' ∧ e = w.tree ∧ w.height = 5) ∧
      ∃ m', Step.expression 513 .lowest (m.setDepth 254) = some (none, m') ∧
        m'.depth = 254 ∧ [.noOperand .eq] <+: m'.diagnostics := by
  intro m
  have hd : m.depth ≤ maxNesting := by decide
  have hd' : (m.setDepth 254).depth ≤ maxNesting := by decide
  have hfuel : 2 * maxNesting < 513 := by decide
  refine ⟨⟨hd, hd', hfuel⟩, ?_, ?_⟩
  · obtain ⟨result, m', hrun, -, hdepth, hkept, hread⟩ :=
      expression_counters m .lowest 513 hd hfuel
    have hvalue : (Step.expression 513 .lowest m).map (fun r => (r.1.map Expr.height, r.2.height)) =
        some (some 4, 5) := by decide +kernel
    rw [hrun, Option.map_some, Option.some.injEq, Prod.mk.injEq] at hvalue
    obtain ⟨hresult, hregister⟩ := hvalue
    obtain ⟨e, rfl, he⟩ := Option.map_eq_some_iff.mp hresult
    obtain ⟨w, -, hts, htree, -, hw, -⟩ := hread e rfl
    exact ⟨e, m', hrun, hdepth, hkept, he, hregister, w, hts, htree, hw.symm.trans hregister⟩
  · obtain ⟨result, m', hrun, -, hdepth, hkept, -⟩ :=
      expression_counters (m.setDepth 254) .lowest 513 hd' hfuel
    have hvalue : (Step.expression 513 .lowest (m.setDepth 254)).map Prod.fst = some none := by
      decide +kernel
    rw [hrun, Option.map_some, Option.some.injEq] at hvalue
    obtain rfl : result = none := hvalue
    exact ⟨m', hrun, hdepth, hkept⟩

end ExprLang
