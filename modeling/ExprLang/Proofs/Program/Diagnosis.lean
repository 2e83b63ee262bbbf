import ExprLang.Proofs.Program.Segment
import ExprLang.Proofs.Program.Viable

/-!
# Where diagnostics point

* `Diagnostic.Names` — the token that a diagnostic is about.
* `Diagnostic.Blames` — a place cannot go on with that token, but with what was expected.
* `Blocked` — a failure was found at the first token that a place cannot go on with.

Principal results: `Expr.blocked_read`, `Statement.blocked_read` — reading fails at such a token, unless
it fails for the nesting; `diagnostic_earliest` — every other diagnostic is about the earliest token
with which no statement goes on.

The proofs follow the reader: what was read before the failure leads from place to place, and each
kind of failure is a token that its place has no step for.
-/

namespace ExprLang

/-- The diagnostic is about the token. -/
def Diagnostic.Names : Diagnostic → Token → Prop
  | noOperand kind, t => t.kind = kind
  | unexpectedToken _ got, t => t.kind = got
  | invalidInteger literal, t => t.kind = .int ∧ t.literal = literal
  | nestingTooDeep, _ => False

/-- No statement goes on with the token from the place, and what the diagnostic expected would have
been right. -/
structure Diagnostic.Blames (d : Diagnostic) (p : Place) (t : Token) : Prop where
  names : d.Names t
  step_eq_none : p.step t = none
  expected : ∀ expected got, d = .unexpectedToken expected got →
    ∀ u : Token, u.kind = expected → (p.step u).isSome

/-- A diagnostic that expected no kind in particular promises nothing. -/
theorem Diagnostic.Blames.of_ne {d : Diagnostic} {p : Place} {t : Token} (hn : d.Names t)
    (hs : p.step t = none) (hd : ∀ expected got, d ≠ .unexpectedToken expected got) :
    d.Blames p t where
  names := hn
  step_eq_none := hs
  expected := fun expected got h => absurd h (hd expected got)

/-- The failure of reading `ts` from a place is one of nesting, or it was found where the tokens
before it led to a place that cannot go on; at the end the token to blame is the end token. -/
def Blocked (p : Place) (ts : List Token) (f : Failure) : Prop :=
  f.diagnostic = .nestingTooDeep ∨
    ∃ used q, ts = used ++ f.rest ∧ p.run used = some q ∧
      f.diagnostic.Blames q (f.rest.head?.getD Token.eof)

namespace Blocked

variable {p q : Place} {ts us : List Token} {f : Failure} {d : Diagnostic}

theorem here (h : d.Blames p (ts.head?.getD Token.eof)) : Blocked p ts ⟨d, ts⟩ :=
  .inr ⟨[], p, rfl, rfl, h⟩

theorem tooDeep : Blocked p ts ⟨.nestingTooDeep, us⟩ := .inl rfl

theorem append (hp : p.run us = some q) (h : Blocked q ts f) : Blocked p (us ++ ts) f := by
  rcases h with h | ⟨used, r, rfl, hr, hb⟩
  · exact .inl h
  · refine .inr ⟨us ++ used, r, by simp, ?_, hb⟩
    rw [Place.run_append, hp]
    exact hr

theorem cons {t : Token} (hp : p.step t = some q) (h : Blocked q ts f) :
    Blocked p (t :: ts) f :=
  append ((p.run_singleton t).trans hp) h

end Blocked

/-- Where only one kind of token may come, any other one is to blame. -/
theorem blocked_expect {kind : TokenKind} {ts : List Token} {f : Failure} {p : Place}
    (hk : kind ≠ .eof) (hright : ∀ u : Token, u.kind = kind → (p.step u).isSome)
    (hwrong : (ts.head?.getD Token.eof).kind ≠ kind → p.step (ts.head?.getD Token.eof) = none)
    (h : expect kind ts = .error f) : Blocked p ts f := by
  have hexpected (got : TokenKind) : ∀ k g, Diagnostic.unexpectedToken kind got = .unexpectedToken k g →
      ∀ u : Token, u.kind = k → (p.step u).isSome := by
    intro k g he
    cases he
    exact hright
  cases ts with
  | nil =>
    cases h
    exact .here ⟨rfl, hwrong hk.symm, hexpected _⟩
  | cons t ts =>
    simp only [expect] at h
    split at h
    · cases h
    · rename_i ht
      cases h
      exact .here ⟨rfl, hwrong ht, hexpected _⟩

theorem blocked_expect_only {kind : TokenKind} {ts : List Token} {f : Failure} {p q : Place}
    (hk : kind ≠ .eof) (hp : ∀ t : Token, p.step t = if t.kind = kind then some q else none)
    (h : expect kind ts = .error f) : Blocked p ts f := by
  apply blocked_expect hk ?_ ?_ h
  · intro u hu
    rw [hp, if_pos hu]
    rfl
  · intro hne
    rw [hp, if_neg hne]

/-! ## Expressions -/

namespace Expr

theorem Stops.head_not_binary {ts : List Token} (h : Stops 0 ts) :
    (ts.head?.getD Token.eof).kind ∉ TokenKind.binaryOperators := by
  cases ts with
  | nil => decide
  | cons t ts =>
    rw [TokenKind.mem_binaryOperators_iff]
    exact Nat.not_lt.mpr h.of_cons

section

variable {inner : Reader} {depth : Nat} {ts : List Token} {f : Failure} {p : Place}

theorem blocked_limited {r : Reading} (h : limited r = .error f) : Blocked p ts f := by
  unfold limited at h
  split at h
  · cases h
  · cases h
    exact .tooDeep

variable (hb : ∀ bound depth ts f, inner bound ts = .error f → Blocked (.operand depth) ts f)

include hb

theorem blocked_prefixOperation {op : Token} (h : prefixOperation inner op ts = .error f) :
    Blocked (.operand depth) ts f := by
  unfold prefixOperation at h
  split at h
  · rename_i hr
    cases h
    exact hb _ depth ts _ hr
  · exact blocked_limited h

variable (hs : ∀ bound ts, Sound bound.rank ts (inner bound ts))

include hs

/-- After the inside of a group only the closing parenthesis is missing: the inside went as far as
its operators go. -/
theorem blocked_group (h : group inner ts = .error f) : Blocked (.operand (depth + 1)) ts f := by
  unfold group at h
  split at h
  · rename_i hr
    cases h
    exact hb _ (depth + 1) ts _ hr
  rename_i r hr
  obtain ⟨used, rfl, hd, hstop, -⟩ : Sound 0 ts (.ok r) := hr ▸ hs .lowest ts
  have hbinary := hstop.head_not_binary
  split at h
  · rename_i he
    cases h
    apply Blocked.append (Place.run_expr hd.isExpr (depth + 1))
    apply blocked_expect (by decide) ?_ ?_ he
    · intro u hu
      rw [Place.step_operator_closing hu]
      rfl
    · intro hne
      simp only [Place.step, Place.stepOperator, if_neg hbinary]
      split <;> simp_all
  · exact blocked_limited h

/-- A token that begins no operand is to blame, and so is an integer that is too large. -/
theorem blocked_operand (h : operand inner ts = .error f) : Blocked (.operand depth) ts f := by
  cases ts with
  | nil =>
    cases h
    exact .here (.of_ne rfl rfl (by simp))
  | cons t ts =>
    simp only [operand] at h
    split at h <;> rename_i hk
    · cases h
    · unfold integer at h
      split at h
      · cases h
      · rename_i hv
        cases h
        refine .here (.of_ne ⟨hk, rfl⟩ ?_ (by simp))
        show Place.stepOperand depth t = none
        unfold integer? at hv
        simp only at hv
        split at hv
        · cases hv
        · rename_i hle
          simp only [Place.stepOperand, hk, if_neg hle]
    · cases h
    · cases h
    · exact .cons (Place.step_operand_prefix (.inl hk)) (blocked_prefixOperation hb h)
    · exact .cons (Place.step_operand_prefix (.inr hk)) (blocked_prefixOperation hb h)
    · exact .cons (Place.step_operand_opening hk) (blocked_group hb hs h)
    · cases h
      refine .here (.of_ne rfl ?_ (by simp))
      show Place.stepOperand depth t = none
      unfold Place.stepOperand
      split <;> simp_all

/-- What comes after an operator fails like an operand would. -/
theorem blocked_chain (bound : Precedence) (left : Reading)
    (h : chain inner bound left = .error f) : Blocked (.operator depth) left.rest f := by
  fun_induction chain inner bound left with
  | case1 left hr => cases h
  | case2 left op rest hr hop f' hf =>
    cases h
    rw [hr]
    have hk := TokenKind.mem_binaryOperators_iff.mpr (Nat.zero_lt_of_lt (Precedence.lt_iff.mp hop))
    exact .cons (Place.step_operator_binary hk) (hb _ depth rest _ hf)
  | case3 left op rest hr hop right hok height hh ih =>
    rw [hr]
    have hk := TokenKind.mem_binaryOperators_iff.mpr (Nat.zero_lt_of_lt (Precedence.lt_iff.mp hop))
    obtain ⟨used, hrest, hd, -, -⟩ : Sound _ rest (.ok right) := hok ▸ hs op.kind.precedence rest
    rw [hrest]
    exact .cons (Place.step_operator_binary hk)
      (.append (Place.run_expr hd.isExpr depth) (ih h))
  | case4 left op rest hr hop right hok height hh =>
    cases h
    exact .tooDeep
  | case5 left op rest hr hop => cases h

end

/-- **Reading an expression fails at a token that no statement goes on with there,** unless it fails for
the nesting. -/
theorem blocked_read (room : Nat) (bound : Precedence) (depth : Nat) (ts : List Token) (f : Failure)
    (h : read room bound ts = .error f) : Blocked (.operand depth) ts f := by
  induction room generalizing bound depth ts f with
  | zero =>
    cases h
    exact .tooDeep
  | succ room ih =>
    rw [read] at h
    have hsound := soundOperand_operand (sound_read room) ts
    split at h <;> rename_i hr
    · cases h
      exact blocked_operand ih (sound_read room) hr
    · rename_i left
      rw [hr] at hsound
      obtain ⟨used, hts, hd, -⟩ := hsound
      rw [hts]
      exact .append (Place.run_expr (hd 0).isExpr depth) (blocked_chain ih (sound_read room) bound left h)

end Expr

/-! ## Statements -/

namespace Statement

variable {t : Token} {ts : List Token} {f : Failure}

theorem blocked_readValue (h : readValue ts = .error f) : Blocked (.operand 0) ts f := by
  unfold readValue at h
  split at h
  · rename_i hr
    cases h
    exact Expr.blocked_read _ _ 0 ts _ hr
  · cases h

theorem blocked_readBinding {keyword : Token} (h : readBinding keyword ts = .error f) :
    Blocked .name ts f := by
  unfold readBinding at h
  split at h
  · rename_i hn
    cases h
    exact blocked_expect_only (by decide) (fun _ => rfl) hn
  rename_i name ts hn
  obtain ⟨rfl, hname⟩ := expect_eq_ok hn
  have hstep : Place.name.step name = some .sign := if_pos hname
  apply Blocked.cons hstep
  split at h
  · rename_i ha
    cases h
    exact blocked_expect_only (by decide) (fun _ => rfl) ha
  rename_i sign ts ha
  obtain ⟨rfl, hsign⟩ := expect_eq_ok ha
  have hstep : Place.sign.step sign = some (.operand 0) := if_pos hsign
  apply Blocked.cons hstep
  split at h
  · rename_i hv
    cases h
    exact blocked_readValue hv
  · cases h

end Statement

/-- A statement without a keyword fails like its expression. -/
theorem Blocked.start {t : Token} {ts : List Token} {f : Failure} (hl : t.kind ≠ .letWord)
    (hr : t.kind ≠ .returnWord) (h : Blocked (.operand 0) (t :: ts) f) :
    Blocked .start (t :: ts) f := by
  rcases h with h | ⟨used, q, hts, hq, hnames, hnone, hexpected⟩
  · exact .inl h
  cases used with
  | nil =>
    cases hq
    refine .inr ⟨[], .start, hts, rfl, hnames, ?_, ?_⟩
    · rw [List.nil_append] at hts
      rw [← hts] at hnone ⊢
      exact (Place.step_start hl hr).trans hnone
    · intro expected got he u hu
      obtain ⟨p, hp⟩ := Option.isSome_iff_exists.mp (hexpected expected got he u hu)
      exact Option.isSome_iff_exists.mpr ⟨p, Place.step_start_of_operand hp⟩
  | cons u used =>
    have hrun := Place.run_start_of_operand (List.cons_ne_nil u used) hq
    exact .inr ⟨u :: used, q, hts, hrun, hnames, hnone, hexpected⟩

/-- **Reading a statement fails at a token that no statement goes on with there,** unless it fails for
the nesting. -/
theorem Statement.blocked_read {t : Token} {ts : List Token} {f : Failure}
    (h : Statement.read t ts = .error f) : Blocked .start (t :: ts) f := by
  unfold Statement.read at h
  split at h
  · rename_i hk
    exact .cons (by simp only [Place.step, hk]) (Statement.blocked_readBinding h)
  · rename_i hk
    split at h
    · rename_i hv
      cases h
      exact .cons (by simp only [Place.step, hk]) (Statement.blocked_readValue hv)
    · cases h
  · rename_i hl hr
    split at h
    · rename_i hv
      cases h
      exact .start hl hr (Statement.blocked_readValue hv)
    · cases h

/-- **A diagnostic points at the earliest impossible token.** For every statement of a text that failed
with a diagnostic other than one of the nesting, the tokens from its first one on, with the end token
behind them, have a first token with which no statement of the grammar goes on. The diagnostic names
that token, and where it names an expected kind, a token of that kind would have been right. -/
theorem diagnostic_earliest (text : String) {before after : List Attempt} {first stop : Token}
    {d : Diagnostic}
    (h : Attempt.all (Token.ofText text) = before ++ .failed first d stop :: after)
    (hd : d ≠ .nestingTooDeep) :
    ∃ taken ts, Token.ofText text = taken ++ ts ∧
      Attempt.Run (Token.ofText text) before ts ∧ ts.head? = some first ∧
      ∃ used offending rest, ts ++ [Token.eof] = used ++ offending :: rest ∧
        d.Names offending ∧ Viable used ∧ ¬ Viable (used ++ [offending]) ∧
        ∀ expected got, d = .unexpectedToken expected got →
          ∀ u : Token, u.kind = expected → Viable (used ++ [u]) := by
  obtain ⟨ts, hbefore, hfrom⟩ := (h ▸ Attempt.run_all (Token.ofText text)).split
  obtain ⟨taken, htaken⟩ := hbefore.suffix
  refine ⟨taken, ts, htaken.symm, hbefore, ?_⟩
  cases hfrom with
  | cons hstep _ =>
    cases hstep with
    | @failed t us f hr =>
      refine ⟨rfl, ?_⟩
      rcases Statement.blocked_read hr with hdeep | ⟨used, q, hts, hrun, hnames, hnone, hexpected⟩
      · exact absurd hdeep hd
      -- a token after `used` is right exactly if the place has a step for it
      have hviable (u : Token) : Viable (used ++ [u]) ↔ (q.step u).isSome := by
        rw [viable_iff, Place.run_append, hrun, Option.bind_some, Place.run_singleton]
      refine ⟨used, f.rest.head?.getD Token.eof, (f.rest ++ [Token.eof]).tail, ?_, hnames, ?_, ?_, ?_⟩
      · rw [hts, List.append_assoc]
        cases f.rest <;> rfl
      · exact viable_iff.mpr (by rw [hrun]; rfl)
      · rw [hviable, hnone]
        exact nofun
      · intro expected got he u hu
        exact (hviable u).mpr (hexpected expected got he u hu)

/-- A second name in a group is to blame, where a closing parenthesis would be right. -/
theorem diagnostic_earliest_group :
    Attempt.all (Token.ofText "(a b") =
        [.failed ⟨.lParen, "("⟩ (.unexpectedToken .rParen .ident) Token.eof] ∧
      ∃ used offending, offending.kind = .ident ∧ Viable used ∧ ¬ Viable (used ++ [offending]) ∧
        ∀ u : Token, u.kind = .rParen → Viable (used ++ [u]) := by
  have h : Attempt.all (Token.ofText "(a b") =
      [] ++ .failed ⟨.lParen, "("⟩ (.unexpectedToken .rParen .ident) Token.eof :: [] := by
    decide +kernel
  obtain ⟨-, -, -, -, -, used, offending, -, -, hkind, hviable, hstuck, hright⟩ :=
    diagnostic_earliest "(a b" h nofun
  exact ⟨h, used, offending, hkind, hviable, hstuck, hright .rParen .ident rfl⟩

end ExprLang
