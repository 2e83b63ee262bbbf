import ExprLang.Program.Machine
import ExprLang.Proofs.Expr.Complete
import ExprLang.Proofs.Program.Segment
import ExprLang.Proofs.Token.Calls

/-!
# A window on the tokens

* `Machine.At` — a machine that has certain tokens ahead, at a depth, with certain diagnostics.
* `Machine.ahead` — the tokens ahead of a machine, without end tokens.
* `Agrees` — a step comes to what reading comes to.
* `Mirrors` — so does a reader of expressions, from any place.

Principal results: `At.advance` — moving on takes one token off; `agrees_raised`, `agrees_operand`,
`agrees_chain` — the rules of a machine come to what reading the tokens comes to, if the reader of
what is nested does; `mirrors_expression` — so expressions do, at any depth.

After a success the last token of the expression is still the current one. After a failure the
current token is the first one that reading left, or the one before it; that one is not a semicolon,
so the way out of the statement is the same.
-/

namespace ExprLang

/-! ## Tokens ahead -/

/-- A scanner hands out the next token that it would scan, or an end token. -/
theorem Scanner.nextToken_scan (s : Scanner) :
    s.nextToken.1 = (Token.scan s.rest).head?.getD Token.eof ∧
      Token.scan s.nextToken.2.rest = (Token.scan s.rest).tail := by
  obtain ⟨-, -, -, ⟨hcons, -⟩ | ⟨hnil, hnil', heof⟩⟩ := s.nextToken_takes
  · rw [hcons]
    exact ⟨rfl, rfl⟩
  · rw [hnil]
    exact ⟨heof, hnil'⟩

namespace Machine

/-- From its current token on, the machine has these tokens ahead, and behind them nothing but end
tokens. -/
structure At (m : Machine) (ts : List Token) (depth : Nat) (diagnostics : List Diagnostic) :
    Prop where
  current : m.current = ts.head?.getD Token.eof
  peek : m.peek = ts.tail.head?.getD Token.eof
  rest : Token.scan m.scanner.rest = ts.tail.tail
  kinds : ∀ t ∈ ts, t.kind ≠ .eof
  depth : m.depth = depth
  diagnostics : m.diagnostics = diagnostics

variable {m : Machine} {ts : List Token} {d : Nat} {ds : List Diagnostic}

/-- **Moving on takes one token off,** as long as there is one. -/
theorem At.advance (h : m.At ts d ds) : m.advance.At ts.tail d ds where
  current := h.peek
  peek := h.rest ▸ m.scanner.nextToken_scan.1
  rest := h.rest ▸ m.scanner.nextToken_scan.2
  kinds := fun t ht => h.kinds t (List.mem_of_mem_tail ht)
  depth := h.depth
  diagnostics := h.diagnostics

/-- Only at the end of the tokens there is an end token in the window. -/
theorem At.exists_cons (h : m.At ts d ds) (hne : m.current.kind ≠ .eof) :
    ∃ t rest, ts = t :: rest := by
  cases ts with
  | nil =>
    rw [h.current] at hne
    exact absurd rfl hne
  | cons t rest => exact ⟨t, rest, rfl⟩

theorem At.setHeight (h : m.At ts d ds) (n : Nat) : (m.setHeight n).At ts d ds :=
  ⟨h.current, h.peek, h.rest, h.kinds, h.depth, h.diagnostics⟩

theorem At.setDepth (h : m.At ts d ds) (n : Nat) : (m.setDepth n).At ts n ds :=
  ⟨h.current, h.peek, h.rest, h.kinds, rfl, h.diagnostics⟩

theorem At.log (h : m.At ts d ds) (e : Event) : (m.log e).At ts d ds :=
  ⟨h.current, h.peek, h.rest, h.kinds, h.depth, h.diagnostics⟩

theorem At.report (h : m.At ts d ds) (x : Diagnostic) : (m.report x).At ts d (ds ++ [x]) :=
  ⟨h.current, h.peek, h.rest, h.kinds, h.depth, by rw [← h.diagnostics]; rfl⟩

/-- A new machine has all tokens ahead that its scanner has not scanned yet. -/
theorem at_ofScanner (s : Scanner) : (ofScanner s).At (Token.scan s.rest) 0 [] := by
  obtain ⟨hfirst, hrest⟩ := s.nextToken_scan
  obtain ⟨hsecond, hrest'⟩ := s.nextToken.2.nextToken_scan
  rw [hrest] at hsecond hrest'
  exact ⟨hfirst, hsecond, hrest',
    fun t ht => (Token.lexeme_of_mem_scan ht).kind_ne_eof, rfl, rfl⟩

/-- The tokens ahead of a machine, without the end tokens in its window. -/
def ahead (m : Machine) : List Token :=
  [m.current, m.peek].filter (fun t => t.kind ≠ .eof) ++ Token.scan m.scanner.rest

theorem At.ahead (h : m.At ts d ds) : m.ahead = ts := by
  have hkinds := h.kinds
  rw [Machine.ahead, h.current, h.peek, h.rest]
  match ts with
  | [] => rfl
  | [t] => simp_all [Token.eof]
  | t :: u :: ts => simp_all

/-- The last token of what was read is still the current one, with these tokens behind it. -/
def Behind (m : Machine) (ts : List Token) (d : Nat) (ds : List Diagnostic) : Prop :=
  ∃ last : Token, last.kind ≠ .semicolon ∧ m.At (last :: ts) d ds

theorem At.behind {t : Token} (h : m.At (t :: ts) d ds) (ht : t.kind ≠ .semicolon) :
    m.Behind ts d ds := ⟨t, ht, h⟩

/-- These tokens are ahead, or they are behind the current one, which is no semicolon. -/
def Stuck (m : Machine) (ts : List Token) (d : Nat) (ds : List Diagnostic) : Prop :=
  m.At ts d ds ∨ m.Behind ts d ds

theorem Stuck.depth (h : m.Stuck ts d ds) : m.depth = d := by
  rcases h with hat | ⟨_, _, hat⟩ <;> exact hat.depth

theorem Stuck.diagnostics (h : m.Stuck ts d ds) : m.diagnostics = ds := by
  rcases h with hat | ⟨_, _, hat⟩ <;> exact hat.diagnostics

theorem Stuck.setDepth (h : m.Stuck ts d ds) (n : Nat) : (m.setDepth n).Stuck ts n ds := by
  rcases h with hat | ⟨last, hlast, hat⟩
  · exact .inl (hat.setDepth n)
  · exact .inr ⟨last, hlast, hat.setDepth n⟩

end Machine

namespace Step

/-! ## Steps that agree with reading -/

variable {α β γ δ : Type} {m : Machine} {ts : List Token} {d : Nat} {ds : List Diagnostic}

theorem look_bind (g : Machine → α) (f : α → Step β) (m : Machine) :
    (look g >>= f) m = f (g m) m := rfl

theorem move_bind (g : Machine → Machine) (f : Unit → Step β) (m : Machine) :
    (move g >>= f) m = f () (g m) := rfl

theorem bind_of_some {x : Step α} {a : α} {m' : Machine} (h : x m = some (some a, m'))
    (f : α → Step β) : (x >>= f) m = f a m' := by
  show x.andThen f m = f a m'
  rw [andThen, h]

theorem bind_of_none {x : Step α} {m' : Machine} (h : x m = some (none, m')) (f : α → Step β) :
    (x >>= f) m = some (none, m') := by
  show x.andThen f m = some (none, m')
  rw [andThen, h]

/-- On a machine at depth `d` with the diagnostics `ds`, a step comes to what reading comes to: both
succeed, and then `done` holds, or both fail. In that case the step has recorded the diagnostic, and
the machine is stuck at the place of the failure. -/
def Agrees (d : Nat) (ds : List Diagnostic) (done : β → α → Machine → Prop) :
    Except Failure β → Option (Option α × Machine) → Prop
  | .ok b, out => ∃ a m', out = some (some a, m') ∧ done b a m'
  | .error f, out => ∃ m', out = some (none, m') ∧ m'.Stuck f.rest d (ds ++ [f.diagnostic])

variable {done : β → α → Machine → Prop} {done' : γ → δ → Machine → Prop}

theorem agrees_pure {b : β} {a : α} (h : done b a m) :
    Agrees d ds done (.ok b) ((pure a : Step α) m) := ⟨a, m, rfl, h⟩

theorem agrees_fail (f : Failure) (h : m.At f.rest d ds) :
    Agrees d ds done (.error f) ((fail f.diagnostic : Step α) m) :=
  ⟨_, rfl, .inl (h.report f.diagnostic)⟩

theorem agrees_fail_behind (f : Failure) (h : m.Behind f.rest d ds) :
    Agrees d ds done (.error f) ((fail f.diagnostic : Step α) m) := by
  obtain ⟨last, hlast, hat⟩ := h
  exact ⟨_, rfl, .inr ⟨last, hlast, hat.report f.diagnostic⟩⟩

/-- Agreement goes from one step to the next; after a failure there is no next one. -/
theorem Agrees.bind {res : Except Failure β} {k : β → Except Failure γ} {x : Step α}
    {f : α → Step δ} (h : Agrees d ds done res (x m))
    (hk : ∀ b a m', done b a m' → Agrees d ds done' (k b) (f a m')) :
    Agrees d ds done' (res.bind k) ((x >>= f) m) := by
  cases res with
  | ok b =>
    obtain ⟨a, m', hx, hdone⟩ := h
    rw [bind_of_some hx]
    exact hk b a m' hdone
  | error e =>
    obtain ⟨m', hx, hstuck⟩ := h
    rw [bind_of_none hx]
    exact ⟨m', rfl, hstuck⟩

/-- A token of a kind is taken as reading takes it, and nothing else changes. -/
theorem agrees_expectPeek (kind : TokenKind) (hkind : .eof ≠ kind) (h : m.Behind ts d ds) :
    Agrees d ds
      (fun r _ m' => r.1.kind = kind ∧ m'.height = m.height ∧ m'.At (r.1 :: r.2) d ds)
      (expect kind ts) (expectPeek kind m) := by
  have hbehind := h
  obtain ⟨last, -, hat⟩ := h
  unfold expectPeek
  cases ts with
  | nil =>
    have hpeek : m.peek = Token.eof := hat.peek
    have hne : Token.eof.kind ≠ kind := hkind
    rw [look_bind, hpeek, if_neg hne]
    exact agrees_fail_behind ⟨.unexpectedToken kind .eof, []⟩ hbehind
  | cons t rest =>
    have hpeek : m.peek = t := hat.peek
    rw [look_bind, hpeek, expect]
    by_cases hk : t.kind = kind
    · rw [if_pos hk, if_pos hk]
      exact ⟨(), _, rfl, hk, rfl, hat.advance⟩
    · rw [if_neg hk, if_neg hk]
      exact agrees_fail_behind ⟨.unexpectedToken kind t.kind, t :: rest⟩ hbehind

/-! ## Rules -/

/-- What an expression comes to: the height is in the register. -/
def Whole (d : Nat) (ds : List Diagnostic) (r : Expr.Reading) (e : Expr) (m : Machine) : Prop :=
  e = r.expr ∧ m.height = r.height ∧ m.Behind r.rest d ds

/-- What an operand, or a part that is higher than `n`, comes to: the height is a result. -/
def Part (n d : Nat) (ds : List Diagnostic) (r : Expr.Reading) (a : Expr × Nat) (m : Machine) :
    Prop :=
  a = (r.expr, r.height) ∧ n < r.height ∧ r.height ≤ maxNesting ∧ m.Behind r.rest d ds

/-- At this depth, the steps of a machine agree with a reader from any place. -/
def Mirrors (d : Nat) (step : Precedence → Step Expr) (inner : Expr.Reader) : Prop :=
  ∀ bound m ts ds, m.At ts d ds → Agrees d ds (Whole d ds) (inner bound ts) (step bound m)

/-- **The height next to another part is checked as reading checks it.** -/
theorem agrees_raised {n : Nat} {rule : Step Expr} {res : Except Failure Expr.Reading}
    (h : Agrees d ds (Whole d ds) res (rule (m.setHeight 0))) :
    Agrees d ds (Part n d ds)
      (res.bind fun r => Expr.limited ⟨r.expr, max n r.height + 1, r.rest⟩) (raised n rule m) := by
  unfold raised
  rw [move_bind]
  refine h.bind ?_
  rintro r e m' ⟨rfl, hh, hb⟩
  rw [look_bind, hh, checkHeight, Expr.limited]
  by_cases hle : max n r.height + 1 ≤ maxNesting
  · rw [if_pos hle, if_neg (Nat.not_lt.mpr hle)]
    exact ⟨_, m', rfl, rfl, by simp only; omega, hle, hb⟩
  · rw [if_neg hle, if_pos (Nat.lt_of_not_le hle)]
    obtain ⟨last, hlast, hat⟩ := hb
    exact ⟨_, rfl, .inr ⟨last, hlast, hat.report _⟩⟩

variable {step : Precedence → Step Expr} {inner : Expr.Reader} {t : Token}

/-- A leaf leaves the machine where it is. -/
theorem agrees_leaf {rule : Step Expr} {e : Expr} (h : m.At (t :: ts) d ds)
    (ht : t.kind ≠ .semicolon) (hr : rule (m.setHeight 0) = some (some e, m.setHeight 0)) :
    Agrees d ds (Part 0 d ds) (.ok ⟨e, 1, ts⟩) (raised 0 rule m) := by
  have hleaf : Agrees d ds (Whole d ds) (.ok ⟨e, 0, ts⟩) (rule (m.setHeight 0)) :=
    ⟨e, _, hr, rfl, rfl, (h.setHeight 0).behind ht⟩
  exact agrees_raised hleaf

theorem agrees_integer (h : m.At (t :: ts) d ds) (ht : t.kind ≠ .semicolon) :
    Agrees d ds (Part 0 d ds) (Expr.integer t ts) (raised 0 integer m) := by
  have hcurrent : (m.setHeight 0).current = t := h.current
  unfold Expr.integer
  cases hv : Expr.integer? t.literal with
  | some value =>
    refine agrees_leaf h ht ?_
    unfold integer
    rw [look_bind, hcurrent, hv]
    rfl
  | none =>
    have hfail : Agrees d ds (Whole d ds) (.error ⟨.invalidInteger t.literal, t :: ts⟩)
        (integer (m.setHeight 0)) := by
      unfold integer
      rw [look_bind, hcurrent, hv]
      exact agrees_fail ⟨.invalidInteger t.literal, t :: ts⟩ (h.setHeight 0)
    exact agrees_raised hfail

/-- An operator is stepped over, and its right side makes a node with it. -/
theorem agrees_operation {n : Nat} {rule : Step Expr} {node : Expr → Expr} (bound : Precedence)
    (hi : Mirrors d step inner) (h : m.At (t :: ts) d ds)
    (hrule : rule (m.setHeight 0) =
      (do let right ← step bound; return node right : Step Expr) (m.setHeight 0).advance) :
    Agrees d ds (Part n d ds)
      ((inner bound ts).bind fun right =>
        Expr.limited ⟨node right.expr, max n right.height + 1, right.rest⟩)
      (raised n rule m) := by
  have hwhole : Agrees d ds (Whole d ds)
      ((inner bound ts).bind fun right => .ok ⟨node right.expr, right.height, right.rest⟩)
      (rule (m.setHeight 0)) := by
    rw [hrule]
    refine (hi bound _ ts ds (h.setHeight 0).advance).bind ?_
    rintro r e m' ⟨rfl, hh, hb⟩
    exact agrees_pure ⟨rfl, hh, hb⟩
  have hraised := agrees_raised (n := n) hwhole
  cases hr : inner bound ts <;> rw [hr] at hraised <;> exact hraised

theorem agrees_prefixOperation (hi : Mirrors d step inner) (h : m.At (t :: ts) d ds) :
    Agrees d ds (Part 0 d ds) (Expr.prefixOperation inner t ts)
      (raised 0 (prefixOperation step) m) := by
  have hcurrent : (m.setHeight 0).current = t := h.current
  have hrule : prefixOperation step (m.setHeight 0) =
      (do let right ← step .prefixed; return .prefixed t t.literal right : Step Expr)
        (m.setHeight 0).advance := by
    unfold prefixOperation
    rw [look_bind, move_bind, hcurrent]
  have hraised := agrees_operation (n := 0) .prefixed hi h hrule
  unfold Expr.prefixOperation
  cases hr : inner .prefixed ts <;> rw [hr] at hraised
  · exact hraised
  · simpa [Except.bind] using hraised

theorem agrees_group (hi : Mirrors d step inner) (h : m.At (t :: ts) d ds) :
    Agrees d ds (Part 0 d ds) (Expr.group inner ts) (raised 0 (group step) m) := by
  have hrule : Agrees d ds (Whole d ds)
      ((inner .lowest ts).bind fun r => (expect .rParen r.rest).bind fun (_, after) =>
        .ok ⟨r.expr, r.height, after⟩)
      (group step (m.setHeight 0)) := by
    unfold group
    rw [move_bind]
    refine (hi .lowest _ ts ds (h.setHeight 0).advance).bind ?_
    rintro r e m' ⟨rfl, hh, hb⟩
    refine (agrees_expectPeek .rParen (by decide) hb).bind ?_
    rintro ⟨close, after⟩ _ m'' ⟨hclose, hh', hat⟩
    have hne : close.kind ≠ .semicolon := by
      rw [show close.kind = .rParen from hclose]
      decide
    exact agrees_pure ⟨rfl, hh'.trans hh, hat.behind hne⟩
  have hraised := agrees_raised (n := 0) hrule
  unfold Expr.group
  cases hr : inner .lowest ts with
  | error f =>
    rw [hr] at hraised
    exact hraised
  | ok r =>
    rw [hr] at hraised
    simp only [Except.bind] at hraised ⊢
    cases he : expect .rParen r.rest <;> simpa [he] using hraised

theorem agrees_boolean (h : m.At (t :: ts) d ds) (ht : t.kind ≠ .semicolon) :
    Agrees d ds (Part 0 d ds) (.ok ⟨.bool t (t.kind == .trueWord), 1, ts⟩)
      (raised 0 boolean m) := by
  have hcurrent : (m.setHeight 0).current = t := h.current
  refine agrees_leaf h ht ?_
  rw [boolean, look_bind, hcurrent]
  rfl

theorem agrees_ident (h : m.At (t :: ts) d ds) (ht : t.kind ≠ .semicolon) :
    Agrees d ds (Part 0 d ds) (.ok ⟨.ident ⟨t, t.literal⟩, 1, ts⟩) (raised 0 ident m) := by
  have hcurrent : (m.setHeight 0).current = t := h.current
  refine agrees_leaf h ht ?_
  rw [ident, look_bind, hcurrent]
  rfl

/-- **An operand comes to what reading its tokens comes to.** -/
theorem agrees_operand (hi : Mirrors d step inner) (h : m.At ts d ds) :
    Agrees d ds (Part 0 d ds) (Expr.operand inner ts) (operand step m) := by
  unfold operand
  cases ts with
  | nil =>
    have hcurrent : m.current = Token.eof := h.current
    rw [look_bind, hcurrent]
    exact agrees_fail ⟨.noOperand .eof, []⟩ h
  | cons t ts =>
    have hcurrent : m.current = t := h.current
    rw [look_bind, hcurrent, Expr.operand]
    split <;> rename_i hk
    · simp only [hk, prefixRule?]
      exact agrees_ident h (by simp [hk])
    · simp only [hk, prefixRule?]
      exact agrees_integer h (by simp [hk])
    · have hboolean := agrees_boolean h (by simp [hk])
      rw [hk] at hboolean
      simp only [hk, prefixRule?]
      exact hboolean
    · have hboolean := agrees_boolean h (by simp [hk])
      rw [hk] at hboolean
      simp only [hk, prefixRule?]
      exact hboolean
    · simp only [hk, prefixRule?]
      exact agrees_prefixOperation hi h
    · simp only [hk, prefixRule?]
      exact agrees_prefixOperation hi h
    · simp only [hk, prefixRule?]
      exact agrees_group hi h
    · have hnone : prefixRule? step t.kind = none := by
        unfold prefixRule?
        split <;> simp_all
      rw [hnone]
      exact agrees_fail ⟨.noOperand t.kind, t :: ts⟩ h

theorem infixRule?_of_lt {bound : Precedence} {k : TokenKind} (h : bound < k.precedence) :
    infixRule? step k = some (binary step) := by
  have hbinary := TokenKind.isBinary_of_lt h
  cases k <;> first | rfl | exact absurd hbinary (by decide)

theorem agrees_binary {left : Expr.Reading} (hi : Mirrors d step inner) (h : m.At (t :: ts) d ds) :
    Agrees d ds (Part left.height d ds)
      ((inner t.kind.precedence ts).bind fun right => Expr.limited
        ⟨.binary t t.literal left.expr right.expr, max left.height right.height + 1, right.rest⟩)
      (raised left.height (binary step left.expr) m) := by
  have hcurrent : (m.setHeight 0).current = t := h.current
  refine agrees_operation t.kind.precedence hi h ?_
  unfold binary
  rw [look_bind, move_bind, hcurrent]

/-- A chain ends with its height in the register. -/
theorem agrees_chain_end {left : Expr.Reading} (h : m.Behind left.rest d ds) :
    Agrees d ds (Whole d ds) (.ok left)
      ((do move (Machine.setHeight left.height); return left.expr : Step Expr) m) := by
  obtain ⟨last, hlast, hat⟩ := h
  exact ⟨_, _, rfl, rfl, rfl, last, hlast, hat.setHeight _⟩

/-- Reading one operator and its right side, and then the rest of the chain. -/
theorem chain_eq_bind {bound : Precedence} {left : Expr.Reading} (hrest : left.rest = t :: ts)
    (hb : bound < t.kind.precedence) :
    Expr.chain inner bound left =
      ((inner t.kind.precedence ts).bind fun right => Expr.limited
        ⟨.binary t t.literal left.expr right.expr, max left.height right.height + 1,
          right.rest⟩).bind (Expr.chain inner bound) := by
  obtain ⟨e, n, rest⟩ := left
  cases hrest
  rw [Expr.chain_cons_of_lt hb]
  cases inner t.kind.precedence ts with
  | error f => rfl
  | ok right =>
    simp only [Except.bind, Expr.limited]
    split <;> rfl

/-- **A chain comes to what reading its tokens comes to.** Each operator makes the tree higher, so
the limit on the height bounds the operators too, and the fuel need not be more than what it leaves.
-/
theorem agrees_chain (hi : Mirrors d step inner) (bound : Precedence) (fuel : Nat)
    (left : Expr.Reading) (hfuel : maxNesting < fuel + left.height)
    (hle : left.height ≤ maxNesting) (h : m.Behind left.rest d ds) :
    Agrees d ds (Whole d ds) (Expr.chain inner bound left)
      (chain step bound fuel left.expr left.height m) := by
  induction fuel generalizing left m with
  | zero => omega
  | succ fuel ih =>
    have hend := agrees_chain_end h
    obtain ⟨last, hlast, hat⟩ := h
    unfold chain
    cases hrest : left.rest with
    | nil =>
      rw [hrest] at hat
      have hpeek : m.peek = Token.eof := hat.peek
      rw [look_bind, hpeek, if_neg fun hc => absurd (TokenKind.isBinary_of_lt hc.2) (by decide),
        Expr.chain_of_stops (hrest ▸ .nil _)]
      exact hend
    | cons op ts =>
      rw [hrest] at hat
      have hpeek : m.peek = op := hat.peek
      rw [look_bind, hpeek]
      by_cases hb : bound < op.kind.precedence
      · rw [if_pos ⟨TokenKind.ne_semicolon_of_lt hb, hb⟩, infixRule?_of_lt hb,
          chain_eq_bind hrest hb]
        refine (agrees_binary hi hat.advance).bind ?_
        rintro r a m' ⟨rfl, hlow, hhigh, hbehind⟩
        exact ih r (by omega) hhigh hbehind
      · have hstops : Expr.Stops bound.rank left.rest := by
          rw [hrest]
          exact .cons (Nat.le_of_not_lt hb)
        rw [if_neg fun hc => hb hc.2, Expr.chain_of_stops hstops]
        exact hend

/-- An expression within a level comes to what reading comes to. -/
theorem agrees_within (hi : Mirrors d step inner) {fuel : Nat} (hfuel : maxNesting ≤ fuel)
    (bound : Precedence) (h : m.At ts d ds) :
    Agrees d ds (Whole d ds) ((Expr.operand inner ts).bind (Expr.chain inner bound))
      (within step fuel bound m) := by
  unfold within
  refine (agrees_operand hi h).bind ?_
  rintro r a m' ⟨rfl, hlow, hhigh, hbehind⟩
  exact agrees_chain hi bound fuel r (by omega) hhigh hbehind

/-- A level of nesting is left again, after a success and after a failure. -/
theorem agrees_nested {x : Step Expr} {res : Except Failure Expr.Reading} (hd : m.depth = d)
    (h : Agrees (d + 1) ds (Whole (d + 1) ds) res (x (m.setDepth (d + 1)))) :
    Agrees d ds (Whole d ds) res (nested x m) := by
  unfold nested
  rw [hd]
  cases res with
  | ok r =>
    obtain ⟨e, m', hx, rfl, hh, last, hlast, hat⟩ := h
    have hleft : m'.depth - 1 = d := by rw [hat.depth, Nat.add_sub_cancel]
    rw [hx]
    exact ⟨_, _, rfl, rfl, hh, last, hlast, hleft ▸ hat.setDepth _⟩
  | error f =>
    obtain ⟨m', hx, hstuck⟩ := h
    have hleft : m'.depth - 1 = d := by rw [hstuck.depth, Nat.add_sub_cancel]
    rw [hx]
    exact ⟨_, rfl, hleft ▸ hstuck.setDepth _⟩

/-- **An expression comes to what reading its tokens comes to, at any depth.** What the counter
leaves is the room of the reader. -/
theorem mirrors_expression {room fuel : Nat} (hd : d + room = maxNesting)
    (hfuel : maxNesting + room < fuel) : Mirrors d (expression fuel) (Expr.read room) := by
  induction room generalizing d fuel with
  | zero =>
    intro bound m ts ds h
    obtain ⟨fuel, rfl⟩ := Nat.exists_eq_add_one_of_ne_zero (Nat.ne_zero_of_lt hfuel)
    unfold expression
    rw [look_bind, if_pos (by rw [h.depth]; omega)]
    exact agrees_fail ⟨.nestingTooDeep, ts⟩ h
  | succ room ih =>
    intro bound m ts ds h
    obtain ⟨fuel, rfl⟩ := Nat.exists_eq_add_one_of_ne_zero (Nat.ne_zero_of_lt hfuel)
    unfold expression
    rw [look_bind, if_neg (by rw [h.depth]; omega)]
    have hi : Mirrors (d + 1) (expression fuel) (Expr.read room) := ih (by omega) (by omega)
    have hread : Expr.read (room + 1) bound ts =
        (Expr.operand (Expr.read room) ts).bind (Expr.chain (Expr.read room) bound) := by
      rw [Expr.read]
      cases Expr.operand (Expr.read room) ts <;> rfl
    rw [hread]
    exact agrees_nested h.depth (agrees_within hi (by omega) bound (h.setDepth (d + 1)))

end Step

end ExprLang
