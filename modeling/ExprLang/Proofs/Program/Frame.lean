import ExprLang.Proofs.Program.Window

/-!
# What a step leaves as it is

* `Machine.Frames` — a machine at the same depth that has recorded some more diagnostics, and
  reported just these.
* `Step.Same` — at a depth, two steps do the same and stay within the frame.
* `Step.watched` — a step that has no result if it starts or ends at a machine that is not allowed.
* `Step.watchedExpression` — an expression with such a watch on it and on everything nested in it.

Principal results: `Same.bind`, `Same.nested` — steps in sequence and levels of nesting keep the
frame; `same_chain`, `same_within` — so do the rules of an expression, if what is nested does;
`same_expression` — so does an expression at any depth up to the limit, after a success and after a
failure, and under watch it never leaves the depths between its own and the limit; `frames_statement`
— so does a statement, once its start is reported.

The induction is on the fuel, with the depth left open. Only `nested` writes the depth, and a watch
looks at the machine after each time it does.
-/

namespace ExprLang

namespace Machine

/-- After the first machine some diagnostics were recorded and reported, one by one, and nothing
else. -/
def Reports (m : Machine) (ds : List Diagnostic) (m' : Machine) : Prop :=
  m'.diagnostics = m.diagnostics ++ ds ∧ m'.events = m.events ++ ds.map .syntaxError

/-- The second machine is at the depth of the first one, and has at most recorded and reported some
more diagnostics. -/
structure Frames (m m' : Machine) : Prop where
  depth : m'.depth = m.depth
  reports : ∃ ds, m.Reports ds m'

variable {m m' m'' : Machine}

theorem Reports.refl (m : Machine) : m.Reports [] m :=
  ⟨(List.append_nil _).symm, (List.append_nil _).symm⟩

theorem Reports.trans {ds ds' : List Diagnostic} (h : m.Reports ds m') (h' : m'.Reports ds' m'') :
    m.Reports (ds ++ ds') m'' := by
  constructor
  · rw [h'.1, h.1, List.append_assoc]
  · rw [h'.2, h.2, List.map_append, List.append_assoc]

/-- The diagnostics tell which ones were reported. -/
theorem Frames.events_eq {ds : List Diagnostic} (h : m.Frames m')
    (hds : m'.diagnostics = m.diagnostics ++ ds) :
    m'.events = m.events ++ ds.map .syntaxError := by
  obtain ⟨ds', hds', hevents⟩ := h.reports
  rwa [List.append_cancel_left (hds.symm.trans hds')]

theorem Frames.diagnostics (h : m.Frames m') : m.diagnostics <+: m'.diagnostics := by
  obtain ⟨ds, hds, -⟩ := h.reports
  exact ⟨ds, hds.symm⟩

theorem Frames.refl (m : Machine) : m.Frames m := ⟨rfl, [], .refl m⟩

theorem Frames.trans (h : m.Frames m') (h' : m'.Frames m'') : m.Frames m'' := by
  obtain ⟨ds, hds⟩ := h.reports
  obtain ⟨ds', hds'⟩ := h'.reports
  exact ⟨h'.depth.trans h.depth, ds ++ ds', hds.trans hds'⟩

theorem frames_advance (m : Machine) : m.Frames m.advance := ⟨rfl, [], .refl m⟩

theorem frames_setHeight (n : Nat) (m : Machine) : m.Frames (m.setHeight n) := ⟨rfl, [], .refl m⟩

theorem frames_report (x : Diagnostic) (m : Machine) : m.Frames (m.report x) := ⟨rfl, [x], rfl, rfl⟩

end Machine

namespace Step

variable {α β : Type} {d : Nat}

/-- On machines at depth `d` both steps come to the same, and stay within the frame. -/
def Same (d : Nat) (x y : Step α) : Prop :=
  ∀ m : Machine, m.depth = d → y m = x m ∧ ∀ a m', x m = some (a, m') → m.Frames m'

/-! ## Steps in sequence -/

theorem same_exhausted : Same d (exhausted : Step α) exhausted := by
  intro m _
  refine ⟨rfl, ?_⟩
  rintro _ _ ⟨⟩

theorem same_pure (a : α) : Same d (pure a : Step α) (pure a) := by
  intro m _
  refine ⟨rfl, ?_⟩
  rintro _ _ ⟨⟩
  exact .refl m

theorem same_look (g : Machine → α) : Same d (look g) (look g) := by
  intro m _
  refine ⟨rfl, ?_⟩
  rintro _ _ ⟨⟩
  exact .refl m

theorem same_move {g : Machine → Machine} (h : ∀ m : Machine, m.Frames (g m)) :
    Same d (move g) (move g) := by
  intro m _
  refine ⟨rfl, ?_⟩
  rintro _ _ ⟨⟩
  exact h m

theorem same_fail (x : Diagnostic) : Same d (fail x : Step α) (fail x) := by
  intro m _
  refine ⟨rfl, ?_⟩
  rintro _ _ ⟨⟩
  exact m.frames_report x

/-- **The frame goes from one step to the next.** The second one starts at the same depth. -/
theorem Same.bind {x y : Step α} {f g : α → Step β} (h : Same d x y) (hf : ∀ a, Same d (f a) (g a)) :
    Same d (x >>= f) (y >>= g) := by
  intro m hm
  obtain ⟨heq, hframe⟩ := h m hm
  show y.andThen g m = x.andThen f m ∧ ∀ b m', x.andThen f m = some (b, m') → m.Frames m'
  unfold andThen
  rw [heq]
  cases hx : x m with
  | none =>
    refine ⟨rfl, ?_⟩
    rintro _ _ ⟨⟩
  | some out =>
    obtain ⟨_ | a, m₁⟩ := out
    · refine ⟨rfl, ?_⟩
      rintro _ _ ⟨⟩
      exact hframe _ _ hx
    · have hfirst := hframe _ _ hx
      obtain ⟨heq', hframe'⟩ := hf a m₁ (hfirst.depth.trans hm)
      exact ⟨heq', fun b m' hb => hfirst.trans (hframe' b m' hb)⟩

/-- What a machine at depth `d` says of its depth is `d`. -/
theorem same_look_depth {f g : Nat → Step α} (h : Same d (f d) (g d)) :
    Same d (look Machine.depth >>= f) (look Machine.depth >>= g) := by
  intro m hm
  rw [look_bind, look_bind, hm]
  exact h m hm

theorem Same.ite {p : Prop} [Decidable p] {x x' y y' : Step α} (h : Same d x y)
    (h' : Same d x' y') : Same d (if p then x else x') (if p then y else y') := by
  split
  · exact h
  · exact h'

/-- **A level of nesting is left again,** after a success and after a failure. -/
theorem Same.nested {x y : Step α} (h : Same (d + 1) x y) : Same d (nested x) (nested y) := by
  intro m hm
  have hdepth : (m.setDepth (m.depth + 1)).depth = d + 1 := congrArg (· + 1) hm
  obtain ⟨heq, hframe⟩ := h _ hdepth
  unfold Step.nested
  rw [heq]
  refine ⟨rfl, fun a m' ha => ?_⟩
  obtain ⟨⟨a, inside⟩, hx, ⟨⟩⟩ := Option.map_eq_some_iff.mp ha
  obtain ⟨hback, hkept⟩ := hframe a inside hx
  exact ⟨congrArg (· - 1) hback, hkept⟩

/-! ## The rules of an expression -/

theorem same_expectPeek (kind : TokenKind) : Same d (expectPeek kind) (expectPeek kind) :=
  (same_look _).bind fun _ => (same_move Machine.frames_advance).ite (same_fail _)

theorem same_checkHeight (n : Nat) : Same d (checkHeight n) (checkHeight n) :=
  (same_fail _).ite (same_pure n)

theorem same_ident : Same d ident ident := (same_look _).bind fun _ => same_pure _

theorem same_boolean : Same d boolean boolean := (same_look _).bind fun _ => same_pure _

theorem same_integer : Same d integer integer := by
  refine (same_look _).bind fun t => ?_
  cases Expr.integer? t.literal with
  | some value => exact same_pure _
  | none => exact same_fail _

variable {inner inner' : Precedence → Step Expr}

theorem same_prefixOperation (h : ∀ bound, Same d (inner bound) (inner' bound)) :
    Same d (prefixOperation inner) (prefixOperation inner') := by
  refine (same_look _).bind fun op => ?_
  refine (same_move Machine.frames_advance).bind fun _ => ?_
  exact (h .prefixed).bind fun _ => same_pure _

theorem same_group (h : ∀ bound, Same d (inner bound) (inner' bound)) :
    Same d (group inner) (group inner') := by
  refine (same_move Machine.frames_advance).bind fun _ => ?_
  refine (h .lowest).bind fun e => ?_
  exact (same_expectPeek .rParen).bind fun _ => same_pure e

theorem same_binary (h : ∀ bound, Same d (inner bound) (inner' bound)) (left : Expr) :
    Same d (binary inner left) (binary inner' left) := by
  refine (same_look _).bind fun op => ?_
  refine (same_move Machine.frames_advance).bind fun _ => ?_
  exact (h op.kind.precedence).bind fun _ => same_pure _

theorem same_raised {rule rule' : Step Expr} (h : Same d rule rule') (n : Nat) :
    Same d (raised n rule) (raised n rule') := by
  refine (same_move (Machine.frames_setHeight 0)).bind fun _ => ?_
  refine h.bind fun e => ?_
  refine (same_look _).bind fun height => ?_
  exact (same_checkHeight _).bind fun _ => same_pure _

/-- Which rule there is depends on the token only. -/
theorem rel_prefixRule? (h : ∀ bound, Same d (inner bound) (inner' bound)) (k : TokenKind) :
    Option.Rel (Same d) (prefixRule? inner k) (prefixRule? inner' k) := by
  unfold prefixRule?
  split
  · exact .some same_ident
  · exact .some same_integer
  · exact .some same_boolean
  · exact .some same_boolean
  · exact .some (same_prefixOperation h)
  · exact .some (same_prefixOperation h)
  · exact .some (same_group h)
  · exact .none

theorem infixRule?_eq (k : TokenKind) :
    infixRule? inner k = if k.isBinary then some (binary inner) else none := by
  cases k <;> rfl

theorem rel_infixRule? (h : ∀ bound, Same d (inner bound) (inner' bound)) (k : TokenKind)
    (left : Expr) : Option.Rel (fun rule rule' => Same d (rule left) (rule' left))
      (infixRule? inner k) (infixRule? inner' k) := by
  rw [infixRule?_eq, infixRule?_eq]
  split
  · exact .some (same_binary h left)
  · exact .none

theorem same_operand (h : ∀ bound, Same d (inner bound) (inner' bound)) :
    Same d (operand inner) (operand inner') := by
  refine (same_look _).bind fun t => ?_
  match prefixRule? inner t.kind, prefixRule? inner' t.kind, rel_prefixRule? h t.kind with
  | _, _, .some hrule => exact same_raised hrule 0
  | _, _, .none => exact same_fail _

/-- **A chain of operators keeps the frame,** however long it is. -/
theorem same_chain (h : ∀ bound, Same d (inner bound) (inner' bound)) (bound : Precedence)
    (fuel : Nat) (left : Expr) (height : Nat) :
    Same d (chain inner bound fuel left height) (chain inner' bound fuel left height) := by
  have hend : ∀ (e : Expr) (n : Nat),
      Same d (do move (Machine.setHeight n); return e : Step Expr)
        (do move (Machine.setHeight n); return e) :=
    fun e n => (same_move (Machine.frames_setHeight n)).bind fun _ => same_pure e
  induction fuel generalizing left height with
  | zero => exact same_exhausted
  | succ fuel ih =>
    refine (same_look _).bind fun op => ?_
    refine Same.ite ?_ (hend left height)
    match infixRule? inner op.kind, infixRule? inner' op.kind, rel_infixRule? h op.kind left with
    | _, _, .some hrule =>
      refine (same_move Machine.frames_advance).bind fun _ => ?_
      exact (same_raised hrule height).bind fun r => ih r.1 r.2
    | _, _, .none => exact hend left height

theorem same_within (h : ∀ bound, Same d (inner bound) (inner' bound)) (fuel : Nat)
    (bound : Precedence) : Same d (within inner fuel bound) (within inner' fuel bound) :=
  (same_operand h).bind fun r => same_chain h bound fuel r.1 r.2

/-! ## Expressions under watch -/

/-- The step under watch: it has no result if a machine is not allowed that it starts or ends at. -/
def watched (allowed : Machine → Prop) [DecidablePred allowed] (x : Step α) : Step α := fun m =>
  if allowed m then (x m).filter fun out => allowed out.2 else none

/-- An expression with a watch on itself and on what is done within its level of nesting, and so with
a watch on all that is nested in it. -/
def watchedExpression (allowed : Machine → Prop) [DecidablePred allowed] :
    Nat → Precedence → Step Expr
  | 0, _ => exhausted
  | fuel + 1, bound => watched allowed do
    if (← look Machine.depth) ≥ maxNesting then fail .nestingTooDeep
    else nested (watched allowed (within (watchedExpression allowed fuel) fuel bound))

variable {allowed : Machine → Prop} [DecidablePred allowed]

/-- Where all machines of a depth are allowed, the watch on a step that keeps the depth has no
effect. -/
theorem Same.watched {x y : Step α} (h : Same d x y) (hd : ∀ m : Machine, m.depth = d → allowed m) :
    Same d x (watched allowed y) := by
  intro m hm
  obtain ⟨heq, hframe⟩ := h m hm
  refine ⟨?_, hframe⟩
  unfold Step.watched
  rw [if_pos (hd m hm), heq]
  cases hx : x m with
  | none => rfl
  | some out =>
    have hlast : allowed out.2 := hd out.2 ((hframe out.1 out.2 hx).depth.trans hm)
    rw [Option.filter_some, if_pos (decide_eq_true hlast)]

/-- **An expression keeps the frame at any depth up to the limit,** and on the way no machine is at a
lower depth or beyond the limit: a watch that allows all others has no effect. -/
theorem same_expression (hd : d ≤ maxNesting)
    (hallowed : ∀ m : Machine, d ≤ m.depth → m.depth ≤ maxNesting → allowed m) (fuel : Nat)
    (bound : Precedence) :
    Same d (expression fuel bound) (watchedExpression allowed fuel bound) := by
  induction fuel generalizing d bound with
  | zero => exact same_exhausted
  | succ fuel ih =>
    have hhere : ∀ m : Machine, m.depth = d → allowed m := by
      rintro m rfl
      exact hallowed m (Nat.le_refl _) hd
    refine Same.watched (same_look_depth ?_) hhere
    by_cases hlimit : d ≥ maxNesting
    · rw [if_pos hlimit, if_pos hlimit]
      exact same_fail _
    · rw [if_neg hlimit, if_neg hlimit]
      have hnext : d + 1 ≤ maxNesting := Nat.lt_of_not_le hlimit
      have hdeeper : ∀ m : Machine, d + 1 ≤ m.depth → m.depth ≤ maxNesting → allowed m :=
        fun m hm => hallowed m (Nat.le_of_succ_le hm)
      refine Same.nested (Same.watched (same_within (ih hnext hdeeper) fuel bound) ?_)
      intro m hm
      exact hdeeper m (Nat.le_of_eq hm.symm) (hm ▸ hnext)

/-- A watch sees the depth inside of a call: the operand of a prefix operator is read two levels
down. -/
example : watchedExpression (fun m => m.depth ≤ 1) 4 .lowest (Machine.ofText "-a") = none ∧
    (watchedExpression (fun m => m.depth ≤ 2) 4 .lowest (Machine.ofText "-a")).isSome := by
  decide +kernel

/-! ## Statements -/

theorem Same.left {x y : Step α} (h : Same d x y) : Same d x x := fun m hm => ⟨rfl, (h m hm).2⟩

theorem same_skipSemicolon : Same d skipSemicolon skipSemicolon :=
  (same_look _).bind fun _ => (same_move Machine.frames_advance).ite (same_pure ())

variable {fuel : Nat}

theorem same_value : Same 0 (value fuel) (value fuel) := by
  have he : Same 0 (expression fuel .lowest) (watchedExpression (fun _ => True) fuel .lowest) :=
    same_expression (Nat.zero_le _) (fun _ _ _ => trivial) fuel .lowest
  exact he.left.bind fun e => same_skipSemicolon.bind fun _ => same_pure e

theorem same_binding : Same 0 (binding fuel) (binding fuel) := by
  refine (same_look _).bind fun _ => ?_
  refine (same_expectPeek .ident).bind fun _ => ?_
  refine (same_look _).bind fun _ => ?_
  refine (same_expectPeek .assign).bind fun _ => ?_
  refine (same_move Machine.frames_advance).bind fun _ => ?_
  exact same_value.bind fun _ => same_pure _

theorem same_ret : Same 0 (ret fuel) (ret fuel) := by
  refine (same_look _).bind fun _ => ?_
  refine (same_move Machine.frames_advance).bind fun _ => ?_
  exact same_value.bind fun _ => same_pure _

theorem same_exprStatement : Same 0 (exprStatement fuel) (exprStatement fuel) :=
  (same_look _).bind fun _ => same_value.bind fun _ => same_pure _

/-- **A statement reports its start, and from then on it keeps the frame.** -/
theorem frames_statement {m m' : Machine} {s : Option Statement} (hm : m.depth = 0)
    (h : statement fuel m = some (s, m')) : (m.log (.statementStarted m.current)).Frames m' := by
  unfold statement at h
  rw [look_bind, move_bind] at h
  have hlog : (m.log (.statementStarted m.current)).depth = 0 := hm
  by_cases hlet : m.current.kind = .letWord
  · simp only [hlet] at h
    exact (same_binding _ hlog).2 s m' h
  by_cases hret : m.current.kind = .returnWord
  · simp only [hret] at h
    exact (same_ret _ hlog).2 s m' h
  · simp only at h
    exact (same_exprStatement _ hlog).2 s m' h

end Step

end ExprLang
