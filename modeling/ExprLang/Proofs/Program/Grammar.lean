import ExprLang.Program.Parser
import ExprLang.Proofs.Expr.Grammar
import ExprLang.Proofs.Statement.Derivation

/-!
# The grammar of programs

* `IsStatement` — what stands before the expression, the expression, and an optional semicolon.
* `IsProgram` — a concatenation of statements, however they are split.

Principal result: `parse_clean_iff` — a text that is not nested too deeply is free of diagnostics
exactly if its tokens form a program.

A minus sign after an expression may go on with it or begin the next statement, and reading always
goes on. That loses nothing: `IsStatement.exists_greedy` moves the end of a statement behind every
such sign, and what is left is still a program.
-/

namespace ExprLang

open ExprLang.Expr (IsExpr Stops)

/-- What stands before the expression of a statement: `let NAME =`, `return`, or nothing. -/
inductive IsHead : List Token → Prop
  | binding {keyword name sign : Token} (hk : keyword.kind = .letWord) (hn : name.kind = .ident)
      (hs : sign.kind = .assign) : IsHead [keyword, name, sign]
  | ret {keyword : Token} (hk : keyword.kind = .returnWord) : IsHead [keyword]
  | none : IsHead []

/-- A semicolon, or nothing. -/
def IsEnd (last : List Token) : Prop :=
  last = [] ∨ ∃ semi : Token, semi.kind = .semicolon ∧ last = [semi]

/-- A binding, a return or an expression by itself; a semicolon may end each of them. -/
def IsStatement (ts : List Token) : Prop :=
  ∃ head value last, ts = head ++ (value ++ last) ∧ IsHead head ∧ IsExpr value ∧ IsEnd last

/-- The tokens can be split into statements. -/
def IsProgram (ts : List Token) : Prop :=
  ∃ parts : List (List Token), ts = parts.flatten ∧ ∀ p ∈ parts, IsStatement p

theorem IsProgram.nil : IsProgram [] := ⟨[], rfl, by simp⟩

theorem IsProgram.append {p ts : List Token} (hp : IsStatement p) (h : IsProgram ts) :
    IsProgram (p ++ ts) := by
  obtain ⟨parts, rfl, hparts⟩ := h
  exact ⟨p :: parts, rfl, by simpa using ⟨hp, hparts⟩⟩

theorem IsEnd.stops {last : List Token} (h : IsEnd last) : Stops 0 last := by
  rcases h with rfl | ⟨semi, hs, rfl⟩
  · exact .nil 0
  · exact Expr.stops_semicolon hs 0 []

theorem IsEnd.skipSemicolon_eq {last : List Token} (h : IsEnd last) : skipSemicolon last = [] := by
  rcases h with rfl | ⟨semi, hs, rfl⟩
  · rfl
  · exact skipSemicolon_cons hs []

/-- An optional semicolon is what skipping takes away. -/
theorem exists_end (ts : List Token) : ∃ last, IsEnd last ∧ ts = last ++ skipSemicolon ts := by
  cases ts with
  | nil => exact ⟨[], .inl rfl, rfl⟩
  | cons t ts =>
    by_cases ht : t.kind = .semicolon
    · exact ⟨[t], .inr ⟨t, ht, rfl⟩, by rw [skipSemicolon_cons ht, List.singleton_append]⟩
    · exact ⟨[], .inl rfl, by rw [skipSemicolon_cons_of_ne ht, List.nil_append]⟩

theorem Statement.Derives.isStatement {n : Nat} {s : Statement} {body last : List Token}
    (h : Statement.Derives n s body) (hl : IsEnd last) : IsStatement (body ++ last) := by
  cases h with
  | binding hk hn hs h => exact ⟨_, _, last, rfl, .binding hk hn hs, h.isExpr, hl⟩
  | ret hk h => exact ⟨_, _, last, rfl, .ret hk, h.isExpr, hl⟩
  | expr h => exact ⟨_, _, last, rfl, .none, h.isExpr, hl⟩

theorem IsHead.exists_derives {head value : List Token} (hh : IsHead head) (hv : IsExpr value) :
    ∃ n s, Statement.Derives n s (head ++ value) := by
  obtain ⟨n, e, hd⟩ := hv.derivable
  cases hh with
  | binding hk hn hs => exact ⟨n, _, .binding hk hn hs hd⟩
  | ret hk => exact ⟨n, _, .ret hk hd⟩
  | none =>
    obtain ⟨t, ts, rfl⟩ := List.exists_cons_of_ne_nil hv.ne_nil
    exact ⟨n, _, .expr hd⟩

/-! ## What is read without a diagnostic is a program -/

theorem isProgram_of_all {ts : List Token}
    (h : (Attempt.all ts).filterMap Attempt.diagnostic? = []) : IsProgram ts := by
  fun_induction Attempt.all ts with
  | case1 => exact .nil
  | case2 t rest s after hr ih =>
    obtain ⟨n, body, left, hts, hd, -, -, rfl⟩ := Statement.derives_of_read hr
    obtain ⟨last, hl, hleft⟩ := exists_end left
    have hafter : IsProgram (skipSemicolon left) := ih (by simpa [Attempt.diagnostic?] using h)
    rw [hts, hleft, ← List.append_assoc]
    exact .append (hd.isStatement hl) hafter
  | case3 t rest f hr ih => simp [Attempt.diagnostic?] at h

/-! ## A program is read without a diagnostic -/

theorem IsStatement.ne_nil {p : List Token} (h : IsStatement p) : p ≠ [] := by
  obtain ⟨head, value, last, rfl, -, hv, -⟩ := h
  simp [hv.ne_nil]

/-- A keyword begins the statement, or its expression does. -/
theorem IsStatement.cons_cases {t : Token} {ts : List Token} (h : IsStatement (t :: ts)) :
    t.kind = .letWord ∨ t.kind = .returnWord ∨
      ∃ value last, t :: ts = value ++ last ∧ IsExpr value ∧ IsEnd last := by
  obtain ⟨head, value, last, hts, hh, hv, hl⟩ := h
  cases hh with
  | binding hk hn hs =>
    cases hts
    exact .inl hk
  | ret hk =>
    cases hts
    exact .inr (.inl hk)
  | none => exact .inr (.inr ⟨value, last, hts, hv, hl⟩)

theorem IsStatement.head_ne_semicolon {t : Token} {ts : List Token} (h : IsStatement (t :: ts)) :
    t.kind ≠ .semicolon := by
  rcases h.cons_cases with hk | hk | ⟨value, last, hts, hv, -⟩
  · simp [hk]
  · simp [hk]
  · obtain ⟨n, e, hd⟩ := hv.derivable
    obtain ⟨u, us, rfl⟩ := List.exists_cons_of_ne_nil hv.ne_nil
    cases hts
    intro hk
    have := hd.beginsExpr_head
    rw [hk] at this
    cases this

/-- A statement that begins with a binary operator is an expression by itself, and without the
operator it still is. -/
theorem IsStatement.tail_of_mem_binaryOperators {t : Token} {ts : List Token}
    (h : IsStatement (t :: ts)) (ht : t.kind ∈ TokenKind.binaryOperators) :
    ∃ value last, ts = value ++ last ∧ IsExpr value ∧ IsEnd last := by
  rcases h.cons_cases with hk | hk | ⟨value, last, hts, hv, hl⟩
  · rw [hk] at ht
    exact absurd ht (by decide)
  · rw [hk] at ht
    exact absurd ht (by decide)
  · obtain ⟨u, us, rfl⟩ := List.exists_cons_of_ne_nil hv.ne_nil
    cases hts
    exact ⟨us, last, rfl, hv.tail_of_mem_binaryOperators ht, hl⟩

/-- The first statement can be taken so long that no binary operator comes after it. -/
theorem IsHead.exists_greedy {head value last : List Token} {parts : List (List Token)}
    (hh : IsHead head) (hv : IsExpr value) (hl : IsEnd last) (hp : ∀ p ∈ parts, IsStatement p) :
    ∃ n s body left, head ++ (value ++ last) ++ parts.flatten = body ++ left ∧
      Statement.Derives n s body ∧ Stops 0 left ∧ IsProgram (skipSemicolon left) := by
  induction parts generalizing value last with
  | nil =>
    obtain ⟨n, s, hd⟩ := hh.exists_derives hv
    refine ⟨n, s, _, last, by simp, hd, hl.stops, ?_⟩
    rw [hl.skipSemicolon_eq]
    exact .nil
  | cons p parts ih =>
    have hps : ∀ p ∈ parts, IsStatement p := fun q hq => hp q (by simp [hq])
    have hstmt := hp p (by simp)
    obtain ⟨n, s, hd⟩ := hh.exists_derives hv
    rcases hl with rfl | ⟨semi, hsemi, rfl⟩
    · obtain ⟨t, us, rfl⟩ := List.exists_cons_of_ne_nil hstmt.ne_nil
      by_cases ht : t.kind ∈ TokenKind.binaryOperators
      · -- the next statement begins with a minus sign: take its expression along
        obtain ⟨value', last', rfl, hv', hl'⟩ := hstmt.tail_of_mem_binaryOperators ht
        obtain ⟨n, s, body, left, heq, hrest⟩ := ih (.binary ht hv hv') hl' hps
        exact ⟨n, s, body, left, by simpa using heq, hrest⟩
      · refine ⟨n, s, _, (t :: us) ++ parts.flatten, by simp, hd, ?_, ?_⟩
        · rw [TokenKind.mem_binaryOperators_iff] at ht
          exact .cons (Nat.le_of_not_lt ht)
        · rw [List.cons_append, skipSemicolon_cons_of_ne hstmt.head_ne_semicolon]
          exact .append hstmt ⟨parts, rfl, hps⟩
    · refine ⟨n, s, _, semi :: (p ++ parts.flatten), by simp, hd, ?_, ?_⟩
      · exact Expr.stops_semicolon hsemi 0 _
      · rw [skipSemicolon_cons hsemi]
        exact .append hstmt ⟨parts, rfl, hps⟩

theorem IsProgram.exists_greedy {t : Token} {ts : List Token} (h : IsProgram (t :: ts)) :
    ∃ n s body left, ts = body ++ left ∧ Statement.Derives n s (t :: body) ∧ Stops 0 left ∧
      IsProgram (skipSemicolon left) := by
  obtain ⟨parts, hts, hparts⟩ := h
  cases parts with
  | nil => cases hts
  | cons p parts =>
    obtain ⟨head, value, last, rfl, hh, hv, hl⟩ := hparts p (by simp)
    obtain ⟨n, s, body, left, heq, hd, hleft⟩ :=
      hh.exists_greedy hv hl fun q hq => hparts q (List.mem_cons_of_mem _ hq)
    obtain ⟨u, us, rfl⟩ := List.exists_cons_of_ne_nil hd.ne_nil
    rw [List.flatten_cons, heq] at hts
    cases hts
    exact ⟨n, s, us, left, rfl, hd, hleft⟩

theorem all_of_isProgram : ∀ ts : List Token, IsProgram ts →
    .nestingTooDeep ∉ (Attempt.all ts).filterMap Attempt.diagnostic? →
    (Attempt.all ts).filterMap Attempt.diagnostic? = []
  | [], _, _ => by simp [Attempt.all]
  | t :: ts, h, hdeep => by
    obtain ⟨n, s, body, left, hts, hd, hstop, hleft⟩ := h.exists_greedy
    by_cases hn : n ≤ maxNesting
    · have hr : Statement.read t ts = .ok (s, skipSemicolon left) :=
        hts ▸ Statement.read_of_derives hd hstop hn
      have hlen := Statement.length_read_le hr
      rw [Attempt.all_cons_of_ok hr] at hdeep ⊢
      exact all_of_isProgram (skipSemicolon left) hleft hdeep
    · obtain ⟨left', hr⟩ := Statement.tooDeep_of_derives hd hstop (Nat.lt_of_not_le hn)
      rw [hts, Attempt.all_cons_of_error hr] at hdeep
      simp [Attempt.diagnostic?] at hdeep
termination_by ts => ts.length
decreasing_by exact Nat.lt_succ_of_le hlen

/-- **A text that is not nested too deeply is free of diagnostics exactly if its tokens form a
program,** in whatever way they can be split into statements. -/
theorem parse_clean_iff {text : String} (hdeep : .nestingTooDeep ∉ (parse text).2) :
    (parse text).2 = [] ↔ IsProgram (Token.ofText text) :=
  ⟨isProgram_of_all, fun h => all_of_isProgram _ h hdeep⟩

/-- A minus sign that joins two operands, and one that stands before an operand. -/
theorem parse_clean_iff_difference :
    .nestingTooDeep ∉ (parse "a -b; -c").2 ∧ IsProgram (Token.ofText "a -b; -c") :=
  have h : (parse "a -b; -c").2 = [] := by decide +kernel
  have hdeep : .nestingTooDeep ∉ (parse "a -b; -c").2 := by simp [h]
  ⟨hdeep, (parse_clean_iff hdeep).mp h⟩

end ExprLang
