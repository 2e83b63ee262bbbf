import ExprLang.Program.Parser
import ExprLang.Proofs.Expr.Local
import ExprLang.Proofs.Program.Segment
import ExprLang.Proofs.Token.Lexeme

/-!
# Semicolons isolate statements

* `Statement.Alike` — `Expr.Alike` for statements, which may also take the semicolon.

Principal results: `Statement.alike_read` — what comes after a semicolon does not change how the
statement before it is read; `Attempt.all_append_semicolon` — attempts before and after a semicolon
are independent; `parse_append_semicolon` — so are programs and their diagnostics.
-/

namespace ExprLang

namespace Statement

/-- The same success or the same failure, at the same place before the semicolon, or the same
success right after it. -/
def Alike {α : Type} (semi : Token) (us vs : List Token)
    (a b : Except Failure (α × List Token)) : Prop :=
  (∃ s y, a = .ok (s, y ++ semi :: us) ∧ b = .ok (s, y ++ semi :: vs)) ∨
    (∃ s, a = .ok (s, us) ∧ b = .ok (s, vs)) ∨
    ∃ d y, a = .error ⟨d, y ++ semi :: us⟩ ∧ b = .error ⟨d, y ++ semi :: vs⟩

section

variable {semi : Token} (hs : semi.kind = .semicolon) (us vs : List Token)

include hs

theorem alike_readValue (x : List Token) :
    Alike semi us vs (readValue (x ++ semi :: us)) (readValue (x ++ semi :: vs)) := by
  unfold readValue
  rcases Expr.alike_read hs us vs maxNesting .lowest x with
    ⟨e, n, y, ha, hb⟩ | ⟨d, y, ha, hb⟩ <;> rw [ha, hb]
  · cases y with
    | nil => exact .inr (.inl ⟨e, by simp [skipSemicolon_cons hs], by simp [skipSemicolon_cons hs]⟩)
    | cons t y =>
      by_cases ht : t.kind = .semicolon
      · exact .inl ⟨e, y, by simp [skipSemicolon, ht], by simp [skipSemicolon, ht]⟩
      · exact .inl ⟨e, t :: y, by simp [skipSemicolon, ht], by simp [skipSemicolon, ht]⟩
  · exact .inr (.inr ⟨d, y, rfl, rfl⟩)

/-- A value that is read alike gives statements that are read alike. -/
theorem alike_map {α : Type} (make : Expr → α) (x : List Token) :
    Alike semi us vs
      (match readValue (x ++ semi :: us) with
        | .error f => .error f
        | .ok (value, ts) => .ok (make value, ts))
      (match readValue (x ++ semi :: vs) with
        | .error f => .error f
        | .ok (value, ts) => .ok (make value, ts)) := by
  rcases alike_readValue hs us vs x with
    ⟨e, y, ha, hb⟩ | ⟨e, ha, hb⟩ | ⟨d, y, ha, hb⟩ <;> rw [ha, hb]
  · exact .inl ⟨make e, y, rfl, rfl⟩
  · exact .inr (.inl ⟨make e, rfl, rfl⟩)
  · exact .inr (.inr ⟨d, y, rfl, rfl⟩)

/-- A required token is no semicolon, so it stands before the semicolon or is missed in front of
it. -/
theorem expect_alike (kind : TokenKind) (hk : kind ≠ .semicolon) (x : List Token) :
    (∃ t y, x = t :: y ∧ ∀ ws, expect kind (x ++ semi :: ws) = .ok (t, y ++ semi :: ws)) ∨
      ∃ d, ∀ ws, expect kind (x ++ semi :: ws) = .error ⟨d, x ++ semi :: ws⟩ := by
  cases x with
  | nil => exact .inr ⟨.unexpectedToken kind semi.kind, fun ws => by simp [expect, hs, hk.symm]⟩
  | cons t y =>
    by_cases ht : t.kind = kind
    · exact .inl ⟨t, y, rfl, fun ws => by simp [expect, ht]⟩
    · exact .inr ⟨.unexpectedToken kind t.kind, fun ws => by simp [expect, ht]⟩

theorem alike_readBinding (keyword : Token) (x : List Token) :
    Alike semi us vs (readBinding keyword (x ++ semi :: us))
      (readBinding keyword (x ++ semi :: vs)) := by
  unfold readBinding
  rcases expect_alike hs .ident (by decide) x with ⟨name, y, rfl, hn⟩ | ⟨d, hn⟩ <;>
    rw [hn, hn]
  · simp only
    rcases expect_alike hs .assign (by decide) y with ⟨sign, z, rfl, ha⟩ | ⟨d, ha⟩ <;>
      rw [ha, ha]
    · exact alike_map hs us vs (fun value => Statement.binding keyword ⟨name, name.literal⟩ value) z
    · exact .inr (.inr ⟨d, y, rfl, rfl⟩)
  · exact .inr (.inr ⟨d, x, rfl, rfl⟩)

/-- **What comes after a semicolon does not change how the statement before it is read.** -/
theorem alike_read (t : Token) (x : List Token) :
    Alike semi us vs (read t (x ++ semi :: us)) (read t (x ++ semi :: vs)) := by
  unfold read
  split
  · exact alike_readBinding hs us vs t x
  · exact alike_map hs us vs (fun value => Statement.ret t value) x
  · exact alike_map hs us vs (fun value => Statement.expr t value) (t :: x)

end

/-- No statement begins with a semicolon. -/
theorem read_semicolon {semi : Token} (hs : semi.kind = .semicolon) (rest : List Token) :
    read semi rest = .error ⟨.noOperand .semicolon, semi :: rest⟩ := by
  simp [read, hs, readValue, maxNesting, Expr.read, Expr.operand]

end Statement

/-- Skipping stops at a semicolon of `y`, or at the one after it. -/
theorem toSemicolon_append {semi : Token} (hs : semi.kind = .semicolon) (y : List Token) :
    (∃ stop z, z.length < y.length ∧
      ∀ ws, toSemicolon (y ++ semi :: ws) = stop :: (z ++ semi :: ws)) ∨
      ∀ ws, toSemicolon (y ++ semi :: ws) = semi :: ws := by
  induction y with
  | nil => exact .inr fun ws => toSemicolon_cons hs ws
  | cons t y ih =>
    by_cases ht : t.kind = .semicolon
    · exact .inl ⟨t, y, by simp, fun ws => toSemicolon_cons ht _⟩
    · simp only [List.cons_append, toSemicolon_cons_of_ne ht]
      rcases ih with ⟨stop, z, hz, h⟩ | h
      · exact .inl ⟨stop, z, Nat.lt_succ_of_lt hz, h⟩
      · exact .inr h

namespace Attempt

/-- **Attempts before and after a semicolon are independent.** -/
theorem all_append_semicolon {semi : Token} (hs : semi.kind = .semicolon) (us : List Token) :
    ∀ x : List Token, all (x ++ semi :: us) = all (x ++ [semi]) ++ all us
  | [] => by
    rw [List.nil_append, List.nil_append, all_cons_of_error (Statement.read_semicolon hs us),
      all_cons_of_error (Statement.read_semicolon hs []), toSemicolon_cons hs, toSemicolon_cons hs]
    simp [all]
  | t :: x => by
    rw [List.cons_append, List.cons_append]
    rcases Statement.alike_read hs us [] t x with
      ⟨s, y, ha, hb⟩ | ⟨s, ha, hb⟩ | ⟨d, y, ha, hb⟩
    · have hlen : y.length ≤ x.length := by simpa using Statement.length_read_le ha
      rw [all_cons_of_ok ha, all_cons_of_ok hb, all_append_semicolon hs us y]
      rfl
    · rw [all_cons_of_ok ha, all_cons_of_ok hb]
      simp [all]
    · have hlen : y.length ≤ x.length + 1 := by
        have := Statement.length_le_of_read_error ha
        simp only [List.length_append, List.length_cons] at this
        omega
      rw [all_cons_of_error ha, all_cons_of_error hb]
      rcases toSemicolon_append hs y with ⟨stop, z, hz, h⟩ | h
      · rw [h, h, List.tail_cons, List.tail_cons, all_append_semicolon hs us z]
        rfl
      · rw [h, h]
        simp [all]
termination_by x => x.length

end Attempt

/-- A semicolon in a text is a token of its own. -/
theorem Token.scan_append_semicolon (a b : List Char) :
    scan (a ++ ';' :: b) = scan a ++ symbol ';' :: scan b := by
  have hend : ∀ t ∈ (scan a).getLast?, t.EndsBefore (';' :: b) := by
    intro t _
    exact .cons (t.joins_eq_false rfl rfl (by decide))
  rw [scan_append hend, scan_symbol rfl (by decide) (by decide)]

/-- **Semicolons isolate statements.** The text after a semicolon is read as if it stood alone, and
the text up to the semicolon as if nothing came after it, also where either is no program. -/
theorem parse_append_semicolon (s t : String) :
    parse (s ++ ";" ++ t) =
      (⟨(parse (s ++ ";")).1.statements ++ (parse t).1.statements⟩,
        (parse (s ++ ";")).2 ++ (parse t).2) := by
  have hst : Token.ofText (s ++ ";" ++ t) =
      Token.scan s.toList ++ Token.symbol ';' :: Token.scan t.toList := by
    rw [← Token.scan_append_semicolon]
    simp [Token.ofText]
  have hs : Token.ofText (s ++ ";") = Token.scan s.toList ++ [Token.symbol ';'] := by
    rw [← Token.scan_nil, ← Token.scan_append_semicolon]
    simp [Token.ofText]
  have hsemi : (Token.symbol ';').kind = .semicolon := rfl
  have hall := Attempt.all_append_semicolon hsemi (Token.scan t.toList) (Token.scan s.toList)
  simp only [parse_eq, hst, hs, hall, List.filterMap_append]
  rfl

end ExprLang
