import ExprLang.Proofs.Program.Rendering
import ExprLang.Proofs.Program.Stored

/-!
# What a parsed statement stores

* `TokenKind.isStray` — the kinds that have no place in a statement.

Principal results: `Statement.Derives.token_cases` — a statement starts with the first token that it
stores, or with a parenthesis; `Statement.Derives.isStray_eq_false` — no stray token is part of it;
`statements_coherent` — so every statement of a program agrees with its tokens, whatever the text.

A text may hold tokens of any kind, and most of the statements in it may fail. What is kept was derived
from lexemes, and a derivation has a place for some kinds only.
-/

namespace ExprLang

/-- The kinds that no rule of the grammar asks for. -/
def TokenKind.isStray : TokenKind → Bool
  | illegal | eof | comma | lBrace | rBrace | fnWord | ifWord | elseWord => true
  | _ => false

/-- A stray token can neither begin an expression nor stand inside one. -/
theorem TokenKind.outside_of_isStray {k : TokenKind} (h : k.isStray = true) :
    k.beginsExpr = false ∧ k.precedence.rank = 0 ∧ k ≠ .rParen := by
  revert h
  cases k <;> decide

theorem Expr.Derives.isStray_eq_false {level n : Nat} {e : Expr} {ts : List Token}
    (h : Expr.Derives level n e ts) : ∀ t ∈ ts, t.kind.isStray = false := by
  intro t ht
  rw [← Bool.not_eq_true]
  intro hs
  obtain ⟨hb, ho, hc⟩ := TokenKind.outside_of_isStray hs
  exact h.kind_ne hb ho hc t ht rfl

namespace Statement.Derives

variable {n : Nat} {s : Statement} {body : List Token}

theorem isStray_eq_false (h : Derives n s body) : ∀ t ∈ body, t.kind.isStray = false := by
  cases h with
  | binding hk hn hs h =>
    simp only [List.forall_mem_cons]
    exact ⟨by rw [hk]; rfl, by rw [hn]; rfl, by rw [hs]; rfl, h.isStray_eq_false⟩
  | ret hk h => exact List.forall_mem_cons.mpr ⟨by rw [hk]; rfl, h.isStray_eq_false⟩
  | expr h => exact h.isStray_eq_false

/-- All that a statement stores is part of what it is derived from. -/
theorem mem_of_mem_tokens (h : Derives n s body) {t : Token} (ht : t ∈ s.token :: s.tokens) :
    t ∈ body := by
  rcases List.mem_cons.mp ht with rfl | ht
  · exact List.mem_of_mem_head? h.head_eq
  · rw [h.tokens_eq] at ht
    exact List.mem_of_mem_filter ht

/-- The token of a statement is the first one that it stores. Only an expression by itself may begin
with a token that is not stored, and that is a parenthesis. -/
theorem token_cases (h : Derives n s body) (hbody : ∀ t ∈ body, Token.Lexeme t) :
    s.token = ⟨.lParen, "("⟩ ∨ s.tokens.head? = some s.token := by
  cases h with
  | binding _ _ _ _ => exact .inr rfl
  | ret _ _ => exact .inr rfl
  | @expr t value ts h =>
    by_cases hp : t.kind.isPunctuation = true
    · have hb := h.beginsExpr_head
      have hk : t.kind = .lParen := by
        revert hp hb
        cases t.kind <;> decide
      have hsymbol : t.kind ∈ TokenKind.symbols := by
        rw [hk]
        decide
      have hl := (hbody t List.mem_cons_self).literal_eq_name hsymbol
      rw [hk] at hl
      obtain ⟨k, w⟩ := t
      subst hk hl
      exact .inl rfl
    · right
      show value.tokens.head? = some t
      rw [h.tokens_eq]
      simp [hp]

end Statement.Derives

/-- **Every statement that comes from a text agrees with its tokens,** also if other statements of the
text fail. Each node repeats what its own token says, the token of the statement is the first one that
it stores or the parenthesis in front of that, and no token of a stray kind is stored anywhere. -/
theorem statements_coherent (text : String) :
    ∀ s ∈ (parse text).1.statements,
      s.Coherent ∧
        (s.token = ⟨.lParen, "("⟩ ∨ s.tokens.head? = some s.token) ∧
        ∀ t ∈ s.token :: s.tokens, t.kind.isStray = false := by
  intro s hs
  obtain ⟨n, body, hd, -, hin⟩ := Attempt.exists_derives_of_mem hs
  have hbody : ∀ t ∈ body, Token.Lexeme t := by
    intro t ht
    exact Token.lexeme_of_mem_scan (hin.subset ht)
  refine ⟨hd.coherent hbody, hd.token_cases hbody, ?_⟩
  intro t ht
  exact hd.isStray_eq_false t (hd.mem_of_mem_tokens ht)

/-- A statement behind one that fails; it begins with a parenthesis, which it does not store. -/
theorem statements_coherent_group :
    let s : Statement := .expr ⟨.lParen, "("⟩
      (.binary ⟨.lt, "<"⟩ "<" (.ident ⟨⟨.ident, "a"⟩, "a"⟩)
        (.prefixed ⟨.minus, "-"⟩ "-" (.int ⟨.int, "07"⟩ 7)))
    s ∈ (parse "let = fn; (a) < -07").1.statements ∧ s.Coherent ∧
      (s.token = ⟨.lParen, "("⟩ ∨ s.tokens.head? = some s.token) ∧
      ∀ t ∈ s.token :: s.tokens, t.kind.isStray = false := by
  intro s
  have hs : s ∈ (parse "let = fn; (a) < -07").1.statements := by decide +kernel
  exact ⟨hs, statements_coherent _ s hs⟩

end ExprLang
