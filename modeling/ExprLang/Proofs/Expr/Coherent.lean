import ExprLang.Proofs.Expr.Grammar
import ExprLang.Proofs.Token.Lexeme

/-!
# Coherent trees

* `Ident.Coherent`, `Expr.Coherent` — every node agrees with its token, as in trees that come from
  a text. Nothing is said about the height.

Principal results: `Ident.Coherent.lexeme` and its like — the tokens of a coherent tree are
lexemes; `Derives.coherent` — a tree that is derived from lexemes is coherent.
-/

namespace ExprLang

/-- The name is a run of letters that is no keyword, and the token's literal. -/
structure Ident.Coherent (id : Ident) : Prop where
  kind : id.token.kind = .ident
  ne_empty : id.token.literal ≠ ""
  letters : ∀ c ∈ id.token.literal.toList, isLetter c = true
  noKeyword : TokenKind.ofWord id.token.literal = .ident
  name : id.name = id.token.literal

namespace Expr

/-- The tree could come from a text, as far as its nodes and their tokens are concerned. -/
inductive Coherent : Expr → Prop
  | ident {id : Ident} (h : id.Coherent) : Coherent (.ident id)
  | int {t : Token} {value : Int} (hk : t.kind = .int) (hne : t.literal ≠ "")
      (hd : ∀ c ∈ t.literal.toList, c.isDigit = true)
      (hv : value = Nat.ofDigitChars 10 t.literal.toList 0)
      (hle : Nat.ofDigitChars 10 t.literal.toList 0 ≤ maxInteger) : Coherent (.int t value)
  | trueWord : Coherent (.bool ⟨.trueWord, "true"⟩ true)
  | falseWord : Coherent (.bool ⟨.falseWord, "false"⟩ false)
  | prefixed {t : Token} {e : Expr} (ht : t = ⟨.bang, "!"⟩ ∨ t = ⟨.minus, "-"⟩)
      (h : Coherent e) : Coherent (.prefixed t t.literal e)
  | binary {t : Token} {l r : Expr} (hk : t.kind ∈ TokenKind.binaryOperators)
      (ht : t.literal = t.kind.name) (hl : Coherent l) (hr : Coherent r) :
      Coherent (.binary t t.literal l r)

end Expr

/-! ## Coherent nodes have lexemes -/

theorem TokenKind.mem_symbols_of_mem_binaryOperators :
    ∀ k ∈ binaryOperators, k ∈ symbols := by decide

namespace Token

theorem lexeme_prefixOperator {t : Token} (h : t = ⟨.bang, "!"⟩ ∨ t = ⟨.minus, "-"⟩) :
    Lexeme t := by
  rcases h with rfl | rfl
  · exact lexeme_symbolKind (k := .bang) (by decide)
  · exact lexeme_symbolKind (k := .minus) (by decide)

theorem lexeme_binaryOperator {t : Token} (hk : t.kind ∈ TokenKind.binaryOperators)
    (ht : t.literal = t.kind.name) : Lexeme t := by
  obtain ⟨k, w⟩ := t
  obtain rfl : w = k.name := ht
  exact lexeme_symbolKind (TokenKind.mem_symbols_of_mem_binaryOperators k hk)

end Token

theorem Ident.Coherent.lexeme {id : Ident} (h : id.Coherent) : Token.Lexeme id.token :=
  Token.lexeme_of_letters h.ne_empty h.letters (h.kind.trans h.noKeyword.symm)

/-! ## What is derived from lexemes is coherent -/

theorem Ident.coherent_of_lexeme {t : Token} (h : Token.Lexeme t) (hk : t.kind = .ident) :
    Ident.Coherent ⟨t, t.literal⟩ := by
  obtain ⟨cs, hne, hcs, rfl⟩ := h.exists_word (by rw [hk]; rfl)
  exact
    { kind := hk
      ne_empty := by simpa [Token.word] using hne
      letters := by simpa [Token.word] using hcs
      noKeyword := hk
      name := rfl }

namespace Expr

theorem coherent_int {t : Token} {value : Int} (h : Token.Lexeme t) (hk : t.kind = .int)
    (hv : integer? t.literal = some value) : Coherent (.int t value) := by
  obtain ⟨cs, hne, hcs, rfl⟩ := h.exists_digits hk
  obtain ⟨hval, hle⟩ := integer?_eq_some_iff.mp hv
  exact .int hk (by simpa [Token.digits] using hne) (by simpa [Token.digits] using hcs) hval hle

theorem coherent_trueWord {t : Token} (h : Token.Lexeme t) (hk : t.kind = .trueWord) :
    Coherent (.bool t true) := by
  rw [h.eq_keyword hk rfl nofun]
  exact .trueWord

theorem coherent_falseWord {t : Token} (h : Token.Lexeme t) (hk : t.kind = .falseWord) :
    Coherent (.bool t false) := by
  rw [h.eq_keyword hk rfl nofun]
  exact .falseWord

theorem eq_of_prefixOperator {t : Token} (h : Token.Lexeme t)
    (hk : t.kind = .bang ∨ t.kind = .minus) : t = ⟨.bang, "!"⟩ ∨ t = ⟨.minus, "-"⟩ := by
  obtain ⟨k, w⟩ := t
  have hbang : TokenKind.bang ∈ TokenKind.symbols := by decide
  have hminus : TokenKind.minus ∈ TokenKind.symbols := by decide
  rcases hk with rfl | rfl
  · exact .inl (congrArg _ (h.literal_eq_name hbang))
  · exact .inr (congrArg _ (h.literal_eq_name hminus))

theorem literal_eq_of_binaryOperator {t : Token} (h : Token.Lexeme t)
    (hk : t.kind ∈ TokenKind.binaryOperators) : t.literal = t.kind.name :=
  h.literal_eq_name (TokenKind.mem_symbols_of_mem_binaryOperators t.kind hk)

/-- **A tree that is derived from lexemes is coherent.** -/
theorem Derives.coherent {level n : Nat} {e : Expr} {ts : List Token} (h : Derives level n e ts)
    (hts : ∀ t ∈ ts, Token.Lexeme t) : e.Coherent := by
  induction h with
  | ident hk => exact .ident (Ident.coherent_of_lexeme (hts _ (by simp)) hk)
  | int hk hv => exact coherent_int (hts _ (by simp)) hk hv
  | trueWord hk => exact coherent_trueWord (hts _ (by simp)) hk
  | falseWord hk => exact coherent_falseWord (hts _ (by simp)) hk
  | @prefixed _ _ op _ _ hk _ ih =>
    have hop := eq_of_prefixOperator (hts op (by simp)) hk
    apply Coherent.prefixed hop
    apply ih
    intro t ht
    exact hts t (by simp [ht])
  | group _ _ _ ih =>
    apply ih
    intro t ht
    exact hts t (by simp [ht])
  | @binary _ k _ _ op _ _ _ _ hop _ _ _ ihl ihr =>
    have hk : op.kind ∈ TokenKind.binaryOperators :=
      TokenKind.mem_binaryOperators_iff.mpr (by omega)
    apply Coherent.binary hk (literal_eq_of_binaryOperator (hts op (by simp)) hk)
    · apply ihl
      intro t ht
      exact hts t (by simp [ht])
    · apply ihr
      intro t ht
      exact hts t (by simp [ht])

end Expr

end ExprLang
