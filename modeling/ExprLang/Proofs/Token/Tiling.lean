import ExprLang.Proofs.Token.Lexeme
import ExprLang.Token.Scanner
import Mathlib.Data.List.Chain

/-!
# Texts as gaps and literals

* `TokenKind.keywords` — the kinds of the words that are not names.
* `Token.Classed` — a token has the kind of its literal's class.
* `Token.Fuses` — two literals that do not stay apart when nothing stands between them.
* `Tiling` — a text is cut into gaps of blanks and the literals of tokens, which stay apart.
* `Scanner.Yields` — the tokens that a scanner hands out before its first end token.

Principal results: `exists_tiling`, `Tiling.scan_eq` — the tokens of a text have a tiling, and no
other tokens have one; `yields_iff_tiling` — so a scanner hands out the tokens of the only tiling.

Nothing here refers to the longest match. That follows: a shorter literal would leave a rest that
fuses with it.
-/

namespace ExprLang

namespace TokenKind

/-- The kinds of the words that are not names; `keyword` says how each one is written. -/
def keywords : List TokenKind :=
  [fnWord, letWord, trueWord, falseWord, ifWord, elseWord, returnWord]

theorem ofWord_keyword : ∀ k ∈ keywords, ofWord k.keyword = k := by decide

theorem keyword_ne_empty : ∀ k ∈ keywords, k.keyword ≠ "" := by decide

theorem mem_keywords {k : TokenKind} (hw : k.isWord = true) (hi : k ≠ .ident) : k ∈ keywords := by
  revert hi hw
  cases k <;> decide

theorem ofWord_eq_ident_iff {w : String} : ofWord w = .ident ↔ ∀ k ∈ keywords, w ≠ k.keyword := by
  constructor
  · rintro h k hk rfl
    rw [ofWord_keyword k hk] at h
    subst h
    exact absurd hk (by decide)
  · intro h
    by_contra hi
    exact h _ (mem_keywords (isWord_ofWord w) hi) (eq_keyword rfl hi)

/-- A symbol of one character has the kind that is named like it. -/
theorem ofSymbol_of_name {k : TokenKind} {c : Char} (hk : k ∈ symbols)
    (h : k.name = String.singleton c) : ofSymbol c = k := by
  have hc : k.name.toList = [c] := by simp [h]
  simp only [symbols, List.mem_cons, List.not_mem_nil, or_false] at hk
  rcases hk with rfl | rfl | rfl | rfl | rfl | rfl | rfl | rfl | rfl | rfl | rfl | rfl | rfl | rfl |
    rfl | rfl <;> cases hc <;> rfl

end TokenKind

namespace Token

/-- The token has the kind of its literal's class: a keyword, another run of letters, a run of
digits, a symbol, or any other single character that is no blank. -/
inductive Classed : Token → Prop
  | keyword {k : TokenKind} (hk : k ∈ TokenKind.keywords) : Classed ⟨k, k.keyword⟩
  | ident {w : String} (hne : w ≠ "") (hl : ∀ c ∈ w.toList, isLetter c = true)
      (hk : ∀ k ∈ TokenKind.keywords, w ≠ k.keyword) : Classed ⟨.ident, w⟩
  | int {w : String} (hne : w ≠ "") (hd : ∀ c ∈ w.toList, c.isDigit = true) : Classed ⟨.int, w⟩
  | symbol {k : TokenKind} (hk : k ∈ TokenKind.symbols) : Classed ⟨k, k.name⟩
  | illegal {c : Char} (hc : isSymbol c = true)
      (hk : ∀ k ∈ TokenKind.symbols, k.name ≠ String.singleton c) :
      Classed ⟨.illegal, String.singleton c⟩

theorem Classed.lexeme {t : Token} (h : Classed t) : Lexeme t := by
  cases h with
  | keyword hk =>
    exact lexeme_keyword (TokenKind.keyword_ne_empty _ hk) (TokenKind.ofWord_keyword _ hk)
  | ident hne hl hk =>
    exact lexeme_of_letters hne hl (TokenKind.ofWord_eq_ident_iff.mpr hk).symm
  | int hne hd => exact lexeme_of_digits hne hd rfl
  | symbol hk => exact lexeme_symbolKind hk
  | @illegal c hc hk =>
    have hi : TokenKind.ofSymbol c = .illegal := by
      rcases TokenKind.ofSymbol_cases c with hi | ⟨hm, hn⟩
      · exact hi
      · exact absurd hn (hk _ hm)
    rw [← hi]
    exact Lexeme.symbol hc

theorem Lexeme.classed {t : Token} (h : Lexeme t) : Classed t := by
  cases h with
  | @word cs hne h =>
    have hne' : String.ofList cs ≠ "" := by simpa using hne
    by_cases hi : TokenKind.ofWord (String.ofList cs) = .ident
    · rw [Token.word, hi]
      exact .ident hne' (by simpa using h) (TokenKind.ofWord_eq_ident_iff.mp hi)
    · have hw := TokenKind.eq_keyword rfl hi
      have hc := Classed.keyword (TokenKind.mem_keywords (TokenKind.isWord_ofWord _) hi)
      rwa [← hw] at hc
  | digits hne h => exact .int (by simpa using hne) (by simpa using h)
  | eq => exact .symbol (k := .eq) (by decide)
  | notEq => exact .symbol (k := .notEq) (by decide)
  | @symbol c h =>
    rcases TokenKind.ofSymbol_cases c with hi | ⟨hm, hn⟩
    · rw [Token.symbol, hi]
      apply Classed.illegal h
      intro k hk hn
      rw [TokenKind.ofSymbol_of_name hk hn] at hi
      subst hi
      exact absurd hk (by decide)
    · rw [Token.symbol, ← hn]
      exact .symbol hm

/-- Without a gap between them the two literals do not stay apart: both are runs of letters, both
are runs of digits, or the first one is a single `=` or `!` and the second one begins with `=`. -/
def Fuses (t u : Token) : Prop :=
  (∀ c ∈ t.literal.toList, isLetter c = true) ∧ (∀ c ∈ u.literal.toList, isLetter c = true) ∨
  (∀ c ∈ t.literal.toList, c.isDigit = true) ∧ (∀ c ∈ u.literal.toList, c.isDigit = true) ∨
  (t.literal = "=" ∨ t.literal = "!") ∧ u.literal.toList.head? = some '='

variable {t u : Token} {c : Char} {cs : List Char}

namespace Lexeme

/-- The first character of a lexeme tells its class. -/
theorem exists_cons (h : Lexeme t) :
    ∃ c cs, t.literal.toList = c :: cs ∧ isLetter c = t.kind.isWord ∧
      c.isDigit = (t.kind == .int) := by
  by_cases hk : t.kind.isWord = true ∨ t.kind = .int
  · exact h.literal_cons hk
  · cases h with
    | word _ _ => exact absurd (.inl (TokenKind.isWord_ofWord _)) hk
    | digits _ _ => exact absurd (.inr rfl) hk
    | eq => exact ⟨'=', ['='], rfl, rfl, rfl⟩
    | notEq => exact ⟨'!', ['='], rfl, rfl, rfl⟩
    | @symbol c hs =>
      obtain ⟨-, hl, hd⟩ := isSymbol_eq_true_iff.mp hs
      rw [not_or, Bool.not_eq_true] at hk
      refine ⟨c, [], by simp [Token.symbol], hl.trans hk.1.symm, ?_⟩
      rw [hd, beq_eq_false_iff_ne.mpr hk.2]

theorem letters_iff (h : Lexeme t) :
    (∀ c ∈ t.literal.toList, isLetter c = true) ↔ t.kind.isWord = true := by
  constructor
  · intro hl
    obtain ⟨c, cs, hc, hw, -⟩ := h.exists_cons
    rw [← hw]
    exact hl c (by simp [hc])
  · intro hw
    obtain ⟨cs, -, hcs, rfl⟩ := h.exists_word hw
    simpa [Token.word] using hcs

theorem digits_iff (h : Lexeme t) :
    (∀ c ∈ t.literal.toList, c.isDigit = true) ↔ t.kind = .int := by
  constructor
  · intro hd
    obtain ⟨c, cs, hc, -, hi⟩ := h.exists_cons
    rw [hd c (by simp [hc])] at hi
    simpa using hi.symm
  · intro hk
    obtain ⟨cs, -, hcs, rfl⟩ := h.exists_digits hk
    simpa [Token.digits] using hcs

/-- A symbol is told by its spelling. -/
theorem literal_eq_name_iff (h : Lexeme t) {k : TokenKind} (hk : k ∈ TokenKind.symbols) :
    t.literal = k.name ↔ t.kind = k := by
  have noRun : ∀ k ∈ TokenKind.symbols,
      k.name.toList.any fun c => !isLetter c && !c.isDigit := by decide
  have apart : ∀ k ∈ TokenKind.symbols, ∀ k' ∈ TokenKind.symbols,
      k'.name = k.name → k' = k := by decide
  obtain ⟨c, hc, h'⟩ := List.any_eq_true.mp (noRun k hk)
  obtain ⟨hl, hd⟩ : isLetter c = false ∧ c.isDigit = false := by simpa using h'
  constructor
  · intro hn
    rw [← hn] at hc
    cases h.classed with
    | @keyword k' _ => exact absurd (k'.letters_keyword c hc) (by simp [hl])
    | ident _ hw _ => exact absurd (hw c hc) (by simp [hl])
    | int _ hw => exact absurd (hw c hc) (by simp [hd])
    | symbol hk' => exact apart k hk _ hk' hn
    | illegal _ hne => exact absurd hn.symm (hne k hk)
  · rintro rfl
    exact h.literal_eq_name hk

end Lexeme

/-- The characters that join a token are those that a literal that fuses with it begins with. -/
theorem joins_iff_fuses (ht : Lexeme t) (hu : Lexeme u) (hc : u.literal.toList = c :: cs) :
    t.joins c = true ↔ t.Fuses u := by
  obtain ⟨d, ds, hd, hl, hi⟩ := hu.exists_cons
  obtain ⟨rfl, -⟩ := List.cons_eq_cons.mp (hc.symm.trans hd)
  have hassign := ht.literal_eq_name_iff (k := .assign) (by decide)
  have hbang := ht.literal_eq_name_iff (k := .bang) (by decide)
  rw [show TokenKind.name .assign = "=" from rfl] at hassign
  rw [show TokenKind.name .bang = "!" from rfl] at hbang
  rw [Fuses, ht.letters_iff, hu.letters_iff, ht.digits_iff, hu.digits_iff, hassign, hbang, hc,
    ← hl, ← beq_iff_eq (a := u.kind), ← hi, joins]
  cases t.kind <;> simp [TokenKind.isWord]

end Token

/-! ## Tilings -/

/-- A literal's token, with the gap before it. -/
structure Cell where
  gap : List Char
  token : Token
  deriving DecidableEq, Repr

/-- The characters of the gap and of the literal. -/
def Cell.chars (x : Cell) : List Char := x.gap ++ x.token.literal.toList

/-- The text is made of the cells and a last gap: gaps hold blanks only, every token has the kind of
its literal's class, and literals with nothing between them stay apart. -/
structure Tiling (text : List Char) (cells : List Cell) (last : List Char) : Prop where
  text_eq : text = cells.flatMap Cell.chars ++ last
  gap : ∀ x ∈ cells, ∀ c ∈ x.gap, isBlank c = true
  last : ∀ c ∈ last, isBlank c = true
  classed : ∀ x ∈ cells, x.token.Classed
  apart : cells.IsChain fun x y => y.gap = [] → ¬ x.token.Fuses y.token

namespace Tiling

variable {x : Cell} {cells : List Cell} {text last : List Char}

theorem tail (h : Tiling text (x :: cells) last) :
    Tiling (cells.flatMap Cell.chars ++ last) cells last where
  text_eq := rfl
  gap := fun y hy => h.gap y (List.mem_cons_of_mem x hy)
  last := h.last
  classed := fun y hy => h.classed y (List.mem_cons_of_mem x hy)
  apart := (List.isChain_cons.mp h.apart).2

/-- A token ends before a tiled text if a gap comes first, or a literal that stays apart from it. -/
theorem endsBefore_iff (h : Tiling text cells last) {t : Token} (ht : Token.Lexeme t) :
    t.EndsBefore text ↔ ∀ y ∈ cells.head?, y.gap = [] → ¬ t.Fuses y.token := by
  obtain ⟨rfl, hgap, hlast, hclassed, -⟩ := h
  cases cells with
  | nil =>
    cases last with
    | nil => simp [Token.EndsBefore.nil]
    | cons b last => simp [Token.EndsBefore, t.joins_of_isBlank (hlast b List.mem_cons_self)]
  | cons y cells =>
    obtain ⟨gap, u⟩ := y
    cases gap with
    | nil =>
      have hu : Token.Lexeme u := (hclassed _ List.mem_cons_self).lexeme
      obtain ⟨c, cs, hc, -⟩ := hu.exists_cons
      simp [Token.EndsBefore, Cell.chars, hc, ← Token.joins_iff_fuses ht hu hc]
    | cons b gap =>
      have hb := hgap _ List.mem_cons_self b List.mem_cons_self
      simp [Token.EndsBefore, Cell.chars, t.joins_of_isBlank hb]

/-- **A tiled text scans to the tokens of its tiling.** -/
theorem scan_eq (h : Tiling text cells last) : Token.scan text = cells.map Cell.token := by
  induction cells generalizing text with
  | nil =>
    have hl := Token.scan_blanks_append h.last []
    rw [h.text_eq]
    simpa [Token.scan_nil] using hl
  | cons x cells ih =>
    have ht : Token.Lexeme x.token := (h.classed x List.mem_cons_self).lexeme
    have he : x.token.EndsBefore (cells.flatMap Cell.chars ++ last) :=
      (h.tail.endsBefore_iff ht).mpr (List.isChain_cons.mp h.apart).1
    calc Token.scan text
        = Token.scan (x.gap ++ (x.token.literal.toList ++ (cells.flatMap Cell.chars ++ last))) := by
          rw [h.text_eq]
          simp [Cell.chars]
      _ = x.token :: Token.scan (cells.flatMap Cell.chars ++ last) := by
          rw [Token.scan_blanks_append (h.gap x List.mem_cons_self), Token.scan_lexeme ht he]
      _ = (x :: cells).map Cell.token := by rw [ih h.tail, List.map_cons]

end Tiling

/-- **The tokens of a text have a tiling.** -/
theorem exists_tiling (text : List Char) :
    ∃ cells last, Tiling text cells last ∧ cells.map Cell.token = Token.scan text := by
  fun_induction Token.scan text with
  | case1 cs hn =>
    have hb := List.dropWhile_eq_nil_iff.mp (Token.dropWhile_eq_nil_of_next? hn)
    exact ⟨[], cs, ⟨rfl, by simp, hb, by simp, .nil⟩, rfl⟩
  | case2 cs t rest hn ih =>
    obtain ⟨cells, last, h, hmap⟩ := ih
    obtain ⟨ht, he⟩ := Token.lexeme_next? hn
    refine ⟨⟨cs.takeWhile isBlank, t⟩ :: cells, last, ?_, by simp [hmap]⟩
    constructor
    · have ha := Token.takeWhile_append_literal_append hn
      rw [h.text_eq] at ha
      simpa [Cell.chars] using ha.symm
    · apply List.forall_mem_cons.mpr ⟨?_, h.gap⟩
      intro c hc
      exact List.mem_takeWhile_imp hc
    · exact h.last
    · exact List.forall_mem_cons.mpr ⟨ht.classed, h.classed⟩
    · exact List.isChain_cons.mpr ⟨(h.endsBefore_iff ht).mp he, h.apart⟩

/-! ## What a scanner hands out -/

/-- Asked for one token after the other, the scanner hands out these and then an end token. -/
inductive Scanner.Yields : Scanner → List Token → Prop
  | ended {s : Scanner} (h : s.nextToken.1.kind = .eof) : Yields s []
  | token {s : Scanner} {ts : List Token} (h : s.nextToken.1.kind ≠ .eof)
      (hts : Yields s.nextToken.2 ts) : Yields s (s.nextToken.1 :: ts)

namespace Scanner

variable {s : Scanner} {ts : List Token}

/-- A call hands out the next token of the text, or an end token if there is none. -/
theorem nextToken_cases (s : Scanner) :
    Token.next? s.rest = none ∧ s.nextToken.1.kind = .eof ∨
      Token.next? s.rest = some (s.nextToken.1, s.nextToken.2.rest) ∧
        s.nextToken.1.kind ≠ .eof := by
  unfold nextToken
  cases hn : Token.next? s.rest with
  | none => exact .inl ⟨rfl, rfl⟩
  | some next => exact .inr ⟨rfl, Token.kind_next?_ne_eof hn⟩

theorem yields_scan (cs : List Char) (s : Scanner) (hs : s.rest = cs) :
    s.Yields (Token.scan cs) := by
  fun_induction Token.scan cs generalizing s with
  | case1 cs hn =>
    rcases s.nextToken_cases with ⟨-, hk⟩ | ⟨hsome, -⟩
    · exact .ended hk
    · rw [hs, hn] at hsome
      cases hsome
  | case2 cs t rest hn ih =>
    rcases s.nextToken_cases with ⟨hnone, -⟩ | ⟨hsome, hk⟩
    · rw [hs, hn] at hnone
      cases hnone
    · rw [hs, hn, Option.some.injEq, Prod.mk.injEq] at hsome
      obtain ⟨rfl, rfl⟩ := hsome
      exact .token hk (ih _ rfl)

theorem Yields.eq_scan (h : s.Yields ts) : ts = Token.scan s.rest := by
  induction h with
  | @ended s hk =>
    rcases s.nextToken_cases with ⟨hnone, -⟩ | ⟨-, hk'⟩
    · rw [Token.scan_eq_nil hnone]
    · exact absurd hk hk'
  | @token s ts hk _ ih =>
    rcases s.nextToken_cases with ⟨-, hk'⟩ | ⟨hsome, -⟩
    · exact absurd hk' hk
    · rw [Token.scan_eq_cons hsome, ih]

theorem yields_iff : s.Yields ts ↔ ts = Token.scan s.rest := by
  constructor
  · exact Yields.eq_scan
  · rintro rfl
    exact yields_scan _ s rfl

end Scanner

/-- **A scanner hands out the tokens of the only tiling of its text.** Nothing of the text is lost,
every token has the kind of its literal's class, and there is no other way to cut the text up. -/
theorem yields_iff_tiling (text : String) :
    ∃ tokens : List Token, ∀ ts : List Token,
      ((Scanner.ofText text).Yields ts ↔ ts = tokens) ∧
        ((∃ cells last, Tiling text.toList cells last ∧ cells.map Cell.token = ts) ↔
          ts = tokens) := by
  refine ⟨Token.ofText text, fun ts => ⟨Scanner.yields_iff, ?_⟩⟩
  constructor
  · rintro ⟨cells, last, h, rfl⟩
    exact h.scan_eq.symm
  · rintro rfl
    exact exists_tiling text.toList

end ExprLang
