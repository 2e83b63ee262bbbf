import ExprLang.Proofs.Expr.Coherent

/-!
# The tokens of a rendering

* `Expr.leaf?` — the token of a tree that is rendered without parentheses; `IsLeaf` says how the
  two belong together.
* `Expr.spelled` — the tokens of a rendering.
* `opensRendering` — the characters that a rendering may begin with.

Principal results: `scan_render` — in front of a text that does not join its leaf, a rendering scans
to its own tokens; `derives_spelled` — these tokens derive the tree, each operator two levels high,
one for itself and one for its parentheses.
-/

namespace ExprLang

namespace TokenKind

/-- The kinds of the words that are expressions. -/
def leafWords : List TokenKind := [ident, trueWord, falseWord]

theorem mem_leafWords_iff {k : TokenKind} :
    k ∈ leafWords ↔ k = .ident ∨ k = .trueWord ∨ k = .falseWord := by
  simp [leafWords]

theorem isWord_of_mem_leafWords {k : TokenKind} (h : k ∈ leafWords) : k.isWord = true := by
  revert k
  decide

end TokenKind

/-- A rendering begins with a word, an integer or a parenthesis. -/
def opensRendering (c : Char) : Bool := isLetter c || c.isDigit || c == '('

theorem opensRendering_eq_true_iff {c : Char} :
    opensRendering c = true ↔ isLetter c = true ∨ c.isDigit = true ∨ c = '(' := by
  simp [opensRendering, or_assoc]

theorem isBlank_of_opensRendering {c : Char} (h : opensRendering c = true) :
    isBlank c = false := by
  rcases opensRendering_eq_true_iff.mp h with h | h | rfl
  · exact isBlank_of_isLetter h
  · exact isBlank_of_isDigit h
  · rfl

namespace Token

/-- The parenthesis in front of an operator and its operands. -/
def opening : Token := ⟨.lParen, "("⟩

/-- The parenthesis behind an operator and its operands. -/
def closing : Token := ⟨.rParen, ")"⟩

theorem scan_opening (cs : List Char) : scan ('(' :: cs) = opening :: scan cs :=
  scan_symbol rfl (by decide) (by decide) cs

theorem scan_closing (cs : List Char) : scan (')' :: cs) = closing :: scan cs :=
  scan_symbol rfl (by decide) (by decide) cs

theorem scan_space (cs : List Char) : scan (' ' :: cs) = scan cs :=
  scan_cons_of_isBlank rfl cs

theorem endsBefore_space (t : Token) (cs : List Char) : t.EndsBefore (' ' :: cs) :=
  .cons (joins_eq_false t rfl rfl (by decide))

theorem endsBefore_closing (t : Token) (cs : List Char) : t.EndsBefore (')' :: cs) :=
  .cons (joins_eq_false t rfl rfl (by decide))

/-- No prefix operator is made longer by what a rendering begins with. -/
theorem endsBefore_of_prefixOperator {t : Token} (ht : t = ⟨.bang, "!"⟩ ∨ t = ⟨.minus, "-"⟩)
    {c : Char} (hc : opensRendering c = true) (cs : List Char) : t.EndsBefore (c :: cs) := by
  have hne : c ≠ '=' := by
    rintro rfl
    exact absurd hc (by decide)
  rcases ht with rfl | rfl <;> exact .cons (by simp [joins, TokenKind.isWord, hne])

end Token

namespace Expr

open Token (opening closing)

/-- The token of a name, an integer or a truth value. -/
def leaf? : Expr → Option Token
  | ident id => some id.token
  | int token _ => some token
  | bool token _ => some token
  | prefixed _ _ _ => none
  | binary _ _ _ _ => none

/-- A name or a truth value. -/
def isWord : Expr → Bool
  | ident _ => true
  | bool _ _ => true
  | _ => false

def isNumber : Expr → Bool
  | int _ _ => true
  | _ => false

theorem isNumber_of_isWord {e : Expr} (h : e.isWord = true) : e.isNumber = false := by
  cases e with
  | int _ _ => cases h
  | _ => rfl

theorem exists_leaf {e : Expr} (h : e.isWord = true ∨ e.isNumber = true) : ∃ t, t ∈ e.leaf? := by
  cases e with
  | ident id => exact ⟨_, rfl⟩
  | int t _ => exact ⟨_, rfl⟩
  | bool t _ => exact ⟨_, rfl⟩
  | _ => simp [isWord, isNumber] at h

/-- The tokens that the rendering is made of. -/
def spelled : Expr → List Token
  | ident id => [id.token]
  | int token _ => [token]
  | bool token _ => [token]
  | prefixed token _ operand => opening :: token :: (operand.spelled ++ [closing])
  | binary token _ left right =>
    opening :: (left.spelled ++ token :: (right.spelled ++ [closing]))

/-- The tree is rendered as the token `t`, and has its class. -/
structure IsLeaf (e : Expr) (t : Token) : Prop where
  lexeme : Token.Lexeme t
  render : e.render = t.literal
  spelled : e.spelled = [t]
  kind_isWord : t.kind.isWord = e.isWord
  kind_isNumber : (t.kind == .int) = e.isNumber

namespace Coherent

variable {e : Expr}

/-- A leaf is a name, a truth value or an integer that is not too large. -/
theorem kind_of_leaf (h : e.Coherent) {t : Token} (ht : t ∈ e.leaf?) :
    t.kind ∈ TokenKind.leafWords ∨
      t.kind = .int ∧ Nat.ofDigitChars 10 t.literal.toList 0 ≤ maxInteger := by
  cases h with
  | ident h =>
    cases ht
    exact .inl (TokenKind.mem_leafWords_iff.mpr (.inl h.kind))
  | int hk _ _ _ hle =>
    cases ht
    exact .inr ⟨hk, hle⟩
  | trueWord | falseWord =>
    cases ht
    exact .inl (TokenKind.mem_leafWords_iff.mpr (by simp))
  | prefixed _ _ => cases ht
  | binary _ _ _ _ => cases ht

theorem isLeaf (h : e.Coherent) {t : Token} (ht : t ∈ e.leaf?) : IsLeaf e t := by
  cases h with
  | ident h =>
    cases ht
    exact ⟨h.lexeme, h.name, rfl, by rw [h.kind]; rfl, by rw [h.kind]; rfl⟩
  | int hk hne hd _ _ =>
    cases ht
    exact ⟨Token.lexeme_of_digits hne hd hk, rfl, rfl, by rw [hk]; rfl, by rw [hk]; rfl⟩
  | trueWord =>
    cases ht
    exact ⟨Token.lexeme_keyword (k := .trueWord) (by decide) rfl, rfl, rfl, rfl, rfl⟩
  | falseWord =>
    cases ht
    exact ⟨Token.lexeme_keyword (k := .falseWord) (by decide) rfl, rfl, rfl, rfl, rfl⟩
  | prefixed _ _ => cases ht
  | binary _ _ _ _ => cases ht

theorem letters_render (h : e.Coherent) (hw : e.isWord = true) :
    ∀ c ∈ e.render.toList, isLetter c = true := by
  obtain ⟨t, ht⟩ := exists_leaf (.inl hw)
  have hl := h.isLeaf ht
  obtain ⟨cs, -, hcs, rfl⟩ := hl.lexeme.exists_word (hl.kind_isWord.trans hw)
  rw [hl.render]
  simpa [Token.word] using hcs

theorem digits_render (h : e.Coherent) (hn : e.isNumber = true) :
    ∀ c ∈ e.render.toList, c.isDigit = true := by
  obtain ⟨t, ht⟩ := exists_leaf (.inr hn)
  have hl := h.isLeaf ht
  obtain ⟨cs, -, hcs, rfl⟩ := hl.lexeme.exists_digits (beq_iff_eq.mp (hl.kind_isNumber.trans hn))
  rw [hl.render]
  simpa [Token.digits] using hcs

theorem word_or_int_of_leaf (h : e.Coherent) {t : Token} (ht : t ∈ e.leaf?) :
    t.kind.isWord = true ∨ t.kind = .int := by
  rcases h.kind_of_leaf ht with hk | ⟨hk, -⟩
  · exact .inl (TokenKind.isWord_of_mem_leafWords hk)
  · exact .inr hk

/-- Letters join words and digits join integers. -/
theorem joins_leaf (h : e.Coherent) {t : Token} (ht : t ∈ e.leaf?) (c : Char) :
    t.joins c = (e.isWord && isLetter c || e.isNumber && c.isDigit) := by
  have hl := h.isLeaf ht
  rcases h.word_or_int_of_leaf ht with hk | hk
  · have hw : e.isWord = true := hl.kind_isWord.symm.trans hk
    simp [Token.joins, hk, hw, isNumber_of_isWord hw]
  · have hn : e.isNumber = true := hl.kind_isNumber.symm.trans (beq_iff_eq.mpr hk)
    have hw : e.isWord = false := by rw [← hl.kind_isWord, hk]; rfl
    simp [Token.joins, hk, TokenKind.isWord, hw, hn]

/-- The class of the first character tells words, integers and operators apart. -/
theorem render_cons (h : e.Coherent) :
    ∃ c cs, e.render.toList = c :: cs ∧ isLetter c = e.isWord ∧ c.isDigit = e.isNumber ∧
      opensRendering c = true := by
  cases hleaf : e.leaf? with
  | some t =>
    have hl := h.isLeaf hleaf
    have hk := h.word_or_int_of_leaf hleaf
    obtain ⟨c, cs, hc, hletter, hdigit⟩ := hl.lexeme.literal_cons hk
    refine ⟨c, cs, by rw [hl.render, hc], hletter.trans hl.kind_isWord,
      hdigit.trans hl.kind_isNumber, ?_⟩
    rw [opensRendering, hletter, hdigit]
    rcases hk with hk | hk <;> simp [hk]
  | none =>
    cases h with
    | @prefixed t e _ _ =>
      refine ⟨'(', t.literal.toList ++ (e.render.toList ++ [')']), ?_, rfl, rfl, rfl⟩
      simp [render]
    | @binary t l r _ _ _ _ =>
      refine ⟨'(', l.render.toList ++
        ' ' :: (t.literal.toList ++ ' ' :: (r.render.toList ++ [')'])), ?_, rfl, rfl, rfl⟩
      simp [render]
    | _ => cases hleaf

/-- **A rendering scans to its own tokens,** unless the text after it goes on with a leaf. -/
theorem scan_render (h : e.Coherent) {rest : List Char} (hend : ∀ t ∈ e.leaf?, t.EndsBefore rest) :
    Token.scan (e.render.toList ++ rest) = e.spelled ++ Token.scan rest := by
  have leaf {e : Expr} {rest : List Char} (h : e.Coherent) {t : Token} (ht : t ∈ e.leaf?)
      (hend : ∀ t ∈ e.leaf?, t.EndsBefore rest) :
      Token.scan (e.render.toList ++ rest) = e.spelled ++ Token.scan rest := by
    have hl := h.isLeaf ht
    rw [hl.render, hl.spelled]
    exact Token.scan_lexeme hl.lexeme (hend t ht)
  induction h generalizing rest with
  | ident h => exact leaf (.ident h) rfl hend
  | int hk hne hd hv hle => exact leaf (.int hk hne hd hv hle) rfl hend
  | trueWord => exact leaf .trueWord rfl hend
  | falseWord => exact leaf .falseWord rfl hend
  | @prefixed t e ht h ih =>
    obtain ⟨c, cs, hc, -, -, hopen⟩ := h.render_cons
    have hop : t.EndsBefore (e.render.toList ++ ')' :: rest) := by
      rw [hc]
      exact Token.endsBefore_of_prefixOperator ht hopen _
    have hin := ih fun u _ => Token.endsBefore_closing u rest
    calc Token.scan ((Expr.prefixed t t.literal e).render.toList ++ rest)
        = Token.scan ('(' :: (t.literal.toList ++ (e.render.toList ++ ')' :: rest))) := by
          simp [render]
      _ = opening :: t :: (e.spelled ++ closing :: Token.scan rest) := by
          rw [Token.scan_opening, Token.scan_lexeme (Token.lexeme_prefixOperator ht) hop, hin,
            Token.scan_closing]
      _ = (Expr.prefixed t t.literal e).spelled ++ Token.scan rest := by simp [spelled]
  | @binary t l r hk ht hl hr ihl ihr =>
    have hleft := ihl fun u _ =>
      Token.endsBefore_space u (t.literal.toList ++ ' ' :: (r.render.toList ++ ')' :: rest))
    have hright := ihr fun u _ => Token.endsBefore_closing u rest
    calc Token.scan ((Expr.binary t t.literal l r).render.toList ++ rest)
        = Token.scan ('(' :: (l.render.toList ++
            ' ' :: (t.literal.toList ++ ' ' :: (r.render.toList ++ ')' :: rest)))) := by
          simp [render]
      _ = opening :: (l.spelled ++ t :: (r.spelled ++ closing :: Token.scan rest)) := by
          rw [Token.scan_opening, hleft, Token.scan_space,
            Token.scan_lexeme (Token.lexeme_binaryOperator hk ht) (Token.endsBefore_space t _),
            Token.scan_space, hright, Token.scan_closing]
      _ = (Expr.binary t t.literal l r).spelled ++ Token.scan rest := by simp [spelled]

/-- A leaf that is joined by what comes after it is lost: the next token is another one. -/
theorem next?_of_joins (h : e.Coherent) {t : Token} (ht : t ∈ e.leaf?) {c : Char}
    (hj : t.joins c = true) (cs : List Char) :
    ∃ u rest, Token.next? (e.render.toList ++ c :: cs) = some (u, rest) ∧
      u.kind ≠ .lParen ∧ u ≠ t := by
  obtain ⟨d, ds, hd, hl, hdig, hopen⟩ := h.render_cons
  have hn := Token.next?_cons (isBlank_of_opensRendering hopen) (ds ++ c :: cs)
  rw [← List.cons_append, ← hd] at hn
  refine ⟨_, _, hn, ?_, ?_⟩
  · intro hk
    rw [h.joins_leaf ht, Bool.or_eq_true, Bool.and_eq_true, Bool.and_eq_true] at hj
    rcases hj with ⟨hw, -⟩ | ⟨hn, -⟩
    · have := Token.isWord_first (ds ++ c :: cs) (hl.trans hw)
      rw [hk] at this
      cases this
    · have := Token.kind_first_of_isDigit (ds ++ c :: cs) (hdig.trans hn)
      rw [hk] at this
      cases this
  · rintro rfl
    rw [(h.isLeaf ht).render] at hn
    exact Token.next?_ne_of_joins (h.isLeaf ht).lexeme hj cs _ hn

/-- **The tokens of a rendering derive the tree.** An operator is two levels high, for its
parentheses count. -/
theorem derives_spelled (h : e.Coherent) (level : Nat) :
    Derives level (2 * e.height - 1) e e.spelled := by
  induction h generalizing level with
  | @ident id h =>
    obtain ⟨t, name⟩ := id
    obtain rfl : name = t.literal := h.name
    exact .ident h.kind
  | int hk _ _ hv hle => exact .int hk (integer?_eq_some_iff.mpr ⟨hv, hle⟩)
  | trueWord => exact .trueWord rfl
  | falseWord => exact .falseWord rfl
  | @prefixed t e ht _ ih =>
    have hk : t.kind = .bang ∨ t.kind = .minus := by rcases ht with rfl | rfl <;> simp
    have hn : 2 * (e.height + 1) - 1 = (2 * e.height - 1 + 1) + 1 := by
      have := e.height_pos
      omega
    rw [height, hn]
    exact .group rfl rfl (.prefixed hk (ih _))
  | @binary t l r hk ht _ _ ihl ihr =>
    obtain ⟨k, hop⟩ := Nat.exists_eq_add_one.mpr (TokenKind.mem_binaryOperators_iff.mp hk)
    have hn : 2 * (max l.height r.height + 1) - 1 =
        max (2 * l.height - 1) (2 * r.height - 1) + 1 + 1 := by
      have := l.height_pos
      have := r.height_pos
      omega
    have hs : (Expr.binary t t.literal l r).spelled =
        opening :: ((l.spelled ++ t :: r.spelled) ++ [closing]) := by simp [spelled]
    rw [height, hn, hs]
    exact .group rfl rfl (.binary hop (Nat.zero_le k) (ihl k) (ihr (k + 1)))

end Coherent

/-- A leaf has no other derivation than itself, apart from parentheses. -/
theorem Derives.eq_of_leaf {level n : Nat} {e : Expr} {t u : Token} {ts : List Token}
    (h : Derives level n e (u :: ts)) (ht : t ∈ e.leaf?) (hu : u.kind ≠ .lParen) : u = t := by
  generalize hus : u :: ts = us at h
  cases h with
  | ident _ | int _ _ | trueWord _ | falseWord _ =>
    cases ht
    cases hus
    rfl
  | prefixed _ _ => cases ht
  | group ho _ _ =>
    cases hus
    exact absurd ho hu
  | binary _ _ _ _ => cases ht

end Expr

end ExprLang
