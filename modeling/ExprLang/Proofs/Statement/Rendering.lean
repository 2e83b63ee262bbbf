import ExprLang.Proofs.Expr.Rendering
import ExprLang.Proofs.Statement.Derivation

/-!
# Statements in their rendering

* `Statement.Coherent` — the statement agrees with its tokens, apart from the first token of an
  expression by itself.
* `Statement.spelled` — the tokens of the rendering.
* `Statement.reread` — the statement as it comes back, with the first token of its rendering.
* `Statement.forgetToken` — the statement without the first token of an expression by itself.
* `fuses` — the rendering of the next statement would make the last token longer.

Principal results: `scan_render` — in front of a text that does not join its leaf, a rendering scans
to its own tokens; `derives_spelled` — these tokens derive the statement; `Derives.coherent` — a
statement that is derived from lexemes is coherent.
-/

namespace ExprLang

/-- The first token opens a rendering: a word, an integer or a parenthesis. -/
def TokenKind.opensRendering (k : TokenKind) : Bool := k.isWord || k == .int || k == .lParen

theorem Token.opensRendering_first {c : Char} (cs : List Char)
    (h : ExprLang.opensRendering c = true) : (first c cs).1.kind.opensRendering = true := by
  rcases opensRendering_eq_true_iff.mp h with h | h | rfl
  · simp [TokenKind.opensRendering, isWord_first cs h]
  · simp [TokenKind.opensRendering, kind_first_of_isDigit cs h]
  · rfl

/-- A statement stops in front of the tokens, and they do not begin with its semicolon. -/
def Opens (rest : List Token) : Prop := Expr.Stops 0 rest ∧ skipSemicolon rest = rest

theorem opens_cons {t : Token} (h : t.kind.opensRendering = true) (ts : List Token) :
    Opens (t :: ts) := by
  have plain (k : TokenKind) (hk : k.opensRendering = true) :
      k.precedence.rank = 0 ∧ k ≠ .semicolon := by
    revert hk
    cases k <;> decide
  obtain ⟨hrank, hne⟩ := plain t.kind h
  exact ⟨.cons (Nat.le_of_eq hrank), by simp [skipSemicolon, hne]⟩

/-- The text of statements opens with a word, an integer or a parenthesis, or there is none. -/
theorem opens_scan {cs : List Char} (h : ∀ c ∈ cs.head?, opensRendering c = true) :
    Opens (Token.scan cs) := by
  cases cs with
  | nil =>
    rw [Token.scan_nil]
    exact ⟨.nil 0, rfl⟩
  | cons c cs =>
    have hc := h c rfl
    rw [Token.scan_eq_cons (Token.next?_cons (isBlank_of_opensRendering hc) cs)]
    exact opens_cons (Token.opensRendering_first cs hc) _

namespace Token

/-- The sign between the name and the value of a binding. -/
def assignSign : Token := ⟨.assign, "="⟩

/-- The end of a binding or return. -/
def semicolon : Token := ⟨.semicolon, ";"⟩

theorem endsBefore_semicolon (t : Token) (cs : List Char) : t.EndsBefore (';' :: cs) :=
  .cons (joins_eq_false t rfl rfl (by decide))

theorem scan_semicolon (cs : List Char) : scan (';' :: cs) = semicolon :: scan cs :=
  scan_symbol rfl (by decide) (by decide) cs

theorem scan_assignSign_space (cs : List Char) :
    scan ('=' :: ' ' :: cs) = assignSign :: scan cs := by
  have hl : Lexeme assignSign := .symbol (c := '=') rfl
  have h := scan_lexeme hl (endsBefore_space _ cs)
  rwa [scan_space] at h

/-- A token, a blank, and what comes after it. -/
theorem scan_lexeme_space {t : Token} (ht : Lexeme t) (cs : List Char) :
    scan (t.literal.toList ++ ' ' :: cs) = t :: scan cs := by
  rw [scan_lexeme ht (endsBefore_space t cs), scan_space]

end Token

namespace Statement

open ExprLang.Expr (Stops)

/-- The statement could come from a text, as far as its nodes and their tokens are concerned; the
first token of an expression by itself is not looked at. -/
inductive Coherent : Statement → Prop
  | binding {name : Ident} {value : Expr} (hn : name.Coherent) (hv : value.Coherent) :
      Coherent (.binding ⟨.letWord, "let"⟩ name value)
  | ret {value : Expr} (hv : value.Coherent) : Coherent (.ret ⟨.returnWord, "return"⟩ value)
  | expr {t : Token} {value : Expr} (hv : value.Coherent) : Coherent (.expr t value)

/-- The statement without the first token of an expression by itself. -/
def forgetToken : Statement → Statement
  | expr _ value => expr Token.eof value
  | s => s

/-- The token at the end of a rendering, if it is neither a parenthesis nor a semicolon. -/
def leaf? : Statement → Option Token
  | expr _ value => value.leaf?
  | _ => none

/-- The tokens that the rendering is made of. -/
def spelled : Statement → List Token
  | binding token name value =>
    token :: name.token :: .assignSign :: (value.spelled ++ [.semicolon])
  | ret token value => token :: (value.spelled ++ [.semicolon])
  | expr _ value => value.spelled

/-- The statement as it comes back from its rendering. -/
def reread : Statement → Statement
  | expr _ value => expr (value.spelled.headD Token.eof) value
  | s => s

theorem forgetToken_reread (s : Statement) : s.reread.forgetToken = s.forgetToken := by
  cases s <;> rfl

theorem render_reread (s : Statement) : s.reread.render = s.render := by
  cases s <;> rfl

/-- A name or a truth value by itself. -/
def isWord : Statement → Bool
  | expr _ value => value.isWord
  | _ => false

/-- An integer by itself. -/
def isNumber : Statement → Bool
  | expr _ value => value.isNumber
  | _ => false

/-- The rendering begins with a word: a keyword, or one that stands by itself. -/
def beginsWord : Statement → Bool
  | expr _ value => value.isWord
  | _ => true

/-- The rendering of the next statement makes the last token longer. -/
def fuses (s next : Statement) : Bool :=
  s.isWord && next.beginsWord || s.isNumber && next.isNumber

theorem isNumber_of_isWord {s : Statement} (h : s.isWord = true) : s.isNumber = false := by
  cases s with
  | expr _ value => exact Expr.isNumber_of_isWord h
  | _ => rfl

theorem fuses_of_isWord {s : Statement} (h : s.isWord = true) (next : Statement) :
    s.fuses next = next.beginsWord := by
  simp [fuses, h, isNumber_of_isWord h]

theorem fuses_of_isNumber {s : Statement} (h : s.isNumber = true) (next : Statement) :
    s.fuses next = next.isNumber := by
  have hw : s.isWord = false := by
    rw [← Bool.not_eq_true]
    intro hw
    rw [isNumber_of_isWord hw] at h
    cases h
  simp [fuses, h, hw]

theorem fuses_eq_false {s : Statement} (hw : s.isWord = false) (hn : s.isNumber = false)
    (next : Statement) : s.fuses next = false := by
  simp [fuses, hw, hn]

namespace Coherent

variable {s : Statement}

/-- The class of the first character tells words, integers and operators apart. -/
theorem render_cons (h : s.Coherent) :
    ∃ c cs, s.render.toList = c :: cs ∧ isLetter c = s.beginsWord ∧ c.isDigit = s.isNumber ∧
      opensRendering c = true := by
  cases h with
  | binding _ _ => exact ⟨'l', _, by simp [render]; rfl, rfl, rfl, rfl⟩
  | ret _ => exact ⟨'r', _, by simp [render]; rfl, rfl, rfl, rfl⟩
  | expr hv => exact hv.render_cons

/-- The leaf of a statement is joined exactly by the renderings that fuse with it. -/
theorem joins_leaf (h : s.Coherent) {t : Token} (ht : t ∈ s.leaf?) {next : Statement}
    (hn : next.Coherent) : ∀ c ∈ next.render.toList.head?, t.joins c = s.fuses next := by
  obtain ⟨c, cs, hc, hl, hd, -⟩ := hn.render_cons
  rw [hc]
  rintro _ ⟨⟩
  cases h with
  | binding _ _ => cases ht
  | ret _ => cases ht
  | expr hv => rw [hv.joins_leaf ht, hl, hd, fuses, isWord, isNumber]

theorem letters_render (h : s.Coherent) (hw : s.isWord = true) :
    ∀ c ∈ s.render.toList, isLetter c = true := by
  cases h with
  | binding _ _ => cases hw
  | ret _ => cases hw
  | expr hv => exact hv.letters_render hw

theorem digits_render (h : s.Coherent) (hn : s.isNumber = true) :
    ∀ c ∈ s.render.toList, c.isDigit = true := by
  cases h with
  | binding _ _ => cases hn
  | ret _ => cases hn
  | expr hv => exact hv.digits_render hn

/-- What begins with a word and is none by itself begins with a keyword and a blank. -/
theorem exists_keyword (h : s.Coherent) (hb : s.beginsWord = true) (hw : s.isWord = false) :
    ∃ k ∈ [TokenKind.letWord, .returnWord], ∃ cs,
      s.render.toList = k.keyword.toList ++ ' ' :: cs := by
  cases h with
  | @binding name value _ _ =>
    exact ⟨.letWord, by simp, name.name.toList ++ " = ".toList ++ value.render.toList ++ [';'],
      by simp [render, TokenKind.keyword]⟩
  | @ret value _ =>
    exact ⟨.returnWord, by simp, value.render.toList ++ [';'],
      by simp [render, TokenKind.keyword]⟩
  | expr _ => exact absurd (hw.symm.trans hb) nofun

theorem exists_leaf_of_fuses (h : s.Coherent) {next : Statement} (hf : s.fuses next = true) :
    ∃ t, t ∈ s.leaf? := by
  cases h with
  | binding _ _ => cases hf
  | ret _ => cases hf
  | expr _ =>
    rw [fuses, Bool.or_eq_true, Bool.and_eq_true, Bool.and_eq_true] at hf
    exact Expr.exists_leaf (hf.imp And.left And.left)

/-- **A rendering scans to its own tokens,** unless the text after it goes on with a leaf. -/
theorem scan_render (h : s.Coherent) {rest : List Char}
    (hend : ∀ t ∈ s.leaf?, t.EndsBefore rest) :
    Token.scan (s.render.toList ++ rest) = s.spelled ++ Token.scan rest := by
  cases h with
  | @binding name value hn hv =>
    have hkey : Token.Lexeme ⟨.letWord, "let"⟩ :=
      Token.lexeme_keyword (k := .letWord) (by decide) rfl
    have hval := hv.scan_render fun t _ => Token.endsBefore_semicolon t rest
    calc Token.scan ((Statement.binding ⟨.letWord, "let"⟩ name value).render.toList ++ rest)
        = Token.scan ("let".toList ++ ' ' :: (name.token.literal.toList ++ ' ' :: '=' :: ' ' ::
            (value.render.toList ++ ';' :: rest))) := by
          simp [render, hn.name]
      _ = ⟨.letWord, "let"⟩ :: name.token :: .assignSign ::
            (value.spelled ++ .semicolon :: Token.scan rest) := by
          rw [Token.scan_lexeme_space hkey, Token.scan_lexeme_space hn.lexeme,
            Token.scan_assignSign_space, hval, Token.scan_semicolon]
      _ = _ := by simp [spelled]
  | @ret value hv =>
    have hkey : Token.Lexeme ⟨.returnWord, "return"⟩ :=
      Token.lexeme_keyword (k := .returnWord) (by decide) rfl
    have hval := hv.scan_render fun t _ => Token.endsBefore_semicolon t rest
    calc Token.scan ((Statement.ret ⟨.returnWord, "return"⟩ value).render.toList ++ rest)
        = Token.scan ("return".toList ++ ' ' :: (value.render.toList ++ ';' :: rest)) := by
          simp [render]
      _ = ⟨.returnWord, "return"⟩ :: (value.spelled ++ .semicolon :: Token.scan rest) := by
          rw [Token.scan_lexeme_space hkey, hval, Token.scan_semicolon]
      _ = _ := by simp [spelled]
  | expr hv => exact hv.scan_render hend

/-- **The tokens of a rendering derive the statement,** up to a semicolon; behind them the next
statement may follow. -/
theorem derives_spelled (h : s.Coherent) {rest : List Token} (hr : Opens rest) :
    ∃ t body left, s.spelled ++ rest = t :: (body ++ left) ∧
      Derives (2 * s.value.height - 1) s.reread (t :: body) ∧ Stops 0 left ∧
      skipSemicolon left = rest := by
  have hsemi : Stops 0 (.semicolon :: rest) := .cons (Nat.le_refl 0)
  cases h with
  | @binding name value hn hv =>
    obtain ⟨t, n⟩ := name
    obtain rfl : n = t.literal := hn.name
    have hsign : Token.assignSign.kind = .assign := rfl
    refine ⟨_, _, .semicolon :: rest, ?_, .binding rfl hn.kind hsign (hv.derives_spelled 0),
      hsemi, rfl⟩
    simp [spelled]
  | @ret value hv =>
    refine ⟨_, _, .semicolon :: rest, ?_, .ret rfl (hv.derives_spelled 0), hsemi, rfl⟩
    simp [spelled]
  | @expr t value hv =>
    have hd := hv.derives_spelled 0
    obtain ⟨u, us, hu⟩ := List.exists_cons_of_ne_nil hd.ne_nil
    refine ⟨u, us, rest, by simp [spelled, hu], ?_, hr.1, hr.2⟩
    rw [hu] at hd
    rw [reread, hu]
    exact .expr hd

end Coherent

/-- **A statement that is derived from lexemes is coherent.** -/
theorem Derives.coherent {n : Nat} {s : Statement} {ts : List Token} (h : Derives n s ts)
    (hts : ∀ t ∈ ts, Token.Lexeme t) : s.Coherent := by
  cases h with
  | @binding keyword name _ _ _ hk hn _ h =>
    obtain rfl := (hts keyword (by simp)).eq_keyword hk rfl nofun
    apply Coherent.binding (Ident.coherent_of_lexeme (hts name (by simp)) hn)
    apply h.coherent
    intro t ht
    exact hts t (by simp [ht])
  | @ret keyword _ _ hk h =>
    obtain rfl := (hts keyword (by simp)).eq_keyword hk rfl nofun
    apply Coherent.ret
    apply h.coherent
    intro t ht
    exact hts t (by simp [ht])
  | expr h => exact .expr (h.coherent hts)

end Statement

end ExprLang
