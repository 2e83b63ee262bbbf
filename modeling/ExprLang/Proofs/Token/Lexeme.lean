import ExprLang.Token.Scan
import Mathlib.Data.List.TakeWhile

/-!
# Lexemes and seams

* `isSymbol` — the characters that belong to no run.
* `TokenKind.symbols` — the kinds that are written like their names.
* `Token.Lexeme` — the tokens that a text can hold, by the class of their characters.
* `Token.joins` — the characters that would make a token longer, or another token.
* `Token.EndsBefore` — a token that ends where a text begins.

Principal results: `next?_lexeme` — a lexeme that ends before a text is the next token of the two
together; `lexeme_of_mem_scan` — a text holds lexemes only; `scan_append` — two texts scan apart
when the last token of the first one ends before the second one.
-/

namespace ExprLang

/-- The letters lie in one range of code points, with a few other characters. -/
theorem toNat_of_isLetter {c : Char} (h : isLetter c = true) : 65 ≤ c.toNat ∧ c.toNat ≤ 122 := by
  rw [isLetter, Bool.or_eq_true, beq_iff_eq] at h
  rcases h with ha | rfl
  · rcases (Bool.or_eq_true _ _).mp ha with hu | hl
    · have hlow : 65 ≤ c.toNat := UInt32.le_iff_toNat_le.mp (of_decide_eq_true hu).1
      have hhigh : c.toNat ≤ 90 := UInt32.le_iff_toNat_le.mp (of_decide_eq_true hu).2
      omega
    · obtain ⟨hlow, hhigh⟩ := (Bool.and_eq_true _ _).mp hl
      have hlow : 97 ≤ c.toNat := UInt32.le_iff_toNat_le.mp (of_decide_eq_true hlow)
      have hhigh : c.toNat ≤ 122 := UInt32.le_iff_toNat_le.mp (of_decide_eq_true hhigh)
      omega
  · decide

theorem isLetter_of_isDigit {c : Char} (h : c.isDigit = true) : isLetter c = false := by
  have hd : 48 ≤ c.toNat ∧ c.toNat ≤ 57 := Char.isDigit_iff_toNat.mp h
  rw [← Bool.not_eq_true]
  intro hl
  have := toNat_of_isLetter hl
  omega

theorem isDigit_of_isLetter {c : Char} (h : isLetter c = true) : c.isDigit = false := by
  rw [← Bool.not_eq_true]
  intro hd
  rw [isLetter_of_isDigit hd] at h
  cases h

theorem isBlank_eq_true_iff {c : Char} :
    isBlank c = true ↔ c = ' ' ∨ c = '\t' ∨ c = '\n' ∨ c = '\r' := by
  simp [isBlank, or_assoc]

theorem isBlank_of_isLetter {c : Char} (h : isLetter c = true) : isBlank c = false := by
  rw [← Bool.not_eq_true, isBlank_eq_true_iff]
  rintro (rfl | rfl | rfl | rfl) <;> exact absurd h (by decide)

theorem isBlank_of_isDigit {c : Char} (h : c.isDigit = true) : isBlank c = false := by
  rw [← Bool.not_eq_true, isBlank_eq_true_iff]
  rintro (rfl | rfl | rfl | rfl) <;> exact absurd h (by decide)

/-- The characters that belong to no run. -/
def isSymbol (c : Char) : Bool := !isBlank c && !isLetter c && !c.isDigit

theorem isSymbol_eq_true_iff {c : Char} :
    isSymbol c = true ↔ isBlank c = false ∧ isLetter c = false ∧ c.isDigit = false := by
  simp [isSymbol, and_assoc]

/-- The kinds whose tokens are runs of letters. -/
def TokenKind.isWord : TokenKind → Bool
  | ident | fnWord | letWord | trueWord | falseWord | ifWord | elseWord | returnWord => true
  | _ => false

theorem TokenKind.isWord_ofWord (w : String) : (ofWord w).isWord = true := by
  unfold ofWord
  repeat' split
  all_goals rfl

/-- The word of a keyword's kind. -/
def TokenKind.keyword : TokenKind → String
  | fnWord => "fn"
  | letWord => "let"
  | trueWord => "true"
  | falseWord => "false"
  | ifWord => "if"
  | elseWord => "else"
  | returnWord => "return"
  | _ => ""

theorem TokenKind.eq_keyword {w : String} {k : TokenKind} (h : ofWord w = k) (hk : k ≠ .ident) :
    w = k.keyword := by
  subst h
  unfold ofWord at hk ⊢
  repeat' split
  all_goals first | assumption | simp_all

theorem TokenKind.letters_keyword (k : TokenKind) :
    ∀ c ∈ k.keyword.toList, isLetter c = true := by
  rw [← List.all_eq_true]
  cases k <;> rfl

theorem TokenKind.isWord_ofSymbol (c : Char) : (ofSymbol c).isWord = false := by
  unfold ofSymbol
  split <;> rfl

theorem TokenKind.ofSymbol_ne_int (c : Char) : ofSymbol c ≠ .int := by
  unfold ofSymbol
  split <;> simp

/-- The kinds of the symbols; each one is written like its name. -/
def TokenKind.symbols : List TokenKind :=
  [assign, plus, minus, bang, asterisk, slash, lt, gt, eq, notEq, comma, semicolon, lParen, rParen,
    lBrace, rBrace]

/-- A character that is illegal by itself is no symbol, and every other one is the symbol of its
kind. -/
theorem TokenKind.ofSymbol_cases (c : Char) :
    ofSymbol c = .illegal ∨ ofSymbol c ∈ symbols ∧ (ofSymbol c).name = String.singleton c := by
  unfold ofSymbol
  split
  all_goals first | exact .inl rfl | exact .inr (by decide)

namespace Token

/-- The characters that would make the token longer, or another token, if they came right after. -/
def joins (t : Token) (c : Char) : Bool :=
  if t.kind.isWord then isLetter c
  else
    match t.kind with
    | .int => c.isDigit
    | .assign | .bang => c == '='
    | _ => false

/-- Nothing at the head of the text joins the token. -/
def EndsBefore (t : Token) (cs : List Char) : Prop := ∀ c ∈ cs.head?, t.joins c = false

/-- The tokens of texts: a run of letters, a run of digits, a pair, or a single other character. -/
inductive Lexeme : Token → Prop
  | word {cs : List Char} (hne : cs ≠ []) (h : ∀ c ∈ cs, isLetter c = true) : Lexeme (word cs)
  | digits {cs : List Char} (hne : cs ≠ []) (h : ∀ c ∈ cs, c.isDigit = true) : Lexeme (digits cs)
  | eq : Lexeme ⟨.eq, "=="⟩
  | notEq : Lexeme ⟨.notEq, "!="⟩
  | symbol {c : Char} (h : isSymbol c = true) : Lexeme (symbol c)

theorem lexeme_of_letters {t : Token} (hne : t.literal ≠ "")
    (h : ∀ c ∈ t.literal.toList, isLetter c = true) (hk : t.kind = .ofWord t.literal) :
    Lexeme t := by
  have ht : t = word t.literal.toList := by
    rw [word, String.ofList_toList, ← hk]
  rw [ht]
  exact .word (by simpa using hne) h

theorem lexeme_of_digits {t : Token} (hne : t.literal ≠ "")
    (h : ∀ c ∈ t.literal.toList, c.isDigit = true) (hk : t.kind = .int) : Lexeme t := by
  have ht : t = digits t.literal.toList := by
    rw [digits, String.ofList_toList, ← hk]
  rw [ht]
  exact .digits (by simpa using hne) h

theorem lexeme_keyword {k : TokenKind} (hne : k.keyword ≠ "") (hk : .ofWord k.keyword = k) :
    Lexeme ⟨k, k.keyword⟩ :=
  lexeme_of_letters hne k.letters_keyword hk.symm

theorem lexeme_symbolKind {k : TokenKind} (hk : k ∈ TokenKind.symbols) : Lexeme ⟨k, k.name⟩ := by
  have spelled : ∀ k ∈ TokenKind.symbols, k = .eq ∨ k = .notEq ∨
      k.name.toList.any fun c => isSymbol c && symbol c == ⟨k, k.name⟩ := by decide
  rcases spelled k hk with rfl | rfl | h
  · exact .eq
  · exact .notEq
  · obtain ⟨c, -, h⟩ := List.any_eq_true.mp h
    obtain ⟨hc, h⟩ := Bool.and_eq_true_iff.mp h
    rw [← eq_of_beq h]
    exact .symbol hc

namespace Lexeme

variable {t : Token}

theorem exists_word (h : Lexeme t) (hk : t.kind.isWord = true) :
    ∃ cs, cs ≠ [] ∧ (∀ c ∈ cs, isLetter c = true) ∧ t = Token.word cs := by
  cases h with
  | word hne h => exact ⟨_, hne, h, rfl⟩
  | digits _ _ => cases hk
  | eq => cases hk
  | notEq => cases hk
  | @symbol c _ => exact absurd hk (by simp [Token.symbol, TokenKind.isWord_ofSymbol])

/-- A keyword is the only token of its kind. -/
theorem eq_keyword {k : TokenKind} (h : Lexeme t) (hk : t.kind = k) (hw : k.isWord = true)
    (hi : k ≠ .ident) : t = ⟨k, k.keyword⟩ := by
  subst hk
  obtain ⟨cs, -, -, rfl⟩ := h.exists_word hw
  exact congrArg _ (TokenKind.eq_keyword rfl hi)

theorem exists_digits (h : Lexeme t) (hk : t.kind = .int) :
    ∃ cs, cs ≠ [] ∧ (∀ c ∈ cs, c.isDigit = true) ∧ t = Token.digits cs := by
  cases h with
  | @word cs _ _ =>
    have hw : (Token.word cs).kind.isWord = true := TokenKind.isWord_ofWord _
    rw [hk] at hw
    cases hw
  | digits hne h => exact ⟨_, hne, h, rfl⟩
  | eq => cases hk
  | notEq => cases hk
  | symbol _ => exact absurd hk (TokenKind.ofSymbol_ne_int _)

/-- The first character of a word or an integer tells which of the two it is. -/
theorem literal_cons (h : Lexeme t) (hk : t.kind.isWord = true ∨ t.kind = .int) :
    ∃ c cs, t.literal.toList = c :: cs ∧ isLetter c = t.kind.isWord ∧
      c.isDigit = (t.kind == .int) := by
  rcases hk with hk | hk
  · obtain ⟨cs, hne, hcs, rfl⟩ := h.exists_word hk
    obtain ⟨c, cs, rfl⟩ := List.exists_cons_of_ne_nil hne
    have hc := hcs c List.mem_cons_self
    refine ⟨c, cs, by simp [Token.word], hc.trans hk.symm, ?_⟩
    rw [isDigit_of_isLetter hc]
    symm
    rw [beq_eq_false_iff_ne]
    intro he
    rw [he] at hk
    cases hk
  · obtain ⟨cs, hne, hcs, rfl⟩ := h.exists_digits hk
    obtain ⟨c, cs, rfl⟩ := List.exists_cons_of_ne_nil hne
    have hc := hcs c List.mem_cons_self
    exact ⟨c, cs, by simp [Token.digits], isLetter_of_isDigit hc, hc⟩

/-- A symbol is written like its kind. -/
theorem literal_eq_name (h : Lexeme t) (hk : t.kind ∈ TokenKind.symbols) :
    t.literal = t.kind.name := by
  have plain : ∀ k ∈ TokenKind.symbols, k.isWord = false ∧ k ≠ .int ∧ k ≠ .illegal := by decide
  obtain ⟨hw, hi, hb⟩ := plain t.kind hk
  cases h with
  | word _ _ => simp [Token.word, TokenKind.isWord_ofWord] at hw
  | digits _ _ => exact absurd rfl hi
  | eq => rfl
  | notEq => rfl
  | @symbol c _ =>
    rcases TokenKind.ofSymbol_cases c with hc | ⟨-, hn⟩
    · exact absurd hc hb
    · exact hn.symm

end Lexeme

theorem joins_word (cs : List Char) (c : Char) : (word cs).joins c = isLetter c := by
  simp [joins, word, TokenKind.isWord_ofWord]

theorem joins_digits (cs : List Char) (c : Char) : (digits cs).joins c = c.isDigit := by
  simp [joins, digits, TokenKind.isWord]

theorem joins_symbol_of_ne {c d : Char} (h : d ≠ '=') : (symbol c).joins d = false := by
  unfold symbol joins TokenKind.ofSymbol
  split <;> simp_all [TokenKind.isWord]

/-- Only `=` and `!` change with what comes after them. -/
theorem joins_symbol {c d : Char} (h1 : c ≠ '=') (h2 : c ≠ '!') : (symbol c).joins d = false := by
  unfold symbol joins TokenKind.ofSymbol
  split <;> simp_all [TokenKind.isWord]

/-- A blank joins nothing, nor does any other character that is no letter, digit or `=`. -/
theorem joins_eq_false (t : Token) {c : Char} (hl : isLetter c = false) (hd : c.isDigit = false)
    (he : c ≠ '=') : t.joins c = false := by
  unfold joins
  split
  · exact hl
  · split <;> simp_all

theorem joins_of_isBlank (t : Token) {b : Char} (hb : isBlank b = true) : t.joins b = false := by
  rcases isBlank_eq_true_iff.mp hb with rfl | rfl | rfl | rfl
  all_goals exact joins_eq_false t rfl rfl (by decide)

theorem EndsBefore.nil (t : Token) : t.EndsBefore [] := by simp [EndsBefore]

theorem EndsBefore.cons {t : Token} {c : Char} {cs : List Char} (h : t.joins c = false) :
    t.EndsBefore (c :: cs) := by
  simpa [EndsBefore] using h

theorem EndsBefore.of_cons {t : Token} {c : Char} {cs : List Char} (h : t.EndsBefore (c :: cs)) :
    t.joins c = false := h c rfl

/-- Where a run stops, its class does not go on. -/
theorem head?_dropWhile_eq_false {α : Type} {p : α → Bool} {l : List α} {a : α}
    (h : a ∈ (l.dropWhile p).head?) : p a = false := by
  have := List.head?_dropWhile_not p l
  rw [Option.mem_def.mp h] at this
  simpa using this

theorem lexeme_first {c : Char} (cs : List Char) (hb : isBlank c = false) :
    Lexeme (first c cs).1 := by
  have run {p : Char → Bool} (hc : p c = true) : ∀ d ∈ c :: cs.takeWhile p, p d = true := by
    rintro d (_ | ⟨_, hd⟩)
    · exact hc
    · exact List.mem_takeWhile_imp hd
  unfold first
  split
  · exact .word (by simp) (run (by assumption))
  · split
    · exact .digits (by simp) (run (by assumption))
    · split
      · exact .eq
      · exact .notEq
      · exact .symbol (isSymbol_eq_true_iff.mpr ⟨hb, by simp_all, by simp_all⟩)

/-- A token takes all that joins it. -/
theorem endsBefore_first (c : Char) (cs : List Char) :
    (first c cs).1.EndsBefore (first c cs).2 := by
  unfold first
  split
  · intro d hd
    rw [joins_word]
    exact head?_dropWhile_eq_false hd
  · split
    · intro d hd
      rw [joins_digits]
      exact head?_dropWhile_eq_false hd
    · split
      · simp [EndsBefore, joins, TokenKind.isWord]
      · simp [EndsBefore, joins, TokenKind.isWord]
      · rename_i h1 h2
        intro d hd
        by_cases hd' : d = '='
        · subst hd'
          obtain ⟨rest, rfl⟩ := List.head?_eq_some_iff.mp hd
          exact joins_symbol (fun he => h1 rest he rfl) (fun he => h2 rest he rfl)
        · exact joins_symbol_of_ne hd'

theorem isWord_first {c : Char} (cs : List Char) (h : isLetter c = true) :
    (first c cs).1.kind.isWord = true := by
  simp [first, h, word, TokenKind.isWord_ofWord]

theorem kind_first_of_isDigit {c : Char} (cs : List Char) (h : c.isDigit = true) :
    (first c cs).1.kind = .int := by
  simp [first, isLetter_of_isDigit h, h, digits]

/-- A lexeme that ends before a text is what scanning the two together begins with. -/
theorem first_lexeme {t : Token} {cs : List Char} (ht : Lexeme t) (he : t.EndsBefore cs) :
    ∃ c rest, t.literal.toList ++ cs = c :: rest ∧ isBlank c = false ∧ first c rest = (t, cs) := by
  -- a run goes up to where its class stops, and `cs` does not continue it
  have stop {p : Char → Bool} (hp : ∀ c ∈ cs.head?, p c = false) :
      cs.takeWhile p = [] ∧ cs.dropWhile p = cs := by
    cases cs with
    | nil => simp
    | cons d ds => simp [hp d rfl]
  cases ht with
  | @word run hne h =>
    obtain ⟨c, ds, rfl⟩ := List.exists_cons_of_ne_nil hne
    simp only [List.mem_cons, forall_eq_or_imp] at h
    obtain ⟨htake, hdrop⟩ := stop fun d hd => joins_word (c :: ds) d ▸ he d hd
    refine ⟨c, ds ++ cs, by simp [word], isBlank_of_isLetter h.1, ?_⟩
    simp [first, h.1, List.takeWhile_append_of_pos h.2, List.dropWhile_append_of_pos h.2, htake,
      hdrop]
  | @digits run hne h =>
    obtain ⟨c, ds, rfl⟩ := List.exists_cons_of_ne_nil hne
    simp only [List.mem_cons, forall_eq_or_imp] at h
    obtain ⟨htake, hdrop⟩ := stop fun d hd => joins_digits (c :: ds) d ▸ he d hd
    refine ⟨c, ds ++ cs, by simp [digits], isBlank_of_isDigit h.1, ?_⟩
    simp [first, isLetter_of_isDigit h.1, h.1, List.takeWhile_append_of_pos h.2,
      List.dropWhile_append_of_pos h.2, htake, hdrop]
  | eq => exact ⟨'=', '=' :: cs, by simp, rfl, rfl⟩
  | notEq => exact ⟨'!', '=' :: cs, by simp, rfl, rfl⟩
  | @symbol c h =>
    obtain ⟨hb, hl, hd⟩ := isSymbol_eq_true_iff.mp h
    refine ⟨c, cs, by simp [symbol], hb, ?_⟩
    unfold first
    rw [if_neg (by simp [hl]), if_neg (by simp [hd])]
    split
    · exact absurd he.of_cons (by decide)
    · exact absurd he.of_cons (by decide)
    · rfl

theorem next?_cons_of_isBlank {b : Char} (hb : isBlank b = true) (cs : List Char) :
    next? (b :: cs) = next? cs := by
  simp [next?, hb]

/-- **A lexeme that ends before a text is the next token of the two together.** -/
theorem next?_lexeme {t : Token} {cs : List Char} (ht : Lexeme t) (he : t.EndsBefore cs) :
    next? (t.literal.toList ++ cs) = some (t, cs) := by
  obtain ⟨c, rest, hc, hb, hf⟩ := first_lexeme ht he
  simp [hc, next?, hb, hf]

/-- What comes next is a lexeme, and it ends before what is left. -/
theorem lexeme_next? {cs rest : List Char} {t : Token} (h : next? cs = some (t, rest)) :
    Lexeme t ∧ t.EndsBefore rest := by
  unfold next? at h
  split at h
  · cases h
  · rename_i c tail hd
    have hc : c ∈ (cs.dropWhile isBlank).head? := by simp [hd]
    have hl := lexeme_first tail (head?_dropWhile_eq_false hc)
    have he := endsBefore_first c tail
    simp only [Option.some.injEq] at h
    rw [h] at hl he
    exact ⟨hl, he⟩

/-- A lexeme in front of a character that joins it is not the next token of the two together. -/
theorem next?_ne_of_joins {t : Token} {c : Char} (ht : Lexeme t) (hj : t.joins c = true)
    (cs rest : List Char) : next? (t.literal.toList ++ c :: cs) ≠ some (t, rest) := by
  intro h
  obtain ⟨d, ds, hd, hb, -⟩ := first_lexeme ht (.nil t)
  have happ := takeWhile_append_literal_append h
  rw [List.append_nil] at hd
  rw [hd, List.cons_append, List.takeWhile_cons_of_neg (by simp [hb]), List.nil_append,
    ← List.cons_append] at happ
  have hend := (lexeme_next? h).2
  rw [List.append_cancel_left happ] at hend
  rw [hend.of_cons] at hj
  cases hj

theorem next?_cons {c : Char} (hb : isBlank c = false) (cs : List Char) :
    next? (c :: cs) = some ((first c cs).1, (first c cs).2) := by
  simp [next?, hb]

theorem scan_nil : scan [] = [] := scan_eq_nil (by simp [next?])

/-- A text without tokens is blank. -/
theorem isBlank_of_scan_eq_nil {cs : List Char} (h : scan cs = []) :
    ∀ c ∈ cs, isBlank c = true := by
  cases hn : next? cs with
  | none => exact List.dropWhile_eq_nil_iff.mp (dropWhile_eq_nil_of_next? hn)
  | some next =>
    rw [scan_eq_cons hn] at h
    cases h

theorem scan_cons_of_isBlank {b : Char} (hb : isBlank b = true) (cs : List Char) :
    scan (b :: cs) = scan cs := by
  cases hn : next? cs with
  | none => rw [scan_eq_nil hn, scan_eq_nil (by rw [next?_cons_of_isBlank hb, hn])]
  | some next =>
    obtain ⟨t, rest⟩ := next
    rw [scan_eq_cons hn, scan_eq_cons (by rw [next?_cons_of_isBlank hb, hn])]

theorem scan_blanks_append {gap : List Char} (hg : ∀ b ∈ gap, isBlank b = true) (cs : List Char) :
    scan (gap ++ cs) = scan cs := by
  induction gap with
  | nil => rfl
  | cons b gap ih =>
    rw [List.cons_append, scan_cons_of_isBlank (hg b (by simp)), ih fun c hc => hg c (by simp [hc])]

theorem scan_lexeme {t : Token} {cs : List Char} (ht : Lexeme t) (he : t.EndsBefore cs) :
    scan (t.literal.toList ++ cs) = t :: scan cs :=
  scan_eq_cons (next?_lexeme ht he)

/-- A character that is a token by itself ends in front of every text. -/
theorem scan_symbol {c : Char} (h : isSymbol c = true) (h1 : c ≠ '=') (h2 : c ≠ '!')
    (cs : List Char) : scan (c :: cs) = symbol c :: scan cs := by
  have he : (symbol c).EndsBefore cs := by
    intro d _
    exact joins_symbol h1 h2
  simpa [symbol] using scan_lexeme (.symbol h) he

theorem lexeme_of_mem_scan {cs : List Char} {t : Token} (h : t ∈ scan cs) : Lexeme t := by
  fun_induction scan cs with
  | case1 cs hn => cases h
  | case2 cs u rest hn ih =>
    rcases List.mem_cons.mp h with rfl | h
    · exact (lexeme_next? hn).1
    · exact ih h

/-- **Two texts scan apart if the last token of the first one ends before the second one.** -/
theorem scan_append {a b : List Char} (h : ∀ t ∈ (scan a).getLast?, t.EndsBefore b) :
    scan (a ++ b) = scan a ++ scan b := by
  fun_induction scan a with
  | case1 a hn =>
    have hb := List.dropWhile_eq_nil_iff.mp (dropWhile_eq_nil_of_next? hn)
    rw [scan_blanks_append hb, List.nil_append]
  | case2 a t rest hn ih =>
    have ha := takeWhile_append_literal_append hn
    obtain ⟨ht, he⟩ := lexeme_next? hn
    have hb : ∀ c ∈ a.takeWhile isBlank, isBlank c = true :=
      fun c hc => List.mem_takeWhile_imp hc
    have hrest : ∀ u ∈ (scan rest).getLast?, u.EndsBefore b := by
      intro u hu
      refine h u ?_
      rw [List.getLast?_cons, Option.mem_def.mp hu]
      rfl
    have he' : t.EndsBefore (rest ++ b) := by
      cases rest with
      | nil => exact h t (by simp [scan_nil])
      | cons c rest => exact .cons he.of_cons
    calc scan (a ++ b)
        = scan (a.takeWhile isBlank ++ (t.literal.toList ++ (rest ++ b))) := by
          rw [← List.append_assoc t.literal.toList, ← List.append_assoc, ha]
      _ = t :: scan (rest ++ b) := by rw [scan_blanks_append hb, scan_lexeme ht he']
      _ = t :: scan rest ++ scan b := by rw [ih hrest]; rfl

end Token

end ExprLang
