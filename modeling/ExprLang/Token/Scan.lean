import ExprLang.Token

/-!
# From text to tokens

* `isBlank`, `isLetter` — the character classes; digits and letters are those of ASCII.
* `ofSymbol` — the kind of a character that is a token by itself.
* `word`, `digits`, `symbol` — the tokens of a run of letters, a run of digits, one character.
* `first` — the longest token at the head of a text, with the text after it.
* `next?` — the same after any blanks; none if only blanks are left.
* `scan`, `ofText` — all tokens of a text, without an end marker.

Every character that is not a blank belongs to exactly one token, so scanning never fails: a
character that fits nowhere is an illegal token of its own.
-/

namespace ExprLang

/-- Blanks separate tokens and belong to none. -/
def isBlank (c : Char) : Bool := c == ' ' || c == '\t' || c == '\n' || c == '\r'

/-- Words are made of the letters of ASCII and the underscore. -/
def isLetter (c : Char) : Bool := c.isAlpha || c == '_'

/-- The kind of a character that is a token by itself. -/
def TokenKind.ofSymbol (c : Char) : TokenKind :=
  match c with
  | '=' => assign
  | '+' => plus
  | '-' => minus
  | '!' => bang
  | '*' => asterisk
  | '/' => slash
  | '<' => lt
  | '>' => gt
  | ',' => comma
  | ';' => semicolon
  | '(' => lParen
  | ')' => rParen
  | '{' => lBrace
  | '}' => rBrace
  | _ => illegal

namespace Token

/-- The word token made of these characters. -/
def word (cs : List Char) : Token := ⟨.ofWord (String.ofList cs), String.ofList cs⟩

/-- The integer token made of these digits. -/
def digits (cs : List Char) : Token := ⟨.int, String.ofList cs⟩

/-- The token made of one character. -/
def symbol (c : Char) : Token := ⟨.ofSymbol c, String.singleton c⟩

/-- The longest token that starts with `c`, and what follows it. -/
def first (c : Char) (cs : List Char) : Token × List Char :=
  if isLetter c then (word (c :: cs.takeWhile isLetter), cs.dropWhile isLetter)
  else if c.isDigit then (digits (c :: cs.takeWhile Char.isDigit), cs.dropWhile Char.isDigit)
  else
    match c, cs with
    | '=', '=' :: rest => (⟨.eq, "=="⟩, rest)
    | '!', '=' :: rest => (⟨.notEq, "!="⟩, rest)
    | c, cs => (symbol c, cs)

/-- A token and what follows it make up the text. -/
theorem literal_first_append (c : Char) (cs : List Char) :
    (first c cs).1.literal.toList ++ (first c cs).2 = c :: cs := by
  unfold first
  split
  · simp [word]
  · split
    · simp [digits]
    · split <;> simp [symbol]

theorem kind_ofWord_ne_eof (w : String) : TokenKind.ofWord w ≠ .eof := by
  unfold TokenKind.ofWord
  repeat' split
  all_goals simp

theorem kind_ofSymbol_ne_eof (c : Char) : TokenKind.ofSymbol c ≠ .eof := by
  unfold TokenKind.ofSymbol
  split <;> simp

/-- The end of input is never found inside a text. -/
theorem kind_first_ne_eof (c : Char) (cs : List Char) : (first c cs).1.kind ≠ .eof := by
  unfold first
  split
  · exact kind_ofWord_ne_eof _
  · split
    · simp [digits]
    · split
      · simp
      · simp
      · exact kind_ofSymbol_ne_eof _

/-- The first token after any blanks, and what follows it. -/
def next? (cs : List Char) : Option (Token × List Char) :=
  match cs.dropWhile isBlank with
  | [] => none
  | c :: rest => some (first c rest)

theorem length_dropWhile_le (p : Char → Bool) (cs : List Char) :
    (cs.dropWhile p).length ≤ cs.length :=
  (List.dropWhile_sublist p).length_le

/-- A token takes at least its first character. -/
theorem length_first_le (c : Char) (cs : List Char) : (first c cs).2.length ≤ cs.length := by
  unfold first
  split
  · exact length_dropWhile_le _ _
  · split
    · exact length_dropWhile_le _ _
    · split <;> simp

theorem length_next?_lt {cs rest : List Char} {t : Token} (h : next? cs = some (t, rest)) :
    rest.length < cs.length := by
  unfold next? at h
  split at h
  · cases h
  · rename_i c tail hd
    have hle := length_dropWhile_le isBlank cs
    have hf := length_first_le c tail
    simp only [Option.some.injEq] at h
    rw [h] at hf
    rw [hd, List.length_cons] at hle
    simp only at hf
    omega

/-- All tokens of a text, in order. -/
def scan (cs : List Char) : List Token :=
  match _h : next? cs with
  | none => []
  | some (t, rest) => t :: scan rest
termination_by cs.length
decreasing_by exact length_next?_lt _h

/-- The tokens of a string. -/
def ofText (text : String) : List Token := scan text.toList

/-- Blanks, a token and what follows it make up the text. -/
theorem takeWhile_append_literal_append {cs rest : List Char} {t : Token}
    (h : next? cs = some (t, rest)) :
    cs.takeWhile isBlank ++ (t.literal.toList ++ rest) = cs := by
  unfold next? at h
  split at h
  · cases h
  · rename_i c tail hd
    have hl := literal_first_append c tail
    simp only [Option.some.injEq] at h
    rw [h] at hl
    rw [hl, ← hd, List.takeWhile_append_dropWhile]

theorem kind_next?_ne_eof {cs rest : List Char} {t : Token} (h : next? cs = some (t, rest)) :
    t.kind ≠ .eof := by
  unfold next? at h
  split at h
  · cases h
  · rename_i c tail _
    have hk := kind_first_ne_eof c tail
    simp only [Option.some.injEq] at h
    rwa [h] at hk

theorem dropWhile_eq_nil_of_next? {cs : List Char} (h : next? cs = none) :
    cs.dropWhile isBlank = [] := by
  unfold next? at h
  split at h
  · assumption
  · cases h

theorem scan_eq_nil {cs : List Char} (h : next? cs = none) : scan cs = [] := by
  unfold scan
  split <;> simp_all

theorem scan_eq_cons {cs rest : List Char} {t : Token} (h : next? cs = some (t, rest)) :
    scan cs = t :: scan rest := by
  rw [scan]
  split <;> simp_all

end Token

end ExprLang
