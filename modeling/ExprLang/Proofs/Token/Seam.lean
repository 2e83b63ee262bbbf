import ExprLang.Proofs.Token.Lexeme

/-!
# Where two texts fuse

* `Token.Fused` — the first text ends with a token that the second one goes on with.

Principal result: `ofText_append_iff` — the tokens of two texts together are those of the one and then
those of the other, exactly if the texts do not fuse.

A blank at the end of the first text keeps them apart, whatever its last token is. Without one the last
token ends where the second text begins, and whether that is its end, the next character decides.
-/

namespace ExprLang

namespace Token

/-- The first text does not end in a blank, and its last token is made longer, or another token, by what
the second one begins with. -/
def Fused (a b : List Char) : Prop :=
  (∀ c ∈ a.getLast?, isBlank c = false) ∧ ∃ t ∈ (scan a).getLast?, ∃ c ∈ b.head?, t.joins c = true

variable {a b : List Char}

theorem joins_eq_true_iff {t : Token} {c : Char} :
    t.joins c = true ↔ t.kind.isWord = true ∧ isLetter c = true ∨ t.kind = .int ∧ c.isDigit = true ∨
      (t.kind = .assign ∨ t.kind = .bang) ∧ c = '=' := by
  unfold joins
  cases t.kind <;> simp [TokenKind.isWord]

/-- A blank between two texts keeps them apart. -/
theorem scan_append_cons_of_isBlank {c : Char} (hc : isBlank c = true) (a b : List Char) :
    scan (a ++ c :: b) = scan a ++ scan b := by
  rw [scan_append, scan_cons_of_isBlank hc]
  intro t _
  exact .cons (t.joins_of_isBlank hc)

/-- A blank at the end of a text keeps it apart from every other text. -/
theorem scan_concat_append {c : Char} (hc : isBlank c = true) (a b : List Char) :
    scan (a ++ [c] ++ b) = scan (a ++ [c]) ++ scan b := by
  rw [List.append_assoc, List.singleton_append, scan_append_cons_of_isBlank hc,
    scan_append_cons_of_isBlank hc, scan_nil, List.append_nil]

/-- **Texts that do not fuse scan apart.** -/
theorem scan_append_of_not_fused (h : ¬ Fused a b) : scan (a ++ b) = scan a ++ scan b := by
  by_cases hblank : ∃ c ∈ a.getLast?, isBlank c = true
  · obtain ⟨c, hc, hblank⟩ := hblank
    obtain ⟨a, rfl⟩ := List.getLast?_eq_some_iff.mp hc
    exact scan_concat_append hblank a b
  · have hlast : ∀ c ∈ a.getLast?, isBlank c = false :=
      fun c hc => Bool.eq_false_iff.mpr fun hb => hblank ⟨c, hc, hb⟩
    apply scan_append
    intro t ht c hc
    exact Bool.eq_false_iff.mpr fun hj => h ⟨hlast, t, ht, c, hc, hj⟩

/-- A text that does not end in a blank ends in a token. -/
theorem scan_ne_nil_of_getLast (hne : a ≠ []) (hlast : ∀ c ∈ a.getLast?, isBlank c = false) :
    scan a ≠ [] := by
  intro hs
  have hblank := isBlank_of_scan_eq_nil hs _ (List.getLast_mem hne)
  rw [hlast _ (List.getLast?_eq_some_getLast hne)] at hblank
  cases hblank

/-- A lexeme is lost in front of a character that joins it. -/
theorem scan_lexeme_append_ne {t : Token} {c : Char} (ht : Lexeme t) (hj : t.joins c = true)
    (cs : List Char) (ts : List Token) : scan (t.literal.toList ++ c :: cs) ≠ t :: ts := by
  intro h
  cases hn : next? (t.literal.toList ++ c :: cs) with
  | none =>
    rw [scan_eq_nil hn] at h
    cases h
  | some next =>
    obtain ⟨u, rest⟩ := next
    rw [scan_eq_cons hn] at h
    obtain ⟨rfl, -⟩ := List.cons_eq_cons.mp h
    exact next?_ne_of_joins ht hj cs rest hn

/-- **Texts that fuse do not scan apart.** -/
theorem scan_append_ne_of_fused (h : Fused a b) : scan (a ++ b) ≠ scan a ++ scan b := by
  obtain ⟨hlast, t, ht, c, hc, hj⟩ := h
  obtain ⟨cs, rfl⟩ := List.head?_eq_some_iff.mp hc
  fun_induction scan a with
  | case1 a hn => cases ht
  | case2 a u rest hn ih =>
    have ha := takeWhile_append_literal_append hn
    obtain ⟨hu, he⟩ := lexeme_next? hn
    have hgap : ∀ d ∈ a.takeWhile isBlank, isBlank d = true :=
      fun d hd => List.mem_takeWhile_imp hd
    have hscan : scan (a ++ c :: cs) = scan (u.literal.toList ++ (rest ++ c :: cs)) := by
      calc scan (a ++ c :: cs)
          = scan (a.takeWhile isBlank ++ (u.literal.toList ++ (rest ++ c :: cs))) := by
            rw [← List.append_assoc u.literal.toList, ← List.append_assoc, ha]
        _ = scan (u.literal.toList ++ (rest ++ c :: cs)) := scan_blanks_append hgap _
    rw [hscan]
    cases rest with
    | nil =>
      -- the text ends with this token, which goes on
      obtain rfl : u = t := by simpa [scan_nil] using ht
      exact scan_lexeme_append_ne hu hj cs _
    | cons d rest =>
      have hlast' : ∀ e ∈ (d :: rest).getLast?, isBlank e = false := by
        intro e he
        apply hlast
        rw [← ha]
        simpa using he
      have hne : scan (d :: rest) ≠ [] := scan_ne_nil_of_getLast (List.cons_ne_nil d rest) hlast'
      have ht' : t ∈ (scan (d :: rest)).getLast? := by
        rwa [List.getLast?_cons_of_ne_nil hne] at ht
      rw [List.cons_append, scan_lexeme hu (.cons he.of_cons)]
      intro heq
      exact ih hlast' ht' (List.cons_eq_cons.mp heq).2

end Token

/-- **Scanning takes two texts apart exactly if they do not fuse:** unless the first one ends, without a
blank, in a word and the second one begins with a letter, in an integer and it begins with a digit, or
in a single `=` or `!` and it begins with `=`. -/
theorem ofText_append_iff (a b : String) :
    Token.ofText (a ++ b) = Token.ofText a ++ Token.ofText b ↔
      ¬ ((∀ c ∈ a.toList.getLast?, isBlank c = false) ∧
        ∃ t ∈ (Token.ofText a).getLast?, ∃ c ∈ b.toList.head?,
          t.kind.isWord = true ∧ isLetter c = true ∨ t.kind = .int ∧ c.isDigit = true ∨
            (t.kind = .assign ∨ t.kind = .bang) ∧ c = '=') := by
  have h : Token.ofText (a ++ b) = Token.ofText a ++ Token.ofText b ↔
      ¬ Token.Fused a.toList b.toList := by
    rw [Token.ofText, String.toList_append]
    constructor
    · intro heq hf
      exact Token.scan_append_ne_of_fused hf heq
    · exact Token.scan_append_of_not_fused
  rw [h]
  simp only [Token.Fused, Token.joins_eq_true_iff]
  rfl

/-- Three signs in a row are apart behind the second one only. -/
example : Token.ofText ("==" ++ "=") = Token.ofText "==" ++ Token.ofText "=" ∧
    Token.ofText ("=" ++ "==") ≠ Token.ofText "=" ++ Token.ofText "==" := by
  decide +kernel

end ExprLang
