import ExprLang.Proofs.Token.Calls
import ExprLang.Proofs.Shell.Control
import ExprLang.Proofs.Text.Unquoted

/-!
# Decoding a listing of tokens

* `TokenKind.ofName?` — the kind that has a given name.
* `tokenText` — a line of a listing, without its end.

Principal results: `Token.display_inj` — a token is told by its display; `prefixFree_tokenLine` —
and by its line in a listing; `listing_decodable` — so a listing shows all the tokens of a line, one
by one.

A name holds no space, so the first space ends it. In a listing all names are filled up to the same
width, and the rest of a line is in front of the quoted literal, whose closing quote ends it.
-/

namespace ExprLang

open Text

/-! ## Names of kinds -/

namespace TokenKind

/-- Every kind there is. -/
def all : List TokenKind :=
  [illegal, eof, ident, int, assign, plus, minus, bang, asterisk, slash, lt, gt, eq, notEq, comma,
    semicolon, lParen, rParen, lBrace, rBrace, fnWord, letWord, trueWord, falseWord, ifWord, elseWord,
    returnWord]

/-- The kind that has this name. -/
def ofName? (name : String) : Option TokenKind := all.find? fun k => k.name == name

theorem ofName?_name (k : TokenKind) : ofName? k.name = some k := by
  cases k <;> rfl

theorem name_injective : Function.Injective name := by
  intro k k' h
  have hk := congrArg ofName? h
  rwa [ofName?_name, ofName?_name, Option.some.injEq] at hk

theorem space_not_mem_name (k : TokenKind) : ' ' ∉ k.name.toList := by
  cases k <;> decide

/-- The first space ends a name. -/
theorem takeWhile_name_append (k : TokenKind) (r : List Char) :
    (k.name.toList ++ ' ' :: r).takeWhile (· ≠ ' ') = k.name.toList := by
  have hname : ∀ c ∈ k.name.toList, decide (c ≠ ' ') = true := by
    intro c hc
    exact decide_eq_true fun he => k.space_not_mem_name (he ▸ hc)
  rw [List.takeWhile_append_of_pos hname]
  simp

theorem eq_of_name_append {k k' : TokenKind} {r s : List Char}
    (h : k.name.toList ++ ' ' :: r = k'.name.toList ++ ' ' :: s) : k = k' ∧ r = s := by
  have hname := congrArg (List.takeWhile (· ≠ ' ')) h
  rw [takeWhile_name_append, takeWhile_name_append] at hname
  obtain rfl : k = k' := name_injective (String.toList_inj.mp hname)
  exact ⟨rfl, (List.cons_eq_cons.mp (List.append_cancel_left h)).2⟩

end TokenKind

/-- **A token is told by its display.** -/
theorem Token.display_inj {t u : Token} (h : t.display = u.display) : t = u := by
  have hchars := congrArg String.toList h
  simp only [Token.display, String.toList_append, List.append_assoc] at hchars
  obtain ⟨hkind, hquote⟩ := TokenKind.eq_of_name_append hchars
  obtain ⟨hliteral, -⟩ := prefixFree_quote t.literal u.literal [] [] (congrArg (· ++ []) hquote)
  cases t
  cases u
  simp_all

namespace Shell

/-! ## Lines of a listing -/

/-- The column is as wide as the longest name. -/
theorem length_column (k : TokenKind) : (kindColumn.fit k.name).toList.length = 8 := by
  rw [Column.fit, String.toList_ofList, Column.length_fitChars _ _ rfl]
  cases k <;> rfl

theorem toList_column (k : TokenKind) :
    (kindColumn.fit k.name).toList = k.name.toList ++ List.replicate (8 - k.name.toList.length) ' ' := by
  simp [Column.fit, Column.fitChars, kindColumn, Align.before]

/-- A kind is told by its column. -/
theorem column_injective : Function.Injective fun k : TokenKind => kindColumn.fit k.name := by
  intro k k' h
  have hchars : (kindColumn.fit k.name).toList ++ [' '] = (kindColumn.fit k'.name).toList ++ [' '] :=
    congrArg (fun s : String => s.toList ++ [' ']) h
  rw [toList_column, toList_column, List.append_assoc, List.append_assoc,
    ← List.replicate_succ', ← List.replicate_succ', List.replicate_succ, List.replicate_succ] at hchars
  exact (TokenKind.eq_of_name_append hchars).1

/-- What has the same width in the same paint can be told apart. -/
theorem paint_append_inj {color : Bool} {c : Rgb} {a b : String} {r s : List Char}
    (hlen : a.toList.length = b.toList.length)
    (h : (paint color c a).toList ++ r = (paint color c b).toList ++ s) : a = b ∧ r = s := by
  cases color with
  | false =>
    obtain ⟨hab, hrs⟩ := List.append_inj h hlen
    exact ⟨String.toList_inj.mp hab, hrs⟩
  | true =>
    simp only [paint, if_true, Rgb.paint, String.toList_append, List.append_assoc] at h
    obtain ⟨hab, hrest⟩ := List.append_inj (List.append_cancel_left h) hlen
    exact ⟨String.toList_inj.mp hab, List.append_cancel_left hrest⟩

/-- The kind in its column and the quoted literal. -/
def tokenText (color : Bool) (t : Token) : String :=
  paint color Palette.kind (kindColumn.fit t.kind.name) ++ " " ++ quote t.literal

theorem tokenLine_eq (color : Bool) (t : Token) : tokenLine color t = tokenText color t ++ "\n" := rfl

theorem tokenLine_ne_empty (color : Bool) (t : Token) : tokenLine color t ≠ "" := by
  simp [tokenLine_eq]

/-- **A token is told by its line, wherever the line stands.** -/
theorem prefixFree_tokenLine (color : Bool) : PrefixFree (tokenLine color) := by
  intro t u r s h
  simp only [tokenLine, String.toList_append, List.append_assoc] at h
  have hlen := (length_column t.kind).trans (length_column u.kind).symm
  obtain ⟨hcolumn, hrest⟩ := paint_append_inj hlen h
  obtain ⟨hliteral, hend⟩ := prefixFree_quote _ _ _ _ (List.append_cancel_left hrest)
  have hkind : t.kind = u.kind := column_injective hcolumn
  refine ⟨?_, List.append_cancel_left hend⟩
  cases t
  cases u
  simp_all

/-- A line of a listing is one line only, whatever literal it quotes. -/
theorem newline_not_mem_tokenText (color : Bool) (t : Token) : '\n' ∉ (tokenText color t).toList := by
  have visible {s : String} (h : Visible s) : '\n' ∉ s.toList := by
    intro hm
    exact absurd (h '\n' hm) (by decide)
  have hcolumn := visible (visible_column t)
  have hquote := visible (visible_quote t.literal)
  have hstart : '\n' ∉ Palette.kind.start.toList := by decide
  have hstop : '\n' ∉ Rgb.stop.toList := by decide
  cases color <;> simp [tokenText, paint, Rgb.paint, hcolumn, hquote, hstart, hstop]

theorem answer_tokens_eq_iff (color : Bool) (line line' : String) :
    answer .tokens color line = answer .tokens color line' ↔
      Token.ofText line = Token.ofText line' := by
  constructor
  · exact (prefixFree_tokenLine color).join (tokenLine_ne_empty color)
  · intro h
    rw [answer, answer, outputLines, outputLines, h]

/-- **A listing of tokens can be decoded.** Two tokens with the same display are the same, whatever
their kinds and literals are. In plain text as in colours, two lines have the same listing exactly
if they have the same tokens. A listing has one line for each token of its line, none of which is an
end token, and nothing else. -/
theorem listing_decodable (color : Bool) (line line' : String) :
    (∀ t u : Token, t.display = u.display ↔ t = u) ∧
      (answer .tokens color line = answer .tokens color line' ↔
        Token.ofText line = Token.ofText line') ∧
      ∃ bodies : List String,
        answer .tokens color line = String.join (bodies.map (· ++ "\n")) ∧
          (∀ body ∈ bodies, '\n' ∉ body.toList) ∧
          bodies.length = (Token.ofText line).length ∧
          ∀ t ∈ Token.ofText line, t.kind ≠ .eof := by
  refine ⟨fun t u => ⟨Token.display_inj, congrArg Token.display⟩, answer_tokens_eq_iff color line line',
    (Token.ofText line).map (tokenText color), ?_, ?_, List.length_map _, ?_⟩
  · rw [answer, outputLines, List.map_map]
    rfl
  · intro body hb
    obtain ⟨t, -, rfl⟩ := List.mem_map.mp hb
    exact newline_not_mem_tokenText color t
  · intro t ht
    exact (Token.lexeme_of_mem_scan ht).kind_ne_eof

end Shell

end ExprLang
