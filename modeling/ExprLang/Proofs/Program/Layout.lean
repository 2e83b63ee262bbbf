import ExprLang.Program.Parser
import ExprLang.Proofs.Token.Tiling

/-!
# Layouts

* `Layout` — the blanks around and between the literals of a text.
* `Layout.text` — some tokens, written down in a layout.

Principal results: `scan_spread` — lexemes that are written down in a layout are scanned again;
`layout_irrelevant` — a text in another layout has the same tokens, the same program and the same
diagnostics.

Nothing in a literal says where it ends, so every gap between two literals holds a blank. The literals
themselves may be anything, also characters that fit nowhere.
-/

namespace ExprLang

/-- Blanks before the first literal, between each two literals, and after the last one. -/
structure Layout where
  before : List Char
  between : Nat → List Char
  after : List Char
  isBlank_before : ∀ c ∈ before, isBlank c = true
  isBlank_between : ∀ i, ∀ c ∈ between i, isBlank c = true
  between_ne_nil : ∀ i, between i ≠ []
  isBlank_after : ∀ c ∈ after, isBlank c = true

/-- Where blanks come first, every token ends. -/
theorem Token.endsBefore_of_isBlank (t : Token) {cs : List Char}
    (h : ∀ c ∈ cs.head?, isBlank c = true) : t.EndsBefore cs := by
  intro c hc
  exact t.joins_of_isBlank (h c hc)

namespace Layout

/-- One space between each two literals, and no other blanks. -/
instance : Inhabited Layout where
  default :=
    { before := []
      between := fun _ => [' ']
      after := []
      isBlank_before := by simp
      isBlank_between := by simp [isBlank]
      between_ne_nil := by simp
      isBlank_after := by simp }

/-- The literals, with the gap of number `i` behind the first one. -/
def spread (l : Layout) (i : Nat) : List Token → List Char
  | [] => []
  | [t] => t.literal.toList
  | t :: u :: ts => t.literal.toList ++ (l.between i ++ l.spread (i + 1) (u :: ts))

/-- The tokens as a text in this layout. -/
def text (l : Layout) (ts : List Token) : String :=
  String.ofList (l.before ++ (l.spread 0 ts ++ l.after))

/-- **Lexemes that are written down in a layout are scanned again.** -/
theorem scan_spread (l : Layout) {ts : List Token} (hts : ∀ t ∈ ts, Token.Lexeme t) (i : Nat) :
    Token.scan (l.spread i ts ++ l.after) = ts := by
  have hafter : Token.scan l.after = [] := by
    have h := Token.scan_blanks_append l.isBlank_after []
    rwa [List.append_nil, Token.scan_nil] at h
  induction ts generalizing i with
  | nil => exact hafter
  | cons t ts ih =>
    obtain ⟨ht, hts⟩ := List.forall_mem_cons.mp hts
    cases ts with
    | nil =>
      have he : t.EndsBefore l.after := by
        apply t.endsBefore_of_isBlank
        intro c hc
        exact l.isBlank_after c (List.mem_of_mem_head? hc)
      rw [spread, Token.scan_lexeme ht he, hafter]
    | cons u ts =>
      obtain ⟨b, gap, hb⟩ := List.exists_cons_of_ne_nil (l.between_ne_nil i)
      have he : t.EndsBefore (l.between i ++ (l.spread (i + 1) (u :: ts) ++ l.after)) := by
        rw [hb]
        exact .cons (t.joins_of_isBlank (l.isBlank_between i b (by simp [hb])))
      calc Token.scan (l.spread i (t :: u :: ts) ++ l.after)
          = Token.scan (t.literal.toList ++
              (l.between i ++ (l.spread (i + 1) (u :: ts) ++ l.after))) := by
            simp [spread]
        _ = t :: Token.scan (l.spread (i + 1) (u :: ts) ++ l.after) := by
            rw [Token.scan_lexeme ht he, Token.scan_blanks_append (l.isBlank_between i)]
        _ = t :: u :: ts := by rw [ih hts]

theorem ofText_text (l : Layout) {ts : List Token} (hts : ∀ t ∈ ts, Token.Lexeme t) :
    Token.ofText (l.text ts) = ts := by
  rw [Token.ofText, text, String.toList_ofList, Token.scan_blanks_append l.isBlank_before,
    l.scan_spread hts]

end Layout

/-- **The layout of a text is irrelevant.** Whatever blanks there are around the literals of a text,
and however many between each two of them, its tokens are the same, kinds and literals, and so are its
program and its diagnostics. -/
theorem layout_irrelevant (source : String) (l : Layout) :
    let text := l.text (Token.ofText source)
    Token.ofText text = Token.ofText source ∧ parse text = parse source := by
  intro text
  have htokens : Token.ofText text = Token.ofText source :=
    l.ofText_text fun _ => Token.lexeme_of_mem_scan
  refine ⟨htokens, ?_⟩
  rw [parse_eq, parse_eq, htokens]

/-- The layout with a space between each two literals. -/
example : (default : Layout).text (Token.ofText "\tlet x=5;é") = "let x = 5 ; é" := by
  decide +kernel

end ExprLang
