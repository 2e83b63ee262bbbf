import ExprLang.Program.Parser
import ExprLang.Proofs.Program.Segment
import ExprLang.Proofs.Token.Tiling

/-!
# The tokens that a tree stores

* `Expr.tokens`, `Statement.tokens` — the tokens stored in a tree, in the order of the text.
* `Statement.Keeps` — the statement stores all of a segment but its punctuation.
* `upToSemicolon` — the tokens up to the first semicolon, and with it.
* `Attempt.Accounts`, `Attempt.Accounted` — attempts beside the segments they were made at.

Principal results: `Expr.Derives.tokens_eq`, `Statement.Derives.keeps` — a tree stores the tokens it
is derived from; `Attempt.Takes.accounts` — an attempt accounts for its segment; `tokens_accounted` —
the tokens of a text are the segments of its attempts, one after the other.

Nothing is left in a tree of parentheses, of the sign of a binding and of the semicolon at the end of
a statement. Every other token of a statement that is kept is stored once, in its place.
-/

namespace ExprLang

/-- The kinds of which a tree stores nothing. -/
def TokenKind.isPunctuation : TokenKind → Bool
  | lParen | rParen | assign | semicolon => true
  | _ => false

theorem TokenKind.isPunctuation_of_precedence {k : TokenKind} (h : 0 < k.precedence.rank) :
    k.isPunctuation = false := by
  revert h
  cases k <;> decide

namespace Expr

/-- An operator stands before its only operand, or between its two operands. -/
def tokens : Expr → List Token
  | ident id => [id.token]
  | int token _ => [token]
  | bool token _ => [token]
  | prefixed op _ operand => op :: operand.tokens
  | binary op _ left right => left.tokens ++ op :: right.tokens

variable {level n : Nat} {e : Expr} {ts : List Token}

/-- **A tree stores the tokens that it is derived from,** but for the parentheses. -/
theorem Derives.tokens_eq (h : Derives level n e ts) :
    e.tokens = ts.filter fun t => !t.kind.isPunctuation := by
  induction h with
  | ident hk | int hk _ | trueWord hk | falseWord hk =>
    simp [tokens, hk, TokenKind.isPunctuation]
  | prefixed hk _ ih =>
    rcases hk with hk | hk <;> simp [tokens, hk, TokenKind.isPunctuation, ih]
  | group ho hc _ ih => simp [ho, hc, TokenKind.isPunctuation, ih]
  | binary hop _ _ _ ihl ihr =>
    have hp := TokenKind.isPunctuation_of_precedence (Nat.lt_of_lt_of_eq (Nat.succ_pos _) hop.symm)
    simp [tokens, hp, ihl, ihr]

/-- No sign of a binding is part of an expression. -/
theorem Derives.ne_assign (h : Derives level n e ts) : ∀ t ∈ ts, t.kind ≠ .assign :=
  h.kind_ne rfl rfl nofun

end Expr

theorem getElem?_kind_ne {k : TokenKind} {ts : List Token} (h : ∀ t ∈ ts, t.kind ≠ k) (i : Nat) :
    (ts.map Token.kind)[i]? ≠ some k := by
  intro hi
  obtain ⟨t, ht, hk⟩ := List.mem_map.mp (List.mem_of_getElem? hi)
  exact h t ht hk

theorem IsEnd.ne_assign {last : List Token} (h : IsEnd last) : ∀ t ∈ last, t.kind ≠ .assign := by
  rcases h with rfl | ⟨semi, hs, rfl⟩
  · simp
  · simp [hs]

theorem IsEnd.filter_eq_nil {last : List Token} (h : IsEnd last) :
    (last.filter fun t => !t.kind.isPunctuation) = [] := by
  rcases h with rfl | ⟨semi, hs, rfl⟩
  · rfl
  · simp [hs, TokenKind.isPunctuation]

namespace Statement

/-- The keyword comes first, and the name of a binding second. The token of an expression by itself is
not counted: it is the first token of its text, which may be a parenthesis. -/
def tokens : Statement → List Token
  | binding keyword name value => keyword :: name.token :: value.tokens
  | ret keyword value => keyword :: value.tokens
  | expr _ value => value.tokens

def isBinding : Statement → Bool
  | binding _ _ _ => true
  | _ => false

/-- The statement stores the tokens of the segment, all but the punctuation. A semicolon stands at the
end of the segment only, and a sign only in the third place of a binding. -/
structure Keeps (s : Statement) (segment : List Token) : Prop where
  first : segment.head? = some s.token
  semicolon : ∀ t ∈ segment.dropLast, t.kind ≠ .semicolon
  sign : ∀ i, (segment.map Token.kind)[i]? = some .assign ↔ i = 2 ∧ s.isBinding = true
  tokens : s.tokens = segment.filter fun t => !t.kind.isPunctuation

variable {n : Nat} {s : Statement} {body last : List Token}

theorem Derives.head_eq (h : Derives n s body) : body.head? = some s.token := by
  cases h <;> rfl

theorem Derives.tokens_eq (h : Derives n s body) :
    s.tokens = body.filter fun t => !t.kind.isPunctuation := by
  cases h with
  | binding hk hn hs h => simp [tokens, hk, hn, hs, TokenKind.isPunctuation, h.tokens_eq]
  | ret hk h => simp [tokens, hk, TokenKind.isPunctuation, h.tokens_eq]
  | expr h => exact h.tokens_eq

theorem Derives.sign_iff (h : Derives n s body) (hl : IsEnd last) (i : Nat) :
    ((body ++ last).map Token.kind)[i]? = some .assign ↔ i = 2 ∧ s.isBinding = true := by
  cases h with
  | @binding keyword name sign value ts hk hn hs h =>
    -- Three tokens stand in front of the value, and the sign is the last of them.
    have hts := getElem?_kind_ne (List.forall_mem_append.mpr ⟨h.ne_assign, hl.ne_assign⟩)
    match i with
    | 0 => simp [hk]
    | 1 => simp [hn]
    | 2 => simp [hs, isBinding]
    | i + 3 => simpa using hts i
  | @ret keyword value ts hk h =>
    have hbody : ∀ t ∈ keyword :: ts, t.kind ≠ .assign :=
      List.forall_mem_cons.mpr ⟨by simp [hk], h.ne_assign⟩
    have hne := List.forall_mem_append.mpr ⟨hbody, hl.ne_assign⟩
    simpa [isBinding] using getElem?_kind_ne hne i
  | expr h =>
    have hne := List.forall_mem_append.mpr ⟨h.ne_assign, hl.ne_assign⟩
    simpa [isBinding] using getElem?_kind_ne hne i

/-- **A statement stores the tokens that it is derived from,** but for the punctuation. -/
theorem Derives.keeps (h : Derives n s body) (hl : IsEnd last) : s.Keeps (body ++ last) where
  first := by rw [List.head?_append_of_ne_nil _ h.ne_nil, h.head_eq]
  semicolon := by
    rcases hl with rfl | ⟨semi, -, rfl⟩
    · intro t ht
      rw [List.append_nil] at ht
      exact h.ne_semicolon t (List.dropLast_subset _ ht)
    · rw [List.dropLast_concat]
      exact h.ne_semicolon
  sign := h.sign_iff hl
  tokens := by rw [List.filter_append, ← h.tokens_eq, hl.filter_eq_nil, List.append_nil]

end Statement

/-- The tokens up to the first semicolon, and with it; all tokens if there is none. -/
def upToSemicolon : List Token → List Token
  | [] => []
  | t :: ts => if t.kind = .semicolon then [t] else t :: upToSemicolon ts

theorem upToSemicolon_append {body : List Token} (hb : ∀ t ∈ body, t.kind ≠ .semicolon)
    (rest : List Token) : upToSemicolon (body ++ rest) = body ++ upToSemicolon rest := by
  induction body with
  | nil => rfl
  | cons t body ih =>
    obtain ⟨ht, hb⟩ := List.forall_mem_cons.mp hb
    simp [upToSemicolon, ht, ih hb]

namespace Attempt

/-- The attempt accounts for a segment of tokens in front of `rest`: the statement that is kept stores
it, and a failure goes from its first token up to the first semicolon. -/
inductive Accounts (rest : List Token) : Attempt → List Token → Prop
  | kept {s : Statement} {segment : List Token} (h : s.Keeps segment) :
      Accounts rest (.kept s.token s) segment
  | failed {first stop : Token} {d : Diagnostic} {segment : List Token}
      (hf : segment.head? = some first) (h : segment = upToSemicolon (segment ++ rest)) :
      Accounts rest (.failed first d stop) segment

/-- One segment for each attempt, in the same order. -/
inductive Accounted : List Attempt → List (List Token) → Prop
  | nil : Accounted [] []
  | cons {a : Attempt} {as : List Attempt} {segment : List Token} {segments : List (List Token)}
      (h : a.Accounts segments.flatten segment) (hs : Accounted as segments) :
      Accounted (a :: as) (segment :: segments)

theorem Accounts.ne_nil {rest segment : List Token} {a : Attempt} (h : a.Accounts rest segment) :
    segment ≠ [] := by
  rintro rfl
  cases h with
  | kept h => cases h.first
  | failed hf _ => cases hf

theorem Accounted.nil_not_mem {as : List Attempt} {segments : List (List Token)}
    (h : Accounted as segments) : [] ∉ segments := by
  induction h with
  | nil => exact List.not_mem_nil
  | cons ha _ ih =>
    intro hm
    rcases List.mem_cons.mp hm with he | hm
    · exact ha.ne_nil he.symm
    · exact ih hm

/-- **An attempt accounts for the segment that it takes.** -/
theorem Takes.accounts {rest segment : List Token} {a : Attempt} (h : Takes rest a segment) :
    a.Accounts rest segment := by
  cases h with
  | kept hd _ hl =>
    obtain rfl := Option.some.inj hd.head_eq
    exact .kept (hd.keeps hl)
  | @skipped t stop d body ht hb hs =>
    refine .failed ht ?_
    rw [List.append_assoc, upToSemicolon_append hb]
    simp [upToSemicolon, hs]
  | ended hb hr =>
    subst hr
    refine .failed rfl ?_
    rw [upToSemicolon_append hb, upToSemicolon, List.append_nil]

/-- **A run to the end accounts for all tokens.** -/
theorem Run.accounted {ts rest : List Token} {as : List Attempt} (h : Run ts as rest)
    (hr : rest = []) : ∃ segments, ts = segments.flatten ∧ Accounted as segments := by
  induction h with
  | nil => exact ⟨[], by simpa using hr, .nil⟩
  | cons ha _ ih =>
    -- What the attempt leaves is known first: it is the segments of the later attempts.
    obtain ⟨segments, rfl, hs⟩ := ih hr
    obtain ⟨segment, rfl, ht⟩ := ha.exists_takes
    exact ⟨segment :: segments, rfl, .cons ht.accounts hs⟩

end Attempt

/-- **No token is lost, duplicated or reordered between a text and its trees.** The tokens that are
scanned are the segments of the attempts at statements, one after the other. A statement that is kept
stores the tokens of its segment in their order, all but the parentheses, the sign of a binding and
the semicolon at the end, and its own token is the first one. A failure takes its segment from the
first token up to the first semicolon, or to the end of the text. -/
theorem tokens_accounted (text : String) :
    let attempts := Attempt.all (Token.ofText text)
    parse text =
        (⟨attempts.filterMap Attempt.statement?⟩, attempts.filterMap Attempt.diagnostic?) ∧
      ∃ segments : List (List Token),
        (Scanner.ofText text).Yields segments.flatten ∧ [] ∉ segments ∧
          Attempt.Accounted attempts segments := by
  obtain ⟨segments, hts, h⟩ := (Attempt.run_all (Token.ofText text)).accounted rfl
  exact ⟨parse_eq text, segments, Scanner.yields_iff.mpr hts.symm, h.nil_not_mem, h⟩

end ExprLang
