import ExprLang.Token.Scan

/-!
# Scanning one token at a time

* `Scanner` — the text that is still ahead, the byte offset where it starts, and whether the end
  has been handed out.
* `nextToken` — the next token; at the end of the text an end token, as often as asked.
* `next?` — the same as a stream that hands out one end token and then nothing.
* `drain` — all that the stream still holds.

Principal results: `drain_of_ended`, `drain_of_next?` — draining is asking the stream until it
has nothing more.
-/

namespace ExprLang

/-- The number of bytes of a text in UTF-8. -/
def byteLength (cs : List Char) : Nat := cs.foldr (fun c n => c.utf8Size + n) 0

theorem byteLength_nil : byteLength [] = 0 := rfl

theorem byteLength_cons (c : Char) (cs : List Char) :
    byteLength (c :: cs) = c.utf8Size + byteLength cs := rfl

theorem byteLength_append (a b : List Char) :
    byteLength (a ++ b) = byteLength a + byteLength b := by
  induction a with
  | nil => rw [List.nil_append, byteLength_nil, Nat.zero_add]
  | cons c a ih => rw [List.cons_append, byteLength_cons, byteLength_cons, ih, Nat.add_assoc]

theorem byteLength_toList (s : String) : byteLength s.toList = s.utf8ByteSize := by
  rw [← String.size_toByteArray, ← String.utf8Encode_toList]
  induction s.toList with
  | nil => rfl
  | cons c cs ih =>
    rw [List.utf8Encode_cons, ByteArray.size_append, ← ih, byteLength_cons]
    simp [List.utf8Encode_singleton]

/-- A position in a text: `position` is the byte offset of `rest`. -/
structure Scanner where
  position : Nat
  rest : List Char
  ended : Bool
  deriving DecidableEq, Repr

namespace Scanner

def ofText (text : String) : Scanner := ⟨0, text.toList, false⟩

/-- The character at the position. -/
def current? (s : Scanner) : Option Char := s.rest.head?

/-- The byte offset after the character at the position. -/
def readPosition (s : Scanner) : Nat :=
  match s.rest with
  | [] => s.position
  | c :: _ => s.position + c.utf8Size

/-- The next token, and the position right after it. -/
def nextToken (s : Scanner) : Token × Scanner :=
  let start := s.position + byteLength (s.rest.takeWhile isBlank)
  match Token.next? s.rest with
  | none => (Token.eof, ⟨start, [], s.ended⟩)
  | some (t, rest) => (t, ⟨start + byteLength t.literal.toList, rest, s.ended⟩)

/-- The next token of the stream; the end token is the last one. Only an end token that is handed out
here ends the stream. -/
def next? (s : Scanner) : Option Token × Scanner :=
  if s.ended then (none, s)
  else
    let (t, after) := s.nextToken
    (some t, { after with ended := t.kind == .eof })

/-- The tokens that the stream still holds, and the position at the end of the text. -/
def drain (s : Scanner) : List Token × Scanner :=
  if s.ended then ([], s)
  else (Token.scan s.rest ++ [Token.eof], ⟨s.position + byteLength s.rest, [], true⟩)

theorem drain_of_ended {s : Scanner} (h : s.ended = true) : s.drain = ([], s) := by
  simp [drain, h]

/-- Draining hands out the next token of the stream and drains what is left. -/
theorem drain_of_next? {s s' : Scanner} {t : Token} (h : s.next? = (some t, s')) :
    s.drain = (t :: s'.drain.1, s'.drain.2) := by
  unfold next? at h
  split at h
  · cases h
  · rename_i he
    simp only [nextToken] at h
    cases hn : Token.next? s.rest with
    | none =>
      have hb := Token.dropWhile_eq_nil_of_next? hn
      have ht : s.rest.takeWhile isBlank = s.rest := by
        have := List.takeWhile_append_dropWhile (p := isBlank) (l := s.rest)
        rwa [hb, List.append_nil] at this
      simp only [hn, Prod.mk.injEq, Option.some.injEq] at h
      obtain ⟨rfl, rfl⟩ := h
      simp [drain, he, Token.scan_eq_nil hn, Token.eof, ht]
    | some next =>
      obtain ⟨u, rest⟩ := next
      have hk := Token.kind_next?_ne_eof hn
      have hl := congrArg byteLength (Token.takeWhile_append_literal_append hn)
      simp only [byteLength_append] at hl
      simp only [hn, Prod.mk.injEq, Option.some.injEq] at h
      obtain ⟨rfl, rfl⟩ := h
      simp only [drain, he, beq_eq_false_iff_ne.mpr hk, Token.scan_eq_cons hn]
      simp
      omega

end Scanner

end ExprLang
