import ExprLang.Proofs.Token.Tiling

/-!
# Calls of a scanner

* `Call` — the two ways to ask a scanner for a token.
* `Scanner.call`, `Scanner.serve` — one call, and calls one after the other with what they hand out.
* `Scanner.Reached` — a place in a text, behind the tokens that were handed out.
* `Scanner.Shared` — what calls of both kinds keep.

Principal results: `Reached.next` — a token that is handed out is the next one of the text, or an end
token if there is none; `Shared.serve` — the invariant holds after any calls.
-/

namespace ExprLang

/-- Only the end of a text has an end token. -/
theorem Token.Lexeme.kind_ne_eof {t : Token} (h : Token.Lexeme t) : t.kind ≠ .eof := by
  cases h with
  | word _ _ => exact Token.kind_ofWord_ne_eof _
  | digits _ _ => exact nofun
  | eq => exact nofun
  | notEq => exact nofun
  | symbol _ => exact Token.kind_ofSymbol_ne_eof _

/-- A caller may ask for a token, or for what is next in the stream of tokens. -/
inductive Call where
  | token
  | stream
  deriving DecidableEq, Repr

namespace Scanner

/-- What a call hands out, and the scanner after it. -/
def call (s : Scanner) : Call → Option Token × Scanner
  | .token => (some s.nextToken.1, s.nextToken.2)
  | .stream => s.next?

/-- The calls with what they hand out, and the scanner after the last one. -/
def serve (s : Scanner) : List Call → List (Call × Option Token) × Scanner
  | [] => ([], s)
  | c :: calls =>
    let (answer, after) := s.call c
    let (log, last) := after.serve calls
    ((c, answer) :: log, last)

/-- The tokens that were handed out, in the order of the calls. -/
def handed (log : List (Call × Option Token)) : List Token := log.filterMap Prod.snd

theorem handed_append_some (log : List (Call × Option Token)) (c : Call) (t : Token) :
    handed (log ++ [(c, some t)]) = handed log ++ [t] := by
  simp [handed]

theorem handed_append_none (log : List (Call × Option Token)) (c : Call) :
    handed (log ++ [(c, none)]) = handed log := by
  simp [handed]

/-! ## One token -/

variable {text : List Char} {ts : List Token} {s : Scanner} {log : List (Call × Option Token)}

/-- The next token and the characters that were passed, or an end token if none is left. -/
theorem nextToken_takes (s : Scanner) :
    ∃ used, s.rest = used ++ s.nextToken.2.rest ∧
      s.nextToken.2.position = s.position + byteLength used ∧
      (Token.scan s.rest = s.nextToken.1 :: Token.scan s.nextToken.2.rest ∧
          s.nextToken.1.kind ≠ .eof ∨
        Token.scan s.rest = [] ∧ Token.scan s.nextToken.2.rest = [] ∧
          s.nextToken.1 = Token.eof) := by
  unfold nextToken
  cases hn : Token.next? s.rest with
  | none =>
    have hblank := List.takeWhile_append_dropWhile (p := isBlank) (l := s.rest)
    rw [Token.dropWhile_eq_nil_of_next? hn] at hblank
    exact ⟨_, hblank.symm, rfl, .inr ⟨Token.scan_eq_nil hn, Token.scan_nil, rfl⟩⟩
  | some next =>
    obtain ⟨t, rest⟩ := next
    have hrest := Token.takeWhile_append_literal_append hn
    refine ⟨s.rest.takeWhile isBlank ++ t.literal.toList, ?_, ?_, ?_⟩
    · rw [List.append_assoc, hrest]
    · show s.position + byteLength (s.rest.takeWhile isBlank) + byteLength t.literal.toList = _
      rw [byteLength_append, Nat.add_assoc]
    · exact .inl ⟨Token.scan_eq_cons hn, Token.kind_next?_ne_eof hn⟩

/-- The scanner stands in the text behind the tokens `ts`: they are the first ones of the text, with end
tokens behind them only if none is left. -/
structure Reached (text : List Char) (ts : List Token) (s : Scanner) : Prop where
  place : ∃ scanned, text = scanned ++ s.rest ∧ s.position = byteLength scanned
  tokens : ∃ first n, ts = first ++ List.replicate n Token.eof ∧
    Token.scan text = first ++ Token.scan s.rest ∧ (n = 0 ∨ Token.scan s.rest = [])

theorem reached_ofText (text : String) : Reached text.toList [] (ofText text) where
  place := ⟨[], rfl, rfl⟩
  tokens := ⟨[], 0, rfl, rfl, .inl rfl⟩

/-- **What is handed out is the next token of the text,** or an end token if there is none. -/
theorem Reached.next (h : Reached text ts s) :
    Reached text (ts ++ [s.nextToken.1]) s.nextToken.2 := by
  obtain ⟨⟨scanned, htext, hpos⟩, first, n, hts, hscan, hn⟩ := h
  obtain ⟨used, hrest, hused, htaken⟩ := s.nextToken_takes
  constructor
  · refine ⟨scanned ++ used, ?_, ?_⟩
    · rw [htext, hrest, List.append_assoc]
    · rw [hused, hpos, byteLength_append]
  · rcases htaken with ⟨hcons, -⟩ | ⟨hnil, hnil', heof⟩
    · -- a token is left, so no end token was handed out yet
      have hzero : n = 0 := by
        rcases hn with hn | hn
        · exact hn
        · rw [hcons] at hn
          cases hn
      subst hzero
      refine ⟨first ++ [s.nextToken.1], 0, by simp [hts], ?_, .inl rfl⟩
      rw [hscan, hcons, List.append_assoc, List.singleton_append]
    · refine ⟨first, n + 1, ?_, ?_, .inr hnil'⟩
      · rw [hts, heof, List.append_assoc, List.replicate_succ']
      · rw [hscan, hnil, hnil']

theorem Reached.prefix_padded (h : Reached text ts s) :
    ∃ n, ts <+: Token.scan text ++ List.replicate n Token.eof := by
  obtain ⟨first, n, rfl, hscan, hn⟩ := h.tokens
  refine ⟨n, ?_⟩
  rw [hscan]
  rcases hn with rfl | hnil
  · exact ⟨Token.scan s.rest, by simp⟩
  · exact ⟨[], by simp [hnil]⟩

/-- **No token is lost:** those that were not handed out are still ahead. -/
theorem Reached.scan_eq (h : Reached text ts s) :
    Token.scan text = ts.filter (fun t => t.kind ≠ .eof) ++ Token.scan s.rest := by
  obtain ⟨first, n, rfl, hscan, -⟩ := h.tokens
  have hfirst : ∀ t ∈ first, t.kind ≠ .eof := by
    intro t ht
    have hmem : t ∈ Token.scan text := by
      rw [hscan]
      exact List.mem_append_left _ ht
    exact (Token.lexeme_of_mem_scan hmem).kind_ne_eof
  have hkeep : first.filter (fun t => t.kind ≠ .eof) = first := by
    rw [List.filter_eq_self]
    intro t ht
    exact decide_eq_true (hfirst t ht)
  rw [List.filter_append, hkeep, List.filter_replicate, hscan]
  simp [Token.eof]

/-! ## Calls -/

/-- What calls of both kinds keep: the tokens that were handed out lead up to the place of the scanner,
and it has ended if its stream has handed out an end token. -/
structure Shared (text : List Char) (log : List (Call × Option Token)) (s : Scanner) : Prop where
  reached : Reached text (handed log) s
  ended : s.ended = true ↔ (.stream, some Token.eof) ∈ log

theorem nextToken_ended (s : Scanner) : s.nextToken.2.ended = s.ended := by
  unfold nextToken
  cases Token.next? s.rest <;> rfl

theorem Shared.token (h : Shared text log s) :
    Shared text (log ++ [(.token, some s.nextToken.1)]) s.nextToken.2 where
  reached := by
    rw [handed_append_some]
    exact h.reached.next
  ended := by
    rw [nextToken_ended, h.ended]
    simp

theorem Shared.stream (h : Shared text log s) :
    Shared text (log ++ [(.stream, s.next?.1)]) s.next?.2 := by
  by_cases he : s.ended = true
  · rw [next?, if_pos he]
    constructor
    · rw [handed_append_none]
      exact h.reached
    · rw [h.ended]
      simp
  · rw [next?, if_neg he]
    constructor
    · rw [handed_append_some]
      obtain ⟨place, tokens⟩ := h.reached.next
      exact ⟨place, tokens⟩
    · have hlog := mt h.ended.mpr he
      obtain ⟨-, -, -, ⟨-, hk⟩ | ⟨-, -, heof⟩⟩ := s.nextToken_takes
      · have hne : s.nextToken.1 ≠ Token.eof := by
          intro heq
          rw [heq] at hk
          exact hk rfl
        simp [hlog, hk, hne.symm]
      · simp [heof, Token.eof]

theorem Shared.call (h : Shared text log s) (c : Call) :
    Shared text (log ++ [(c, (s.call c).1)]) (s.call c).2 := by
  cases c with
  | token => exact h.token
  | stream => exact h.stream

/-- **The invariant holds after any calls.** -/
theorem Shared.serve (h : Shared text log s) (calls : List Call) :
    Shared text (log ++ (s.serve calls).1) (s.serve calls).2 := by
  induction calls generalizing log s with
  | nil =>
    show Shared text (log ++ []) s
    rwa [List.append_nil]
  | cons c calls ih =>
    have hcall := ih (h.call c)
    rwa [List.append_assoc, List.singleton_append] at hcall

theorem shared_ofText (text : String) (calls : List Call) :
    Shared text.toList ((ofText text).serve calls).1 ((ofText text).serve calls).2 := by
  have hstart : Shared text.toList [] (ofText text) := ⟨reached_ofText text, by simp [ofText]⟩
  exact hstart.serve calls

/-- The stream is at its end exactly if the scanner is. -/
theorem next?_eq_none_iff (s : Scanner) : s.next?.1 = none ↔ s.ended = true := by
  unfold next?
  split <;> simp_all

theorem next?_of_ended (h : s.ended = true) : s.next?.2 = s := by
  rw [next?, if_pos h]

end Scanner

end ExprLang
