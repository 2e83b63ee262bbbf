import ExprLang.Proofs.Token.Calls
import ExprLang.Token.Cursor

/-!
# A cursor stays between characters

* `Cursor.before` — the cursor in front of some characters of a text.
* `Cursor.ofScanner` — the cursor at the place of a scanner.
* `Cursor.serve` — calls one after the other with what they hand out.
* `Cursor.Placed` — what the offsets of a cursor keep.

Principal results: `readChar_cons`, `readWhile_before`, `readRun_before`, `readToken_first` — in
front of the rest of a text each step succeeds, and the cursor is at such a place again;
`serve_ofScanner` — so a cursor hands out what a scanner hands out; `serve_offsets` — whatever is
asked of it, its offsets lie between characters, and a token has the bytes that were passed over for
it.

An offset is the number of bytes of the characters before it. These are never cut, because a cursor
moves on by whole characters only.
-/

namespace ExprLang

/-! ## Parts of a text -/

variable {text : String} {a b c : List Char}

theorem utf8ByteSize_ofList (cs : List Char) : (String.ofList cs).utf8ByteSize = byteLength cs := by
  rw [← byteLength_toList, String.toList_ofList]

theorem eq_append_of_toList (h : text.toList = a ++ b) :
    text = String.ofList a ++ String.ofList b := by
  rw [← String.ofList_append, ← h, String.ofList_toList]

/-- Where some characters of a text end, there is a place between characters. -/
theorem isValid_byteLength (h : text.toList = a ++ b) :
    String.Pos.Raw.IsValid text ⟨byteLength a⟩ := by
  refine String.Pos.Raw.isValid_iff_exists_append.mpr ⟨_, _, eq_append_of_toList h, ?_⟩
  rw [← utf8ByteSize_ofList]
  rfl

theorem splits_byteLength (h : text.toList = a ++ b) :
    (⟨⟨byteLength a⟩, isValid_byteLength h⟩ : text.Pos).Splits (String.ofList a)
      (String.ofList b) := by
  exact ⟨eq_append_of_toList h, congrArg String.Pos.Raw.mk (utf8ByteSize_ofList a).symm⟩

theorem textFrom?_byteLength (h : text.toList = a ++ b) :
    textFrom? text (byteLength a) = some (String.ofList b) := by
  rw [textFrom?, dif_pos (isValid_byteLength h), (splits_byteLength h).copy_sliceFrom_eq]

theorem textBetween?_byteLength (h : text.toList = a ++ b ++ c) :
    textBetween? text (byteLength a) (byteLength (a ++ b)) = some (String.ofList b) := by
  have h' : text.toList = a ++ (b ++ c) := by rw [h, List.append_assoc]
  have hstop := splits_byteLength h
  have hstart := splits_byteLength h'
  rw [String.ofList_append] at hstop hstart
  obtain ⟨hle, hcopy⟩ := String.copy_slice_eq_iff_splits.mpr ⟨_, _, hstart, hstop⟩
  rw [textBetween?, dif_pos (isValid_byteLength h'), dif_pos (isValid_byteLength h), String.slice?,
    dif_pos hle, Option.map_some, hcopy]

namespace Cursor

/-! ## One step -/

/-- The cursor in front of the characters `rest`, behind the characters `scanned`. -/
def before (scanned rest : List Char) (ended : Bool) : Cursor :=
  ⟨byteLength scanned, byteLength scanned + width rest.head?, rest.head?, ended⟩

variable {scanned rest : List Char} {ch : Char} {ended : Bool}

theorem byteLength_concat (cs : List Char) (ch : Char) :
    byteLength (cs ++ [ch]) = byteLength cs + ch.utf8Size := by
  rw [byteLength_append, byteLength_cons, byteLength_nil, Nat.add_zero]

/-- A character that was passed is one of those behind the cursor. -/
theorem pass_cons (h : text.toList = scanned ++ ch :: rest) :
    text.toList = (scanned ++ [ch]) ++ rest := by
  rw [h, List.append_assoc, List.singleton_append]

theorem textFrom?_readPosition (h : text.toList = scanned ++ ch :: rest) :
    textFrom? text (before scanned (ch :: rest) ended).readPosition = some (String.ofList rest) := by
  rw [← textFrom?_byteLength (pass_cons h), byteLength_concat]
  rfl

theorem readChar_cons (h : text.toList = scanned ++ ch :: rest) :
    (before scanned (ch :: rest) ended).readChar text =
      some (before (scanned ++ [ch]) rest ended) := by
  rw [readChar, textFrom?_readPosition h, Option.map_some, String.front?_eq, String.toList_ofList,
    before, before, byteLength_concat]
  rfl

theorem peekChar_cons (h : text.toList = scanned ++ ch :: rest) :
    (before scanned (ch :: rest) ended).peekChar text = some rest.head? := by
  rw [peekChar, textFrom?_readPosition h, Option.map_some, String.front?_eq, String.toList_ofList]

/-- At the end of a text a cursor stays where it is. -/
theorem readChar_nil (h : text.toList = scanned) :
    (before scanned [] ended).readChar text = some (before scanned [] ended) := by
  have h' : text.toList = scanned ++ [] := by rw [h, List.append_nil]
  have hread : (before scanned [] ended).readPosition = byteLength scanned := rfl
  rw [readChar, hread, textFrom?_byteLength h', Option.map_some, String.front?_eq]
  rfl

/-! ## Runs -/

/-- **Reading on stops in front of the first character that is not of the class.** -/
theorem readWhile_before (p : Char → Bool) (h : text.toList = scanned ++ rest) :
    (before scanned rest ended).readWhile p text =
      some (before (scanned ++ rest.takeWhile p) (rest.dropWhile p) ended) := by
  induction rest generalizing scanned with
  | nil =>
    rw [readWhile]
    simp [before]
  | cons ch rest ih =>
    have hcurrent : (before scanned (ch :: rest) ended).current.any p = p ch := rfl
    rw [readWhile, hcurrent, readChar_cons h]
    split
    · rename_i hp
      simp [ih (pass_cons h), hp]
    · rename_i hp
      simp [hp]

/-- **The text of a run is made of the characters of the run.** -/
theorem readRun_before (p : Char → Bool) (h : text.toList = scanned ++ rest) :
    (before scanned rest ended).readRun p text =
      some (String.ofList (rest.takeWhile p),
        before (scanned ++ rest.takeWhile p) (rest.dropWhile p) ended) := by
  have hrun : text.toList = scanned ++ rest.takeWhile p ++ rest.dropWhile p := by
    rw [List.append_assoc, List.takeWhile_append_dropWhile, h]
  have hbetween := textBetween?_byteLength hrun
  simp only [readRun, readWhile_before p h]
  simp [before, hbetween]

/-! ## Tokens -/

/-- The two signs that an equals sign turns into another operator. -/
def Doubles (ch : Char) (rest : List Char) : Prop := (ch = '=' ∨ ch = '!') ∧ rest.head? = some '='

theorem first_of_not_doubles (hl : isLetter ch = false) (hd : ch.isDigit = false)
    (hone : ¬Doubles ch rest) : Token.first ch rest = (Token.symbol ch, rest) := by
  unfold Token.first
  rw [if_neg (by simp [hl]), if_neg (by simp [hd])]
  split
  · exact absurd ⟨.inl rfl, rfl⟩ hone
  · exact absurd ⟨.inr rfl, rfl⟩ hone
  · rfl

theorem readSymbol_of_not_doubles (h : text.toList = scanned ++ ch :: rest)
    (hone : ¬Doubles ch rest) :
    (before scanned (ch :: rest) ended).readSymbol ch text =
      some (Token.symbol ch, before scanned (ch :: rest) ended) := by
  unfold readSymbol
  split
  · have hpeek : rest.head? ≠ some '=' := fun hp => hone ⟨.inl rfl, hp⟩
    simp [peekChar_cons h, hpeek]
  · have hpeek : rest.head? ≠ some '=' := fun hp => hone ⟨.inr rfl, hp⟩
    simp [peekChar_cons h, hpeek]
  · rfl

/-- A symbol is one character, or two if the second one is the sign that makes a pair. -/
theorem readSymbol_first (h : text.toList = scanned ++ ch :: rest) (hl : isLetter ch = false)
    (hd : ch.isDigit = false) :
    (do
      let (t, c) ← (before scanned (ch :: rest) ended).readSymbol ch text
      return (t, ← c.readChar text)) =
      some ((Token.first ch rest).1,
        before (scanned ++ (Token.first ch rest).1.literal.toList) (Token.first ch rest).2 ended) := by
  by_cases hpair : Doubles ch rest
  · obtain ⟨hch, hhead⟩ := hpair
    obtain ⟨after, rfl⟩ : ∃ after, rest = '=' :: after := by
      cases rest <;> simp_all
    have htwo := pass_cons h
    rcases hch with rfl | rfl <;>
      simp [readSymbol, peekChar_cons h, readChar_cons h, readChar_cons htwo, Token.first, hl, hd]
  · rw [readSymbol_of_not_doubles h hpair, first_of_not_doubles hl hd hpair]
    simp [readChar_cons h, Token.symbol]

/-- **The token at a character is the longest one that begins there.** -/
theorem readToken_first (h : text.toList = scanned ++ ch :: rest) :
    (before scanned (ch :: rest) ended).readToken ch text =
      some ((Token.first ch rest).1,
        before (scanned ++ (Token.first ch rest).1.literal.toList) (Token.first ch rest).2 ended) := by
  unfold readToken
  by_cases hl : isLetter ch = true
  · simp [hl, readRun_before isLetter h, Token.first, Token.word]
  · by_cases hd : ch.isDigit = true
    · simp [hl, hd, readRun_before Char.isDigit h, Token.first, Token.digits]
    · rw [if_neg hl, if_neg hd]
      exact readSymbol_first h (Bool.not_eq_true _ ▸ hl) (Bool.not_eq_true _ ▸ hd)

/-- What is handed out is the next token of the rest; blanks and the token are passed over. -/
theorem nextToken_before (h : text.toList = scanned ++ rest) :
    (before scanned rest ended).nextToken text =
      match Token.next? rest with
      | none => some (Token.eof, before (scanned ++ rest) [] ended)
      | some (t, after) =>
        some (t, before (scanned ++ rest.takeWhile isBlank ++ t.literal.toList) after ended) := by
  have hsplit := List.takeWhile_append_dropWhile (p := isBlank) (l := rest)
  simp only [nextToken, readWhile_before isBlank h, Token.next?]
  cases hd : rest.dropWhile isBlank with
  | nil =>
    rw [hd, List.append_nil] at hsplit
    simp [before, hsplit]
  | cons ch tail =>
    rw [hd] at hsplit
    have h' : text.toList = (scanned ++ rest.takeWhile isBlank) ++ ch :: tail := by
      rw [List.append_assoc, hsplit, h]
    exact readToken_first h'

/-! ## The cursor of a scanner -/

/-- The cursor at the place of a scanner. -/
def ofScanner (s : Scanner) : Cursor := ⟨s.position, s.readPosition, s.current?, s.ended⟩

theorem ofScanner_byteLength (scanned rest : List Char) (ended : Bool) :
    ofScanner ⟨byteLength scanned, rest, ended⟩ = before scanned rest ended := by
  cases rest <;> rfl

theorem ofScanner_eq {s : Scanner} (hp : s.position = byteLength scanned) :
    ofScanner s = before scanned s.rest s.ended := by
  obtain ⟨position, rest, ended⟩ := s
  cases hp
  exact ofScanner_byteLength scanned rest ended

theorem nextToken_ofScanner {s : Scanner} (h : text.toList = scanned ++ s.rest)
    (hp : s.position = byteLength scanned) :
    (ofScanner s).nextToken text = some (s.nextToken.1, ofScanner s.nextToken.2) := by
  rw [ofScanner_eq hp, nextToken_before h, Scanner.nextToken]
  cases hn : Token.next? s.rest with
  | none =>
    have hblank := List.takeWhile_append_dropWhile (p := isBlank) (l := s.rest)
    rw [Token.dropWhile_eq_nil_of_next? hn, List.append_nil] at hblank
    have hplace : s.position + byteLength s.rest = byteLength (scanned ++ s.rest) := by
      rw [byteLength_append, hp]
    simp only [hblank, hplace, ofScanner_byteLength]
  | some next =>
    obtain ⟨t, after⟩ := next
    have hplace : s.position + byteLength (s.rest.takeWhile isBlank) + byteLength t.literal.toList =
        byteLength (scanned ++ s.rest.takeWhile isBlank ++ t.literal.toList) := by
      rw [byteLength_append, byteLength_append, hp]
    simp only [hplace, ofScanner_byteLength]

theorem next?_ofScanner {s : Scanner} (h : text.toList = scanned ++ s.rest)
    (hp : s.position = byteLength scanned) :
    (ofScanner s).next? text = some (s.next?.1, ofScanner s.next?.2) := by
  have hended : (ofScanner s).ended = s.ended := rfl
  rw [next?, Scanner.next?, nextToken_ofScanner h hp, hended]
  split <;> rfl

/-- What a call hands out, and the cursor after it. -/
def call (text : String) (c : Cursor) : Call → Option (Option Token × Cursor)
  | .token => (c.nextToken text).map fun (t, after) => (some t, after)
  | .stream => c.next? text

/-- The calls with what they hand out, and the cursor after the last one. -/
def serve (text : String) (c : Cursor) : List Call → Option (List (Call × Option Token) × Cursor)
  | [] => some ([], c)
  | k :: calls => do
    let (answer, after) ← c.call text k
    let (log, last) ← after.serve text calls
    return ((k, answer) :: log, last)

variable {ts : List Token} {log : List (Call × Option Token)} {s : Scanner}

theorem call_ofScanner (h : s.Shared text.toList log) (k : Call) :
    (ofScanner s).call text k = some ((s.call k).1, ofScanner (s.call k).2) := by
  obtain ⟨scanned, hrest, hp⟩ := h.reached.place
  cases k with
  | token =>
    show ((ofScanner s).nextToken text).map _ = _
    rw [nextToken_ofScanner hrest hp]
    rfl
  | stream => exact next?_ofScanner hrest hp

/-- **A cursor answers all calls as a scanner does,** and it is at the place of the scanner then. -/
theorem serve_ofScanner (h : s.Shared text.toList log) (calls : List Call) :
    (ofScanner s).serve text calls = some ((s.serve calls).1, ofScanner (s.serve calls).2) := by
  induction calls generalizing s log with
  | nil => rfl
  | cons k calls ih =>
    rw [serve, call_ofScanner h k]
    simp only [Option.bind_eq_bind, Option.bind_some, ih (h.call k)]
    rfl

theorem ofText?_eq (text : String) : ofText? text = some (ofScanner (.ofText text)) := by
  have hstart : textFrom? text 0 = some (String.ofList text.toList) :=
    textFrom?_byteLength (a := []) rfl
  rw [ofText?, readChar, hstart, Option.map_some, String.front?_eq, String.toList_ofList]
  unfold ofScanner Scanner.ofText Scanner.readPosition Scanner.current?
  cases text.toList <;> rfl

/-! ## Offsets -/

/-- Both offsets lie in the text, between characters, around the current character. There is no
current character only at the end of the text, and then both offsets are there. -/
structure Placed (text : String) (c : Cursor) : Prop where
  ordered : c.position ≤ c.readPosition
  within : c.readPosition ≤ text.utf8ByteSize
  valid : String.Pos.Raw.IsValid text ⟨c.position⟩
  readValid : String.Pos.Raw.IsValid text ⟨c.readPosition⟩
  current : (textFrom? text c.position).map String.front? = some c.current
  none_iff : c.current = none ↔
    c.position = text.utf8ByteSize ∧ c.readPosition = text.utf8ByteSize
  step : c.readPosition = c.position + width c.current

theorem utf8ByteSize_eq (h : text.toList = scanned ++ rest) :
    text.utf8ByteSize = byteLength scanned + byteLength rest := by
  rw [← byteLength_toList, h, byteLength_append]

theorem placed_before (h : text.toList = scanned ++ rest) :
    (before scanned rest ended).Placed text := by
  have hsize := utf8ByteSize_eq h
  have hcurrent : (textFrom? text (byteLength scanned)).map String.front? = some rest.head? := by
    rw [textFrom?_byteLength h, Option.map_some, String.front?_eq, String.toList_ofList]
  cases rest with
  | nil =>
    refine ⟨Nat.le_refl _, ?_, isValid_byteLength h, isValid_byteLength h, hcurrent, ?_, rfl⟩
    · exact hsize ▸ Nat.le_refl _
    · exact ⟨fun _ => ⟨hsize.symm, hsize.symm⟩, fun _ => rfl⟩
  | cons ch rest =>
    have hread := isValid_byteLength (pass_cons h)
    rw [byteLength_concat] at hread
    have hpos := ch.utf8Size_pos
    rw [byteLength_cons] at hsize
    refine ⟨Nat.le_add_right _ _, ?_, isValid_byteLength h, hread, hcurrent, ⟨nofun, ?_⟩, rfl⟩
    · show byteLength scanned + ch.utf8Size ≤ _
      omega
    · rintro ⟨hend, -⟩
      have hstart : byteLength scanned = text.utf8ByteSize := hend
      omega

/-- The offsets say where the cursor is: a placed cursor stands in front of the rest of the text. -/
theorem Placed.exists_before {c : Cursor} (h : c.Placed text) :
    ∃ scanned rest, text.toList = scanned ++ rest ∧ c = before scanned rest c.ended := by
  obtain ⟨a, b, htext, hstart⟩ := String.Pos.Raw.isValid_iff_exists_append.mp h.valid
  have hlist : text.toList = a.toList ++ b.toList := by rw [htext, String.toList_append]
  have hpos : c.position = byteLength a.toList := by
    rw [byteLength_toList]
    exact congrArg String.Pos.Raw.byteIdx hstart
  have hcurrent := h.current
  rw [hpos, textFrom?_byteLength hlist, Option.map_some, String.front?_eq, String.toList_ofList,
    Option.some.injEq] at hcurrent
  refine ⟨a.toList, b.toList, hlist, ?_⟩
  rw [before, hcurrent, ← hpos, ← h.step]

theorem Placed.readChar {c : Cursor} (h : c.Placed text) :
    ∃ c', c.readChar text = some c' ∧ c'.Placed text := by
  obtain ⟨scanned, rest, htext, hc⟩ := h.exists_before
  rw [hc]
  cases rest with
  | nil =>
    rw [List.append_nil] at htext
    exact ⟨_, readChar_nil htext, placed_before (by rw [htext, List.append_nil])⟩
  | cons ch rest =>
    exact ⟨_, readChar_cons htext, placed_before (pass_cons htext)⟩

theorem Placed.peekChar {c : Cursor} (h : c.Placed text) : ∃ next, c.peekChar text = some next := by
  obtain ⟨after, hafter, -⟩ := Option.map_eq_some_iff.mp h.readChar.choose_spec.1
  exact ⟨after.front?, by rw [Cursor.peekChar, hafter, Option.map_some]⟩

/-- The text of a run is the part of the text that was passed over, the longest one of its class. -/
theorem Placed.readRun {c : Cursor} (h : c.Placed text) (p : Char → Bool) :
    ∃ literal c', c.readRun p text = some (literal, c') ∧ c'.Placed text ∧
      textBetween? text c.position c'.position = some literal ∧
      (∀ ch ∈ literal.toList, p ch = true) ∧ ∀ ch, c'.current = some ch → p ch = false := by
  obtain ⟨scanned, rest, htext, hc⟩ := h.exists_before
  have hrun : text.toList = scanned ++ rest.takeWhile p ++ rest.dropWhile p := by
    rw [List.append_assoc, List.takeWhile_append_dropWhile, htext]
  rw [hc]
  refine ⟨_, _, readRun_before p htext, placed_before hrun, textBetween?_byteLength hrun, ?_, ?_⟩
  · intro ch hch
    rw [String.toList_ofList] at hch
    exact List.mem_takeWhile_imp hch
  · exact fun ch hch => Token.head?_dropWhile_eq_false hch

/-- The next token is the part of the text behind some blanks, up to where the cursor is then. -/
theorem Placed.nextToken {c : Cursor} (h : c.Placed text) :
    ∃ t c' start gap, c.nextToken text = some (t, c') ∧ c'.Placed text ∧
      textBetween? text c.position start = some gap ∧ (∀ ch ∈ gap.toList, isBlank ch = true) ∧
      textBetween? text start c'.position = some t.literal := by
  obtain ⟨scanned, rest, htext, hc⟩ := h.exists_before
  rw [hc, nextToken_before htext]
  cases hn : Token.next? rest with
  | none =>
    have hblank : rest.takeWhile isBlank = rest := by
      have := List.takeWhile_append_dropWhile (p := isBlank) (l := rest)
      rwa [Token.dropWhile_eq_nil_of_next? hn, List.append_nil] at this
    have hgap : text.toList = scanned ++ rest ++ [] := by rw [htext, List.append_nil]
    have hempty : text.toList = (scanned ++ rest) ++ [] ++ [] := by rw [List.append_nil, hgap]
    refine ⟨_, _, _, _, rfl, placed_before hgap, textBetween?_byteLength hgap, ?_, ?_⟩
    · intro ch hch
      rw [String.toList_ofList, ← hblank] at hch
      exact List.mem_takeWhile_imp hch
    · have := textBetween?_byteLength hempty
      rwa [List.append_nil] at this
  | some next =>
    obtain ⟨t, after⟩ := next
    have hrest := Token.takeWhile_append_literal_append hn
    have hgap : text.toList = scanned ++ rest.takeWhile isBlank ++ (t.literal.toList ++ after) := by
      rw [List.append_assoc, hrest, htext]
    have htoken : text.toList = (scanned ++ rest.takeWhile isBlank) ++ t.literal.toList ++ after := by
      rw [hgap, List.append_assoc (scanned ++ _)]
    refine ⟨_, _, _, _, rfl, placed_before htoken, textBetween?_byteLength hgap, ?_, ?_⟩
    · intro ch hch
      rw [String.toList_ofList] at hch
      exact List.mem_takeWhile_imp hch
    · have hliteral := textBetween?_byteLength htoken
      rwa [String.ofList_toList] at hliteral

end Cursor

/-- **No offset of a cursor ever leaves the text or cuts a character.** Take any calls of the two
kinds. A cursor answers all of them, as a scanner does, and then its offsets are placed: they lie in
the text between characters, around the current character, and together at the end of the text if
there is none. From any cursor whose offsets are placed, each step takes all it reads from the text,
and they stay placed. A run is the part of the text that was passed over, all its characters and no
other ones, and a token is the part behind the blanks. -/
theorem serve_offsets (text : String) :
    (∀ calls : List Call, ∃ log c,
      (Cursor.ofText? text).bind (fun start => start.serve text calls) = some (log, c) ∧
        log = ((Scanner.ofText text).serve calls).1 ∧
        c = Cursor.ofScanner ((Scanner.ofText text).serve calls).2 ∧
        c.Placed text) ∧
      ∀ c : Cursor, c.Placed text →
        (∃ c', c.readChar text = some c' ∧ c'.Placed text) ∧
        (∃ following, c.peekChar text = some following) ∧
        (∀ p : Char → Bool, ∃ literal c', c.readRun p text = some (literal, c') ∧ c'.Placed text ∧
          textBetween? text c.position c'.position = some literal ∧
          (∀ ch ∈ literal.toList, p ch = true) ∧ ∀ ch, c'.current = some ch → p ch = false) ∧
        ∃ t c' start gap, c.nextToken text = some (t, c') ∧ c'.Placed text ∧
          textBetween? text c.position start = some gap ∧ (∀ ch ∈ gap.toList, isBlank ch = true) ∧
          textBetween? text start c'.position = some t.literal := by
  constructor
  · intro calls
    have hstart : (Scanner.ofText text).Shared text.toList [] :=
      ⟨Scanner.reached_ofText text, by simp [Scanner.ofText]⟩
    obtain ⟨scanned, hrest, hp⟩ := (Scanner.shared_ofText text calls).reached.place
    refine ⟨_, _, ?_, rfl, rfl, ?_⟩
    · rw [Cursor.ofText?_eq, Option.bind_some]
      exact Cursor.serve_ofScanner hstart calls
    · rw [Cursor.ofScanner_eq hp]
      exact Cursor.placed_before hrest
  · exact fun c hc => ⟨hc.readChar, hc.peekChar, hc.readRun, hc.nextToken⟩

/-- An offset inside of a character is refused. -/
example : textFrom? "é" 1 = none ∧ textFrom? "é" 2 = some "" := by decide +kernel

end ExprLang
