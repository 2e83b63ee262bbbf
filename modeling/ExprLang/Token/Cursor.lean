import ExprLang.Token.Scanner

/-!
# Scanning by byte offsets

* `textFrom?`, `textBetween?` — parts of a text by byte offsets; none if an offset lies outside of
  the text or inside of a character.
* `Cursor` — the offsets of the current character and of the next one, and the current character.
* `readChar`, `peekChar`, `readWhile`, `readRun` — one character, a look at the next one, and runs.
* `readToken`, `nextToken`, `next?` — the token at the current character, the next one after blanks,
  and the next one of the stream.

A cursor works on the bytes of a text and holds none of its characters but the current one. Whatever
it reads, it takes from the text by an offset, so each step is none if that fails.
-/

namespace ExprLang

/-- The text from this byte offset on, if a character begins or the text ends there. -/
def textFrom? (text : String) (start : Nat) : Option String :=
  if h : String.Pos.Raw.IsValid text ⟨start⟩ then some (text.sliceFrom ⟨⟨start⟩, h⟩).copy else none

/-- The text between two byte offsets, if both are places between characters and in order. -/
def textBetween? (text : String) (start stop : Nat) : Option String :=
  if h : String.Pos.Raw.IsValid text ⟨start⟩ then
    if h' : String.Pos.Raw.IsValid text ⟨stop⟩ then
      (text.slice? ⟨⟨start⟩, h⟩ ⟨⟨stop⟩, h'⟩).map String.Slice.copy
    else none
  else none

/-- The number of bytes of a character, zero for none. -/
def width : Option Char → Nat
  | none => 0
  | some c => c.utf8Size

theorem utf8ByteSize_eq_of_textFrom? {text rest : String} {start : Nat}
    (h : textFrom? text start = some rest) : text.utf8ByteSize = start + rest.utf8ByteSize := by
  unfold textFrom? at h
  split at h
  · rename_i hv
    obtain ⟨a, b, rfl, hstart⟩ := String.Pos.Raw.isValid_iff_exists_append.mp hv
    have hsplits : (⟨⟨start⟩, hv⟩ : (a ++ b).Pos).Splits a b := ⟨rfl, hstart⟩
    rw [Option.some.injEq, hsplits.copy_sliceFrom_eq] at h
    rw [← h, String.utf8ByteSize_append]
    exact congrArg (·.byteIdx + b.utf8ByteSize) hstart.symm
  · cases h

/-- The offset of the current character and of the one after it; there is no current character at the
end of the text. -/
structure Cursor where
  position : Nat
  readPosition : Nat
  current : Option Char
  ended : Bool
  deriving DecidableEq, Repr

namespace Cursor

/-- Makes the next character the current one. At the end of the text the offsets stay where they
are. -/
def readChar (text : String) (c : Cursor) : Option Cursor :=
  (textFrom? text c.readPosition).map fun rest =>
    { c with
      position := c.readPosition
      readPosition := c.readPosition + width rest.front?
      current := rest.front? }

/-- The character after the current one. -/
def peekChar (text : String) (c : Cursor) : Option (Option Char) :=
  (textFrom? text c.readPosition).map String.front?

/-- A character that was read makes the rest shorter; at the end there is none. -/
theorem readChar_progress {text : String} {c c' : Cursor} (h : c.readChar text = some c')
    (hc : c.current ≠ none) :
    text.utf8ByteSize - c'.readPosition + c'.current.toList.length <
      text.utf8ByteSize - c.readPosition + c.current.toList.length := by
  obtain ⟨rest, hrest, rfl⟩ := Option.map_eq_some_iff.mp h
  obtain ⟨ch, hch⟩ := Option.ne_none_iff_exists'.mp hc
  have hsize := utf8ByteSize_eq_of_textFrom? hrest
  rw [hch]
  cases hfront : rest.front? with
  | none => simp [width]
  | some d =>
    have hne : rest.utf8ByteSize ≠ 0 := by
      intro hzero
      rw [String.utf8ByteSize_eq_zero_iff.mp hzero] at hfront
      cases hfront
    have hpos := d.utf8Size_pos
    simp only [width, Option.toList_some, List.length_singleton]
    omega

/-- Reads on as long as the current character is of a class. -/
def readWhile (p : Char → Bool) (text : String) (c : Cursor) : Option Cursor :=
  if c.current.any p then
    match _h : c.readChar text with
    | none => none
    | some c' => readWhile p text c'
  else some c
termination_by text.utf8ByteSize - c.readPosition + c.current.toList.length
decreasing_by exact readChar_progress _h (by rintro hn; simp_all)

/-- The text of a run of characters of a class, from the current one on. -/
def readRun (p : Char → Bool) (text : String) (c : Cursor) : Option (String × Cursor) := do
  let c' ← c.readWhile p text
  let literal ← textBetween? text c.position c'.position
  return (literal, c')

/-- The token that begins with the symbol `ch`; the last character of the token stays the current
one. -/
def readSymbol (ch : Char) (text : String) (c : Cursor) : Option (Token × Cursor) := do
  match ch with
  | '=' =>
    if (← c.peekChar text) = some '=' then return (⟨.eq, "=="⟩, ← c.readChar text)
    else return (Token.symbol ch, c)
  | '!' =>
    if (← c.peekChar text) = some '=' then return (⟨.notEq, "!="⟩, ← c.readChar text)
    else return (Token.symbol ch, c)
  | _ => return (Token.symbol ch, c)

/-- The token that begins with the current character `ch`. -/
def readToken (ch : Char) (text : String) (c : Cursor) : Option (Token × Cursor) := do
  if isLetter ch then
    let (literal, c) ← c.readRun isLetter text
    return (⟨.ofWord literal, literal⟩, c)
  else if ch.isDigit then
    let (literal, c) ← c.readRun Char.isDigit text
    return (⟨.int, literal⟩, c)
  else
    let (t, c) ← c.readSymbol ch text
    return (t, ← c.readChar text)

/-- The next token after any blanks; at the end of the text an end token, as often as asked. -/
def nextToken (text : String) (c : Cursor) : Option (Token × Cursor) := do
  let c ← c.readWhile isBlank text
  match c.current with
  | none => return (Token.eof, c)
  | some ch => c.readToken ch text

/-- The next token of the stream, which ends with the first end token that it hands out. -/
def next? (text : String) (c : Cursor) : Option (Option Token × Cursor) :=
  if c.ended then some (none, c)
  else (c.nextToken text).map fun (t, c) => (some t, { c with ended := t.kind == .eof })

/-- A cursor at the first character of the text. -/
def ofText? (text : String) : Option Cursor := readChar text ⟨0, 0, none, false⟩

end Cursor

end ExprLang
