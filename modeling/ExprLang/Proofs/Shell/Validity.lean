import ExprLang.Proofs.Shell.Delivery
import ExprLang.Shell.Transcript

/-!
# Text, line by line

* `IsText` — some bytes are those of a text.

Principal results: `decode_eq_some_iff` — decoding finds the text of the bytes, if there is one;
`isText_append_cons` — bytes around an ASCII character are a text exactly if both parts are;
`Delivers.fault_eq` — a source that ends cleanly delivers all of its lines exactly if its bytes are a
text as a whole.

In UTF-8 no byte of a longer character looks like an ASCII character. So a line feed is never a part of
another character, and neither is a carriage return.
-/

namespace ExprLang.Shell

/-- The bytes are those of a text. -/
def IsText (bytes : List UInt8) : Prop := ∃ text : String, bytesOf text = bytes

/-! ## Decoding -/

variable {bytes xs ys : List UInt8}

theorem bytesOf_ofList (cs : List Char) :
    bytesOf (String.ofList cs) = cs.flatMap String.utf8EncodeChar := by
  rw [bytesOf, String.toUTF8_eq_toByteArray, String.toByteArray_ofList, List.utf8Encode,
    List.toList_data_toByteArray]

theorem isText_iff_chars :
    IsText bytes ↔ ∃ cs : List Char, cs.flatMap String.utf8EncodeChar = bytes := by
  constructor
  · rintro ⟨text, rfl⟩
    refine ⟨text.toList, ?_⟩
    rw [← bytesOf_ofList, String.ofList_toList]
  · rintro ⟨cs, rfl⟩
    exact ⟨String.ofList cs, bytesOf_ofList cs⟩

theorem decode_bytesOf (text : String) : decode (bytesOf text) = some text := by
  have hbytes : (⟨(bytesOf text).toArray⟩ : ByteArray) = text.toByteArray := by
    rw [bytesOf, String.toUTF8_eq_toByteArray, Array.toArray_toList]
  rw [decode, hbytes, String.fromUTF8?, dif_pos text.isValidUTF8]
  rfl

/-- **Decoding finds the text of the bytes, if there is one.** -/
theorem decode_eq_some_iff {text : String} : decode bytes = some text ↔ bytesOf text = bytes := by
  constructor
  · intro h
    unfold decode String.fromUTF8? at h
    split at h
    · cases h
      simp [bytesOf, String.fromUTF8]
    · cases h
  · rintro rfl
    exact decode_bytesOf text

theorem decode_eq_none_iff : decode bytes = none ↔ ¬ IsText bytes := by
  rw [Option.eq_none_iff_forall_ne_some]
  simp only [ne_eq, decode_eq_some_iff, IsText, not_exists]

instance (bytes : List UInt8) : Decidable (IsText bytes) :=
  decidable_of_iff (decode bytes ≠ none) (by rw [ne_eq, decode_eq_none_iff, Classical.not_not])

/-! ## ASCII bytes -/

/-- The highest bit makes a byte too large for ASCII. -/
theorem ne_or_of_lt {a b : UInt8} (x : UInt8) (hb : b < 128) (ha : 128 ≤ a) : b ≠ x ||| a := by
  intro heq
  have hle : a ≤ x ||| a := UInt8.right_le_or
  rw [← heq] at hle
  rw [UInt8.lt_iff_toNat_lt] at hb
  rw [UInt8.le_iff_toNat_le] at ha hle
  omega

/-- **A byte of ASCII is a character by itself,** and no part of another one. -/
theorem utf8EncodeChar_eq_of_mem {c : Char} {b : UInt8} (hb : b < 128)
    (h : b ∈ String.utf8EncodeChar c) : String.utf8EncodeChar c = [b] := by
  -- the bytes of a longer character are all marked by their highest bits
  have apart {a : UInt8} (x : UInt8) (ha : 128 ≤ a) : b ≠ x ||| a := ne_or_of_lt x hb ha
  rcases c.utf8Size_eq with h1 | h2 | h3 | h4
  · rw [String.utf8EncodeChar_eq_singleton h1] at h ⊢
    rw [List.mem_singleton.mp h]
  · rw [String.utf8EncodeChar_eq_cons_cons h2] at h
    simp [apart] at h
  · rw [String.utf8EncodeChar_eq_cons_cons_cons h3] at h
    simp [apart] at h
  · rw [String.utf8EncodeChar_eq_cons_cons_cons_cons h4] at h
    simp [apart] at h

theorem isText_nil : IsText [] := ⟨"", rfl⟩

theorem isText_singleton {b : UInt8} (hb : b < 128) : IsText [b] := by
  have ascii : ∀ n < 128, String.utf8EncodeChar (Char.ofNat n) = [UInt8.ofNat n] := by decide
  have h := ascii b.toNat (UInt8.lt_iff_toNat_lt.mp hb)
  rw [UInt8.ofNat_toNat] at h
  exact isText_iff_chars.mpr ⟨[Char.ofNat b.toNat], by simp [h]⟩

theorem IsText.append (hx : IsText xs) (hy : IsText ys) : IsText (xs ++ ys) := by
  obtain ⟨s, rfl⟩ := hx
  obtain ⟨t, rfl⟩ := hy
  exact ⟨s ++ t, bytesOf_append s t⟩

/-- A text can be cut at a byte of ASCII. -/
theorem IsText.of_append_cons {b : UInt8} (hb : b < 128) (h : IsText (xs ++ b :: ys)) :
    IsText xs ∧ IsText ys := by
  obtain ⟨cs, hcs⟩ := isText_iff_chars.mp h
  clear h
  induction cs generalizing xs with
  | nil => simp at hcs
  | cons c cs ih =>
    have hc : IsText (String.utf8EncodeChar c) := isText_iff_chars.mpr ⟨[c], by simp⟩
    rw [List.flatMap_cons, List.append_eq_append_iff] at hcs
    rcases hcs with ⟨more, rfl, hcs⟩ | ⟨more, hmore, hcs⟩
    · obtain ⟨hm, hy⟩ := ih hcs
      exact ⟨hc.append hm, hy⟩
    · cases more with
      | nil =>
        rw [List.append_nil] at hmore
        have hrest : cs.flatMap String.utf8EncodeChar = [] ++ b :: ys := hcs.symm
        obtain ⟨-, hy⟩ := ih hrest
        exact ⟨hmore ▸ hc, hy⟩
      | cons a more =>
        -- the byte belongs to this character, so it is all of it
        obtain ⟨rfl, rfl⟩ := List.cons_eq_cons.mp hcs
        have hmem : b ∈ String.utf8EncodeChar c := by simp [hmore]
        rw [utf8EncodeChar_eq_of_mem hb hmem] at hmore
        have hlen := congrArg List.length hmore
        simp only [List.length_append, List.length_cons, List.length_nil] at hlen
        obtain rfl : xs = [] := List.eq_nil_of_length_eq_zero (by omega)
        obtain rfl : more = [] := List.eq_nil_of_length_eq_zero (by omega)
        exact ⟨isText_nil, isText_iff_chars.mpr ⟨cs, rfl⟩⟩

/-- **Bytes around a byte of ASCII are a text exactly if both parts are.** -/
theorem isText_append_cons {b : UInt8} (hb : b < 128) :
    IsText (xs ++ b :: ys) ↔ IsText xs ∧ IsText ys := by
  constructor
  · exact IsText.of_append_cons hb
  · rintro ⟨hx, hy⟩
    exact hx.append ((isText_singleton hb).append hy)

theorem isText_dropReturn (line : List UInt8) : IsText (dropReturn line) ↔ IsText line := by
  unfold dropReturn
  split
  · rename_i h
    obtain ⟨before, rfl⟩ := List.getLast?_eq_some_iff.mp h
    rw [List.dropLast_concat, isText_append_cons (by decide)]
    exact (and_iff_left isText_nil).symm
  · exact Iff.rfl

/-! ## Delivery -/

/-- **A source that ends cleanly delivers all of its lines exactly if its bytes are a text.** A line that
is no text stops it otherwise. -/
theorem Delivers.fault_eq {lines : List String} {fault : Option Fault}
    (h : Delivers false bytes lines fault) :
    fault = if IsText bytes then none else some .invalidText := by
  have some_iff {raw : List UInt8} {text : String} (ht : decode raw = some text) : IsText raw :=
    ⟨text, decode_eq_some_iff.mp ht⟩
  induction h with
  | @line raw rest text lines fault _ ht _ ih =>
    have hraw : IsText raw := (isText_dropReturn raw).mp (some_iff ht)
    rw [ih]
    simp [isText_append_cons (show lineFeed < 128 by decide), hraw]
  | @invalidLine raw rest _ ht =>
    have hraw : ¬ IsText raw := mt (isText_dropReturn raw).mpr (decode_eq_none_iff.mp ht)
    simp [isText_append_cons (show lineFeed < 128 by decide), hraw]
  | ended _ => rw [if_pos isText_nil]
  | last _ _ _ ht => rw [if_pos (some_iff ht)]
  | invalidLast _ _ _ ht => rw [if_neg (decode_eq_none_iff.mp ht)]
  | failed hf _ => cases hf

end ExprLang.Shell
