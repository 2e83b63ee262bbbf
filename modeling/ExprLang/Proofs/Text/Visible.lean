import ExprLang.Text.Column
import ExprLang.Text.Quoted

/-!
# Text without control characters

* `isControl` — the control characters of ASCII and those right above it.
* `Visible` — a text holds none of them.

Principal results: `visible_quote` — quoted text is visible, whatever is quoted; `Visible.fit` — so is
visible text in a column.
-/

namespace ExprLang.Text

/-- The control characters: C0, DEL and C1. -/
def isControl (c : Char) : Bool :=
  decide (c.toNat ≤ 0x1f) || decide (0x7f ≤ c.toNat) && decide (c.toNat ≤ 0x9f)

theorem isControl_eq_true_iff {c : Char} :
    isControl c = true ↔ c.toNat ≤ 0x1f ∨ 0x7f ≤ c.toNat ∧ c.toNat ≤ 0x9f := by
  simp [isControl]

/-- The text holds no control character. -/
def Visible (text : String) : Prop := ∀ c ∈ text.toList, isControl c = false

/-- Decided along the text, and not over all the characters there are. -/
instance (text : String) : Decidable (Visible text) :=
  decidable_of_iff (text.toList.all fun c => !isControl c) (by simp [Visible])

namespace Visible

variable {s t : String}

theorem append (hs : Visible s) (ht : Visible t) : Visible (s ++ t) := by
  intro c hc
  rw [String.toList_append] at hc
  rcases List.mem_append.mp hc with h | h
  · exact hs c h
  · exact ht c h

theorem join {texts : List String} (h : ∀ s ∈ texts, Visible s) : Visible (String.join texts) := by
  intro c hc
  rw [String.toList_join] at hc
  obtain ⟨s, hs, hc⟩ := List.mem_flatMap.mp hc
  exact h s hs c hc

/-- A column adds fillers only. -/
theorem fit {col : Column} (hf : isControl col.filler = false) (h : Visible s) :
    Visible (col.fit s) := by
  have fillers (n : Nat) : ∀ c ∈ List.replicate n col.filler, isControl c = false := by
    intro c hc
    rwa [List.eq_of_mem_replicate hc]
  intro c hc
  rw [Column.fit, String.toList_ofList] at hc
  rcases List.mem_append.mp hc with hc | hc
  · rcases List.mem_append.mp hc with hc | hc
    · exact fillers _ c hc
    · split at hc
      · exact h c (List.mem_of_mem_take hc)
      · exact h c hc
  · exact fillers _ c hc

end Visible

/-! ## Quoted text -/

theorem exists_digitChar_of_mem_toDigits {b n : Nat} (hb : 1 < b) {c : Char}
    (h : c ∈ Nat.toDigits b n) : ∃ d, d < b ∧ c = d.digitChar := by
  induction n using Nat.strongRecOn with
  | ind n ih =>
    rw [Nat.toDigits_eq_if hb] at h
    split at h
    · exact ⟨n, by assumption, List.mem_singleton.mp h⟩
    · rcases List.mem_append.mp h with h | h
      · exact ih (n / b) (Nat.div_lt_self (by omega) hb) h
      · exact ⟨n % b, Nat.mod_lt n (by omega), List.mem_singleton.mp h⟩

theorem isControl_digitChar : ∀ d < 16, isControl d.digitChar = false := by decide

theorem isControl_escapeCodePoint (c : Char) :
    ∀ d ∈ escapeCodePoint c, isControl d = false := by
  have hopen : ∀ d ∈ ['\\', 'u', '{'], isControl d = false := by simp [isControl]
  have hclose : ∀ d ∈ ['}'], isControl d = false := by simp [isControl]
  intro d hd
  rcases List.mem_append.mp hd with hd | hd
  · rcases List.mem_append.mp hd with hd | hd
    · exact hopen d hd
    · obtain ⟨k, hk, rfl⟩ := exists_digitChar_of_mem_toDigits (by decide) hd
      exact isControl_digitChar k hk
  · exact hclose d hd

/-- A character that stands for itself is no control character: those are hidden. -/
theorem isControl_of_isHidden {c : Char} (h : isHidden c = false) : isControl c = false := by
  rw [← Bool.not_eq_true, isControl_eq_true_iff]
  intro hc
  simp [isHidden, isUnprintable_of_control hc] at h

theorem isControl_escape (c : Char) : ∀ d ∈ escape c, isControl d = false := by
  unfold escape
  split
  case h_7 =>
    split
    · exact isControl_escapeCodePoint _
    · rename_i h
      simpa using isControl_of_isHidden (Bool.not_eq_true _ ▸ h)
  all_goals simp [isControl]

/-- **Quoted text is visible, whatever is quoted.** -/
theorem visible_quote (text : String) : Visible (quote text) := by
  intro c hc
  rw [quote, String.toList_ofList, encode] at hc
  rcases List.mem_cons.mp hc with rfl | hc
  · decide
  · rcases List.mem_append.mp hc with hc | hc
    · obtain ⟨d, -, hd⟩ := List.mem_flatMap.mp hc
      exact isControl_escape d c hd
    · rw [List.mem_singleton.mp hc]
      decide

end ExprLang.Text
