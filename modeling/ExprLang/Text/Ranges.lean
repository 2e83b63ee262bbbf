/-!
# Sets of code points as sorted ranges

* `Ranges` — inclusive ranges of code points in ascending order, which do not overlap.
* `Ranges.covers` — membership; it stops at the first range above the code point.
* `Ranges.Ascending` — the order that membership relies on.

Principal result: `covers_eq_true_iff` — for ascending ranges, membership is lying in one of them.
-/

namespace ExprLang.Text

/-- Inclusive ranges `(first, last)` of code points, in ascending order. -/
abbrev Ranges := List (Nat × Nat)

/-- Whether some range holds `n`, for ranges in ascending order. -/
def Ranges.covers : Ranges → Nat → Bool
  | [], _ => false
  | (first, last) :: rest, n =>
    if n < first then false
    else if n ≤ last then true
    else covers rest n

/-- Each range holds something and ends before the next one starts. -/
def Ranges.Ascending : Ranges → Prop
  | [] => True
  | [(first, last)] => first ≤ last
  | (first, last) :: next :: rest => first ≤ last ∧ last < next.1 ∧ Ascending (next :: rest)

instance Ranges.decidableAscending : ∀ rs : Ranges, Decidable rs.Ascending
  | [] => inferInstanceAs (Decidable True)
  | [(first, last)] => inferInstanceAs (Decidable (first ≤ last))
  | (first, last) :: next :: rest =>
    have := decidableAscending (next :: rest)
    inferInstanceAs (Decidable (first ≤ last ∧ last < next.1 ∧ Ascending (next :: rest)))

/-- What is covered lies in one of the ranges. -/
theorem Ranges.exists_of_covers {n : Nat} :
    ∀ {rs : Ranges}, rs.covers n = true → ∃ r ∈ rs, r.1 ≤ n ∧ n ≤ r.2
  | [], h => by simp [covers] at h
  | (first, last) :: rest, h => by
    simp only [covers] at h
    split at h
    · cases h
    · split at h
      · exact ⟨(first, last), by simp, by simp only; omega, by simp only; omega⟩
      · obtain ⟨r, hr, hn⟩ := exists_of_covers h
        exact ⟨r, by simp [hr], hn⟩

/-- All later ranges lie above the first one. -/
theorem Ranges.Ascending.lt_of_mem {first last : Nat} :
    ∀ {rest : Ranges}, Ranges.Ascending ((first, last) :: rest) → ∀ r ∈ rest, last < r.1
  | [], _, r, hr => by cases hr
  | (a, b) :: rest, h, r, hr => by
    obtain ⟨-, hlt, htail⟩ := h
    rcases List.mem_cons.mp hr with rfl | hr
    · exact hlt
    · have hb := htail.lt_of_mem r hr
      have hab : a ≤ b := by
        cases rest with
        | nil => exact htail
        | cons _ _ => exact htail.1
      simp only at hlt
      omega

theorem Ranges.Ascending.tail {first last : Nat} {rest : Ranges}
    (h : Ranges.Ascending ((first, last) :: rest)) : Ranges.Ascending rest := by
  cases rest with
  | nil => trivial
  | cons _ _ => exact h.2.2

/-- **For ascending ranges, membership is lying in one of them.** -/
theorem Ranges.covers_eq_true_iff {n : Nat} :
    ∀ {rs : Ranges}, rs.Ascending → (rs.covers n = true ↔ ∃ r ∈ rs, r.1 ≤ n ∧ n ≤ r.2)
  | [], _ => by simp [covers]
  | (first, last) :: rest, h => by
    refine ⟨exists_of_covers, ?_⟩
    rintro ⟨r, hr, h1, h2⟩
    simp only [covers]
    rcases List.mem_cons.mp hr with rfl | hr
    · simp only at h1 h2
      rw [if_neg (by omega), if_pos h2]
    · have hlt := h.lt_of_mem r hr
      have hle : first ≤ last := by
        cases rest with
        | nil => exact h
        | cons _ _ => exact h.1
      rw [if_neg (by omega), if_neg (by omega)]
      exact (covers_eq_true_iff h.tail).mpr ⟨r, hr, h1, h2⟩

end ExprLang.Text
