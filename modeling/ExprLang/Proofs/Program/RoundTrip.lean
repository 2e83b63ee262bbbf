import ExprLang.Proofs.Program.Rendering
import Mathlib.Data.List.Chain

/-!
# The round trip of rendering and reading

Principal result: `roundTrip_iff` — a coherent program comes back from its rendering exactly if every
expression has a height of at most 128 and no statement fuses with the next one.

The limit is half of `maxNesting`, for an operator is rendered with parentheses and these count.
Statements are rendered without a separator, so a name, a truth value or an integer by itself runs
into the word or integer that begins the next statement.
-/

namespace ExprLang

namespace Program

open Attempt (Clean)

variable {s : Statement} {ss out : List Statement}

/-- The next statement leaves the leaf alone if the two do not fuse. -/
theorem Coherent.endsBefore_render (h : Coherent ⟨s :: ss⟩)
    (hf : ∀ next ∈ ss.head?, s.fuses next = false) :
    ∀ t ∈ s.leaf?, t.EndsBefore (render ⟨ss⟩).toList := by
  intro t ht
  cases ss with
  | nil =>
    rw [toList_render_nil]
    exact .nil t
  | cons next ss =>
    obtain ⟨c, cs, hc, -⟩ := h.tail.head.render_cons
    rw [toList_render_cons, hc]
    apply Token.EndsBefore.cons
    rw [h.head.joins_leaf ht h.tail.head c (by simp [hc])]
    exact hf next rfl

/-- A statement that fuses with the next one is read as another one. -/
theorem Coherent.forgetToken_ne_of_fuses {next u : Statement} {us : List Statement}
    (h : Coherent ⟨s :: next :: ss⟩) (hf : s.fuses next = true)
    (hc : Clean (Token.scan (render ⟨s :: next :: ss⟩).toList) (u :: us)) :
    u.forgetToken ≠ s.forgetToken := by
  obtain ⟨t, ht⟩ := h.head.exists_leaf_of_fuses hf
  obtain ⟨c, cs, hnext, -⟩ := h.tail.head.render_cons
  have hj : t.joins c = true := (h.head.joins_leaf ht h.tail.head c (by simp [hnext])).trans hf
  cases h.head with
  | binding _ _ => cases ht
  | ret _ => cases ht
  | @expr _ value hv =>
    obtain ⟨v, rest, hn, hk, hne⟩ := hv.next?_of_joins ht hj (cs ++ (render ⟨ss⟩).toList)
    rw [toList_render_cons, toList_render_cons, hnext, List.cons_append, Statement.render,
      Token.scan_eq_cons hn] at hc
    obtain ⟨n, _, _, body, left, heq, -, hd, -⟩ := hc.exists_cons
    cases heq
    intro he
    cases hd with
    | binding _ _ _ _ => cases he
    | ret _ _ => cases he
    | expr hd =>
      cases he
      exact hne (hd.eq_of_leaf ht hk)

/-- Within the limits a program comes back. -/
theorem Coherent.clean_render (h : Coherent ⟨ss⟩) (hh : ∀ s ∈ ss, s.value.height ≤ 128)
    (ha : ss.IsChain fun s next => s.fuses next = false) :
    Clean (Token.scan (render ⟨ss⟩).toList) (ss.map Statement.reread) := by
  induction ss with
  | nil => exact Attempt.clean_render_nil
  | cons s ss ih =>
    obtain ⟨hf, ha⟩ := List.isChain_cons.mp ha
    rw [List.map_cons, Attempt.clean_render_cons h.head h.tail (h.endsBefore_render hf)]
    refine ⟨hh s List.mem_cons_self, _, rfl, ih h.tail ?_ ha⟩
    intro u hu
    exact hh u (List.mem_cons_of_mem s hu)

/-- What comes back is within the limits. -/
theorem Coherent.limits_of_clean (h : Coherent ⟨ss⟩)
    (hc : Clean (Token.scan (render ⟨ss⟩).toList) out)
    (he : out.map Statement.forgetToken = ss.map Statement.forgetToken) :
    (∀ s ∈ ss, s.value.height ≤ 128) ∧ ss.IsChain fun s next => s.fuses next = false := by
  induction ss generalizing out with
  | nil => exact ⟨by simp, .nil⟩
  | cons s ss ih =>
    by_cases hf : ∀ next ∈ ss.head?, s.fuses next = false
    · rw [Attempt.clean_render_cons h.head h.tail (h.endsBefore_render hf)] at hc
      obtain ⟨hs, us, rfl, hus⟩ := hc
      obtain ⟨hh, ha⟩ := ih h.tail hus (List.cons_eq_cons.mp he).2
      constructor
      · exact List.forall_mem_cons.mpr ⟨hs, hh⟩
      · exact List.isChain_cons.mpr ⟨hf, ha⟩
    · -- the first statement runs into the next one, so another one comes back in its place
      push Not at hf
      obtain ⟨next, hnext, hf⟩ := hf
      obtain ⟨ss, rfl⟩ := List.head?_eq_some_iff.mp hnext
      cases out with
      | nil => cases he
      | cons u us =>
        exact absurd (List.cons_eq_cons.mp he).1 (h.forgetToken_ne_of_fuses (by simpa using hf) hc)

end Program

/-- **The exact range of the round trip.** A coherent program comes back from its rendering, apart
from the first tokens of expressions by themselves, exactly if every expression has a height of at
most 128 and no statement fuses with the next one. -/
theorem roundTrip_iff {p : Program} (h : p.Coherent) :
    (parse p.render).2 = [] ∧
        (parse p.render).1.statements.map Statement.forgetToken =
          p.statements.map Statement.forgetToken ↔
      (∀ s ∈ p.statements, s.value.height ≤ 128) ∧
        p.statements.IsChain fun s next => s.fuses next = false := by
  constructor
  · rintro ⟨hd, he⟩
    exact h.limits_of_clean ⟨hd, rfl⟩ he
  · rintro ⟨hh, ha⟩
    obtain ⟨hd, hs⟩ := h.clean_render hh ha
    refine ⟨hd, ?_⟩
    rw [show (parse p.render).1.statements = p.statements.map Statement.reread from hs,
      List.map_map]
    apply List.map_congr_left
    intro s _
    exact s.forgetToken_reread

/-- A binding, a return and an expression, with an expression at the end that has no semicolon. -/
theorem roundTrip_mixed :
    (parse "let x = 1; return !x; 3; y").1.Coherent ∧
      (parse (parse "let x = 1; return !x; 3; y").1.render).2 = [] :=
  have h := coherent_parse "let x = 1; return !x; 3; y"
  ⟨h, ((roundTrip_iff h).mpr ⟨by decide +kernel, by decide +kernel⟩).1⟩

end ExprLang
