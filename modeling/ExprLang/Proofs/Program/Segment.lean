import ExprLang.Proofs.Program.Grammar

/-!
# The tokens of an attempt

* `Attempt.Step` — one attempt, and the tokens that are left after it.
* `Attempt.Run` — attempts one after the other.
* `Attempt.Takes` — the segment of tokens that an attempt accounts for.

Principal results: `run_all` — the attempts at a token sequence are a run to its end;
`Step.exists_takes` — each of them takes a segment: a kept statement the tokens that derive it, with
the semicolon after them, and a failed one all tokens up to the first semicolon.
-/

namespace ExprLang

/-! ## Semicolons -/

theorem toSemicolon_cons {semi : Token} (hs : semi.kind = .semicolon) (rest : List Token) :
    toSemicolon (semi :: rest) = semi :: rest := by
  simp [toSemicolon, hs]

theorem toSemicolon_cons_of_ne {t : Token} (ht : t.kind ≠ .semicolon) (rest : List Token) :
    toSemicolon (t :: rest) = toSemicolon rest := by
  simp [toSemicolon, ht]

/-- A failure skips as far as skipping from the first token of its statement would. -/
theorem toSemicolon_of_leaves {ts rest : List Token} (h : Leaves ts rest) :
    toSemicolon ts = toSemicolon rest := by
  obtain ⟨used, rfl, hu⟩ := h
  exact List.dropWhile_append_of_pos fun t ht => decide_eq_true (hu t ht)

/-- Skipping ends at the first semicolon, or at the end of the tokens. -/
theorem toSemicolon_cases (ts : List Token) :
    (∃ body stop rest, ts = body ++ stop :: rest ∧ (∀ t ∈ body, t.kind ≠ .semicolon) ∧
      stop.kind = .semicolon ∧ toSemicolon ts = stop :: rest) ∨
      (∀ t ∈ ts, t.kind ≠ .semicolon) ∧ toSemicolon ts = [] := by
  induction ts with
  | nil => exact .inr ⟨by simp, rfl⟩
  | cons t ts ih =>
    by_cases ht : t.kind = .semicolon
    · exact .inl ⟨[], t, ts, rfl, by simp, ht, toSemicolon_cons ht ts⟩
    · rw [toSemicolon_cons_of_ne ht]
      rcases ih with ⟨body, stop, rest, rfl, hb, hs, h⟩ | ⟨hb, h⟩
      · exact .inl ⟨t :: body, stop, rest, rfl, List.forall_mem_cons.mpr ⟨ht, hb⟩, hs, h⟩
      · exact .inr ⟨List.forall_mem_cons.mpr ⟨ht, hb⟩, h⟩

namespace Attempt

/-! ## Steps and runs -/

/-- One attempt at the head of the tokens, and the tokens that are left. -/
inductive Step : List Token → Attempt → List Token → Prop
  | kept {t : Token} {ts rest : List Token} {s : Statement}
      (h : Statement.read t ts = .ok (s, rest)) : Step (t :: ts) (.kept t s) rest
  | failed {t : Token} {ts : List Token} {f : Failure} (h : Statement.read t ts = .error f) :
      Step (t :: ts) (.failed t f.diagnostic ((toSemicolon f.rest).head?.getD Token.eof))
        (toSemicolon f.rest).tail

/-- Attempts one after the other, and the tokens that are left after the last one. -/
inductive Run : List Token → List Attempt → List Token → Prop
  | nil {ts : List Token} : Run ts [] ts
  | cons {ts mid rest : List Token} {a : Attempt} {as : List Attempt} (h : Step ts a mid)
      (hs : Run mid as rest) : Run ts (a :: as) rest

/-- **The attempts at a token sequence are a run to its end.** -/
theorem run_all (ts : List Token) : Run ts (all ts) [] := by
  fun_induction all ts with
  | case1 => exact .nil
  | case2 t ts s after hr ih => exact .cons (.kept hr) ih
  | case3 t ts f hr ih => exact .cons (.failed hr) ih

/-- A run makes the attempts at its tokens, and leaves those at the tokens after it. -/
theorem Run.all_eq {ts rest : List Token} {as : List Attempt} (h : Run ts as rest) :
    all ts = as ++ all rest := by
  induction h with
  | nil => rfl
  | cons ha _ ih =>
    cases ha with
    | kept hr => rw [all_cons_of_ok hr, ih, List.cons_append]
    | failed hr => rw [all_cons_of_error hr, ih, List.cons_append]

/-- A run can be stopped before any of its attempts. -/
theorem Run.split {ts rest : List Token} {as bs : List Attempt} (h : Run ts (as ++ bs) rest) :
    ∃ mid, Run ts as mid ∧ Run mid bs rest := by
  induction as generalizing ts with
  | nil => exact ⟨ts, .nil, h⟩
  | cons a as ih =>
    cases h with
    | cons ha h =>
      obtain ⟨mid, has, hbs⟩ := ih h
      exact ⟨mid, .cons ha has, hbs⟩

/-! ## Segments -/

/-- The attempt accounts for a segment of tokens in front of `rest`. A kept statement is derived from
its segment without the semicolon at the end. A failed one takes everything up to the first
semicolon, or up to the end of the tokens. -/
inductive Takes (rest : List Token) : Attempt → List Token → Prop
  | kept {n : Nat} {t : Token} {s : Statement} {body last : List Token}
      (hd : Statement.Derives n s (t :: body)) (hn : n ≤ maxNesting) (hl : IsEnd last) :
      Takes rest (.kept t s) (t :: body ++ last)
  | skipped {t stop : Token} {d : Diagnostic} {body : List Token}
      (ht : t ∈ (body ++ [stop]).head?) (hb : ∀ u ∈ body, u.kind ≠ .semicolon)
      (hs : stop.kind = .semicolon) : Takes rest (.failed t d stop) (body ++ [stop])
  | ended {t : Token} {d : Diagnostic} {body : List Token}
      (hb : ∀ u ∈ t :: body, u.kind ≠ .semicolon) (hr : rest = []) :
      Takes rest (.failed t d Token.eof) (t :: body)

/-- **Every attempt takes a segment of the tokens and leaves the others.** -/
theorem Step.exists_takes {ts rest : List Token} {a : Attempt} (h : Step ts a rest) :
    ∃ segment, ts = segment ++ rest ∧ Takes rest a segment := by
  cases h with
  | @kept t ts _ s hr =>
    obtain ⟨n, body, left, hts, hd, -, hn, rfl⟩ := Statement.derives_of_read hr
    obtain ⟨last, hl, hleft⟩ := exists_end left
    obtain ⟨u, body, rfl⟩ := List.exists_cons_of_ne_nil hd.ne_nil
    cases hts
    refine ⟨t :: body ++ last, ?_, .kept hd hn hl⟩
    rw [List.append_assoc, ← hleft]
    rfl
  | @failed t ts f hr =>
    have hskip : toSemicolon (t :: ts) = toSemicolon f.rest := by
      have hp := Statement.progress_read t ts
      rw [hr] at hp
      exact toSemicolon_of_leaves hp
    rw [← hskip]
    rcases toSemicolon_cases (t :: ts) with ⟨body, stop, rest, hts, hb, hs, h⟩ | ⟨hb, h⟩
    · rw [h]
      refine ⟨body ++ [stop], by simp [hts], .skipped ?_ hb hs⟩
      cases body with
      | nil => cases hts; rfl
      | cons u body => cases hts; rfl
    · rw [h]
      exact ⟨t :: ts, by simp, .ended hb rfl⟩

/-! ## What a run keeps -/

theorem Step.suffix {ts rest : List Token} {a : Attempt} (h : Step ts a rest) : rest <:+ ts := by
  obtain ⟨segment, rfl, -⟩ := h.exists_takes
  exact List.suffix_append segment rest

theorem Run.suffix {ts rest : List Token} {as : List Attempt} (h : Run ts as rest) :
    rest <:+ ts := by
  induction h with
  | nil => exact List.suffix_rfl
  | cons ha _ ih => exact ih.trans ha.suffix

/-- Every attempt of a run is a step from some place on. -/
theorem Run.exists_step {ts rest : List Token} {as : List Attempt} {a : Attempt}
    (h : Run ts as rest) (ha : a ∈ as) : ∃ mid after, mid <:+ ts ∧ Step mid a after := by
  obtain ⟨before, more, rfl⟩ := List.append_of_mem ha
  obtain ⟨mid, hbefore, hmore⟩ := h.split
  cases hmore with
  | cons hstep _ => exact ⟨mid, _, hbefore.suffix, hstep⟩

/-- **What is kept was derived from some of the tokens,** within the limit. -/
theorem exists_derives_of_mem {ts : List Token} {s : Statement}
    (h : s ∈ (all ts).filterMap statement?) :
    ∃ n body, Statement.Derives n s body ∧ n ≤ maxNesting ∧ body <:+: ts := by
  obtain ⟨a, ha, hs⟩ := List.mem_filterMap.mp h
  obtain ⟨mid, after, hmid, hstep⟩ := (run_all ts).exists_step ha
  obtain ⟨segment, rfl, htakes⟩ := hstep.exists_takes
  cases htakes with
  | @kept n t _ body last hd hn _ =>
    cases hs
    have hin : t :: body <+: t :: body ++ last ++ after := by simp
    exact ⟨n, t :: body, hd, hn, hin.isInfix.trans hmid.isInfix⟩
  | skipped _ _ _ => cases hs
  | ended _ _ => cases hs

end Attempt

end ExprLang
