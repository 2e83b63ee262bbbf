import ExprLang.Proofs.Program.Segment
import ExprLang.Proofs.Statement.Rendering

/-!
# Reading a rendering

* `Program.Coherent` — every statement agrees with its tokens.
* `Attempt.Clean` — some tokens are read as some statements, without a diagnostic.

Principal results: `coherent_parse` — what comes from a text is coherent; `clean_render_cons` — in
front of statements that do not fuse with it, a statement comes back exactly if its height is at
most 128; `Clean.exists_cons` — what was read began with a derivation of its first statement.
-/

namespace ExprLang

namespace Program

/-- The program could come from a text, as far as its nodes and their tokens are concerned. -/
def Coherent (p : Program) : Prop := ∀ s ∈ p.statements, s.Coherent

theorem Coherent.head {s : Statement} {ss : List Statement} (h : Coherent ⟨s :: ss⟩) :
    s.Coherent := h s (List.mem_cons_self)

theorem Coherent.tail {s : Statement} {ss : List Statement} (h : Coherent ⟨s :: ss⟩) :
    Coherent ⟨ss⟩ := fun u hu => h u (List.mem_cons_of_mem s hu)

theorem Coherent.append {ss us : List Statement} (h : Coherent ⟨ss ++ us⟩) :
    Coherent ⟨ss⟩ ∧ Coherent ⟨us⟩ := List.forall_mem_append.mp h

theorem toList_render_nil : (render ⟨[]⟩).toList = [] := rfl

theorem toList_render_cons (s : Statement) (ss : List Statement) :
    (render ⟨s :: ss⟩).toList = s.render.toList ++ (render ⟨ss⟩).toList := by
  simp [render]

theorem mem_render {ss : List Statement} {c : Char} :
    c ∈ (render ⟨ss⟩).toList ↔ ∃ s ∈ ss, c ∈ s.render.toList := by
  simp [render]

theorem render_append (ss us : List Statement) :
    render ⟨ss ++ us⟩ = render ⟨ss⟩ ++ render ⟨us⟩ := by
  simp [render]

/-- A rendering begins like its first statement. -/
theorem Coherent.head_render {p : Program} (h : p.Coherent) {c : Char}
    (hc : c ∈ p.render.toList.head?) :
    ∃ s ∈ p.statements.head?, isLetter c = s.beginsWord ∧ c.isDigit = s.isNumber ∧
      opensRendering c = true := by
  obtain ⟨ss⟩ := p
  cases ss with
  | nil => cases hc
  | cons s ss =>
    obtain ⟨d, ds, hd, hclass⟩ := h.head.render_cons
    rw [toList_render_cons, hd] at hc
    cases hc
    exact ⟨s, rfl, hclass⟩

/-- No rendering begins with a blank, an operator or a semicolon. -/
theorem Coherent.opensRendering_head {p : Program} (h : p.Coherent) :
    ∀ c ∈ p.render.toList.head?, opensRendering c = true := by
  intro c hc
  obtain ⟨s, -, -, -, hopen⟩ := h.head_render hc
  exact hopen

end Program

namespace Attempt

open ExprLang.Expr (Stops)

/-- The tokens are read as these statements, without a diagnostic. -/
def Clean (ts : List Token) (ss : List Statement) : Prop :=
  (all ts).filterMap diagnostic? = [] ∧ (all ts).filterMap statement? = ss

variable {t : Token} {ts after : List Token} {s : Statement} {ss : List Statement}

theorem clean_nil_iff : Clean [] ss ↔ ss = [] := by
  simp [Clean, all, eq_comm]

theorem clean_cons_of_ok (h : Statement.read t ts = .ok (s, after)) :
    Clean (t :: ts) ss ↔ ∃ us, ss = s :: us ∧ Clean after us := by
  rw [Clean, all_cons_of_ok h]
  constructor
  · rintro ⟨hd, rfl⟩
    exact ⟨_, rfl, hd, rfl⟩
  · rintro ⟨us, rfl, hd, rfl⟩
    exact ⟨hd, rfl⟩

theorem not_clean_of_error {f : Failure} (h : Statement.read t ts = .error f) :
    ¬ Clean (t :: ts) ss := by
  rw [Clean, all_cons_of_error h]
  exact nofun

/-- What was read without a diagnostic began with a derivation of its first statement. -/
theorem Clean.exists_cons (h : Clean (t :: ts) ss) :
    ∃ n s us body left, ss = s :: us ∧ ts = body ++ left ∧ Statement.Derives n s (t :: body) ∧
      Clean (skipSemicolon left) us := by
  cases hr : Statement.read t ts with
  | error f => exact absurd h (not_clean_of_error hr)
  | ok r =>
    obtain ⟨s, after⟩ := r
    obtain ⟨us, rfl, hus⟩ := (clean_cons_of_ok hr).mp h
    obtain ⟨n, body, left, hts, hd, -, -, rfl⟩ := Statement.derives_of_read hr
    obtain ⟨u, body, rfl⟩ := List.exists_cons_of_ne_nil hd.ne_nil
    cases hts
    exact ⟨n, s, us, body, left, rfl, rfl, hd, hus⟩

/-! ## What is kept is coherent -/

theorem coherent_of_mem {u : Statement} (hts : ∀ t ∈ ts, Token.Lexeme t)
    (hu : u ∈ (all ts).filterMap statement?) : u.Coherent := by
  obtain ⟨n, body, hd, -, hin⟩ := exists_derives_of_mem hu
  apply hd.coherent
  intro t ht
  exact hts t (hin.subset ht)

theorem Clean.coherent {cs : List Char} (h : Clean (Token.scan cs) ss) :
    Program.Coherent ⟨ss⟩ := by
  obtain ⟨-, rfl⟩ := h
  intro s hs
  exact coherent_of_mem (fun _ => Token.lexeme_of_mem_scan) hs

/-! ## Rendered statements -/

theorem clean_render_nil : Clean (Token.scan (Program.render ⟨[]⟩).toList) [] := by
  rw [Program.toList_render_nil, Token.scan_nil]
  exact clean_nil_iff.mpr rfl

/-- **A statement comes back from its tokens exactly if its height is at most 128.** -/
theorem clean_spelled_append (hs : s.Coherent) (ho : Opens after) :
    Clean (s.spelled ++ after) ss ↔
      s.value.height ≤ 128 ∧ ∃ us, ss = s.reread :: us ∧ Clean after us := by
  obtain ⟨t, body, left, heq, hd, hstop, hleft⟩ := hs.derives_spelled ho
  rw [heq]
  by_cases hh : s.value.height ≤ 128
  · have hr := Statement.read_of_derives hd hstop (by rw [maxNesting]; omega)
    rw [hleft] at hr
    simp [clean_cons_of_ok hr, hh]
  · obtain ⟨_, hr⟩ := Statement.tooDeep_of_derives hd hstop (by rw [maxNesting]; omega)
    simp [not_clean_of_error hr, hh]

/-- The same in front of a text that does not join the leaf of the statement. -/
theorem clean_render_cons {rest : List Statement} (hs : s.Coherent)
    (hrest : Program.Coherent ⟨rest⟩)
    (hend : ∀ t ∈ s.leaf?, t.EndsBefore (Program.render ⟨rest⟩).toList) :
    Clean (Token.scan (Program.render ⟨s :: rest⟩).toList) ss ↔
      s.value.height ≤ 128 ∧
        ∃ us, ss = s.reread :: us ∧ Clean (Token.scan (Program.render ⟨rest⟩).toList) us := by
  rw [Program.toList_render_cons, hs.scan_render hend,
    clean_spelled_append hs (opens_scan hrest.opensRendering_head)]

end Attempt

/-- **What comes from a text is coherent.** -/
theorem coherent_parse (text : String) : (parse text).1.Coherent := by
  intro s hs
  exact Attempt.coherent_of_mem (fun _ => Token.lexeme_of_mem_scan) hs

end ExprLang
