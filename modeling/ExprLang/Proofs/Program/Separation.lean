import ExprLang.Proofs.Program.Isolation
import ExprLang.Proofs.Program.Rendering
import ExprLang.Proofs.Program.Stored
import ExprLang.Proofs.Statement.Unambiguous
import ExprLang.Proofs.Token.Seam

/-!
# When a semicolon matters

* `Ends` — what ends a statement in front of the tokens after it: a semicolon, or nothing where they
  begin with no semicolon and no binary operator.

Principal results: `Attempt.Run.exists_last` — the last statement of a run without a failure, what ends
it, and that the statements before it do not depend on what comes after it;
`semicolon_irrelevant_iff` — a semicolon can be left out unless the next statement begins with a minus
sign, and can be put in behind every statement.

A statement begins with a keyword or as an expression, and of the tokens that begin an expression only
the minus sign is a binary operator too.
-/

namespace ExprLang

open ExprLang.Expr (Stops)

theorem TokenKind.rank_of_beginsExpr {k : TokenKind} (h : k.beginsExpr = true) (hm : k ≠ .minus) :
    k.precedence.rank = 0 := by
  revert h hm
  cases k <;> decide

/-! ## What ends a statement -/

/-- A semicolon ends every statement. Without one the next token must not go on with it. -/
inductive Ends (rest : List Token) : List Token → Prop
  | semicolon {semi : Token} (hs : semi.kind = .semicolon) : Ends rest [semi]
  | apart (h : ∀ t ∈ rest.head?, t.kind.precedence.rank = 0 ∧ t.kind ≠ .semicolon) : Ends rest []

namespace Ends

variable {rest last : List Token}

theorem nil : Ends [] [] := .apart (by simp)

theorem stops (h : Ends rest last) : Stops 0 (last ++ rest) := by
  cases h with
  | semicolon hs => exact Expr.stops_semicolon hs 0 rest
  | apart h => exact fun t ht => Nat.le_of_eq (h t ht).1

theorem skipSemicolon_eq (h : Ends rest last) : skipSemicolon (last ++ rest) = rest := by
  cases h with
  | semicolon hs => exact skipSemicolon_cons hs rest
  | apart h =>
    cases rest with
    | nil => rfl
    | cons t rest => exact skipSemicolon_cons_of_ne (h t rfl).2 rest

/-- Only the first token after the end counts. -/
theorem congr {rest' : List Token} (h : Ends rest last) (hr : rest'.head? = rest.head?) :
    Ends rest' last := by
  cases h with
  | semicolon hs => exact .semicolon hs
  | apart h => exact .apart (hr ▸ h)

end Ends

/-- Where reading stops, it leaves an end. -/
theorem Expr.Stops.exists_ends {left : List Token} (h : Stops 0 left) :
    ∃ last, left = last ++ skipSemicolon left ∧ Ends (skipSemicolon left) last := by
  cases left with
  | nil => exact ⟨[], rfl, .nil⟩
  | cons t left =>
    by_cases ht : t.kind = .semicolon
    · exact ⟨[t], by rw [skipSemicolon_cons ht, List.singleton_append], .semicolon ht⟩
    · refine ⟨[], by rw [skipSemicolon_cons_of_ne ht, List.nil_append], ?_⟩
      rw [skipSemicolon_cons_of_ne ht]
      refine .apart fun u hu => ?_
      cases hu
      exact ⟨Nat.le_zero.mp h.of_cons, ht⟩

namespace Statement.Derives

variable {n : Nat} {s : Statement} {t : Token} {ts last rest : List Token}

theorem read_of_ends (h : Derives n s (t :: ts)) (hn : n ≤ maxNesting) (hl : Ends rest last) :
    read t (ts ++ (last ++ rest)) = .ok (s, rest) := by
  rw [read_of_derives h hl.stops hn, hl.skipSemicolon_eq]

/-- A statement can come after any other without a semicolon, unless it begins with a minus sign. -/
theorem ends_nil (h : Derives n s (t :: ts)) (ht : t.kind ≠ .minus) (rest : List Token) :
    Ends (t :: rest) [] := by
  refine .apart fun u hu => ?_
  cases hu
  refine ⟨?_, h.ne_semicolon t (List.mem_cons_self ..)⟩
  cases h with
  | binding hk _ _ _ | ret hk _ => rw [hk]; rfl
  | expr h => exact TokenKind.rank_of_beginsExpr h.beginsExpr_head ht

/-- **In front of a binary operator a statement is not read,** but a longer one or none. -/
theorem read_ne_of_operator (h : Derives n s (t :: ts)) {op : Token}
    (hop : 0 < op.kind.precedence.rank) (rest after : List Token) :
    read t (ts ++ op :: rest) ≠ .ok (s, after) := by
  intro hr
  obtain ⟨m, body, left, hts, hd, hstop, -, -⟩ := derives_of_read hr
  rw [← List.cons_append] at hts
  have noOperator : ¬ Stops 0 (op :: rest) := fun hs => Nat.not_le_of_lt hop hs.of_cons
  rcases List.append_eq_append_iff.mp hts with ⟨more, rfl, hmore⟩ | ⟨more, hbody, rfl⟩
  · cases more with
    | nil =>
      rw [List.nil_append] at hmore
      exact noOperator (hmore ▸ hstop)
    | cons u more =>
      -- the longer one would store the operator, and the same tokens as the shorter one
      obtain ⟨rfl, -⟩ := List.cons_eq_cons.mp hmore
      have hlonger := hd.tokens_eq
      rw [List.filter_append, ← h.tokens_eq, List.filter_cons_of_pos
        (by simp [TokenKind.isPunctuation_of_precedence hop])] at hlonger
      exact absurd (List.self_eq_append_right.mp hlonger) (List.cons_ne_nil _ _)
  · cases more with
    | nil => exact noOperator hstop
    | cons u more =>
      -- the shorter one would end at a place where the longer one goes on
      have hstop' : Stops 0 (u :: more) := .cons hstop.of_cons
      have heq : t :: ts ++ [] = body ++ (u :: more) := by rw [List.append_nil, hbody]
      obtain ⟨-, hnil, -⟩ := h.eq_of_append_eq hd (.nil 0) hstop' heq
      exact List.cons_ne_nil _ _ hnil

end Statement.Derives

namespace Attempt

variable {ts mid rest us : List Token} {a : Attempt} {as : List Attempt} {ss out : List Statement}

/-! ## What a run reads -/

theorem Run.clean_iff (h : Run ts as rest) (hc : as.filterMap diagnostic? = []) :
    Clean ts out ↔ ∃ ss, out = as.filterMap statement? ++ ss ∧ Clean rest ss := by
  rw [Clean, h.all_eq, List.filterMap_append, List.filterMap_append, hc, List.nil_append]
  constructor
  · rintro ⟨hd, rfl⟩
    exact ⟨_, rfl, hd, rfl⟩
  · rintro ⟨ss, rfl, hd, rfl⟩
    exact ⟨hd, rfl⟩

theorem Run.kept_of_clean (h : Run ts as rest) (hc : Clean ts out) :
    as.filterMap diagnostic? = [] := by
  rw [Clean, h.all_eq, List.filterMap_append, List.append_eq_nil_iff] at hc
  exact hc.1.1

/-- A step without a failure reads a statement up to its end. -/
theorem Step.exists_ends (h : Step ts a rest) (ha : a.diagnostic? = none) :
    ∃ n t s body last, a = .kept t s ∧ ts = t :: body ++ (last ++ rest) ∧
      Statement.Derives n s (t :: body) ∧ n ≤ maxNesting ∧ Ends rest last := by
  cases h with
  | @kept t ts _ s hr =>
    obtain ⟨n, body, left, hts, hd, hstop, hn, rfl⟩ := Statement.derives_of_read hr
    obtain ⟨last, hleft, hl⟩ := Expr.Stops.exists_ends hstop
    obtain ⟨u, body, rfl⟩ := List.exists_cons_of_ne_nil hd.ne_nil
    obtain ⟨rfl, rfl⟩ := List.cons_eq_cons.mp hts
    exact ⟨n, t, s, body, last, rfl, by rw [← hleft]; rfl, hd, hn, hl⟩
  | failed => cases ha

/-- **A run without a failure is the same in front of everything that begins with the same token.** -/
theorem Run.exists_before (h : Run ts as mid) (hc : as.filterMap diagnostic? = []) :
    ∃ before, ts = before ++ mid ∧
      ∀ mid' : List Token, mid'.head? = mid.head? → Run (before ++ mid') as mid' := by
  rw [List.filterMap_eq_nil_iff] at hc
  induction h with
  | nil => exact ⟨[], rfl, fun _ _ => .nil⟩
  | @cons ts next mid a as ha _ ih =>
    obtain ⟨hclean, hkept⟩ := List.forall_mem_cons.mp hc
    obtain ⟨n, t, s, body, last, rfl, rfl, hd, hn, hl⟩ := ha.exists_ends hclean
    obtain ⟨before, rfl, hrun⟩ := ih hkept
    refine ⟨t :: body ++ (last ++ before), by simp, fun mid' hmid => ?_⟩
    have hhead : (before ++ mid').head? = (before ++ mid).head? := by
      rw [List.head?_append, List.head?_append, hmid]
    have hread := hd.read_of_ends hn (hl.congr hhead)
    have hstep : Step (t :: body ++ (last ++ before) ++ mid') (.kept t s) (before ++ mid') := by
      simpa using Step.kept hread
    exact .cons hstep (hrun mid' hmid)

/-- **The last statement of a run without a failure,** and what ends it. The statements before it do not
depend on what comes after its tokens. -/
theorem Run.exists_last (h : Run ts as rest) (hc : as.filterMap diagnostic? = []) (hne : as ≠ []) :
    ∃ n t s before body last ss, as.filterMap statement? = ss ++ [s] ∧
      ts = before ++ (t :: body) ++ (last ++ rest) ∧ Statement.Derives n s (t :: body) ∧
      n ≤ maxNesting ∧ Ends rest last ∧
      ∀ tail out, Clean (before ++ (t :: body) ++ tail) out ↔
        ∃ more, out = ss ++ more ∧ Clean (t :: body ++ tail) more := by
  obtain ⟨as, a, rfl⟩ := (List.eq_nil_or_concat' as).resolve_left hne
  rw [List.filterMap_append, List.append_eq_nil_iff] at hc
  obtain ⟨mid, hbefore, hlast⟩ := h.split
  cases hlast with
  | cons hstep hnil =>
    cases hnil
    obtain ⟨n, t, s, body, last, rfl, rfl, hd, hn, hl⟩ :=
      hstep.exists_ends (List.filterMap_eq_nil_iff.mp hc.2 a (List.mem_singleton_self a))
    obtain ⟨before, rfl, hrun⟩ := hbefore.exists_before hc.1
    refine ⟨n, t, s, before, body, last, as.filterMap statement?, ?_, ?_, hd, hn, hl, ?_⟩
    · rw [List.filterMap_append]
      rfl
    · rw [List.append_assoc before]
    · intro tail out
      rw [List.append_assoc]
      exact (hrun (t :: body ++ tail) rfl).clean_iff hc.1

/-! ## A statement and what comes after it -/

variable {n : Nat} {t : Token} {s : Statement} {body last : List Token}

theorem clean_append_of_ends (h : Statement.Derives n s (t :: body)) (hn : n ≤ maxNesting)
    (hl : Ends rest last) :
    Clean (t :: body ++ (last ++ rest)) out ↔ ∃ ss, out = s :: ss ∧ Clean rest ss :=
  clean_cons_of_ok (h.read_of_ends hn hl)

theorem not_clean_of_operator (h : Statement.Derives n s (t :: body)) {op : Token}
    (hop : 0 < op.kind.precedence.rank) (rest : List Token) :
    ¬ Clean (t :: body ++ op :: rest) (s :: ss) := by
  intro hc
  rw [List.cons_append] at hc
  cases hr : Statement.read t (body ++ op :: rest) with
  | error f => exact not_clean_of_error hr hc
  | ok r =>
    obtain ⟨u, after⟩ := r
    obtain ⟨us, hus, -⟩ := (clean_cons_of_ok hr).mp hc
    obtain ⟨rfl, -⟩ := List.cons_eq_cons.mp hus
    exact h.read_ne_of_operator hop rest after hr

/-- The first statement has the first token. -/
theorem Clean.head?_eq (h : Clean us ss) : (ss.map Statement.token).head? = us.head? := by
  cases us with
  | nil => rw [clean_nil_iff.mp h]; rfl
  | cons u us =>
    obtain ⟨n, s, ss, body, left, rfl, -, hd, -⟩ := h.exists_cons
    exact hd.head_eq.symm

/-- **The next statement can come without a semicolon exactly if it does not begin with a minus
sign.** -/
theorem clean_append_iff (h : Statement.Derives n s (t :: body)) (hn : n ≤ maxNesting)
    (hus : Clean us ss) :
    Clean (t :: body ++ us) (s :: ss) ↔ ∀ next ∈ ss.head?, next.token.kind ≠ .minus := by
  have apart (hl : Ends us []) : Clean (t :: body ++ us) (s :: ss) :=
    (clean_append_of_ends h hn hl).mpr ⟨ss, rfl, hus⟩
  cases us with
  | nil =>
    obtain rfl := clean_nil_iff.mp hus
    exact iff_of_true (apart .nil) (by simp)
  | cons u us =>
    obtain ⟨m, next, more, body', left, rfl, rfl, hd, -⟩ := hus.exists_cons
    have htoken : u = next.token := Option.some.inj hd.head_eq
    constructor
    · intro hc v hv hk
      cases hv
      rw [← htoken] at hk
      exact not_clean_of_operator h (by rw [hk]; decide) _ hc
    · intro hk
      exact apart (hd.ends_nil (htoken ▸ hk next rfl) _)

end Attempt

/-! ## Semicolons in tokens and in texts -/

open Attempt (Clean)

theorem parse_eq_iff {text : String} {ss : List Statement} :
    parse text = (⟨ss⟩, []) ↔ Clean (Token.ofText text) ss := by
  rw [parse_eq, Prod.mk.injEq, Program.mk.injEq, and_comm]
  rfl

/-- Without failures in the whole there are none before and after a semicolon. -/
theorem Attempt.Clean.exists_append {semi : Token} (hs : semi.kind = .semicolon)
    {ts us : List Token} {out : List Statement} (h : Clean (ts ++ semi :: us) out) :
    ∃ ss vs, out = ss ++ vs ∧ Clean (ts ++ [semi]) ss ∧ Clean us vs := by
  obtain ⟨hclean, rfl⟩ := h
  rw [all_append_semicolon hs, List.filterMap_append] at hclean ⊢
  obtain ⟨hts, hus⟩ := List.append_eq_nil_iff.mp hclean
  exact ⟨_, _, rfl, ⟨hts, rfl⟩, hus, rfl⟩

/-- What a semicolon ends in a text without diagnostics is a statement, right before it. -/
theorem Attempt.Clean.exists_last {semi : Token} (hs : semi.kind = .semicolon) {ts : List Token}
    {ss : List Statement} (h : Clean (ts ++ [semi]) ss) :
    ∃ n t s before body init, ss = init ++ [s] ∧ ts = before ++ (t :: body) ∧
      Statement.Derives n s (t :: body) ∧ n ≤ maxNesting ∧
      ∀ tail out, Clean (before ++ (t :: body) ++ tail) out ↔
        ∃ more, out = init ++ more ∧ Clean (t :: body ++ tail) more := by
  obtain ⟨hclean, rfl⟩ := h
  have hrun := Attempt.run_all (ts ++ [semi])
  have hne : Attempt.all (ts ++ [semi]) ≠ [] := by
    intro he
    rw [he] at hrun
    generalize hw : ts ++ [semi] = w at hrun
    cases hrun
    exact List.append_ne_nil_of_right_ne_nil ts (List.cons_ne_nil semi []) hw
  obtain ⟨n, t, s, before, body, last, init, hss, hts, hd, hn, hl, hread⟩ :=
    hrun.exists_last hclean hne
  rw [List.append_nil] at hts
  refine ⟨n, t, s, before, body, init, hss, ?_, hd, hn, hread⟩
  cases hl with
  | semicolon _ => exact (List.append_inj' hts rfl).1
  | apart _ =>
    have hlast : semi ∈ (t :: body).getLast? := by
      rw [List.append_nil] at hts
      rw [← List.getLast?_append_of_ne_nil before (List.cons_ne_nil t body), ← hts,
        List.getLast?_concat]
      rfl
    exact absurd hs (hd.ne_semicolon semi (List.mem_of_mem_getLast? hlast))

/-- Behind a statement that has no semicolon one can be put in. -/
theorem Attempt.Run.clean_semicolon {semi : Token} (hs : semi.kind = .semicolon) {ts us : List Token}
    {as : List Attempt} {out : List Statement} (h : Run (ts ++ us) as us)
    (hc : as.filterMap diagnostic? = []) (hne : as ≠ [])
    (hlast : ∀ t ∈ ts.getLast?, t.kind ≠ .semicolon) :
    Clean (ts ++ semi :: us) out ↔ Clean (ts ++ us) out := by
  obtain ⟨n, t, s, before, body, last, init, -, hts, hd, hn, hl, hread⟩ := h.exists_last hc hne
  rw [← List.append_assoc] at hts
  obtain rfl := List.append_cancel_right hts
  cases hl with
  | semicolon hsemi => exact absurd hsemi (hlast _ (by rw [List.getLast?_concat]; rfl))
  | apart hapart =>
    have hsame (more : List Statement) :
        Clean (t :: body ++ semi :: us) more ↔ Clean (t :: body ++ us) more :=
      (clean_append_of_ends hd hn (.semicolon hs)).trans
        (clean_append_of_ends hd hn (.apart hapart)).symm
    rw [List.append_nil, hread, hread]
    simp only [hsame]

theorem Token.ofText_semicolon (a b : String) :
    ofText (a ++ ";" ++ b) = ofText a ++ symbol ';' :: ofText b := by
  simp only [ofText, String.toList_append]
  rw [List.append_assoc]
  exact scan_append_semicolon a.toList b.toList

theorem Token.ofText_semicolon_end (a : String) : ofText (a ++ ";") = ofText a ++ [symbol ';'] := by
  have hnil : ofText "" = [] := scan_nil
  have h := ofText_semicolon a ""
  rwa [String.append_empty, hnil] at h

theorem Token.ofText_space (a b : String) : ofText (a ++ " " ++ b) = ofText a ++ ofText b := by
  simp only [ofText, String.toList_append]
  rw [List.append_assoc]
  exact scan_append_cons_of_isBlank rfl a.toList b.toList

/-- **When a semicolon matters.** In a text without diagnostics every semicolon ends a statement. In its
place may stand a space, and the program is the same and still without diagnostics, exactly if no
statement comes next or the next one does not begin with a minus sign. Where a statement ends without
a semicolon, one may be put in. -/
theorem semicolon_irrelevant_iff (a b : String) :
    ((parse (a ++ ";" ++ b)).2 = [] →
      ∃ before s after,
        parse (a ++ ";" ++ b) = (⟨before ++ s :: after⟩, []) ∧
        parse (a ++ ";") = (⟨before ++ [s]⟩, []) ∧ parse b = (⟨after⟩, []) ∧
        (after.map Statement.token).head? = (Token.ofText b).head? ∧
        (parse (a ++ " " ++ b) = parse (a ++ ";" ++ b) ↔
          ∀ next ∈ after.head?, next.token.kind ≠ .minus)) ∧
    ((parse (a ++ b)).2 = [] → ∀ as, as ≠ [] →
      Attempt.Run (Token.ofText (a ++ b)) as (Token.ofText b) →
      Token.ofText (a ++ b) = Token.ofText a ++ Token.ofText b →
      (∀ t ∈ (Token.ofText a).getLast?, t.kind ≠ .semicolon) →
      parse (a ++ ";" ++ b) = parse (a ++ b)) := by
  have hsemi : (Token.symbol ';').kind = .semicolon := rfl
  constructor
  · intro h
    have hab : Clean (Token.ofText (a ++ ";" ++ b)) (parse (a ++ ";" ++ b)).1.statements := ⟨h, rfl⟩
    rw [Token.ofText_semicolon] at hab
    obtain ⟨ss, after, hout, ha, hb⟩ := hab.exists_append hsemi
    obtain ⟨n, t, s, used, body, before, rfl, hused, hd, hn, hread⟩ := ha.exists_last hsemi
    rw [← Token.ofText_semicolon, hout, List.append_assoc] at hab
    rw [← Token.ofText_semicolon_end] at ha
    have hparse : parse (a ++ ";" ++ b) = (⟨before ++ s :: after⟩, []) := parse_eq_iff.mpr hab
    refine ⟨before, s, after, hparse, parse_eq_iff.mpr ha, parse_eq_iff.mpr hb, hb.head?_eq, ?_⟩
    rw [hparse, parse_eq_iff, Token.ofText_space, hused, hread]
    simpa using Attempt.clean_append_iff hd hn hb
  · intro h as hne hrun htokens hlast
    have hab : Clean (Token.ofText (a ++ b)) (parse (a ++ b)).1.statements := ⟨h, rfl⟩
    rw [htokens] at hrun hab
    have hput := (hrun.clean_semicolon hsemi (hrun.kept_of_clean hab) hne hlast).mpr hab
    rw [← Token.ofText_semicolon] at hput
    rw [parse_eq_iff.mpr hput, ← h]

/-- A semicolon in front of a minus sign matters, and one in front of a name does not. -/
theorem semicolon_irrelevant_iff_difference :
    parse ("x" ++ " " ++ "-y") ≠ parse ("x" ++ ";" ++ "-y") ∧
      parse ("x " ++ ";" ++ "y") = parse ("x " ++ "y") := by
  constructor
  · obtain ⟨before, s, after, -, -, hb, -, hiff⟩ :=
      (semicolon_irrelevant_iff "x" "-y").1 (by decide +kernel)
    have hafter : after.head? = (parse "-y").1.statements.head? := by rw [hb]
    have hnext : ∃ next ∈ (parse "-y").1.statements.head?, next.token.kind = .minus := by
      decide +kernel
    rw [← hafter] at hnext
    obtain ⟨next, hm, hk⟩ := hnext
    intro heq
    exact hiff.mp heq next hm hk
  · have htokens : Token.ofText ("x " ++ "y") = [⟨.ident, "x"⟩, ⟨.ident, "y"⟩] := by decide +kernel
    have hx : Token.ofText "x " = [⟨.ident, "x"⟩] := by decide +kernel
    have hy : Token.ofText "y" = [⟨.ident, "y"⟩] := by decide +kernel
    have hrun : Attempt.Run (Token.ofText ("x " ++ "y"))
        [.kept ⟨.ident, "x"⟩ (.expr ⟨.ident, "x"⟩ (.ident ⟨⟨.ident, "x"⟩, "x"⟩))]
        (Token.ofText "y") := by
      have hd : Statement.Derives 1 (.expr ⟨.ident, "x"⟩ (.ident ⟨⟨.ident, "x"⟩, "x"⟩))
          [⟨.ident, "x"⟩] := .expr (.ident rfl)
      have hl : Ends [⟨.ident, "y"⟩] [] := .apart (by decide)
      have hread := hd.read_of_ends (by decide) hl
      rw [htokens, hy]
      exact .cons (.kept hread) .nil
    exact (semicolon_irrelevant_iff "x " "y").2 (by decide +kernel) _ (List.cons_ne_nil _ _) hrun
      (by rw [htokens, hx, hy]; rfl) (by rw [hx]; decide)

end ExprLang
