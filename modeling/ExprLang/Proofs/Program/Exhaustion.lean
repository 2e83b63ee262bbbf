import ExprLang.Proofs.Program.Frame

/-!
# Reading comes to its end

* `Step.Done` — what a statement of a machine comes to.
* `Machine.Turns` — any number of turns, from the head of the loop to the head of the loop.

Principal results: `agrees_statement`, `turn_step` — a turn of a machine is an attempt at a
statement, and reports what the attempt reports; `statements_all` — turns up to the end of input are
the attempts at all statements; `parseProgram_ofScanner` — a machine reads, records and reports what
a parser does; `parsePrograms_exhausts` — with enough fuel a machine reads what the tokens say, each
turn takes some of them, and then nothing is left to read.

The measure is the number of tokens ahead. An attempt takes at least one of them also if it fails
where it began, since the way out of it ends behind a token.
-/

namespace ExprLang

/-! ## What an attempt takes -/

/-- An attempt takes at least one token. -/
theorem Attempt.Step.exists_used {ts rest : List Token} {a : Attempt} (h : Step ts a rest) :
    ∃ used, used ≠ [] ∧ ts = used ++ rest := by
  obtain ⟨used, rfl, htakes⟩ := h.exists_takes
  refine ⟨used, ?_, rfl⟩
  cases htakes <;> simp

/-- Every attempt gives one statement or one diagnostic, and takes at least one token. -/
theorem Attempt.Run.length_le {ts rest : List Token} {as : List Attempt} (h : Run ts as rest) :
    (as.filterMap statement?).length + (as.filterMap diagnostic?).length ≤ ts.length := by
  induction h with
  | nil => exact Nat.zero_le _
  | @cons ts mid rest a as hstep _ ih =>
    obtain ⟨used, hne, rfl⟩ := hstep.exists_used
    have hpos := List.length_pos_of_ne_nil hne
    rw [List.length_append]
    cases a <;> simp only [List.filterMap_cons, statement?, diagnostic?, List.length_cons] <;> omega

/-- Every token has a character that is not a blank. -/
theorem Token.length_scan_le (cs : List Char) :
    (scan cs).length ≤ (cs.filter fun c => !isBlank c).length := by
  fun_induction scan cs with
  | case1 cs hn => exact Nat.zero_le _
  | case2 cs t rest hn ih =>
    obtain ⟨c, literal, hliteral, -⟩ := (lexeme_next? hn).1.exists_cons
    have hcs := takeWhile_append_literal_append hn
    have hsplit := List.takeWhile_append_dropWhile (p := isBlank) (l := cs)
    rw [hliteral] at hcs
    have hdrop : cs.dropWhile isBlank = c :: literal ++ rest :=
      List.append_cancel_left (hsplit.trans hcs.symm)
    have hc : isBlank c = false := head?_dropWhile_eq_false (by rw [hdrop]; rfl)
    rw [← hcs, List.filter_append, List.cons_append, List.filter_cons_of_pos (by simp [hc]),
      List.filter_append]
    simp only [List.length_append, List.length_cons]
    omega

/-! ## Statements -/

namespace Step

variable {m : Machine} {ts : List Token} {d : Nat} {ds : List Diagnostic} {t : Token} {fuel : Nat}

/-- What a statement comes to, or its value: the last token that it took is still the current one. -/
def Done {α : Type} (d : Nat) (ds : List Diagnostic) (r : α × List Token) (a : α) (m : Machine) :
    Prop :=
  a = r.1 ∧ ∃ last : Token, m.At (last :: r.2) d ds

/-- More fuel than this is enough for any expression outside of other ones. -/
def expressionFuel : Nat := 2 * maxNesting

theorem skipSemicolon_apply (h : m.Behind ts d ds) :
    ∃ m' last, skipSemicolon m = some (some (), m') ∧
      m'.At (last :: ExprLang.skipSemicolon ts) d ds := by
  obtain ⟨last, hlast, hat⟩ := h
  unfold skipSemicolon
  cases ts with
  | nil =>
    have hpeek : m.peek = Token.eof := hat.peek
    rw [look_bind, hpeek]
    exact ⟨m, last, rfl, hat⟩
  | cons t ts =>
    have hpeek : m.peek = t := hat.peek
    rw [look_bind, hpeek]
    by_cases hk : t.kind = .semicolon
    · rw [if_pos hk, skipSemicolon_cons hk]
      exact ⟨_, t, rfl, hat.advance⟩
    · rw [if_neg hk, skipSemicolon_cons_of_ne hk]
      exact ⟨m, last, rfl, hat⟩

theorem agrees_value (hfuel : expressionFuel < fuel) (h : m.At ts 0 ds) :
    Agrees 0 ds (Done 0 ds) (Statement.readValue ts) (value fuel m) := by
  have hm : Mirrors 0 (expression fuel) (Expr.read maxNesting) :=
    mirrors_expression (Nat.zero_add _) (by unfold expressionFuel at hfuel; omega)
  have hread : Statement.readValue ts = (Expr.read maxNesting .lowest ts).bind fun r =>
      .ok (r.expr, ExprLang.skipSemicolon r.rest) := by
    unfold Statement.readValue
    cases Expr.read maxNesting .lowest ts <;> rfl
  rw [hread]
  unfold value
  refine (hm .lowest m ts ds h).bind ?_
  rintro r e m' ⟨rfl, -, hb⟩
  obtain ⟨m'', last, hskip, hat⟩ := skipSemicolon_apply hb
  rw [bind_of_some hskip]
  exact agrees_pure ⟨rfl, last, hat⟩

theorem agrees_binding (hfuel : expressionFuel < fuel) (h : m.At (t :: ts) 0 ds)
    (ht : t.kind ≠ .semicolon) :
    Agrees 0 ds (Done 0 ds) (Statement.readBinding t ts) (binding fuel m) := by
  have hcurrent : m.current = t := h.current
  have hread : Statement.readBinding t ts = (expect .ident ts).bind fun name =>
      (expect .assign name.2).bind fun sign => (Statement.readValue sign.2).bind fun r =>
        .ok (.binding t ⟨name.1, name.1.literal⟩ r.1, r.2) := by
    unfold Statement.readBinding
    cases expect .ident ts with
    | error f => rfl
    | ok name =>
      simp only [Except.bind]
      cases expect .assign name.2 with
      | error f => rfl
      | ok sign =>
        simp only
        cases Statement.readValue sign.2 <;> rfl
  rw [hread]
  unfold binding
  rw [look_bind, hcurrent]
  refine (agrees_expectPeek .ident (by decide) (h.behind ht)).bind ?_
  rintro ⟨name, rest⟩ _ m' ⟨hk, -, hat⟩
  have hname : m'.current = name := hat.current
  rw [look_bind, hname]
  have hne : name.kind ≠ .semicolon := by
    rw [show name.kind = .ident from hk]
    decide
  refine (agrees_expectPeek .assign (by decide) (hat.behind hne)).bind ?_
  rintro ⟨sign, rest⟩ _ m' ⟨-, -, hat⟩
  rw [move_bind]
  refine (agrees_value hfuel hat.advance).bind ?_
  rintro r e m' ⟨rfl, last, hat⟩
  exact agrees_pure ⟨rfl, last, hat⟩

theorem agrees_ret (hfuel : expressionFuel < fuel) (h : m.At (t :: ts) 0 ds) :
    Agrees 0 ds (Done 0 ds) ((Statement.readValue ts).bind fun r => .ok (.ret t r.1, r.2))
      (ret fuel m) := by
  have hcurrent : m.current = t := h.current
  unfold ret
  rw [look_bind, move_bind, hcurrent]
  refine (agrees_value hfuel h.advance).bind ?_
  rintro r e m' ⟨rfl, last, hat⟩
  exact agrees_pure ⟨rfl, last, hat⟩

theorem agrees_exprStatement (hfuel : expressionFuel < fuel) (h : m.At (t :: ts) 0 ds) :
    Agrees 0 ds (Done 0 ds)
      ((Statement.readValue (t :: ts)).bind fun r => .ok (.expr t r.1, r.2))
      (exprStatement fuel m) := by
  have hcurrent : m.current = t := h.current
  unfold exprStatement
  rw [look_bind, hcurrent]
  refine (agrees_value hfuel h).bind ?_
  rintro r e m' ⟨rfl, last, hat⟩
  exact agrees_pure ⟨rfl, last, hat⟩

/-- **A statement comes to what reading its tokens comes to.** -/
theorem agrees_statement (hfuel : expressionFuel < fuel) (h : m.At (t :: ts) 0 ds) :
    Agrees 0 ds (Done 0 ds) (Statement.read t ts) (statement fuel m) := by
  have hcurrent : m.current = t := h.current
  replace h := h.log (.statementStarted t)
  unfold statement
  rw [look_bind, move_bind, hcurrent]
  by_cases hlet : t.kind = .letWord
  · simp only [hlet, Statement.read]
    exact agrees_binding hfuel h (by simp [hlet])
  by_cases hret : t.kind = .returnWord
  · have hread : Statement.read t ts =
        (Statement.readValue ts).bind fun r => .ok (.ret t r.1, r.2) := by
      simp only [Statement.read, hret]
      cases Statement.readValue ts <;> rfl
    rw [hread]
    simp only [hret]
    exact agrees_ret hfuel h
  · have hread : Statement.read t ts =
        (Statement.readValue (t :: ts)).bind fun r => .ok (.expr t r.1, r.2) := by
      simp only [Statement.read]
      cases Statement.readValue (t :: ts) <;> rfl
    rw [hread]
    simp only
    exact agrees_exprStatement hfuel h

/-- The way out of a failed statement ends at the first semicolon, or at the end of input, and the
token that it stops at is reported. -/
theorem synchronize_apply (hfuel : ts.length < fuel) (h : m.At ts d ds) :
    ∃ m', synchronize fuel m = some (some (), m') ∧ m'.At (toSemicolon ts) d ds ∧
      m'.events = m.events ++ [.resynchronized ((toSemicolon ts).head?.getD Token.eof)] := by
  induction ts generalizing fuel m with
  | nil =>
    obtain ⟨fuel, rfl⟩ := Nat.exists_eq_add_one_of_ne_zero (Nat.ne_zero_of_lt hfuel)
    have hcurrent : m.current = Token.eof := h.current
    unfold synchronize
    rw [look_bind, hcurrent]
    exact ⟨_, rfl, h.log _, rfl⟩
  | cons t ts ih =>
    obtain ⟨fuel, rfl⟩ := Nat.exists_eq_add_one_of_ne_zero (Nat.ne_zero_of_lt hfuel)
    have hcurrent : m.current = t := h.current
    unfold synchronize
    rw [look_bind, hcurrent]
    by_cases hk : t.kind = .semicolon
    · rw [if_neg (fun hc => hc.1 hk), toSemicolon_cons hk]
      exact ⟨_, rfl, h.log _, rfl⟩
    · rw [if_pos ⟨hk, h.kinds t List.mem_cons_self⟩, toSemicolon_cons_of_ne hk, move_bind]
      exact ih (Nat.lt_of_succ_lt_succ hfuel) h.advance

end Step

/-! ## Turns -/

namespace Machine

open Step

variable {m : Machine} {ts rest : List Token} {ds : List Diagnostic} {t : Token} {fuel size : Nat}

/-- The way out of a failure is the same from the place where the machine is stuck. -/
theorem Stuck.synchronize {d : Nat} (hfuel : ts.length + 1 < fuel) (h : m.Stuck ts d ds) :
    ∃ m', Step.synchronize fuel m = some (some (), m') ∧ m'.At (toSemicolon ts) d ds ∧
      m'.events = m.events ++ [.resynchronized ((toSemicolon ts).head?.getD Token.eof)] := by
  rcases h with hat | ⟨last, hlast, hat⟩
  · exact synchronize_apply (by omega) hat
  · rw [← toSemicolon_cons_of_ne hlast ts]
    exact synchronize_apply hfuel hat

/-- **A turn is an attempt at a statement:** it takes what the attempt takes, records its diagnostic,
and reports its events. -/
theorem turn_step (hfuel : expressionFuel + (t :: ts).length < fuel) (h : m.At (t :: ts) 0 ds) :
    ∃ a rest m', Attempt.Step (t :: ts) a rest ∧ m.turn fuel = some (a.statement?, m') ∧
      m'.At rest 0 (ds ++ a.diagnostic?.toList) ∧ m'.events = m.events ++ a.events := by
  have hcurrent : m.current = t := h.current
  have hread := agrees_statement (by omega : expressionFuel < fuel) h
  have hframe (s : Option Statement) (m' : Machine) (hs : Step.statement fuel m = some (s, m')) :
      (m.log (.statementStarted t)).Frames m' := hcurrent ▸ frames_statement h.depth hs
  unfold turn
  cases hr : Statement.read t ts with
  | ok r =>
    rw [hr] at hread
    obtain ⟨s, m', hs, rfl, last, hat⟩ := hread
    have hds : m'.diagnostics = m.diagnostics ++ [] := by
      rw [hat.diagnostics, h.diagnostics, List.append_nil]
    have hevents := (hframe _ _ hs).events_eq hds
    rw [hs]
    refine ⟨_, _, _, .kept hr, rfl, ?_, ?_⟩
    · rw [Attempt.diagnostic?, Option.toList_none, List.append_nil]
      exact hat.advance
    · exact hevents.trans (List.append_nil _)
  | error f =>
    rw [hr] at hread
    obtain ⟨m', hs, hstuck⟩ := hread
    have hds : m'.diagnostics = m.diagnostics ++ [f.diagnostic] := by
      rw [hstuck.diagnostics, h.diagnostics]
    have hevents := (hframe _ _ hs).events_eq hds
    have hlength := Statement.length_le_of_read_error hr
    have hroom : f.rest.length + 1 < fuel := by
      have hpos : 0 < expressionFuel := by decide
      rw [List.length_cons] at hfuel
      omega
    obtain ⟨m'', hsync, hat, hstop⟩ := hstuck.synchronize hroom
    rw [hs]
    refine ⟨_, _, m''.advance, .failed hr, by simp only [hsync]; rfl, hat.advance, ?_⟩
    show m''.events = _
    rw [hstop, hevents, log, List.append_assoc, List.append_assoc]
    rfl

theorem statements_of_eof (h : m.current.kind = .eof) (size fuel : Nat) :
    m.statements size (fuel + 1) = some ([], m) := by
  rw [statements, if_pos h]

theorem statements_of_turn {m' last : Machine} {s : Option Statement} {ss : List Statement}
    (h : m.current.kind ≠ .eof) (hturn : m.turn size = some (s, m'))
    (hrest : m'.statements size fuel = some (ss, last)) :
    m.statements size (fuel + 1) = some (s.toList ++ ss, last) := by
  rw [statements, if_neg h, hturn]
  simp only [Option.bind_eq_bind, Option.bind_some, hrest]
  rfl

/-- **Turns up to the end of input are the attempts at all statements,** with one block of events for
each of them. -/
theorem statements_all (hsize : expressionFuel + ts.length < size) (hfuel : ts.length < fuel)
    (h : m.At ts 0 ds) :
    ∃ last, m.statements size fuel = some ((Attempt.all ts).filterMap Attempt.statement?, last) ∧
      last.At [] 0 (ds ++ (Attempt.all ts).filterMap Attempt.diagnostic?) ∧
      last.events = m.events ++ (Attempt.all ts).flatMap Attempt.events := by
  induction fuel generalizing m ts ds with
  | zero => omega
  | succ fuel ih =>
    cases ts with
    | nil =>
      have hcurrent : m.current = Token.eof := h.current
      rw [Attempt.all]
      refine ⟨m, statements_of_eof (hcurrent ▸ rfl) _ _, ?_, (List.append_nil _).symm⟩
      rw [List.filterMap_nil, List.append_nil]
      exact h
    | cons t ts =>
      have hcurrent : m.current = t := h.current
      have hne : m.current.kind ≠ .eof := hcurrent ▸ h.kinds t List.mem_cons_self
      obtain ⟨a, rest, m', hstep, hturn, hat, hevents⟩ := turn_step hsize h
      obtain ⟨used, hused, htokens⟩ := hstep.exists_used
      have hlength : (t :: ts).length = used.length + rest.length := by
        rw [htokens, List.length_append]
      have hpos := List.length_pos_of_ne_nil hused
      obtain ⟨last, hrest, hlast, hmore⟩ := ih (by omega) (by omega) hat
      have hall : Attempt.all (t :: ts) = a :: Attempt.all rest :=
        (Attempt.Run.cons hstep .nil).all_eq
      refine ⟨last, ?_, ?_, ?_⟩
      · rw [statements_of_turn hne hturn hrest, hall, List.filterMap_eq_flatMap_toList,
          List.filterMap_eq_flatMap_toList, List.flatMap_cons]
      · rw [hall, List.filterMap_eq_flatMap_toList, List.flatMap_cons, ← List.append_assoc,
          ← List.filterMap_eq_flatMap_toList]
        exact hlast
      · rw [hmore, hevents, hall, List.flatMap_cons, List.append_assoc]

/-- **A machine reads what the tokens say and reports what attempts at them report.** -/
theorem parseProgram_all (hfuel : expressionFuel + ts.length < fuel) (h : m.At ts 0 ds) :
    let statements := (Attempt.all ts).filterMap Attempt.statement?
    let diagnostics := ds ++ (Attempt.all ts).filterMap Attempt.diagnostic?
    ∃ last, m.parseProgram fuel = some (⟨statements⟩, last) ∧ last.At [] 0 diagnostics ∧
      last.events = m.events ++ ((Attempt.all ts).flatMap Attempt.events ++
        [.programRead statements.length diagnostics.length]) := by
  intro statements diagnostics
  obtain ⟨last, hss, hat, hevents⟩ :=
    statements_all hfuel (Nat.lt_of_le_of_lt (Nat.le_add_left _ _) hfuel) h
  refine ⟨_, by rw [parseProgram, hss, Option.map_some], hat.log _, ?_⟩
  rw [log, hat.diagnostics, hevents, List.append_assoc]

/-- **Reading with a parser and reading in place come to the same:** the same program, the same
diagnostics, the same events. -/
theorem parseProgram_ofScanner (s : Scanner)
    (hfuel : expressionFuel + (Token.scan s.rest).length < fuel) :
    let r := (Parser.ofScanner s).parseProgram
    ∃ last, (ofScanner s).parseProgram fuel = some (r.program, last) ∧
      last.At [] 0 r.parser.diagnostics ∧ last.events = r.events :=
  parseProgram_all hfuel (at_ofScanner s)

/-- At the end of input there is nothing to do but to report that. -/
theorem parseProgram_of_eof (hfuel : 0 < fuel) (h : m.current.kind = .eof) :
    m.parseProgram fuel = some (⟨[]⟩, m.log (.programRead 0 m.diagnostics.length)) := by
  obtain ⟨fuel, rfl⟩ := Nat.exists_eq_add_one_of_ne_zero (Nat.ne_of_gt hfuel)
  rw [parseProgram, statements_of_eof h, Option.map_some]
  rfl

/-- The machine after it has reported these events. -/
def logAll (es : List Event) (m : Machine) : Machine := { m with events := m.events ++ es }

theorem logAll_nil (m : Machine) : m.logAll [] = m := by
  rw [logAll, List.append_nil]

theorem logAll_log (e : Event) (es : List Event) (m : Machine) :
    (m.log e).logAll es = m.logAll (e :: es) := by
  simp only [logAll, log, List.append_assoc, List.singleton_append]

theorem parsePrograms_of_eof (hfuel : 0 < fuel) (h : m.current.kind = .eof) (n : Nat) :
    m.parsePrograms fuel n = some (List.replicate n ⟨[]⟩,
      m.logAll (List.replicate n (.programRead 0 m.diagnostics.length))) := by
  induction n generalizing m with
  | zero => rw [parsePrograms, List.replicate_zero, List.replicate_zero, logAll_nil]
  | succ n ih =>
    have hlog : (m.log (.programRead 0 m.diagnostics.length)).current.kind = .eof := h
    rw [parsePrograms, parseProgram_of_eof hfuel h]
    simp only [Option.bind_eq_bind, Option.bind_some, ih hlog, logAll_log]
    rfl

/-! ## Any number of turns -/

/-- The first machine comes to the second one at the head of the loop, after some turns. -/
inductive Turns (fuel : Nat) : Machine → Machine → Prop
  | refl {m : Machine} : Turns fuel m m
  | turn {m m' m'' : Machine} {s : Option Statement} (h : Turns fuel m m')
      (hne : m'.current.kind ≠ .eof) (ht : m'.turn fuel = some (s, m'')) : Turns fuel m m''

/-- **What a turn keeps, any turns keep:** the machine stands at some of the tokens, outside of any
expression. -/
theorem Turns.exists_at {m' : Machine} (h : Turns fuel m m')
    (hfuel : expressionFuel + ts.length < fuel) (hat : m.At ts 0 ds) :
    ∃ rest ds', rest.length ≤ ts.length ∧ m'.At rest 0 ds' := by
  induction h with
  | refl => exact ⟨ts, ds, Nat.le_refl _, hat⟩
  | @turn m' m'' s _ hne ht ih =>
    obtain ⟨mid, ds', hmid, hat'⟩ := ih
    obtain ⟨t, mid, rfl⟩ := hat'.exists_cons hne
    have hfuel' : expressionFuel + (t :: mid).length < fuel := by omega
    obtain ⟨a, rest, m₁, hstep, hturn, hat₁, -⟩ := turn_step hfuel' hat'
    rw [hturn, Option.some.injEq, Prod.mk.injEq] at ht
    obtain ⟨-, rfl⟩ := ht
    exact ⟨rest, _, (hstep.suffix.length_le).trans hmid, hat₁⟩

/-- **After any turns the next one is an attempt too,** as long as the input has not ended. -/
theorem Turns.exists_turn {m' : Machine} (h : Turns fuel m m')
    (hfuel : expressionFuel + ts.length < fuel) (hat : m.At ts 0 ds) (hne : m'.current.kind ≠ .eof) :
    ∃ t mid ds' a rest m'', m'.At (t :: mid) 0 ds' ∧ Attempt.Step (t :: mid) a rest ∧
      m'.turn fuel = some (a.statement?, m'') ∧ m''.At rest 0 (ds' ++ a.diagnostic?.toList) ∧
      m''.events = m'.events ++ a.events := by
  obtain ⟨mid, ds', hle, hm'⟩ := h.exists_at hfuel hat
  obtain ⟨t, mid, rfl⟩ := hm'.exists_cons hne
  have hfuel' : expressionFuel + (t :: mid).length < fuel := by omega
  obtain ⟨a, rest, m'', hturn⟩ := turn_step hfuel' hm'
  exact ⟨t, mid, ds', a, rest, m'', hm', hturn⟩

end Machine

/-- **Reading always comes to its end and leaves nothing behind.** Take a fuel for all levels of
nesting and all tokens of the text. A machine reads the program of the text and records its
diagnostics, and then both tokens in its window are end tokens. Reading again, as often as wanted,
gives empty programs and leaves the machine as it is, but for a report of each program. At the
beginning the tokens of the text are ahead, and whatever turns were made, the next turn takes some of
those that are left. So statements and diagnostics together are not more than the tokens, and these
are not more than the characters that are no blanks. -/
theorem parsePrograms_exhausts (text : String) (fuel : Nat)
    (hfuel : 2 * maxNesting + (Token.ofText text).length < fuel) :
    (∃ last : Machine, last.current = Token.eof ∧ last.peek = Token.eof ∧
      last.diagnostics = (parse text).2 ∧
      ∀ again : Nat, (Machine.ofText text).parsePrograms fuel (again + 1) =
        some ((parse text).1 :: List.replicate again ⟨[]⟩,
          last.logAll (List.replicate again (.programRead 0 (parse text).2.length)))) ∧
    (Machine.ofText text).ahead = Token.ofText text ∧
    (∀ m, Machine.Turns fuel (Machine.ofText text) m → m.current.kind ≠ .eof →
      ∃ s m' used, m.turn fuel = some (s, m') ∧ used ≠ [] ∧ m.ahead = used ++ m'.ahead) ∧
    (parse text).1.statements.length + (parse text).2.length ≤ (Token.ofText text).length ∧
    (Token.ofText text).length ≤ (text.toList.filter fun c => !isBlank c).length := by
  have hat : (Machine.ofText text).At (Token.ofText text) 0 [] := Machine.at_ofScanner _
  have hpos : 0 < fuel := Nat.zero_lt_of_lt hfuel
  refine ⟨?_, hat.ahead, ?_, ?_, Token.length_scan_le _⟩
  · obtain ⟨last, hfirst, hlast, -⟩ := Machine.parseProgram_ofScanner (.ofText text) hfuel
    refine ⟨last, hlast.current, hlast.peek, hlast.diagnostics, fun again => ?_⟩
    have heof : last.current.kind = .eof := by rw [hlast.current]; rfl
    have hagain := Machine.parsePrograms_of_eof hpos heof again
    rw [hlast.diagnostics] at hagain
    rw [Machine.parsePrograms, Machine.ofText, hfirst]
    simp only [Option.bind_eq_bind, Option.bind_some, hagain]
    rfl
  · intro m hturns hne
    obtain ⟨t, mid, ds, a, rest, m', hm, hstep, hturn, hat', -⟩ := hturns.exists_turn hfuel hat hne
    obtain ⟨used, hused, htokens⟩ := hstep.exists_used
    exact ⟨_, m', used, hturn, hused, by rw [hm.ahead, hat'.ahead, htokens]⟩
  · exact (Attempt.run_all _).length_le

/-- A text with a statement that fails and two that are kept, which is read three times. -/
theorem parsePrograms_exhausts_skipped :
    ∃ last : Machine, last.peek = Token.eof ∧
      last.diagnostics = [.unexpectedToken .ident .lParen] ∧
      (Machine.ofText "let (; 1 2").parsePrograms 600 3 =
        some ([⟨[.expr ⟨.int, "1"⟩ (.int ⟨.int, "1"⟩ 1), .expr ⟨.int, "2"⟩ (.int ⟨.int, "2"⟩ 2)]⟩,
          ⟨[]⟩, ⟨[]⟩], last) := by
  have hparse : parse "let (; 1 2" =
      (⟨[.expr ⟨.int, "1"⟩ (.int ⟨.int, "1"⟩ 1), .expr ⟨.int, "2"⟩ (.int ⟨.int, "2"⟩ 2)]⟩,
        [.unexpectedToken .ident .lParen]) := by decide +kernel
  obtain ⟨⟨last, -, hpeek, hds, hread⟩, -⟩ :=
    parsePrograms_exhausts "let (; 1 2" 600 (by decide +kernel)
  rw [hparse] at hds hread
  exact ⟨last.logAll [.programRead 0 1, .programRead 0 1], hpeek, hds, hread 2⟩

end ExprLang
