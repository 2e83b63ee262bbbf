import ExprLang.Proofs.Program.Exhaustion

/-!
# What is reported about a program

* `Block` — what a turn adds to the statements, the diagnostics and the events.
* `Trace` — the blocks of events for a sequence of tokens, beside the statements that are kept and the
  diagnostics that are recorded.

Principal results: `Turns.exists_block` — each turn of a machine adds one block;
`Attempt.Run.trace` — a run of attempts has one block for each of them; `trace_parseProgram` — what a
machine has reported after a text is such blocks and one event with the counts, and this is what a
parser reports.

A machine reports where it stands: the start of a statement before it looks at the token, a
diagnostic when it records it, the stop at the end of the way out. A statement is kept or has one
diagnostic, never both and never neither, so the blocks can be counted: the short ones are the
statements, the others the diagnostics.
-/

namespace ExprLang

/-! ## One turn -/

/-- What a turn that begins at the token `first` adds: a statement and an event, or one diagnostic
and three events. In that case it names the semicolon or the end where it stops. -/
inductive Block (first : Token) : Option Statement → List Diagnostic → List Event → Prop
  | kept (s : Statement) : Block first (some s) [] [.statementStarted first]
  | failed (d : Diagnostic) {stop : Token} (hs : stop.kind = .semicolon ∨ stop = Token.eof) :
      Block first none [d] [.statementStarted first, .syntaxError d, .resynchronized stop]

theorem Attempt.Step.block {t : Token} {ts rest : List Token} {a : Attempt}
    (h : Step (t :: ts) a rest) : Block t a.statement? a.diagnostic?.toList a.events := by
  obtain ⟨segment, -, htakes⟩ := h.exists_takes
  cases h with
  | kept _ => exact .kept _
  | failed _ =>
    refine .failed _ ?_
    generalize (toSemicolon _).head?.getD Token.eof = stop at htakes ⊢
    cases htakes with
    | skipped _ _ hs => exact .inl hs
    | ended _ _ => exact .inr rfl

/-- **Each turn of a machine adds one block,** which begins at its current token. -/
theorem Machine.Turns.exists_block {m m' : Machine} {ts : List Token} {ds : List Diagnostic}
    {fuel : Nat} (h : Turns fuel m m') (hfuel : Step.expressionFuel + ts.length < fuel)
    (hat : m.At ts 0 ds) (hne : m'.current.kind ≠ .eof) :
    ∃ s new block m'', m'.turn fuel = some (s, m'') ∧ m''.diagnostics = m'.diagnostics ++ new ∧
      m''.events = m'.events ++ block ∧ Block m'.current s new block := by
  obtain ⟨t, mid, ds', a, rest, m'', hm', hstep, hturn, hat', hevents⟩ :=
    h.exists_turn hfuel hat hne
  have hcurrent : m'.current = t := hm'.current
  refine ⟨_, _, _, m'', hturn, ?_, hevents, hcurrent ▸ hstep.block⟩
  rw [hat'.diagnostics, hm'.diagnostics]

/-! ## All turns -/

/-- The tokens `ts` are taken in segments, each with a block of events. A block names the first token
of its segment. It ends there if the statement is kept; otherwise it goes on with the diagnostic and
the token where skipping stopped, a semicolon or the end. -/
inductive Trace : List Token → List Statement → List Diagnostic → List (List Event) → Prop
  | done : Trace [] [] [] []
  | kept {first : Token} {s : Statement} {segment rest : List Token} {ss : List Statement}
      {ds : List Diagnostic} {blocks : List (List Event)}
      (ht : Attempt.Takes rest (.kept first s) segment) (h : Trace rest ss ds blocks) :
      Trace (segment ++ rest) (s :: ss) ds ([.statementStarted first] :: blocks)
  | failed {first stop : Token} {d : Diagnostic} {segment rest : List Token} {ss : List Statement}
      {ds : List Diagnostic} {blocks : List (List Event)}
      (ht : Attempt.Takes rest (.failed first d stop) segment) (h : Trace rest ss ds blocks) :
      Trace (segment ++ rest) ss (d :: ds)
        ([.statementStarted first, .syntaxError d, .resynchronized stop] :: blocks)

/-- **A run reports one block for each attempt.** -/
theorem Attempt.Run.trace {ts rest : List Token} {as : List Attempt} (h : Attempt.Run ts as rest)
    (hr : rest = []) :
    Trace ts (as.filterMap Attempt.statement?) (as.filterMap Attempt.diagnostic?)
      (as.map Attempt.events) := by
  induction h with
  | nil =>
    subst hr
    exact .done
  | @cons _ mid _ a as ha _ ih =>
    obtain ⟨segment, rfl, ht⟩ := ha.exists_takes
    cases a with
    | kept first s => exact .kept ht (ih hr)
    | failed first d stop => exact .failed ht (ih hr)

namespace Trace

variable {ts : List Token} {ss : List Statement} {ds : List Diagnostic}
  {blocks : List (List Event)}

/-- Where no tokens are left there is nothing to report. -/
theorem diagnostics_eq_nil (h : Trace [] ss ds blocks) : ds = [] := by
  generalize hts : [] = ts at h
  cases h with
  | done => rfl
  | kept ht _ => cases ht; cases hts
  | failed ht _ =>
    cases ht with
    | skipped _ _ _ => simp at hts
    | ended _ _ => cases hts

theorem countP_short (h : Trace ts ss ds blocks) :
    blocks.countP (fun b => b.length == 1) = ss.length := by
  induction h with
  | done => rfl
  | kept _ _ ih => simpa using ih
  | failed _ _ ih => simpa using ih

/-- The messages that are reported are those of the diagnostics, in their order. -/
theorem messages (h : Trace ts ss ds blocks) :
    (blocks.flatten.filter fun e => e.message == "syntax error").map Event.fields =
      ds.map fun d => [("error", d.message)] := by
  induction h with
  | done => rfl
  | kept _ _ ih => simpa [Event.message] using ih
  | failed _ _ ih => simpa [Event.message, Event.fields] using ih

theorem diagnostics_eq_nil_iff (h : Trace ts ss ds blocks) :
    ds = [] ↔ ∀ b ∈ blocks, b.length = 1 := by
  induction h with
  | done => simp
  | kept _ _ ih => simpa using ih
  | failed _ _ _ => simp

/-- Every failure but the last one is followed by a semicolon of its own. -/
theorem length_diagnostics_le (h : Trace ts ss ds blocks) :
    ds.length ≤ ts.countP (fun t => t.kind == .semicolon) + 1 := by
  induction h with
  | done => exact Nat.zero_le 1
  | kept _ _ ih =>
    rw [List.countP_append]
    omega
  | @failed _ stop _ _ _ _ _ _ ht h ih =>
    rw [List.countP_append, List.length_cons]
    cases ht with
    | skipped _ _ hs =>
      have hstop : [stop].countP (fun t => t.kind == .semicolon) = 1 := by simp [hs]
      rw [List.countP_append]
      omega
    | ended _ hr =>
      subst hr
      rw [h.diagnostics_eq_nil]
      simp

end Trace

/-- **One diagnostic for each statement that fails, and the events account for it.** Take a fuel for
all levels of nesting and all tokens of the text. What a machine has reported after it has read the
text is a block for each attempt at a statement and then the numbers of statements and diagnostics,
and it is what a parser reports. Each turn adds one of the blocks. The short ones are as many as the
statements; the others carry the diagnostics in order. So a text is free of diagnostics exactly if
every block is short, and there is at most one diagnostic more than there are semicolons. -/
theorem trace_parseProgram (text : String) (fuel : Nat)
    (hfuel : 2 * maxNesting + (Token.ofText text).length < fuel) :
    ∃ (program : Program) (last : Machine) (blocks : List (List Event)),
      (Machine.ofText text).parseProgram fuel = some (program, last) ∧
      last.events = blocks.flatten ++
        [.programRead program.statements.length last.diagnostics.length] ∧
      Trace (Token.ofText text) program.statements last.diagnostics blocks ∧
      (∀ m, Machine.Turns fuel (Machine.ofText text) m → m.current.kind ≠ .eof →
        ∃ s new block m', m.turn fuel = some (s, m') ∧ m'.diagnostics = m.diagnostics ++ new ∧
          m'.events = m.events ++ block ∧ Block m.current s new block) ∧
      blocks.length = (Attempt.all (Token.ofText text)).length ∧
      blocks.countP (fun b => b.length == 1) = program.statements.length ∧
      ((last.events.filter fun e => e.message == "syntax error").map Event.fields =
        last.diagnostics.map fun d => [("error", d.message)]) ∧
      (last.diagnostics = [] ↔ ∀ b ∈ blocks, b.length = 1) ∧
      last.diagnostics.length ≤
        (Token.ofText text).countP (fun t => t.kind == .semicolon) + 1 ∧
      let r := (Parser.ofText text).parseProgram
      r.program = program ∧ r.parser.diagnostics = last.diagnostics ∧ r.events = last.events := by
  obtain ⟨last, hrun, hat, hevents⟩ := Machine.parseProgram_ofScanner (.ofText text) hfuel
  have hds : (Parser.ofText text).parseProgram.parser.diagnostics = last.diagnostics :=
    hat.diagnostics.symm
  have htrace : Trace (Token.ofText text) (Parser.ofText text).parseProgram.program.statements
      last.diagnostics ((Attempt.all (Token.ofText text)).map Attempt.events) :=
    hds ▸ (Attempt.run_all (Token.ofText text)).trace rfl
  have hblocks : last.events = ((Attempt.all (Token.ofText text)).map Attempt.events).flatten ++
      [.programRead (Parser.ofText text).parseProgram.program.statements.length
        last.diagnostics.length] := hds ▸ hevents
  refine ⟨_, last, _, hrun, hblocks, htrace, ?_, List.length_map _, htrace.countP_short, ?_,
    htrace.diagnostics_eq_nil_iff, htrace.length_diagnostics_le, rfl, hds, hevents.symm⟩
  · exact fun m h hne => h.exists_block hfuel (Machine.at_ofScanner _) hne
  · rw [hblocks, List.filter_append, List.map_append, htrace.messages]
    simp [Event.message]

/-- A binding without a name is skipped up to the semicolon, and two expressions are kept. -/
theorem trace_parseProgram_skipped :
    2 * maxNesting + (Token.ofText "let 5; a 1").length < 600 ∧
      ∃ (program : Program) (last : Machine),
        (Machine.ofText "let 5; a 1").parseProgram 600 = some (program, last) ∧
        program.statements.length = 2 ∧ last.diagnostics = [.unexpectedToken .ident .int] ∧
        last.events = [.statementStarted ⟨.letWord, "let"⟩,
          .syntaxError (.unexpectedToken .ident .int), .resynchronized ⟨.semicolon, ";"⟩,
          .statementStarted ⟨.ident, "a"⟩, .statementStarted ⟨.int, "1"⟩, .programRead 2 1] := by
  have hfuel : 2 * maxNesting + (Token.ofText "let 5; a 1").length < 600 := by decide +kernel
  obtain ⟨program, last, -, hrun, -, -, -, -, -, -, -, -, hprogram, hds, hevents⟩ :=
    trace_parseProgram "let 5; a 1" 600 hfuel
  refine ⟨hfuel, program, last, hrun, ?_, ?_, ?_⟩
  · rw [← hprogram]
    decide +kernel
  · rw [← hds]
    decide +kernel
  · rw [← hevents]
    decide +kernel

end ExprLang
