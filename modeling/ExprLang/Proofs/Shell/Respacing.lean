import ExprLang.Proofs.Program.Layout
import ExprLang.Proofs.Shell.Session
import ExprLang.Proofs.Shell.Validity

/-!
# Line endings and blanks at line ends

* `IsPadding`, `Padded` — blanks that end no line, and a line with some of them around it.
* `Respaced` — bytes that are the same, line by line, apart from the padding of the lines.
* `tokens?` — the tokens of a line, if it is a text.
* `quiet` — actions without the reports among them.

Principal results: `tokens?_of_padded` — padding changes neither whether a line is a text nor its
tokens; `perform_quiet` — what is written and flushed does not depend on reports; `run_respaced` —
so the padding of lines changes nothing in what a session writes.

A carriage return before a line feed is padding as well, whether it is dropped with the line feed or
scanned as a blank. Only the reports tell the difference, since they quote the lines as they are.
-/

namespace ExprLang.Shell

/-! ## Padding -/

/-- Spaces, tabs and carriage returns. -/
def IsPadding (bytes : List UInt8) : Prop := ∀ b ∈ bytes, b = 0x20 ∨ b = 0x09 ∨ b = carriageReturn

/-- The line `raw` is `core` with padding around it. -/
def Padded (core raw : List UInt8) : Prop :=
  ∃ before after, raw = before ++ core ++ after ∧ IsPadding before ∧ IsPadding after

/-- Both byte sequences hold the same lines, apart from padding at the ends of each line. A last line
that is not empty may be without a line feed in one of them or in both. -/
inductive Respaced : List UInt8 → List UInt8 → Prop
  | ended : Respaced [] []
  | line {core raw raw' rest rest' : List UInt8} (hcore : lineFeed ∉ core) (h : Padded core raw)
      (h' : Padded core raw') (hrest : Respaced rest rest') :
      Respaced (raw ++ lineFeed :: rest) (raw' ++ lineFeed :: rest')
  | last {core raw raw' : List UInt8} (hcore : lineFeed ∉ core) (h : Padded core raw)
      (h' : Padded core raw') (hne : raw ≠ []) (hne' : raw' ≠ []) : Respaced raw raw'
  | terminated {core raw raw' : List UInt8} (hcore : lineFeed ∉ core) (h : Padded core raw)
      (h' : Padded core raw') (hne : raw ≠ []) : Respaced raw (raw' ++ [lineFeed])

variable {core raw bytes bytes' : List UInt8}

theorem isPadding_nil : IsPadding [] := by simp [IsPadding]

theorem Padded.refl (raw : List UInt8) : Padded raw raw :=
  ⟨[], [], by simp, isPadding_nil, isPadding_nil⟩

theorem IsPadding.lineFeed_not_mem (h : IsPadding bytes) : lineFeed ∉ bytes := by
  intro hm
  exact absurd (h lineFeed hm) (by decide)

theorem Padded.lineFeed_not_mem (h : Padded core raw) (hcore : lineFeed ∉ core) :
    lineFeed ∉ raw := by
  obtain ⟨before, after, rfl, hb, ha⟩ := h
  simp [hcore, hb.lineFeed_not_mem, ha.lineFeed_not_mem]

/-- A carriage return that is dropped from a line was padding. -/
theorem padded_dropReturn (raw : List UInt8) : Padded (dropReturn raw) raw := by
  unfold dropReturn
  split
  · rename_i h
    obtain ⟨front, rfl⟩ := List.getLast?_eq_some_iff.mp h
    refine ⟨[], [carriageReturn], by simp, isPadding_nil, ?_⟩
    simp [IsPadding]
  · exact .refl raw

/-! ## Lines with padding -/

/-- Padding stands for blanks. -/
theorem IsPadding.exists_blanks (h : IsPadding bytes) :
    ∃ gap : List Char, bytesOf (String.ofList gap) = bytes ∧ ∀ c ∈ gap, isBlank c = true := by
  have hchar : ∀ b ∈ bytes, ∃ c, isBlank c = true ∧ String.utf8EncodeChar c = [b] := by
    intro b hb
    rcases h b hb with rfl | rfl | rfl
    · exact ⟨' ', rfl, by decide⟩
    · exact ⟨'\t', rfl, by decide⟩
    · exact ⟨'\r', rfl, by decide⟩
  clear h
  induction bytes with
  | nil => exact ⟨[], rfl, by simp⟩
  | cons b bytes ih =>
    obtain ⟨hb, hbytes⟩ := List.forall_mem_cons.mp hchar
    obtain ⟨c, hc, hencode⟩ := hb
    obtain ⟨gap, hgap, hblank⟩ := ih hbytes
    refine ⟨c :: gap, ?_, List.forall_mem_cons.mpr ⟨hc, hblank⟩⟩
    rw [bytesOf_ofList] at hgap ⊢
    rw [List.flatMap_cons, hencode, hgap, List.singleton_append]

/-- Blanks around a text do not change its tokens. -/
theorem ofText_padded {before after : List Char} (hb : ∀ c ∈ before, isBlank c = true)
    (ha : ∀ c ∈ after, isBlank c = true) (text : String) :
    Token.ofText (String.ofList before ++ text ++ String.ofList after) = Token.ofText text := by
  have hafter : Token.scan after = [] := by
    have h := Token.scan_blanks_append ha []
    rwa [List.append_nil, Token.scan_nil] at h
  have hend : ∀ t ∈ (Token.scan text.toList).getLast?, t.EndsBefore after := by
    intro t _
    exact t.endsBefore_of_isBlank fun c hc => ha c (List.mem_of_mem_head? hc)
  simp only [Token.ofText, String.toList_append, String.toList_ofList, List.append_assoc]
  rw [Token.scan_blanks_append hb, Token.scan_append hend, hafter, List.append_nil]

/-- The tokens of a line, if it is a text. -/
def tokens? (raw : List UInt8) : Option (List Token) := (decode raw).map Token.ofText

/-- Padding is made of characters by itself, so it can be cut off a text. -/
theorem Padded.isText_core (h : Padded core raw) (hraw : IsText raw) : IsText core := by
  obtain ⟨before, after, rfl, hb, ha⟩ := h
  have ascii {bytes : List UInt8} (h : IsPadding bytes) : ∀ b ∈ bytes, b < 128 := by
    intro b hm
    rcases h b hm with rfl | rfl | rfl <;> decide
  have hfront : IsText (before ++ core) := by
    cases after with
    | nil => rwa [List.append_nil] at hraw
    | cons b after => exact (hraw.of_append_cons (ascii ha b List.mem_cons_self)).1
  rcases List.eq_nil_or_concat before with rfl | ⟨before, b, rfl⟩
  · exact hfront
  · rw [List.concat_eq_append, List.append_assoc] at hfront
    exact (hfront.of_append_cons (ascii hb b (by simp))).2

/-- **Padding changes neither whether a line is a text nor its tokens.** -/
theorem tokens?_of_padded (h : Padded core raw) : tokens? raw = tokens? core := by
  cases hcore : decode core with
  | none =>
    have hraw : decode raw = none := by
      rw [decode_eq_none_iff] at hcore ⊢
      exact mt h.isText_core hcore
    rw [tokens?, tokens?, hraw, hcore]
  | some text =>
    obtain ⟨before, after, rfl, hb, ha⟩ := h
    obtain ⟨gap, rfl, hgap⟩ := hb.exists_blanks
    obtain ⟨gap', rfl, hgap'⟩ := ha.exists_blanks
    rw [← decode_eq_some_iff.mp hcore, ← bytesOf_append, ← bytesOf_append, tokens?, tokens?,
      decode_bytesOf, decode_bytesOf, Option.map_some, Option.map_some, ofText_padded hgap hgap']

theorem tokens?_dropReturn (h : Padded core raw) : tokens? (dropReturn raw) = tokens? core := by
  rw [← tokens?_of_padded (padded_dropReturn raw), tokens?_of_padded h]

/-! ## What is read -/

/-- Two inputs whose lines have the same tokens, one by one, and which end in the same way. -/
structure Input.Alike (i i' : Input) : Prop where
  lines : i.lines.map Token.ofText = i'.lines.map Token.ofText
  fault : i.fault = i'.fault

theorem Input.Alike.refl (i : Input) : i.Alike i := ⟨rfl, rfl⟩

/-- The input that begins with this line, if it is a text, and goes on with `after`. -/
def Input.cons (raw : List UInt8) (after : Input) : Input :=
  match decode raw with
  | none => ⟨[], some .invalidText⟩
  | some text => ⟨text :: after.lines, after.fault⟩

theorem Input.Alike.cons {raw raw' : List UInt8} {i i' : Input} (hraw : tokens? raw = tokens? raw')
    (h : i.Alike i') : (Input.cons raw i).Alike (Input.cons raw' i') := by
  unfold Input.cons
  unfold tokens? at hraw
  cases ht : decode raw <;> cases ht' : decode raw' <;> rw [ht, ht'] at hraw
  · exact .refl _
  · cases hraw
  · cases hraw
  · refine ⟨?_, h.fault⟩
    rw [List.map_cons, List.map_cons, h.lines, Option.some.inj hraw]

theorem Padded.ofBytes_line {rest : List UInt8} (h : Padded core raw) (hcore : lineFeed ∉ core) :
    Input.ofBytes (raw ++ lineFeed :: rest) = .cons (dropReturn raw) (.ofBytes rest) := by
  show Input.ofSource false (raw ++ lineFeed :: rest) = _
  exact Input.ofSource_line (h.lineFeed_not_mem hcore) rest

theorem Padded.ofBytes_tail (h : Padded core raw) (hcore : lineFeed ∉ core) (hne : raw ≠ []) :
    Input.ofBytes raw = .cons raw (.ofBytes []) :=
  Input.ofSource_tail (h.lineFeed_not_mem hcore) hne

/-- **Padding does not change what is read,** but for the blanks around it. -/
theorem Respaced.alike (h : Respaced bytes bytes') :
    (Input.ofBytes bytes).Alike (Input.ofBytes bytes') := by
  induction h with
  | ended => exact .refl _
  | line hcore h h' _ ih =>
    rw [h.ofBytes_line hcore, h'.ofBytes_line hcore]
    exact ih.cons ((tokens?_dropReturn h).trans (tokens?_dropReturn h').symm)
  | last hcore h h' hne hne' =>
    rw [h.ofBytes_tail hcore hne, h'.ofBytes_tail hcore hne']
    exact (Input.Alike.refl _).cons ((tokens?_of_padded h).trans (tokens?_of_padded h').symm)
  | terminated hcore h h' hne =>
    rw [h.ofBytes_tail hcore hne, h'.ofBytes_line hcore]
    exact (Input.Alike.refl _).cons ((tokens?_of_padded h).trans (tokens?_dropReturn h').symm)

/-! ## What is done -/

/-- Reports are for a log; they write and flush nothing. -/
def Action.isReport : Action → Bool
  | write _ => false
  | flush => false
  | report _ => true

/-- The actions without the reports. -/
def quiet (actions : List Action) : List Action := actions.filter fun a => !a.isReport

theorem quiet_append (xs ys : List Action) : quiet (xs ++ ys) = quiet xs ++ quiet ys :=
  List.filter_append xs ys

/-- The same transcript, apart from what was reported. -/
structure Transcript.Alike (r r' : Transcript) : Prop where
  output : r.output = r'.output
  flushes : r.flushes = r'.flushes
  fault : r.fault = r'.fault

theorem Transcript.Alike.symm {r r' : Transcript} (h : r.Alike r') : r'.Alike r :=
  ⟨h.output.symm, h.flushes.symm, h.fault.symm⟩

theorem Transcript.Alike.trans {r r' r'' : Transcript} (h : r.Alike r') (h' : r'.Alike r'') :
    r.Alike r'' :=
  ⟨h.output.trans h'.output, h.flushes.trans h'.flushes, h.fault.trans h'.fault⟩

/-- **What is written and flushed does not depend on reports.** -/
theorem perform_quiet (limit : Option Nat) (ending : Option Fault) (count : Nat)
    (actions : List Action) :
    (perform limit ending count (quiet actions)).Alike (perform limit ending count actions) := by
  induction actions generalizing count with
  | nil => exact ⟨rfl, rfl, rfl⟩
  | cons a actions ih =>
    cases a with
    | write text =>
      obtain ⟨ho, hf, he⟩ := ih (count + (bytesOf text).length)
      have hquiet : quiet (.write text :: actions) = .write text :: quiet actions := rfl
      rw [hquiet]
      cases limit with
      | none => exact ⟨congrArg (bytesOf text ++ ·) ho, hf, he⟩
      | some n =>
        simp only [perform]
        split
        · exact ⟨rfl, rfl, rfl⟩
        · exact ⟨congrArg (bytesOf text ++ ·) ho, hf, he⟩
    | flush =>
      obtain ⟨ho, hf, he⟩ := ih count
      exact ⟨ho, congrArg (count :: ·) hf, he⟩
    | report event =>
      obtain ⟨ho, hf, he⟩ := ih count
      exact ⟨ho, hf, he⟩

/-- An answer is found from the tokens of its line. -/
theorem outputLines_congr (mode : Mode) (color : Bool) {line line' : String}
    (h : Token.ofText line = Token.ofText line') :
    outputLines mode color line = outputLines mode color line' := by
  cases mode with
  | tokens => rw [outputLines, outputLines, h]
  | program => rw [outputLines, outputLines, parse_eq, parse_eq, h]

theorem quiet_respond (config : Config) (line : String) :
    quiet (respond config line) = (outputLines config.mode config.color line).map .write := by
  have hreports (events : List Event) : quiet (events.map .report) = [] := by
    simp [quiet, Action.isReport]
  have hwrites (texts : List String) : quiet (texts.map .write) = texts.map .write := by
    simp [quiet, Action.isReport]
  have hrespond : respond config line =
      (.readLine line :: answerEvents config.mode line).map .report ++
        (outputLines config.mode config.color line).map .write := rfl
  rw [hrespond, quiet_append, hreports, hwrites, List.nil_append]

/-- What a session does is found from the tokens of its lines, apart from the reports. -/
theorem quiet_session_congr (config : Config) {i i' : Input} (h : i.Alike i') :
    quiet (session config i) = quiet (session config i') := by
  obtain ⟨lines, fault⟩ := i
  obtain ⟨lines', fault'⟩ := i'
  obtain ⟨hlines, rfl⟩ := h
  simp only at hlines
  induction lines generalizing lines' with
  | nil =>
    rw [List.map_nil, eq_comm, List.map_eq_nil_iff] at hlines
    rw [hlines]
  | cons line lines ih =>
    cases lines' with
    | nil => cases hlines
    | cons line' lines' =>
      rw [List.map_cons, List.map_cons] at hlines
      obtain ⟨hline, hrest⟩ := List.cons_eq_cons.mp hlines
      have hsession (line : String) (lines : List String) : session config ⟨line :: lines, fault⟩ =
          greet config ++ (respond config line ++ session config ⟨lines, fault⟩) := by
        simp [session]
      simp only [hsession, quiet_append, quiet_respond, outputLines_congr _ _ hline, ih _ hrest]

theorem Input.Alike.run {i i' : Input} (h : i.Alike i') (config : Config) (limit : Option Nat) :
    (Shell.run config i limit).Alike (Shell.run config i' limit) := by
  have hi := perform_quiet limit i'.fault 0 (session config i)
  have hi' := perform_quiet limit i'.fault 0 (session config i')
  rw [quiet_session_congr config h] at hi
  rw [Shell.run, Shell.run, h.fault]
  exact hi.symm.trans hi'

/-- **Line endings and blanks at line ends change nothing.** Spaces, tabs and carriage returns may
come or go at either end of each line, and a last line may get its line feed. In every mode, with
every prompt, in colour or plain, and on a sink with or without a limit, a session then writes the
same bytes, flushes at the same places and ends in the same way. This holds as well if some line is
no text. -/
theorem run_respaced (h : Respaced bytes bytes') (config : Config) (limit : Option Nat) :
    let r := run config (.ofBytes bytes) limit
    let r' := run config (.ofBytes bytes') limit
    r'.output = r.output ∧ r'.flushes = r.flushes ∧ r'.fault = r.fault := by
  intro r r'
  obtain ⟨ho, hf, he⟩ : r.Alike r' := h.alike.run config limit
  exact ⟨ho.symm, hf.symm, he.symm⟩

/-- Indented lines with `\r\n` behind them, the second of which is no text, and a last line without
any line feed. -/
theorem run_respaced_mixed :
    let bytes : List UInt8 := [0x61, 0x0a, 0xff, 0x0a, 0x31]
    let bytes' : List UInt8 :=
      [0x09, 0x61, 0x20, 0x0d, 0x0a, 0xff, 0x0d, 0x0d, 0x0a, 0x20, 0x31, 0x0a]
    Respaced bytes bytes' ∧
      (run {} (.ofBytes bytes') none).output = (run {} (.ofBytes bytes) none).output ∧
      (run {} (.ofBytes bytes') none).fault = some .invalidText := by
  intro bytes bytes'
  have h : Respaced bytes bytes' := by
    have hindented : Padded [0x61] [0x09, 0x61, 0x20, 0x0d] := by
      refine ⟨[0x09], [0x20, 0x0d], rfl, ?_, ?_⟩ <;> simp [IsPadding, carriageReturn]
    have hreturns : Padded [0xff] [0xff, 0x0d, 0x0d] := by
      refine ⟨[], [0x0d, 0x0d], rfl, ?_, ?_⟩ <;> simp [IsPadding, carriageReturn]
    have hlast : Padded [0x31] [0x20, 0x31] := by
      refine ⟨[0x20], [], rfl, ?_, ?_⟩ <;> simp [IsPadding, carriageReturn]
    have hend : Respaced [0x31] [0x20, 0x31, 0x0a] :=
      .terminated (by decide) (.refl _) hlast (by decide)
    exact .line (by decide) (.refl _) hindented (.line (by decide) (.refl _) hreturns hend)
  obtain ⟨houtput, -, hfault⟩ := run_respaced h {} none
  refine ⟨h, houtput, hfault.trans ?_⟩
  decide +kernel

end ExprLang.Shell
