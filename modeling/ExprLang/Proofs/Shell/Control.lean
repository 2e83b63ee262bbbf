import ExprLang.Proofs.Program.Visible
import ExprLang.Proofs.Shell.Color
import ExprLang.Proofs.Shell.Session

/-!
# What input can put on a terminal

* `AnswerLine` — one line of an answer: visible text, or a tab and the message of a diagnostic.

Principal results: `answerLine_of_mem` — a plain answer is made of such lines; `fades_answer` — a
coloured answer is a plain one in colours; `control_free` — so no input can put a control sequence into
the output, and taking the colours off a coloured run gives the plain run.

Names, integers and operators reach the output as they are, and they are visible. Any other character
of the input reaches it in quotes only.
-/

namespace ExprLang.Shell

open Text

/-- One line of the plain answer to `line`. -/
inductive AnswerLine (mode : Mode) (line : String) : String → Prop
  | text {s : String} (h : Visible s) : AnswerLine mode line (s ++ "\n")
  | diagnostic {d : Diagnostic} (hm : mode = .program) (hd : d ∈ (parse line).2)
      (h : Visible d.message) : AnswerLine mode line (messageLine d)

theorem visible_column (t : Token) : Visible (kindColumn.fit t.kind.name) :=
  Visible.fit rfl t.kind.visible_name

theorem answerLine_token (mode : Mode) (line : String) (t : Token) :
    AnswerLine mode line (tokenLine false t) := by
  have hspace : Visible " " := by decide
  exact .text (((visible_column t).append hspace).append (visible_quote t.literal))

/-- **A plain answer is made of visible lines and of diagnostics behind a tab.** -/
theorem answerLine_of_mem {mode : Mode} {line l : String} (h : l ∈ outputLines mode false line) :
    AnswerLine mode line l := by
  cases mode with
  | tokens =>
    obtain ⟨t, -, rfl⟩ := List.mem_map.mp h
    exact answerLine_token .tokens line t
  | program =>
    simp only [outputLines, programLines] at h
    split at h
    · obtain rfl := List.mem_singleton.mp h
      exact .text (coherent_parse line).visible_render
    · rcases List.mem_cons.mp h with rfl | h
      · have hheading : Visible "parser errors:" := by decide
        exact .text hheading
      · obtain ⟨d, hd, rfl⟩ := List.mem_map.mp h
        exact .diagnostic rfl hd d.visible_message

/-! ## Colours -/

theorem esc_not_mem {s : String} (h : Visible s) : esc ∉ s.toList := by
  intro hm
  exact absurd (h esc hm) (by decide)

theorem fades_visible {s : String} (h : Visible s) : Fades s s := fades_self (esc_not_mem h)

theorem fades_lineEnd : Fades "\n" "\n" := fades_self (by decide)

theorem fades_tokenLine (t : Token) : Fades (tokenLine true t) (tokenLine false t) := by
  have hspace : Visible " " := by decide
  exact (((fades_paint Palette.kind (esc_not_mem (visible_column t))).append
    (fades_visible hspace)).append (fades_visible (visible_quote t.literal))).append fades_lineEnd

theorem fades_messageLine (d : Diagnostic) :
    Fades (messageLine d) (messageLine d) := by
  have htab : Fades "\t" "\t" := fades_self (by decide)
  exact (htab.append (fades_visible d.visible_message)).append fades_lineEnd

/-- **A coloured answer is the plain one in colours.** -/
theorem fades_answer (mode : Mode) (line : String) :
    Fades (answer mode true line) (answer mode false line) := by
  cases mode with
  | tokens => exact Fades.join fades_tokenLine _
  | program =>
    simp only [answer, outputLines, programLines]
    split
    · simp only [String.join_cons, String.join_nil, String.append_empty]
      exact (fades_paint _ (esc_not_mem (coherent_parse line).visible_render)).append fades_lineEnd
    · have hheading : Visible "parser errors:" := by decide
      simp only [String.join_cons]
      exact ((fades_paint _ (esc_not_mem hheading)).append fades_lineEnd).append
        (Fades.join fades_messageLine _)

/-- Colours come off a session whose prompt has none of its own. -/
theorem fades_session (mode : Mode) {prompt : String} (hp : esc ∉ prompt.toList) (input : Input) :
    Fades (written (session ⟨mode, true, prompt⟩ input))
      (written (session ⟨mode, false, prompt⟩ input)) := by
  have hprompt : Fades (promptText ⟨mode, true, prompt⟩) (promptText ⟨mode, false, prompt⟩) :=
    fades_paint _ hp
  have hempty : Fades "" "" := fades_self (by decide)
  have hclosing : Fades (closing input.fault) (closing input.fault) := by
    cases input.fault with
    | none => exact fades_lineEnd
    | some fault => exact hempty
  rw [written_session, written_session]
  exact ((Fades.join (fun line => hprompt.append (fades_answer mode line)) _).append
    hprompt).append hclosing

/-- **Input cannot put terminal control into the output.** Outside the prompts, a plain run writes
visible characters, the newline at the end of each line of an answer and the tab in front of a
diagnostic; at a clean end an empty line follows the last prompt. So the colours of a coloured run are
the only control sequences in it, unless the prompt has some: without them it is the plain run, and it
ends in the same way. -/
theorem control_free (mode : Mode) (prompt : String) (input : Input) :
    let plain := run ⟨mode, false, prompt⟩ input none
    let coloured := run ⟨mode, true, prompt⟩ input none
    ∃ plainText colouredText : String,
      plain.output = bytesOf plainText ∧ coloured.output = bytesOf colouredText ∧
        plainText =
          String.join (input.lines.map fun line =>
            prompt ++ String.join (outputLines mode false line)) ++
            prompt ++ (if input.fault = none then "\n" else "") ∧
        (∀ line ∈ input.lines, ∀ l ∈ outputLines mode false line, AnswerLine mode line l) ∧
        (esc ∉ prompt.toList → dropColors colouredText.toList = plainText.toList) ∧
        coloured.fault = plain.fault := by
  intro plain coloured
  refine ⟨_, _, output_perform _ _, output_perform _ _, ?_, ?_, ?_, ?_⟩
  · rw [written_session]
    cases input.fault <;> rfl
  · exact fun _ _ _ hl => answerLine_of_mem hl
  · intro hp
    exact (fades_session mode hp input).dropColors_eq
  · exact (fault_perform _ _).trans (fault_perform _ _).symm

/-- A control sequence in the input is shown in quotes, and the colours come off as they should. -/
theorem control_free_escape :
    esc ∉ ">> ".toList ∧
      ∃ plainText colouredText : String,
        (run ⟨.tokens, false, ">> "⟩ ⟨["\x1b[0m"], none⟩ none).output = bytesOf plainText ∧
          (run ⟨.tokens, true, ">> "⟩ ⟨["\x1b[0m"], none⟩ none).output = bytesOf colouredText ∧
          dropColors colouredText.toList = plainText.toList ∧
          bytesOf plainText = bytesOf (">> ILLEGAL  \"\\u\x7b1b\x7d\"\nILLEGAL  \"[\"\n" ++
            "INT      \"0\"\nIDENT    \"m\"\n>> \n") := by
  have hp : esc ∉ ">> ".toList := by decide
  obtain ⟨plainText, colouredText, hplain, hcoloured, -, -, hdrop, -⟩ :=
    control_free .tokens ">> " ⟨["\x1b[0m"], none⟩
  refine ⟨hp, plainText, colouredText, hplain, hcoloured, hdrop hp, hplain.symm.trans ?_⟩
  decide +kernel

end ExprLang.Shell
