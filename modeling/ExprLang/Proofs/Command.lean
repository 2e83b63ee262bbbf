import ExprLang.Command
import ExprLang.Proofs.Shell.Session
import ExprLang.Proofs.Shell.Validity

/-!
# What a run of the program leaves behind

* `Command.settings` — the arguments that change a setting and nothing else.
* `Mode.ofSetting?` — the mode that an argument chooses, if it chooses one.
* `Config.afterSettings` — the settings that some arguments lead to.

Principal results: `ofArgsFrom_eq` — the first argument that is no setting decides what is asked for,
and without one the settings apply; `ofSession_of_delivers` — the outcome of a session on the lines that
are delivered; `ofRun_cases` — the outcome for any arguments and any standard input.
-/

namespace ExprLang

open Shell

/-- The arguments that change a setting. -/
def Command.settings : List String := ["--tokens", "--ast", "--no-color"]

/-- The mode that an argument chooses. -/
def Shell.Mode.ofSetting? (arg : String) : Option Mode :=
  if arg = "--tokens" then some .tokens
  else if arg = "--ast" then some .program
  else none

/-- The settings that the arguments lead to: the last mode counts, and colour stays off once it is
refused. -/
def Shell.Config.afterSettings (config : Config) (args : List String) : Config where
  mode := (args.filterMap Mode.ofSetting?).getLastD config.mode
  color := config.color && decide ("--no-color" ∉ args)
  prompt := config.prompt

/-! ## Arguments -/

namespace Command

variable {arg : String} (config : Config) (args : List String)

theorem afterSettings_cons :
    (config.afterSettings [arg]).afterSettings args = config.afterSettings (arg :: args) := by
  have hmode : (args.filterMap Mode.ofSetting?).getLastD
      (([arg].filterMap Mode.ofSetting?).getLastD config.mode) =
        ((arg :: args).filterMap Mode.ofSetting?).getLastD config.mode := by
    cases h : Mode.ofSetting? arg with
    | none => rw [List.filterMap_cons_none h, List.filterMap_cons_none h]; rfl
    | some mode =>
      rw [List.filterMap_cons_some h, List.filterMap_cons_some h, List.getLastD_cons,
        List.getLastD_cons]
      rfl
  have hcolor : (config.color && decide ("--no-color" ∉ [arg]) && decide ("--no-color" ∉ args)) =
      (config.color && decide ("--no-color" ∉ arg :: args)) := by
    simp [Bool.and_assoc]
  rw [Config.afterSettings, Config.afterSettings, Config.afterSettings, hmode, hcolor]

/-- A setting is applied, and reading goes on behind it. -/
theorem ofArgsFrom_cons_of_mem (h : arg ∈ settings) :
    ofArgsFrom config (arg :: args) = ofArgsFrom (config.afterSettings [arg]) args := by
  simp only [settings, List.mem_cons, List.not_mem_nil, or_false] at h
  rcases h with rfl | rfl | rfl
  all_goals simp [ofArgsFrom, Config.afterSettings, Mode.ofSetting?]

/-- Any other argument decides, and what comes behind it is not read. -/
theorem ofArgsFrom_cons_of_not_mem (h : arg ∉ settings) :
    ofArgsFrom config (arg :: args) =
      if arg = "-h" ∨ arg = "--help" then .ok .help else .error ⟨arg⟩ := by
  simp only [settings, List.mem_cons, List.not_mem_nil, or_false, not_or] at h
  obtain ⟨htokens, hast, hcolor⟩ := h
  rw [ofArgsFrom, if_neg htokens, if_neg hast, if_neg hcolor]

/-- **The first argument that is no setting decides what is asked for.** Without one, the shell runs with
the settings that all arguments lead to. -/
theorem ofArgsFrom_eq :
    ofArgsFrom config args =
      match args.find? fun a => a ∉ settings with
      | some a => if a = "-h" ∨ a = "--help" then .ok .help else .error ⟨a⟩
      | none => .ok (.run (config.afterSettings args)) := by
  induction args generalizing config with
  | nil => simp [ofArgsFrom, Config.afterSettings]
  | cons arg args ih =>
    by_cases h : arg ∈ settings
    · rw [ofArgsFrom_cons_of_mem config args h, ih, afterSettings_cons,
        List.find?_cons_of_neg (by simpa using h)]
    · rw [ofArgsFrom_cons_of_not_mem config args h, List.find?_cons_of_pos (by simpa using h)]

end Command

/-! ## Outcomes -/

namespace Outcome

theorem faultLine_invalidText :
    faultLine .invalidText =
      "Error: Error \x7b kind: InvalidData, message: " ++
        "\"stream did not contain valid UTF-8\" \x7d\n" := by
  decide +kernel

/-- A session writes what a sink without a limit takes. -/
theorem bytesOf_stdout_ofSession (config : Config) (input : Input) :
    bytesOf (ofSession config input).stdout = (run config input none).output := by
  rw [run, output_perform, ofSession]
  cases input.fault <;> rfl

variable (config : Config) {bytes : List UInt8} {lines : List String}

/-- **All lines are answered if none of them stops the source.** -/
theorem ofSession_of_delivers (h : Delivers false bytes lines none) :
    ofSession config (.ofBytes bytes) =
      ⟨0, dialogue config lines ++ promptText config ++ "\n", ""⟩ := by
  have hinput : Input.ofBytes bytes = ⟨lines, none⟩ := h.eq_ofSource
  rw [hinput, ofSession, written_session]
  rfl

/-- **A fault ends the session right after a prompt.** -/
theorem ofSession_of_delivers_fault {fault : Fault} (h : Delivers false bytes lines (some fault)) :
    ofSession config (.ofBytes bytes) =
      ⟨1, dialogue config lines ++ promptText config, faultLine fault⟩ := by
  have hinput : Input.ofBytes bytes = ⟨lines, some fault⟩ := h.eq_ofSource
  rw [hinput, ofSession, written_session, closing, String.append_empty]

variable {args : List String} {stdin : List UInt8} {terminal : Bool}

theorem ofRun_of_find?_eq_some {a : String}
    (h : (args.find? fun a => a ∉ Command.settings) = some a) :
    ofRun args stdin terminal = if a = "-h" ∨ a = "--help" then ofHelp else ofUsageError ⟨a⟩ := by
  rw [ofRun, Command.ofArgs, Command.ofArgsFrom_eq, h]
  by_cases hhelp : a = "-h" ∨ a = "--help"
  · simp only [if_pos hhelp]
  · simp only [if_neg hhelp]

/-- Without an argument that decides, it is a session with the settings for the output. -/
theorem ofRun_of_find?_eq_none (h : (args.find? fun a => a ∉ Command.settings) = none) :
    ofRun args stdin terminal =
      ofSession ((Config.afterSettings {} args).forOutput terminal) (.ofBytes stdin) := by
  rw [ofRun, Command.ofArgs, Command.ofArgsFrom_eq, h]

end Outcome

/-- **The outcome of the program for any arguments and any standard input,** when standard output is no
terminal. The first argument that is no setting decides, whatever comes after it: it asks for help, or
it is not understood. Without one, the shell answers in the mode that was chosen last, and never in
colour. If standard input is a text as a whole, all of its lines are answered. Otherwise the first line
that is no text ends the run right after its prompt. -/
theorem ofRun_cases (args : List String) (stdin : List UInt8) :
    match args.find? fun a => a ∉ Command.settings with
    | some a =>
      Outcome.ofRun args stdin false =
        if a = "-h" ∨ a = "--help" then ⟨0, usage ++ "\n", ""⟩
        else ⟨2, "", "Error: " ++ ("unrecognized argument '" ++ a ++ "'\n\n" ++ usage) ++ "\n"⟩
    | none =>
      let config : Config := ⟨(args.filterMap Mode.ofSetting?).getLastD .tokens, false, ">> "⟩
      bytesOf (Outcome.ofRun args stdin false).stdout = (run config (.ofBytes stdin) none).output ∧
        ∃ lines,
          Delivers false stdin lines (if IsText stdin then none else some .invalidText) ∧
            Outcome.ofRun args stdin false =
              if IsText stdin then ⟨0, dialogue config lines ++ ">> \n", ""⟩
              else
                ⟨1, dialogue config lines ++ ">> ",
                  "Error: Error \x7b kind: InvalidData, message: " ++
                    "\"stream did not contain valid UTF-8\" \x7d\n"⟩ := by
  cases hfind : args.find? fun a => a ∉ Command.settings with
  | some a => exact Outcome.ofRun_of_find?_eq_some hfind
  | none =>
    dsimp -zeta only
    intro config
    have hrun : Outcome.ofRun args stdin false = Outcome.ofSession config (.ofBytes stdin) :=
      Outcome.ofRun_of_find?_eq_none hfind
    rw [hrun]
    refine ⟨Outcome.bytesOf_stdout_ofSession config _, ?_⟩
    obtain ⟨lines, fault, h⟩ := exists_delivers false stdin
    obtain rfl := h.fault_eq
    refine ⟨lines, h, ?_⟩
    have hprompt : promptText config = ">> " := rfl
    by_cases htext : IsText stdin
    · have hend : ">> " ++ "\n" = ">> \n" := by decide
      rw [if_pos htext] at h ⊢
      rw [Outcome.ofSession_of_delivers config h, hprompt, String.append_assoc, hend]
    · rw [if_neg htext] at h ⊢
      rw [Outcome.ofSession_of_delivers_fault config h, hprompt, Outcome.faultLine_invalidText]

/-- The second line is no text. -/
example : Outcome.ofRun ["--tokens", "--ast"] [0x61, 0x0a, 0xff, 0x0a] false =
    ⟨1, ">> a\n>> ",
      "Error: Error \x7b kind: InvalidData, message: " ++
        "\"stream did not contain valid UTF-8\" \x7d\n"⟩ := by
  decide +kernel

end ExprLang
