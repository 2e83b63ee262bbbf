import ExprLang.Proofs.Shell.Delivery
import ExprLang.Proofs.Shell.Loop
import Mathlib.Data.List.Infix

/-!
# What a session writes

* `promptText` — the prompt as it is written.
* `dialogue` — the text for some lines, a prompt before each answer.

Principal results: `output_perform`, `flushes_append` — a sink without a limit takes all that is
written, and notes where it is flushed; `flushes_session` — a session flushes right after each
prompt; `run_dialogue` — the transcript of a session on any source, which the loop leaves too.
-/

namespace ExprLang.Shell

/-! ## A sink without a limit -/

variable {ending : Option Fault}

/-- **A sink without a limit takes all that is written.** -/
theorem output_perform (count : Nat) (actions : List Action) :
    (perform none ending count actions).output = bytesOf (written actions) := by
  induction actions generalizing count with
  | nil => rfl
  | cons a actions ih =>
    rw [written_cons, bytesOf_append]
    cases a with
    | write text => simp [perform, Action.text, ih]
    | flush => simp [perform, Action.text, bytesOf_empty, ih]
    | report event => simp [perform, Action.text, bytesOf_empty, ih]

theorem fault_perform (count : Nat) (actions : List Action) :
    (perform none ending count actions).fault = ending := by
  induction actions generalizing count with
  | nil => rfl
  | cons a actions ih => cases a <;> simp [perform, ih]

/-- Later actions are flushed behind what the earlier ones have written. -/
theorem flushes_append (count : Nat) (xs ys : List Action) :
    (perform none ending count (xs ++ ys)).flushes =
      (perform none ending count xs).flushes ++
        (perform none ending (count + (bytesOf (written xs)).length) ys).flushes := by
  induction xs generalizing count with
  | nil => simp [perform, written_nil, bytesOf_empty]
  | cons a xs ih =>
    rw [written_cons, bytesOf_append, List.length_append]
    cases a with
    | write text => simp [perform, Action.text, ih, Nat.add_assoc]
    | flush => simp [perform, Action.text, bytesOf_empty, ih]
    | report event => simp [perform, Action.text, bytesOf_empty, ih]

/-- Without a flush among the actions there is none in the transcript. -/
theorem flushes_eq_nil {actions : List Action} (h : .flush ∉ actions) (count : Nat) :
    (perform none ending count actions).flushes = [] := by
  induction actions generalizing count with
  | nil => rfl
  | cons a actions ih =>
    obtain ⟨ha, hrest⟩ := not_or.mp (mt List.mem_cons.mpr h)
    cases a with
    | write text => exact ih hrest _
    | flush => exact absurd rfl ha
    | report event => exact ih hrest _

/-! ## Prompts and answers -/

/-- The prompt in its colour, if colour is on. -/
def promptText (config : Config) : String := paint config.color Palette.prompt config.prompt

/-- The prompts and the answers for these lines. -/
def dialogue (config : Config) (lines : List String) : String :=
  String.join (lines.map fun line => promptText config ++ answer config.mode config.color line)

/-- What is written after the last prompt. -/
def closing : Option Fault → String
  | none => "\n"
  | some _ => ""

variable (config : Config)

theorem written_greet : written (greet config) = promptText config := by
  simp [written, greet, promptText, Action.text]

theorem written_reports (events : List Event) : written (events.map .report) = "" := by
  induction events with
  | nil => rfl
  | cons event events ih => rw [List.map_cons, written_cons, ih]; rfl

theorem written_writes (texts : List String) : written (texts.map .write) = String.join texts := by
  induction texts with
  | nil => rfl
  | cons text texts ih => rw [List.map_cons, written_cons, ih, String.join_cons]; rfl

theorem written_respond (line : String) :
    written (respond config line) = answer config.mode config.color line := by
  rw [respond, written_append, written_cons, written_reports, written_writes, answer]
  simp [Action.text]

theorem written_farewell (fault : Option Fault) : written (farewell fault) = closing fault := by
  cases fault <;> simp [farewell, written, closing, Action.text]

theorem dialogue_cons (line : String) (lines : List String) :
    dialogue config (line :: lines) =
      promptText config ++ answer config.mode config.color line ++ dialogue config lines := by
  simp [dialogue]

/-- **A session writes a prompt before each answer, and a last one at the end.** -/
theorem written_session (input : Input) :
    written (session config input) =
      dialogue config input.lines ++ promptText config ++ closing input.fault := by
  obtain ⟨lines, fault⟩ := input
  rw [session, written_append, written_append, written_greet, written_farewell]
  congr 2
  induction lines with
  | nil => rfl
  | cons line lines ih =>
    rw [List.flatMap_cons, written_append, written_append, written_greet, written_respond, ih,
      dialogue_cons]

/-! ## Flushes -/

theorem flushes_greet (count : Nat) :
    (perform none ending count (greet config)).flushes =
      [count + (bytesOf (promptText config)).length] := rfl

theorem flushes_respond (count : Nat) (line : String) :
    (perform none ending count (respond config line)).flushes = [] :=
  flushes_eq_nil (by simp [respond]) count

theorem flushes_farewell (count : Nat) (fault : Option Fault) :
    (perform none ending count (farewell fault)).flushes = [] :=
  flushes_eq_nil (by cases fault <;> simp [farewell]) count

/-- **A session flushes right after each prompt and nowhere else.** -/
theorem flushes_session (count : Nat) (lines : List String) (fault : Option Fault) :
    (perform none ending count (session config ⟨lines, fault⟩)).flushes =
      lines.inits.map fun before =>
        count + (bytesOf (dialogue config before ++ promptText config)).length := by
  induction lines generalizing count with
  | nil =>
    rw [session, flushes_append, flushes_append, flushes_greet, flushes_farewell]
    simp [dialogue, perform, written_nil, bytesOf_empty]
  | cons line lines ih =>
    -- The first prompt is flushed by itself. All other places are those of the session that is left,
    -- moved by the prompt and the answer in front of it.
    have hsession : session config ⟨line :: lines, fault⟩ =
        greet config ++ (respond config line ++ session config ⟨lines, fault⟩) := by
      simp [session]
    rw [hsession, flushes_append, flushes_append, flushes_greet, flushes_respond, ih, written_greet,
      written_respond, List.inits_cons, List.map_cons, List.map_map, List.nil_append,
      List.singleton_append]
    congr 1
    refine List.map_congr_left fun before _ => ?_
    simp only [Function.comp_apply, dialogue_cons, bytesOf_append, List.length_append]
    omega

/-- **The transcript of a session on any source.** There is exactly one way to read the source as
lines and a fault. What is written is a prompt and an answer for each line and then the last prompt,
with a newline behind it only if there is no fault. An answer is found from its line, the mode and
the colour. The sink is flushed once behind each prompt. The run ends with the fault of the source,
if any. The loop of the shell leaves this transcript. -/
theorem run_dialogue (fails : Bool) (bytes : List UInt8) :
    ∃ (lines : List String) (fault : Option Fault),
      (∀ ls f, Delivers fails bytes ls f ↔ ls = lines ∧ f = fault) ∧
        let r := run config (.ofSource fails bytes) none
        let turns := lines.map fun line =>
          promptText config ++ answer config.mode config.color line
        r.output =
            bytesOf (String.join turns ++ promptText config ++ if fault = none then "\n" else "") ∧
          r.flushes = turns.inits.map (fun before =>
            (bytesOf (String.join before ++ promptText config)).length) ∧
          r.fault = fault ∧
          ∀ fuel, lines.length < fuel →
            (Console.start (.ofSource fails bytes) none).loop config fuel = some r := by
  obtain ⟨lines, fault, h⟩ := exists_delivers fails bytes
  have hinput := delivers_iff.mp h
  refine ⟨lines, fault, fun ls f => ?_, ?_, ?_, ?_, fun fuel hfuel => ?_⟩
  · rw [delivers_iff, hinput]
    simp [eq_comm]
  · rw [hinput, run, output_perform, written_session]
    cases fault <;> rfl
  · rw [hinput, run, flushes_session, List.map_inits, List.map_map]
    simp [dialogue]
  · rw [hinput, run, fault_perform]
  · exact loop_start config _ none (hinput ▸ hfuel)

end ExprLang.Shell
