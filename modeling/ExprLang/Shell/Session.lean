import ExprLang.Shell.Answer
import ExprLang.Shell.Input

/-!
# Sessions

* `Action` — one thing that the shell does: write, flush or report.
* `greet`, `respond` — what it does before it reads a line and after it has read one.
* `farewell` — what it does when there are no more lines.
* `session` — all that it does for an input.
* `written` — the text that is written in all.
-/

namespace ExprLang.Shell

inductive Action where
  | write (text : String)
  | flush
  | report (event : Event)
  deriving DecidableEq, Repr

/-- The prompt, and a flush that makes it visible. -/
def greet (config : Config) : List Action :=
  [.write (paint config.color Palette.prompt config.prompt), .flush]

/-- The reports about a line come before its answer. -/
def respond (config : Config) (line : String) : List Action :=
  .report (.readLine line) :: (answerEvents config.mode line).map .report ++
    (outputLines config.mode config.color line).map .write

/-- At a clean end a newline follows the last prompt; after a fault nothing is written. -/
def farewell : Option Fault → List Action
  | none => [.write "\n"]
  | some _ => []

/-- A prompt before each line, an answer after it, and a prompt at the end. -/
def session (config : Config) (input : Input) : List Action :=
  (input.lines.flatMap fun line => greet config ++ respond config line) ++ greet config ++
    farewell input.fault

/-- The text that an action writes. -/
def Action.text : Action → String
  | .write text => text
  | .flush => ""
  | .report _ => ""

/-- The text of all writes. -/
def written (actions : List Action) : String := String.join (actions.map Action.text)

theorem written_nil : written [] = "" := rfl

theorem written_cons (a : Action) (actions : List Action) :
    written (a :: actions) = a.text ++ written actions := by
  simp [written]

theorem written_append (xs ys : List Action) : written (xs ++ ys) = written xs ++ written ys := by
  simp [written]

end ExprLang.Shell
