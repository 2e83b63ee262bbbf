import ExprLang.Program.Parser
import ExprLang.Shell.Config
import ExprLang.Shell.Paint
import ExprLang.Text.Column

/-!
# Answers to lines

* `tokenLine` — a token on a line of its own, the kinds in a column.
* `programLines` — the program of a line, or the messages of its diagnostics.
* `outputLines`, `answer` — what the shell writes for a line, line by line and in one text.
* `answerEvents` — what is reported while the answer is found.

An answer depends on the line, the mode and the colour only; nothing is kept from line to line.
-/

namespace ExprLang.Shell

/-- The column of the token kinds. -/
def kindColumn : Text.Column := { width := 8 }

/-- The kind in its column, then the quoted literal. -/
def tokenLine (color : Bool) (t : Token) : String :=
  paint color Palette.kind (kindColumn.fit t.kind.name) ++ " " ++ Text.quote t.literal ++ "\n"

/-- The message of a diagnostic on a line of its own. -/
def messageLine (d : Diagnostic) : String := "\t" ++ d.message ++ "\n"

/-- The rendered program, or a heading and one message for each diagnostic. -/
def programLines (color : Bool) (program : Program) (diagnostics : List Diagnostic) : List String :=
  if diagnostics = [] then [paint color Palette.output program.render ++ "\n"]
  else (paint color Palette.error "parser errors:" ++ "\n") :: diagnostics.map messageLine

/-- The lines that are written for a line, each in a write of its own. -/
def outputLines (mode : Mode) (color : Bool) (line : String) : List String :=
  match mode with
  | .tokens => (Token.ofText line).map (tokenLine color)
  | .program =>
    let (program, diagnostics) := parse line
    programLines color program diagnostics

/-- What is written for a line. -/
def answer (mode : Mode) (color : Bool) (line : String) : String :=
  String.join (outputLines mode color line)

/-- Only reading a program reports something. -/
def answerEvents (mode : Mode) (line : String) : List Event :=
  match mode with
  | .tokens => []
  | .program => (Parser.ofText line).parseProgram.events

end ExprLang.Shell
