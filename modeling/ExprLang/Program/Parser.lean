import ExprLang.Program.Attempt
import ExprLang.Token.Scanner

/-!
# From text to programs

* `Parser` — the tokens that are still ahead and the diagnostics that were recorded.
* `Parser.parseProgram` — reads all that is ahead; a second call finds nothing more.
* `parse` — the program of a text, and its diagnostics.
-/

namespace ExprLang

structure Parser where
  tokens : List Token
  diagnostics : List Diagnostic
  deriving DecidableEq, Repr

/-- A program that was read, what was reported on the way, and the parser after it. -/
structure Parser.Result where
  program : Program
  events : List Event
  parser : Parser
  deriving DecidableEq, Repr

namespace Parser

/-- A parser of all tokens that a scanner has not scanned yet, also after its stream has ended. -/
def ofScanner (s : Scanner) : Parser := ⟨Token.scan s.rest, []⟩

def ofText (text : String) : Parser := ofScanner (.ofText text)

/-- Keeps the statements that could be read and records a diagnostic for each that could not. -/
def parseProgram (p : Parser) : Result :=
  let attempts := Attempt.all p.tokens
  let statements := attempts.filterMap Attempt.statement?
  let diagnostics := p.diagnostics ++ attempts.filterMap Attempt.diagnostic?
  { program := ⟨statements⟩
    events := attempts.flatMap Attempt.events ++
      [.programRead statements.length diagnostics.length]
    parser := ⟨[], diagnostics⟩ }

end Parser

/-- The program of a text, and the diagnostics in the order of their statements. -/
def parse (text : String) : Program × List Diagnostic :=
  let r := (Parser.ofText text).parseProgram
  (r.program, r.parser.diagnostics)

/-- Both come from the same attempts. -/
theorem parse_eq (text : String) :
    parse text = (⟨(Attempt.all (Token.ofText text)).filterMap Attempt.statement?⟩,
      (Attempt.all (Token.ofText text)).filterMap Attempt.diagnostic?) := rfl

end ExprLang
