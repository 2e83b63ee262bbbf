import ExprLang.Command
import ExprLang.Shell.Loop

/-!
# The program

Runs the loop of the shell on standard input and standard output. Each line is answered before the next
one is read, and colour is used only on a terminal.
-/

namespace ExprLang.Main

open Shell

/-- The bytes up to and including the next line feed, or up to the end of the input. -/
partial def readRawLine (stdin : IO.FS.Stream) (before : Array UInt8) : IO (Array UInt8) := do
  let bytes ← stdin.read 1
  match bytes.data.toList with
  | [] => return before
  | b :: _ => if b = lineFeed then return before.push b else readRawLine stdin (before.push b)

/-- The streams of the program; reports are not shown. -/
def port (stdin stdout : IO.FS.Stream) : Port (ExceptT Fault IO) where
  write text := stdout.putStr text
  flush := stdout.flush
  report _ := pure ()
  nextLine := do
    let bytes ← readRawLine stdin #[]
    ofExcept (Input.ofBytes bytes.toList).first

/-- Rounds up to the last one. -/
partial def loop (port : Port (ExceptT Fault IO)) (config : Config) : ExceptT Fault IO Unit := do
  if ← port.round config then loop port config

/-- Prints a finished outcome. -/
def finish (o : Outcome) : IO UInt32 := do
  IO.print o.stdout
  IO.eprint o.stderr
  return o.code

end ExprLang.Main

open ExprLang in
def main (args : List String) : IO UInt32 := do
  match Command.ofArgs args with
  | .ok .help => Main.finish .ofHelp
  | .error e => Main.finish (.ofUsageError e)
  | .ok (.run config) =>
    let stdout ← IO.getStdout
    let config := config.forOutput (← stdout.isTty)
    match ← (Main.loop (Main.port (← IO.getStdin) stdout) config).run with
    | .ok () => return 0
    | .error fault =>
      IO.eprint (Outcome.faultLine fault)
      return 1
