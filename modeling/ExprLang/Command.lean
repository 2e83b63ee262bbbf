import ExprLang.Shell.Session

/-!
# The command line

* `Command` — what the arguments ask for.
* `Command.ofArgs` — reads them from left to right; the first one that is unknown, or that asks for
  help, decides.
* `Outcome` — what a run of the program leaves behind.
* `Config.forOutput` — the settings for an output that may be a terminal.
* `Outcome.ofRun` — the outcome for given arguments, standard input and kind of standard output.
-/

namespace ExprLang

open Shell

inductive Command where
  | run (config : Config)
  | help
  deriving DecidableEq, Repr

/-- An argument that is not understood. -/
structure UsageError where
  argument : String
  deriving DecidableEq, Repr

/-- The text that explains the arguments. -/
def usage : String :=
  "Usage: micron [--tokens | --ast] [--no-color]\n\n" ++
  "  --tokens    print the tokens of each line (default)\n" ++
  "  --ast       print the parsed program, or its syntax errors\n" ++
  "  --no-color  disable colored output\n" ++
  "  --help      show this message"

def UsageError.message (e : UsageError) : String :=
  "unrecognized argument '" ++ e.argument ++ "'\n\n" ++ usage

namespace Command

/-- Changes the settings argument by argument; of two modes the last one counts. -/
def ofArgsFrom (config : Config) : List String → Except UsageError Command
  | [] => .ok (.run config)
  | arg :: args =>
    if arg = "--tokens" then ofArgsFrom { config with mode := .tokens } args
    else if arg = "--ast" then ofArgsFrom { config with mode := .program } args
    else if arg = "--no-color" then ofArgsFrom { config with color := false } args
    else if arg = "-h" ∨ arg = "--help" then .ok .help
    else .error ⟨arg⟩

/-- What the arguments ask for, from the default settings. -/
def ofArgs (args : List String) : Except UsageError Command := ofArgsFrom {} args

end Command

/-- Colour only where a person is looking at the output. -/
def Shell.Config.forOutput (config : Config) (terminal : Bool) : Config :=
  if terminal then config else { config with color := false }

/-- Exit status and the two outputs of a run. -/
structure Outcome where
  code : UInt32
  stdout : String
  stderr : String
  deriving DecidableEq, Repr

namespace Outcome

def ofHelp : Outcome := ⟨0, usage ++ "\n", ""⟩

def ofUsageError (e : UsageError) : Outcome := ⟨2, "", "Error: " ++ e.message ++ "\n"⟩

/-- The line on standard error for a fault. -/
def faultLine (fault : Fault) : String :=
  "Error: Error \x7b kind: " ++ fault.kind ++ ", message: " ++ Text.quote fault.message ++ " \x7d\n"

/-- A session that a fault ends is a failure. -/
def ofSession (config : Config) (input : Input) : Outcome :=
  let stdout := written (session config input)
  match input.fault with
  | none => ⟨0, stdout, ""⟩
  | some fault => ⟨1, stdout, faultLine fault⟩

/-- A run of the program. Standard output may be a terminal; it is none if nothing is said about it. -/
def ofRun (args : List String) (stdin : List UInt8) (terminal : Bool := false) : Outcome :=
  match Command.ofArgs args with
  | .ok .help => ofHelp
  | .error e => ofUsageError e
  | .ok (.run config) => ofSession (config.forOutput terminal) (.ofBytes stdin)

end Outcome

end ExprLang
