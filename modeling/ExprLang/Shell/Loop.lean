import ExprLang.Shell.Transcript

/-!
# The loop of the shell

* `Port` — what the shell needs of its surroundings: writes, flushes, reports, and reads.
* `Port.prompt`, `Port.print`, `Port.round` — the prompt, the answer to a line, and one round of the
  loop.
* `Console` — a source with some lines left and a sink that may hold a limited number of bytes.
* `Console.loop` — rounds on a console up to the last one.

Each write, flush or read may fail, and then nothing comes after it. A line is read only after the
prompt is flushed, and a fault of the source is seen only then.
-/

namespace ExprLang.Shell

/-- The ways out of the shell; a failure is one of the monad. A read gives none at a clean end. -/
structure Port (m : Type → Type) where
  write : String → m Unit
  flush : m Unit
  report : Event → m Unit
  nextLine : m (Option String)

namespace Port

variable {m : Type → Type} [Monad m] (port : Port m) (config : Config)

def prompt : m Unit := do
  port.write (paint config.color Palette.prompt config.prompt)
  port.flush

/-- The tokens of a line, each in a write of its own. -/
def printTokens (line : String) : m Unit :=
  (Token.ofText line).forM fun t => port.write (tokenLine config.color t)

/-- The program of a line, or a heading and its diagnostics, each in a write of its own. -/
def printProgram (line : String) : m Unit := do
  let r := (Parser.ofText line).parseProgram
  r.events.forM port.report
  if r.parser.diagnostics = [] then
    port.write (paint config.color Palette.output r.program.render ++ "\n")
  else
    port.write (paint config.color Palette.error "parser errors:" ++ "\n")
    r.parser.diagnostics.forM fun d => port.write (messageLine d)

def print (line : String) : m Unit := do
  port.report (.readLine line)
  match config.mode with
  | .tokens => port.printTokens config line
  | .program => port.printProgram config line

/-- What comes after a read: the answer, or a newline at the end. Only after a line the loop goes on. -/
def proceed : Option String → m Bool
  | some line => do
    port.print config line
    return true
  | none => do
    port.write "\n"
    return false

/-- A prompt, a read, and what comes after it. -/
def round : m Bool := do
  port.prompt config
  port.proceed config (← port.nextLine)

end Port

/-- What a run of the shell has left to read, what it may write, and what it did so far. -/
structure Console where
  input : Input
  limit : Option Nat
  output : List UInt8
  flushes : List Nat
  events : List Event
  deriving DecidableEq, Repr

namespace Console

/-- A console before the first round. -/
def start (input : Input) (limit : Option Nat) : Console := ⟨input, limit, [], [], []⟩

/-- Writes the bytes of a text, or those that still fit, and then the sink is full. -/
def write (text : String) : EStateM Fault Console Unit := fun c =>
  let bytes := bytesOf text
  match c.limit with
  | some n =>
    if n < c.output.length + bytes.length then
      .error .sinkFull { c with output := c.output ++ bytes.take (n - c.output.length) }
    else .ok () { c with output := c.output ++ bytes }
  | none => .ok () { c with output := c.output ++ bytes }

def flush : EStateM Fault Console Unit := fun c =>
  .ok () { c with flushes := c.flushes ++ [c.output.length] }

def report (event : Event) : EStateM Fault Console Unit := fun c =>
  .ok () { c with events := c.events ++ [event] }

/-- Takes the first line off, if there is one. -/
def nextLine : EStateM Fault Console (Option String) := fun c =>
  match c.input.first with
  | .ok line => .ok line { c with input := c.input.tail }
  | .error fault => .error fault c

def port : Port (EStateM Fault Console) := ⟨write, flush, report, nextLine⟩

def transcript (fault : Option Fault) (c : Console) : Transcript :=
  ⟨c.output, c.flushes, c.events, fault⟩

/-- Rounds up to the last one, or up to a fault; none without enough fuel. -/
def loop (config : Config) : Nat → Console → Option Transcript
  | 0, _ => none
  | fuel + 1, c =>
    match port.round config c with
    | .ok true c => loop config fuel c
    | .ok false c => some (c.transcript none)
    | .error fault c => some (c.transcript (some fault))

end Console

end ExprLang.Shell
