/-!
# Lines of input

* `Fault` — why a run of the shell may end early.
* `splitLines` — the terminated lines of a byte sequence, and what follows the last line end.
* `dropReturn` — a line without the carriage return before its line end.
* `decode` — the text of a line, if it is valid UTF-8.
* `Input` — the lines that are delivered, and the fault that ends them, if any.
* `Input.first`, `Input.tail` — the next of them, and what is left after it.

A line ends at a line feed. At the end of the input a last line counts without one, unless the
source fails there. The first line that is not valid UTF-8 ends the input.
-/

namespace ExprLang.Shell

inductive Fault where
  | invalidText
  | sourceFailed
  | sinkFull
  deriving DecidableEq, Repr

namespace Fault

/-- The word for the kind of fault. -/
def kind : Fault → String
  | invalidText => "InvalidData"
  | sourceFailed => "ConnectionReset"
  | sinkFull => "BrokenPipe"

def message : Fault → String
  | invalidText => "stream did not contain valid UTF-8"
  | sourceFailed => "source failed"
  | sinkFull => "sink full"

end Fault

def lineFeed : UInt8 := 10

def carriageReturn : UInt8 := 13

/-- The lines that end with a line feed, without it, and the bytes after the last of them. -/
def splitLines : List UInt8 → List (List UInt8) × List UInt8
  | [] => ([], [])
  | b :: rest =>
    let (lines, tail) := splitLines rest
    if b = lineFeed then ([] :: lines, tail)
    else
      match lines with
      | [] => ([], b :: tail)
      | line :: lines => ((b :: line) :: lines, tail)

/-- The line without one carriage return at its end. -/
def dropReturn (line : List UInt8) : List UInt8 :=
  if line.getLast? = some carriageReturn then line.dropLast else line

/-- The text that the bytes stand for. -/
def decode (bytes : List UInt8) : Option String := String.fromUTF8? ⟨bytes.toArray⟩

/-- What a run of the shell reads. -/
structure Input where
  lines : List String
  fault : Option Fault
  deriving DecidableEq, Repr

namespace Input

/-- What the next read gives: a line, none at a clean end, or the fault. -/
def first : Input → Except Fault (Option String)
  | ⟨line :: _, _⟩ => .ok (some line)
  | ⟨[], none⟩ => .ok none
  | ⟨[], some fault⟩ => .error fault

/-- What is left after a line. -/
def tail (input : Input) : Input := { input with lines := input.lines.tail }

/-- The lines before the first that is no text; `ending` is the fault at the end of them all. -/
def ofLines (ending : Option Fault) : List (List UInt8) → Input
  | [] => ⟨[], ending⟩
  | line :: lines =>
    match decode line with
    | none => ⟨[], some .invalidText⟩
    | some text =>
      let after := ofLines ending lines
      ⟨text :: after.lines, after.fault⟩

/-- The input that holds these bytes and then ends. -/
def ofBytes (bytes : List UInt8) : Input :=
  let (lines, tail) := splitLines bytes
  ofLines none (lines.map dropReturn ++ if tail = [] then [] else [tail])

/-- The input that holds these bytes and then fails; a line that is not terminated is lost. -/
def ofFailingBytes (bytes : List UInt8) : Input :=
  ofLines (some .sourceFailed) ((splitLines bytes).1.map dropReturn)

end Input

end ExprLang.Shell
