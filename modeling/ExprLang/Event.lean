import ExprLang.Diagnostic

/-!
# Events

* `Event` — what a run reports on its way.
* `Event.level`, `Event.message`, `Event.fields` — how an event is written to a log.
-/

namespace ExprLang

inductive Level where
  | trace
  | debug
  deriving DecidableEq, Repr

inductive Event where
  | readLine (line : String)
  | statementStarted (token : Token)
  | syntaxError (diagnostic : Diagnostic)
  | resynchronized (stop : Token)
  | programRead (statements diagnostics : Nat)
  deriving DecidableEq, Repr

namespace Event

/-- Results are reported at `debug`, single steps at `trace`. -/
def level : Event → Level
  | readLine _ => .trace
  | statementStarted _ => .trace
  | syntaxError _ => .debug
  | resynchronized _ => .trace
  | programRead _ _ => .debug

def message : Event → String
  | readLine _ => "read line"
  | statementStarted _ => "parse statement"
  | syntaxError _ => "syntax error"
  | resynchronized _ => "resynchronized"
  | programRead _ _ => "parsed program"

/-- The named values of an event, in the order in which they are written. -/
def fields : Event → List (String × String)
  | readLine line => [("line", line)]
  | statementStarted token => [("token", token.display)]
  | syntaxError diagnostic => [("error", diagnostic.message)]
  | resynchronized stop => [("at", stop.display)]
  | programRead statements diagnostics =>
    [("statements", toString statements), ("errors", toString diagnostics)]

end Event

end ExprLang
