import ExprLang.Program.Parser

/-!
# Reading in place

* `Machine` — a scanner, a window of two tokens, the diagnostics, the events that were reported, and
  two counters.
* `Step` — what moves a machine and may fail.
* `prefixRule?`, `infixRule?` — the rules for a token that starts or continues an expression.
* `operand`, `chain`, `expression` — an operand, its operators, and both within the levels of
  nesting.
* `statement`, `synchronize`, `turn` — a statement, the way out of a failed one, and both together.
* `Machine.parseProgram`, `Machine.parsePrograms` — turns up to the end of input, once or several
  times.

A machine asks its scanner for one token at a time. Its rules move on before they know what follows,
and a rule that fails stops where it is. The height of an expression is left in a register by
whatever was read last. Recursions and loops take fuel; a step is none if that runs out.
-/

namespace ExprLang

structure Machine where
  scanner : Scanner
  current : Token
  peek : Token
  diagnostics : List Diagnostic
  events : List Event
  depth : Nat
  height : Nat
  deriving DecidableEq, Repr

namespace Machine

/-- Moves the window on by one token. -/
def advance (m : Machine) : Machine :=
  { m with scanner := m.scanner.nextToken.2, current := m.peek, peek := m.scanner.nextToken.1 }

/-- A machine with the next two tokens of a scanner in its window. -/
def ofScanner (s : Scanner) : Machine :=
  (advance ∘ advance) ⟨s, Token.eof, Token.eof, [], [], 0, 0⟩

def ofText (text : String) : Machine := ofScanner (.ofText text)

def log (e : Event) (m : Machine) : Machine := { m with events := m.events ++ [e] }

/-- Records a diagnostic, and reports it. -/
def report (d : Diagnostic) (m : Machine) : Machine :=
  { m.log (.syntaxError d) with diagnostics := m.diagnostics ++ [d] }

def setHeight (height : Nat) (m : Machine) : Machine := { m with height }

def setDepth (depth : Nat) (m : Machine) : Machine := { m with depth }

end Machine

/-- What is made of a machine: none without enough fuel, otherwise a value, or none if a diagnostic
was recorded instead, and the machine after it. -/
def Step (α : Type) : Type := Machine → Option (Option α × Machine)

namespace Step

variable {α : Type}

/-- A step that fails is the last one. -/
def andThen {α β : Type} (x : Step α) (f : α → Step β) : Step β := fun m =>
  match x m with
  | none => none
  | some (none, m) => some (none, m)
  | some (some a, m) => f a m

instance : Monad Step where
  pure a := fun m => some (some a, m)
  bind := andThen

def exhausted : Step α := fun _ => none

def look (f : Machine → α) : Step α := fun m => some (some (f m), m)

def move (f : Machine → Machine) : Step Unit := fun m => some (some (), f m)

def fail (d : Diagnostic) : Step α := fun m => some (none, m.report d)

/-- Counts a level of nesting as long as the step takes, whether it fails or not. -/
def nested (x : Step α) : Step α := fun m =>
  (x (m.setDepth (m.depth + 1))).map fun (a, m) => (a, m.setDepth (m.depth - 1))

/-- Moves on if the next token is of this kind. -/
def expectPeek (kind : TokenKind) : Step Unit := do
  let peek ← look Machine.peek
  if peek.kind = kind then move Machine.advance else fail (.unexpectedToken kind peek.kind)

def checkHeight (height : Nat) : Step Nat :=
  if height > maxNesting then fail .nestingTooDeep else pure height

/-! ## Expressions -/

variable (inner : Precedence → Step Expr)

def ident : Step Expr := do
  let t ← look Machine.current
  return .ident ⟨t, t.literal⟩

def integer : Step Expr := do
  let t ← look Machine.current
  match Expr.integer? t.literal with
  | some value => return .int t value
  | none => fail (.invalidInteger t.literal)

def boolean : Step Expr := do
  let t ← look Machine.current
  return .bool t (t.kind == .trueWord)

def prefixOperation : Step Expr := do
  let op ← look Machine.current
  move Machine.advance
  let right ← inner .prefixed
  return .prefixed op op.literal right

def group : Step Expr := do
  move Machine.advance
  let e ← inner .lowest
  expectPeek .rParen
  return e

def binary (left : Expr) : Step Expr := do
  let op ← look Machine.current
  move Machine.advance
  let right ← inner op.kind.precedence
  return .binary op op.literal left right

/-- How an expression goes on that starts with a token of this kind. -/
def prefixRule? : TokenKind → Option (Step Expr)
  | .ident => some ident
  | .int => some integer
  | .trueWord | .falseWord => some boolean
  | .bang | .minus => some (prefixOperation inner)
  | .lParen => some (group inner)
  | _ => none

/-- How an expression goes on before a token of this kind. -/
def infixRule? : TokenKind → Option (Expr → Step Expr)
  | .plus | .minus | .asterisk | .slash | .eq | .notEq | .lt | .gt => some (binary inner)
  | _ => none

/-- The result of a rule, and its height next to a part of the given height. -/
def raised (height : Nat) (rule : Step Expr) : Step (Expr × Nat) := do
  move (Machine.setHeight 0)
  let e ← rule
  let height ← checkHeight (max height (← look Machine.height) + 1)
  return (e, height)

/-- What stands before a binary operator or on its right, and its height. -/
def operand : Step (Expr × Nat) := do
  let t ← look Machine.current
  match prefixRule? inner t.kind with
  | none => fail (.noOperand t.kind)
  | some rule => raised 0 rule

/-- Operators as long as they bind more tightly than a bound. A chain makes the tree higher without
any nesting, so its height is kept apart from the register. -/
def chain (bound : Precedence) : Nat → Expr → Nat → Step Expr
  | 0, _, _ => exhausted
  | fuel + 1, left, height => do
    let peek ← look Machine.peek
    if peek.kind ≠ .semicolon ∧ bound < peek.kind.precedence then
      match infixRule? inner peek.kind with
      | none => do
        move (Machine.setHeight height)
        return left
      | some rule => do
        move Machine.advance
        let (left, height) ← raised height (rule left)
        chain bound fuel left height
    else do
      move (Machine.setHeight height)
      return left

/-- An operand with its operators, at a level of nesting that is allowed. -/
def within (fuel : Nat) (bound : Precedence) : Step Expr := do
  let (left, height) ← operand inner
  chain inner bound fuel left height

/-- An expression whose operators outside of groups bind more tightly than a bound. -/
def expression : Nat → Precedence → Step Expr
  | 0, _ => exhausted
  | fuel + 1, bound => do
    if (← look Machine.depth) ≥ maxNesting then fail .nestingTooDeep
    else nested (within (expression fuel) fuel bound)

/-! ## Statements -/

def skipSemicolon : Step Unit := do
  if (← look Machine.peek).kind = .semicolon then move Machine.advance

/-- A whole expression and an optional semicolon. -/
def value (fuel : Nat) : Step Expr := do
  let e ← expression fuel .lowest
  skipSemicolon
  return e

def binding (fuel : Nat) : Step Statement := do
  let keyword ← look Machine.current
  expectPeek .ident
  let name ← look Machine.current
  expectPeek .assign
  move Machine.advance
  let e ← value fuel
  return .binding keyword ⟨name, name.literal⟩ e

def ret (fuel : Nat) : Step Statement := do
  let keyword ← look Machine.current
  move Machine.advance
  let e ← value fuel
  return .ret keyword e

def exprStatement (fuel : Nat) : Step Statement := do
  let first ← look Machine.current
  let e ← value fuel
  return .expr first e

def statement (fuel : Nat) : Step Statement := do
  let first ← look Machine.current
  move (Machine.log (.statementStarted first))
  match first.kind with
  | .letWord => binding fuel
  | .returnWord => ret fuel
  | _ => exprStatement fuel

/-- Moves on to a semicolon or to the end of input, and reports where it stops. -/
def synchronize : Nat → Step Unit
  | 0 => exhausted
  | fuel + 1 => do
    let t ← look Machine.current
    if t.kind ≠ .semicolon ∧ t.kind ≠ .eof then
      move Machine.advance
      synchronize fuel
    else move (Machine.log (.resynchronized t))

end Step

namespace Machine

/-- One round: a statement, or none and the way out of it, and one token more. -/
def turn (fuel : Nat) (m : Machine) : Option (Option Statement × Machine) :=
  match Step.statement fuel m with
  | none => none
  | some (some s, m) => some (some s, m.advance)
  | some (none, m) => (Step.synchronize fuel m).map fun (_, m) => (none, m.advance)

/-- Rounds up to the end of input; each may use the fuel `size`. -/
def statements (size : Nat) : Nat → Machine → Option (List Statement × Machine)
  | 0, _ => none
  | fuel + 1, m =>
    if m.current.kind = .eof then some ([], m)
    else do
      let (s, m) ← m.turn size
      let (rest, m) ← m.statements size fuel
      return (s.toList ++ rest, m)

/-- All statements up to the end of input; the numbers of statements and diagnostics are reported. -/
def parseProgram (fuel : Nat) (m : Machine) : Option (Program × Machine) :=
  (m.statements fuel fuel).map fun (ss, m) =>
    (⟨ss⟩, m.log (.programRead ss.length m.diagnostics.length))

/-- Several programs, one after the other. -/
def parsePrograms (fuel : Nat) : Nat → Machine → Option (List Program × Machine)
  | 0, m => some ([], m)
  | n + 1, m => do
    let (p, m) ← m.parseProgram fuel
    let (ps, m) ← m.parsePrograms fuel n
    return (p :: ps, m)

end Machine

end ExprLang
