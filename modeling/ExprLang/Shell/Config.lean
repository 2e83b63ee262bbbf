/-!
# Settings of the shell

* `Mode` — what the shell answers with: the tokens of a line, or its program.
* `Config` — mode, colour and prompt.
-/

namespace ExprLang.Shell

inductive Mode where
  | tokens
  | program
  deriving DecidableEq, Repr

structure Config where
  mode : Mode := .tokens
  color : Bool := true
  prompt : String := ">> "
  deriving DecidableEq, Repr

end ExprLang.Shell
