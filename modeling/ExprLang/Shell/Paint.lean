/-!
# Coloured text

* `Rgb` — a colour.
* `Rgb.paint` — text between the control sequences that set the foreground colour and reset it.
* `Palette` — the colours of the shell.
* `paint` — text in a colour, or plain if colour is off.
-/

namespace ExprLang.Shell

structure Rgb where
  red : UInt8
  green : UInt8
  blue : UInt8
  deriving DecidableEq, Repr

namespace Rgb

/-- Sets the foreground colour. -/
def start (c : Rgb) : String :=
  "\x1b[38;2;" ++ toString c.red.toNat ++ ";" ++ toString c.green.toNat ++ ";" ++
    toString c.blue.toNat ++ "m"

/-- Resets the foreground colour. -/
def stop : String := "\x1b[39m"

/-- The text in this colour; an empty text is wrapped as well. -/
def paint (c : Rgb) (text : String) : String := c.start ++ text ++ stop

end Rgb

namespace Palette

def prompt : Rgb := ⟨137, 180, 250⟩
def kind : Rgb := ⟨250, 179, 135⟩
def error : Rgb := ⟨243, 139, 168⟩
def output : Rgb := ⟨166, 227, 161⟩

end Palette

/-- The text in the given colour if colour is on. -/
def paint (color : Bool) (c : Rgb) (text : String) : String :=
  if color then c.paint text else text

end ExprLang.Shell
