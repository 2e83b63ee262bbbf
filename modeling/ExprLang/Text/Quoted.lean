import ExprLang.Text.DefaultIgnorable
import ExprLang.Text.ExtendingMark
import ExprLang.Text.Unprintable

/-!
# Quoted text

* `isHidden` — a character that cannot be read when it stands for itself.
* `escape` — how one character stands between the quotes.
* `encode` — the text between double quotes, every character escaped.
* `quote` — `encode` on strings.

A character that a reader could not see, or that would change the look of its neighbour, is
written by its code point, so that the written form shows all of the text.
-/

namespace ExprLang.Text

/-- A character that has no visible form, is left out, or changes the look of the one before it. -/
def isHidden (c : Char) : Bool := isUnprintable c || isDefaultIgnorable c || isExtendingMark c

/-- A character written by its code point, in lower-case hexadecimal digits. -/
def escapeCodePoint (c : Char) : List Char :=
  ['\\', 'u', '{'] ++ Nat.toDigits 16 c.toNat ++ ['}']

/-- A visible character stands for itself; the quote, the backslash and four controls have short
forms, and the rest are written by their code points. -/
def escape (c : Char) : List Char :=
  match c with
  | '\x00' => ['\\', '0']
  | '\t' => ['\\', 't']
  | '\r' => ['\\', 'r']
  | '\n' => ['\\', 'n']
  | '"' => ['\\', '"']
  | '\\' => ['\\', '\\']
  | c => if isHidden c then escapeCodePoint c else [c]

/-- The text in double quotes. -/
def encode (cs : List Char) : List Char :=
  '"' :: cs.flatMap escape ++ ['"']

/-- The string in double quotes. -/
def quote (text : String) : String :=
  String.ofList (encode text.toList)

end ExprLang.Text
