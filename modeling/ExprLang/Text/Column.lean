/-!
# Columns of text

* `Align` — where the text stands in its column.
* `Column` — width, alignment, filler and an optional cut.
* `Column.fit` — cuts the text if asked to, then fills it up to the width.
-/

namespace ExprLang.Text

inductive Align where
  | left
  | center
  | right
  deriving DecidableEq, Repr

/-- A column; `cut` is the number of characters of the text that are kept at most. -/
structure Column where
  width : Nat
  align : Align := .left
  filler : Char := ' '
  cut : Option Nat := none
  deriving DecidableEq, Repr

/-- The part of the missing width that goes before the text; an odd centre leans to the left. -/
def Align.before (missing : Nat) : Align → Nat
  | .left => 0
  | .center => missing / 2
  | .right => missing

theorem Align.before_le (missing : Nat) (a : Align) : a.before missing ≤ missing := by
  cases a <;> simp only [before] <;> omega

/-- The characters that are kept, with fillers up to the width; a longer text sticks out. -/
def Column.fitChars (col : Column) (cs : List Char) : List Char :=
  let kept := match col.cut with
    | some n => cs.take n
    | none => cs
  let missing := col.width - kept.length
  let before := col.align.before missing
  List.replicate before col.filler ++ kept ++ List.replicate (missing - before) col.filler

/-- Without a cut, the result is as wide as the column or the text, whichever is wider. -/
theorem Column.length_fitChars (col : Column) (cs : List Char) (h : col.cut = none) :
    (col.fitChars cs).length = max col.width cs.length := by
  have hb := Align.before_le (col.width - cs.length) col.align
  simp only [fitChars, h, List.length_append, List.length_replicate]
  omega

/-- The text in its column. -/
def Column.fit (col : Column) (text : String) : String :=
  String.ofList (col.fitChars text.toList)

end ExprLang.Text
