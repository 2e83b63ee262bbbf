import ExprLang.Proofs.Program.Rendering
import ExprLang.Proofs.Text.Visible

/-!
# Renderings and messages are visible

* Names of kinds, coherent trees and messages of diagnostics hold no control characters.

Principal results: `Diagnostic.visible_message` — a message is visible, whatever literal it quotes;
`Program.Coherent.visible_render` — so is the rendering of a coherent program. A tree that is built by
hand may render to anything.
-/

namespace ExprLang

open Text

theorem isControl_of_isLetter {c : Char} (h : isLetter c = true) : isControl c = false := by
  have := toNat_of_isLetter h
  rw [← Bool.not_eq_true, isControl_eq_true_iff]
  omega

theorem isControl_of_isDigit {c : Char} (h : c.isDigit = true) : isControl c = false := by
  have hd : 48 ≤ c.toNat ∧ c.toNat ≤ 57 := Char.isDigit_iff_toNat.mp h
  rw [← Bool.not_eq_true, isControl_eq_true_iff]
  omega

theorem TokenKind.visible_name (k : TokenKind) : Visible k.name := by
  cases k <;> decide

/-- **A message is visible, whatever literal it quotes.** -/
theorem Diagnostic.visible_message (d : Diagnostic) : Visible d.message := by
  cases d with
  | unexpectedToken expected got =>
    have hstart : Visible "expected next token to be " := by decide
    have hgot : Visible ", got " := by decide
    have hend : Visible " instead" := by decide
    exact (((hstart.append expected.visible_name).append hgot).append got.visible_name).append hend
  | noOperand kind =>
    have hstart : Visible "no prefix parse function for " := by decide
    have hend : Visible " found" := by decide
    exact (hstart.append kind.visible_name).append hend
  | invalidInteger literal =>
    have hstart : Visible "could not parse " := by decide
    have hend : Visible " as integer" := by decide
    exact (hstart.append (visible_quote literal)).append hend
  | nestingTooDeep => decide

theorem Ident.Coherent.visible_name {id : Ident} (h : id.Coherent) : Visible id.name := by
  rw [h.name]
  intro c hc
  exact isControl_of_isLetter (h.letters c hc)

theorem Expr.Coherent.visible_render {e : Expr} (h : e.Coherent) : Visible e.render := by
  have hopen : Visible "(" := by decide
  have hclose : Visible ")" := by decide
  have hspace : Visible " " := by decide
  induction h with
  | ident h => exact h.visible_name
  | int _ _ hd _ _ => exact fun c hc => isControl_of_isDigit (hd c hc)
  | trueWord => decide
  | falseWord => decide
  | @prefixed t _ ht _ ih =>
    have hop : Visible t.literal := by rcases ht with rfl | rfl <;> decide
    exact ((hopen.append hop).append ih).append hclose
  | @binary t _ _ _ ht _ _ ihl ihr =>
    have hop : Visible t.literal := ht ▸ t.kind.visible_name
    exact (((((hopen.append ihl).append hspace).append hop).append hspace).append ihr).append hclose

theorem Statement.Coherent.visible_render {s : Statement} (h : s.Coherent) : Visible s.render := by
  have hspace : Visible " " := by decide
  have hsemi : Visible ";" := by decide
  cases h with
  | binding hn hv =>
    have hlet : Visible "let" := by decide
    have hsign : Visible " = " := by decide
    exact ((((hlet.append hspace).append hn.visible_name).append hsign).append
      hv.visible_render).append hsemi
  | ret hv =>
    have hret : Visible "return" := by decide
    exact ((hret.append hspace).append hv.visible_render).append hsemi
  | expr hv => exact hv.visible_render

/-- **The rendering of a coherent program is visible.** -/
theorem Program.Coherent.visible_render {p : Program} (h : p.Coherent) : Visible p.render := by
  apply Visible.join
  intro s hs
  obtain ⟨u, hu, rfl⟩ := List.mem_map.mp hs
  exact (h u hu).visible_render

end ExprLang
