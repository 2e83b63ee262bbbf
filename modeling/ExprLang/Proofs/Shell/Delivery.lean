import ExprLang.Shell.Input

/-!
# What a source delivers

* `Input.ofSource` — the input from a source that holds some bytes and then ends, or fails.
* `Delivers` — the lines that such a source delivers one after the other, and the fault that stops
  it.

Principal results: `ofSource_line`, `ofSource_tail` — one read from a source; `delivers_iff` — the
input from a source is what it delivers, and nothing else is.

A source is read up to the next line feed. Bytes behind the last line feed are a line of their own if
the source ends there, and they are lost if it fails.
-/

namespace ExprLang.Shell

/-! ## Line feeds -/

theorem splitLines_of_not_mem {raw : List UInt8} (h : lineFeed ∉ raw) :
    splitLines raw = ([], raw) := by
  induction raw with
  | nil => rfl
  | cons b raw ih =>
    obtain ⟨hb, hraw⟩ := not_or.mp (mt List.mem_cons.mpr h)
    simp [splitLines, ih hraw, Ne.symm hb]

/-- The first line goes up to the first line feed. -/
theorem splitLines_append {raw : List UInt8} (h : lineFeed ∉ raw) (rest : List UInt8) :
    splitLines (raw ++ lineFeed :: rest) = (raw :: (splitLines rest).1, (splitLines rest).2) := by
  induction raw with
  | nil => simp [splitLines]
  | cons b raw ih =>
    obtain ⟨hb, hraw⟩ := not_or.mp (mt List.mem_cons.mpr h)
    simp [splitLines, ih hraw, Ne.symm hb]

/-! ## Reads -/

/-- The input from a source that holds these bytes and then ends, or fails. -/
def Input.ofSource (fails : Bool) (bytes : List UInt8) : Input :=
  if fails then .ofFailingBytes bytes else .ofBytes bytes

variable {fails : Bool} {raw rest bytes : List UInt8}

/-- A terminated line comes first, whatever the source does after it. -/
theorem Input.ofSource_line (h : lineFeed ∉ raw) (rest : List UInt8) :
    Input.ofSource fails (raw ++ lineFeed :: rest) =
      match decode (dropReturn raw) with
      | none => ⟨[], some .invalidText⟩
      | some text => ⟨text :: (ofSource fails rest).lines, (ofSource fails rest).fault⟩ := by
  cases fails <;> cases ht : decode (dropReturn raw) <;>
    simp [ofSource, ofBytes, ofFailingBytes, splitLines_append h, ofLines, ht]

theorem Input.ofSource_tail_of_fails (h : lineFeed ∉ raw) :
    Input.ofSource true raw = ⟨[], some .sourceFailed⟩ := by
  simp [ofSource, ofFailingBytes, splitLines_of_not_mem h, ofLines]

theorem Input.ofSource_nil : Input.ofSource false [] = ⟨[], none⟩ := rfl

theorem Input.ofSource_tail (h : lineFeed ∉ raw) (hne : raw ≠ []) :
    Input.ofSource false raw =
      match decode raw with
      | none => ⟨[], some .invalidText⟩
      | some text => ⟨[text], none⟩ := by
  cases ht : decode raw <;>
    simp [ofSource, ofBytes, splitLines_of_not_mem h, hne, ofLines, ht]

/-! ## Delivery -/

/-- A source that holds these bytes and then ends, or fails, delivers the lines one after the other.
The fault is that of the first read that fails. -/
inductive Delivers (fails : Bool) : List UInt8 → List String → Option Fault → Prop
  | line {raw rest : List UInt8} {text : String} {lines : List String} {fault : Option Fault}
      (hraw : lineFeed ∉ raw) (ht : decode (dropReturn raw) = some text)
      (h : Delivers fails rest lines fault) :
      Delivers fails (raw ++ lineFeed :: rest) (text :: lines) fault
  | invalidLine {raw rest : List UInt8} (hraw : lineFeed ∉ raw)
      (ht : decode (dropReturn raw) = none) :
      Delivers fails (raw ++ lineFeed :: rest) [] (some .invalidText)
  | ended (hf : fails = false) : Delivers fails [] [] none
  | last {raw : List UInt8} {text : String} (hf : fails = false) (hraw : lineFeed ∉ raw)
      (hne : raw ≠ []) (ht : decode raw = some text) : Delivers fails raw [text] none
  | invalidLast {raw : List UInt8} (hf : fails = false) (hraw : lineFeed ∉ raw) (hne : raw ≠ [])
      (ht : decode raw = none) : Delivers fails raw [] (some .invalidText)
  | failed {raw : List UInt8} (hf : fails = true) (hraw : lineFeed ∉ raw) :
      Delivers fails raw [] (some .sourceFailed)

/-- **What is delivered is the input.** -/
theorem Delivers.eq_ofSource {lines : List String} {fault : Option Fault}
    (h : Delivers fails bytes lines fault) : Input.ofSource fails bytes = ⟨lines, fault⟩ := by
  induction h with
  | line hraw ht _ ih => rw [Input.ofSource_line hraw, ht, ih]
  | invalidLine hraw ht => rw [Input.ofSource_line hraw, ht]
  | ended hf => rw [hf, Input.ofSource_nil]
  | last hf hraw hne ht => rw [hf, Input.ofSource_tail hraw hne, ht]
  | invalidLast hf hraw hne ht => rw [hf, Input.ofSource_tail hraw hne, ht]
  | failed hf hraw => rw [hf, Input.ofSource_tail_of_fails hraw]

/-- **Every source delivers something.** -/
theorem exists_delivers (fails : Bool) (bytes : List UInt8) :
    ∃ lines fault, Delivers fails bytes lines fault := by
  -- A line takes its line feed with it, so the source gets shorter with every read.
  by_cases hmem : lineFeed ∈ bytes
  · obtain ⟨raw, rest, hbytes, hraw⟩ := List.eq_append_cons_of_mem hmem
    have hlt : rest.length < bytes.length := by
      rw [hbytes, List.length_append, List.length_cons]
      omega
    rw [hbytes]
    cases ht : decode (dropReturn raw) with
    | none => exact ⟨_, _, .invalidLine hraw ht⟩
    | some text =>
      obtain ⟨lines, fault, h⟩ := exists_delivers fails rest
      exact ⟨_, _, .line hraw ht h⟩
  · cases hf : fails with
    | true => exact ⟨_, _, .failed rfl hmem⟩
    | false =>
      by_cases hne : bytes = []
      · subst hne
        exact ⟨_, _, .ended rfl⟩
      · cases ht : decode bytes with
        | none => exact ⟨_, _, .invalidLast rfl hmem hne ht⟩
        | some text => exact ⟨_, _, .last rfl hmem hne ht⟩
termination_by bytes.length

/-- **The input from a source is what it delivers, and nothing else is.** -/
theorem delivers_iff {lines : List String} {fault : Option Fault} :
    Delivers fails bytes lines fault ↔ Input.ofSource fails bytes = ⟨lines, fault⟩ := by
  refine ⟨Delivers.eq_ofSource, fun h => ?_⟩
  obtain ⟨lines', fault', hd⟩ := exists_delivers fails bytes
  rw [hd.eq_ofSource] at h
  cases h
  exact hd

end ExprLang.Shell
