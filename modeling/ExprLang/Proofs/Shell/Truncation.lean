import ExprLang.Proofs.Shell.Loop

/-!
# A sink that is full

* `Transcript.Truncates` — a transcript is what a sink with a limit keeps of another one.

Principal results: `truncates_perform` — a limit truncates what any actions give, from any place on;
`run_truncated` — so it does with sessions, and with the loop of the shell.

The limit may be reached inside of a write. The part that still fits is kept, and nothing after it
is carried out: no write, no flush, and no read whose fault could hide that of the sink.
-/

namespace ExprLang.Shell

variable {n count : Nat} {ending : Option Fault}

/-- Flushes come behind what was written before. -/
theorem le_of_mem_flushes {k : Nat} {actions : List Action}
    (h : k ∈ (perform none ending count actions).flushes) : count ≤ k := by
  induction actions generalizing count with
  | nil => cases h
  | cons a actions ih =>
    cases a with
    | write text => exact Nat.le_trans (Nat.le_add_right _ _) (ih h)
    | flush =>
      rcases List.mem_cons.mp h with rfl | h
      · exact Nat.le_refl k
      · exact ih h
    | report event => exact ih h

/-- The transcript `r` is what a sink for `n` bytes keeps of the transcript `u`, if `count` bytes were
written before: the bytes that fit, the flushes among them, and the fault of the sink if some byte
does not fit. -/
structure Transcript.Truncates (n count : Nat) (u r : Transcript) : Prop where
  output : r.output = u.output.take (n - count)
  flushes : r.flushes = u.flushes.filter fun k => decide (k ≤ n)
  fault : r.fault = if n < count + u.output.length then some .sinkFull else u.fault

/-- A write beyond the limit is the last action. -/
theorem truncates_write_of_lt {text : String} (actions : List Action) (hc : count ≤ n)
    (h : n < count + (bytesOf text).length) :
    (perform none ending count (.write text :: actions)).Truncates n count
      (perform (some n) ending count (.write text :: actions)) := by
  have hfull : perform (some n) ending count (.write text :: actions) =
      ⟨(bytesOf text).take (n - count), [], [], some .sinkFull⟩ := by
    simp only [perform, if_pos h]
  rw [hfull]
  constructor
  · have hle : n - count ≤ (bytesOf text).length := by omega
    exact (List.take_append_of_le_length hle).symm
  · symm
    rw [List.filter_eq_nil_iff]
    intro k hk
    have hk : count + (bytesOf text).length ≤ k := le_of_mem_flushes hk
    simp only [decide_eq_true_eq]
    omega
  · have hlt : n < count + (perform none ending count (.write text :: actions)).output.length := by
      simp only [perform, List.length_append]
      omega
    rw [if_pos hlt]

/-- A write within the limit is carried out as if there were none. -/
theorem truncates_write_of_le {text : String} {actions : List Action}
    (h : count + (bytesOf text).length ≤ n)
    (ih : (perform none ending (count + (bytesOf text).length) actions).Truncates n
      (count + (bytesOf text).length)
      (perform (some n) ending (count + (bytesOf text).length) actions)) :
    (perform none ending count (.write text :: actions)).Truncates n count
      (perform (some n) ending count (.write text :: actions)) := by
  obtain ⟨ho, hf, he⟩ := ih
  simp only [perform, if_neg (Nat.not_lt.mpr h)]
  constructor
  · have hle : (bytesOf text).length ≤ n - count := by omega
    rw [ho, List.take_append, List.take_of_length_le hle, Nat.sub_sub]
  · exact hf
  · rw [he, List.length_append, Nat.add_assoc]

/-- **A limit truncates what any actions give,** from any place within it. -/
theorem truncates_perform (actions : List Action) (hc : count ≤ n) :
    (perform none ending count actions).Truncates n count
      (perform (some n) ending count actions) := by
  -- As long as actions are carried out, what was written is within the limit: a write that would
  -- break this is the last one.
  induction actions generalizing count with
  | nil =>
    refine ⟨List.take_nil.symm, rfl, ?_⟩
    simp [perform, Nat.not_lt.mpr hc]
  | cons a actions ih =>
    cases a with
    | write text =>
      rcases Nat.lt_or_ge n (count + (bytesOf text).length) with h | h
      · exact truncates_write_of_lt actions hc h
      · exact truncates_write_of_le h (ih h)
    | flush =>
      obtain ⟨ho, hf, he⟩ := ih hc
      refine ⟨ho, ?_, he⟩
      simp [perform, hf, hc]
    | report event =>
      obtain ⟨ho, hf, he⟩ := ih hc
      exact ⟨ho, hf, he⟩

/-- **A full sink truncates a session and does not change it.** Take the transcripts on a sink for `n`
bytes and on an unlimited one; they are what the loop of the shell leaves. The first sink holds the
first `n` bytes of what the other one holds, or all of them if there are no more. It was flushed at
exactly those of the same places that lie within the limit. The run ends with the fault of the sink
if it does not hold all bytes, and otherwise as it ends on an unlimited sink. -/
theorem run_truncated (config : Config) (input : Input) (n : Nat) :
    let u := run config input none
    let r := run config input (some n)
    r.output = u.output.take (min n u.output.length) ∧
      r.flushes = u.flushes.filter (fun k => decide (k ≤ n)) ∧
      (r.fault = if n < u.output.length then some .sinkFull else u.fault) ∧
      ∀ fuel, input.lines.length < fuel →
        (Console.start input none).loop config fuel = some u ∧
          (Console.start input (some n)).loop config fuel = some r := by
  intro u r
  obtain ⟨ho, hf, he⟩ : u.Truncates n 0 r := truncates_perform _ (Nat.zero_le n)
  refine ⟨?_, hf, ?_, fun fuel h => ⟨loop_start config input none h, loop_start config input _ h⟩⟩
  · rw [ho, Nat.sub_zero, ← List.take_eq_take_min]
  · rw [he, Nat.zero_add]

end ExprLang.Shell
