import ExprLang.Shell.Session

/-!
# Transcripts

* `Transcript` — the bytes that were written, where they were flushed, what was reported, and the
  fault that ended the run.
* `perform` — carries out actions on a sink that may hold a limited number of bytes.
* `run` — the transcript of a session.

The first byte beyond the limit is refused and ends the run at once: no later action is carried out.
-/

namespace ExprLang.Shell

structure Transcript where
  output : List UInt8
  flushes : List Nat
  events : List Event
  fault : Option Fault
  deriving DecidableEq, Repr

/-- The bytes of a text. -/
def bytesOf (text : String) : List UInt8 := text.toUTF8.data.toList

theorem bytesOf_empty : bytesOf "" = [] := rfl

theorem bytesOf_append (s t : String) : bytesOf (s ++ t) = bytesOf s ++ bytesOf t := by
  simp [bytesOf, String.toByteArray_append]

/-- Carries out the actions when `count` bytes have been written already; `ending` is the fault
that follows the last action. -/
def perform (limit : Option Nat) (ending : Option Fault) : Nat → List Action → Transcript
  | _, [] => ⟨[], [], [], ending⟩
  | count, .flush :: rest =>
    let after := perform limit ending count rest
    { after with flushes := count :: after.flushes }
  | count, .report event :: rest =>
    let after := perform limit ending count rest
    { after with events := event :: after.events }
  | count, .write text :: rest =>
    let bytes := bytesOf text
    let total := count + bytes.length
    match limit with
    | some n =>
      if n < total then ⟨bytes.take (n - count), [], [], some .sinkFull⟩
      else
        let after := perform limit ending total rest
        { after with output := bytes ++ after.output }
    | none =>
      let after := perform limit ending total rest
      { after with output := bytes ++ after.output }

/-- A session on a sink with an optional limit. -/
def run (config : Config) (input : Input) (limit : Option Nat) : Transcript :=
  perform limit input.fault 0 (session config input)

end ExprLang.Shell
