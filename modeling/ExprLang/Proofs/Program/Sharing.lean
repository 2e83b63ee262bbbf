import ExprLang.Proofs.Program.Exhaustion

/-!
# One scanner for several readers

Principal result: `serve_shared` — however the calls of a scanner are mixed, tokens are handed out in
order, only an end token of the stream ends the stream, and a machine that takes over goes on where the
calls stopped.

A machine fills its window when it takes over, so it is two tokens ahead of the place where the calls
stopped; none of them is lost, for they are the first ones that it reads.
-/

namespace ExprLang

/-- **Several readers can share one scanner.** Take any calls of the two kinds, in any order. The tokens
that they hand out are the first ones of the text, with end tokens behind the last of them. The stream
is at its end exactly if one of the calls took an end token from the stream, and asking it then changes
nothing. What was not passed by the calls is a text, the scanner stands at its beginning, and its tokens
are those that were not handed out. A parser that takes over reads what the scanner would go on to hand
out, just as if that text were read by itself. So does a machine, with the two tokens that it takes
before it begins. -/
theorem serve_shared (text : String) (calls : List Call) :
    let (log, s) := (Scanner.ofText text).serve calls
    let handed := log.filterMap Prod.snd
    (∃ n, handed <+: Token.ofText text ++ List.replicate n Token.eof) ∧
      (s.next?.1 = none ↔ (.stream, some Token.eof) ∈ log) ∧
      (s.next?.1 = none → s.next?.2 = s) ∧
      ∃ scanned left : String,
        text = scanned ++ left ∧ s.position = scanned.utf8ByteSize ∧
          Token.ofText text = handed.filter (fun t => t.kind ≠ .eof) ++ Token.ofText left ∧
          s.Yields (Parser.ofScanner s).tokens ∧
          (Parser.ofScanner s).parseProgram = (Parser.ofText left).parseProgram ∧
          ∀ fuel, 2 * maxNesting + (Token.ofText left).length < fuel →
            ∃ shared fresh : Machine,
              (Machine.ofScanner s).parseProgram fuel = some ((parse left).1, shared) ∧
              (Machine.ofText left).parseProgram fuel = some ((parse left).1, fresh) ∧
              shared.diagnostics = (parse left).2 ∧ fresh.diagnostics = (parse left).2 ∧
              shared.events = fresh.events := by
  obtain ⟨hreached, hended⟩ := Scanner.shared_ofText text calls
  generalize (Scanner.ofText text).serve calls = r at hreached hended ⊢
  obtain ⟨log, s⟩ := r
  obtain ⟨scanned, htext, hpos⟩ := hreached.place
  have hleft : (String.ofList s.rest).toList = s.rest := String.toList_ofList
  have htokens : Token.ofText (String.ofList s.rest) = Token.scan s.rest := by
    rw [Token.ofText, hleft]
  have hparser : Parser.ofScanner s = Parser.ofText (String.ofList s.rest) := by
    rw [Parser.ofText, Parser.ofScanner, Parser.ofScanner, Scanner.ofText, hleft]
  refine ⟨hreached.prefix_padded, ?_, ?_, String.ofList scanned, String.ofList s.rest, ?_⟩
  · rw [s.next?_eq_none_iff, hended]
  · rw [s.next?_eq_none_iff]
    exact Scanner.next?_of_ended
  · refine ⟨?_, ?_, ?_, Scanner.yields_scan _ s rfl, congrArg _ hparser, fun fuel hfuel => ?_⟩
    · rw [← String.ofList_append, ← htext, String.ofList_toList]
    · rw [hpos, ← byteLength_toList, String.toList_ofList]
    · rw [Token.ofText, htokens]
      exact hreached.scan_eq
    · obtain ⟨shared, hs, hat, hevents⟩ := Machine.parseProgram_ofScanner s (htokens ▸ hfuel)
      obtain ⟨fresh, hf, hat', hevents'⟩ := Machine.parseProgram_ofScanner (.ofText _) hfuel
      rw [hparser] at hs hat hevents
      exact ⟨shared, fresh, hs, hf, hat.diagnostics, hat'.diagnostics, hevents.trans hevents'.symm⟩

/-- An end token that is not taken from the stream does not end the stream. -/
example : (Scanner.ofText " a").serve [.token, .token, .stream, .stream, .token] =
    ([(.token, some ⟨.ident, "a"⟩), (.token, some Token.eof), (.stream, some Token.eof),
      (.stream, none), (.token, some Token.eof)], ⟨2, [], true⟩) := by
  decide +kernel

end ExprLang
