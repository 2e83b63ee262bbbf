import ExprLang.Proofs.Program.RoundTrip

/-!
# When rendering is a fixed point

* `Program.Fixed` — a text is read without a diagnostic, and what is read renders to the text.
* `Program.Settled` — no word runs into a keyword, and runs of words or integers are leaves again.

Principal result: `fixedPoint_iff` — the rendering of what comes from a text is a fixed point exactly
if its statements are settled.

A fixed point need not be a round trip: `1; 2` is rendered as the one integer `12`, which is read and
rendered as itself. But a word in front of a keyword hides it, so that `a; let x = 1` is rendered
as `alet x = 1;`, which is no program.
-/

namespace ExprLang

namespace Program

open Attempt (Clean)

/-- The text is read without a diagnostic, and what is read renders to the text. -/
def Fixed (text : String) : Prop := ∃ ss, Clean (Token.ofText text) ss ∧ render ⟨ss⟩ = text

/-- The statements whose rendering is a fixed point. Words that follow each other are rendered as one
word, which must be a name or a truth value, and the integers of a run as one integer, which must
not be too large. -/
inductive Settled : List Statement → Prop
  | nil : Settled []
  | cons {s : Statement} {ss : List Statement} (hw : s.isWord = false) (hn : s.isNumber = false)
      (hh : s.value.height ≤ 128) (h : Settled ss) : Settled (s :: ss)
  | words {run ss : List Statement} (hne : run ≠ []) (hrun : ∀ s ∈ run, s.isWord = true)
      (hnext : ∀ s ∈ ss.head?, s.beginsWord = false)
      (hk : TokenKind.ofWord (render ⟨run⟩) ∈ TokenKind.leafWords)
      (h : Settled ss) : Settled (run ++ ss)
  | numbers {run ss : List Statement} (hne : run ≠ []) (hrun : ∀ s ∈ run, s.isNumber = true)
      (hnext : ∀ s ∈ ss.head?, s.isNumber = false)
      (hle : Nat.ofDigitChars 10 (render ⟨run⟩).toList 0 ≤ maxInteger)
      (h : Settled ss) : Settled (run ++ ss)

variable {s : Statement} {ss run : List Statement} {w : String}

/-! ## Statements that do not fuse with what follows -/

/-- In front of statements that do not fuse with it, a statement only has to be low enough. -/
theorem fixed_cons_iff (h : Coherent ⟨s :: ss⟩) (hf : ∀ next ∈ ss.head?, s.fuses next = false) :
    Fixed (render ⟨s :: ss⟩) ↔ s.value.height ≤ 128 ∧ Fixed (render ⟨ss⟩) := by
  have hend := h.endsBefore_render hf
  constructor
  · rintro ⟨out, hout, hr⟩
    obtain ⟨hs, us, rfl, hus⟩ := (Attempt.clean_render_cons h.head h.tail hend).mp hout
    refine ⟨hs, us, hus, ?_⟩
    rw [← String.toList_inj, toList_render_cons, toList_render_cons, s.render_reread] at hr
    exact String.toList_inj.mp (List.append_cancel_left hr)
  · rintro ⟨hs, us, hus, hr⟩
    refine ⟨s.reread :: us, ?_, ?_⟩
    · exact (Attempt.clean_render_cons h.head h.tail hend).mpr ⟨hs, us, rfl, hus⟩
    · rw [← String.toList_inj, toList_render_cons, toList_render_cons, s.render_reread, hr]

/-! ## Runs of words and of integers -/

/-- The text of words that follow each other is one run of letters. -/
theorem Coherent.letters_render (h : Coherent ⟨run⟩) (hrun : ∀ s ∈ run, s.isWord = true) :
    ∀ c ∈ (render ⟨run⟩).toList, isLetter c = true := by
  intro c hc
  obtain ⟨s, hs, hc⟩ := mem_render.mp hc
  exact (h s hs).letters_render (hrun s hs) c hc

/-- The text of integers that follow each other is one run of digits. -/
theorem Coherent.digits_render (h : Coherent ⟨run⟩) (hrun : ∀ s ∈ run, s.isNumber = true) :
    ∀ c ∈ (render ⟨run⟩).toList, c.isDigit = true := by
  intro c hc
  obtain ⟨s, hs, hc⟩ := mem_render.mp hc
  exact (h s hs).digits_render (hrun s hs) c hc

theorem Coherent.render_ne_empty (h : Coherent ⟨run⟩) (hne : run ≠ []) : render ⟨run⟩ ≠ "" := by
  obtain ⟨s, ss, rfl⟩ := List.exists_cons_of_ne_nil hne
  obtain ⟨c, cs, hc, -⟩ := h.head.render_cons
  intro he
  have := congrArg String.toList he
  simp [toList_render_cons, hc] at this

/-- A run that is rendered like one leaf can be replaced by it. -/
theorem fixed_append_iff {leaf : Statement} (hl : leaf.Coherent) (hh : leaf.value.height = 1)
    (hr : leaf.render = render ⟨run⟩) (h : Coherent ⟨ss⟩)
    (hf : ∀ next ∈ ss.head?, leaf.fuses next = false) :
    Fixed (render ⟨run ++ ss⟩) ↔ Fixed (render ⟨ss⟩) := by
  have htext : render ⟨run ++ ss⟩ = render ⟨leaf :: ss⟩ := by
    rw [render_append, ← hr, ← String.toList_inj, String.toList_append, toList_render_cons]
  have hcoh : Coherent ⟨leaf :: ss⟩ := List.forall_mem_cons.mpr ⟨hl, h⟩
  rw [htext, fixed_cons_iff hcoh hf, hh]
  simp

theorem exists_word (hne : w ≠ "") (hl : ∀ c ∈ w.toList, isLetter c = true)
    (hk : TokenKind.ofWord w ∈ TokenKind.leafWords) :
    ∃ leaf : Statement, leaf.Coherent ∧ leaf.isWord = true ∧ leaf.value.height = 1 ∧
      leaf.render = w := by
  rcases TokenKind.mem_leafWords_iff.mp hk with hk | hk | hk
  · have hid : Ident.Coherent ⟨⟨.ident, w⟩, w⟩ := ⟨rfl, hne, hl, hk, rfl⟩
    exact ⟨.expr Token.eof (.ident _), .expr (.ident hid), rfl, rfl, rfl⟩
  · refine ⟨.expr Token.eof (.bool _ true), .expr .trueWord, rfl, rfl, ?_⟩
    exact (TokenKind.eq_keyword hk nofun).symm
  · refine ⟨.expr Token.eof (.bool _ false), .expr .falseWord, rfl, rfl, ?_⟩
    exact (TokenKind.eq_keyword hk nofun).symm

theorem exists_number (hne : w ≠ "") (hd : ∀ c ∈ w.toList, c.isDigit = true)
    (hle : Nat.ofDigitChars 10 w.toList 0 ≤ maxInteger) :
    ∃ leaf : Statement, leaf.Coherent ∧ leaf.isNumber = true ∧ leaf.value.height = 1 ∧
      leaf.render = w := by
  have hint : Expr.Coherent (.int ⟨.int, w⟩ (Nat.ofDigitChars 10 w.toList 0)) :=
    .int rfl hne hd rfl hle
  exact ⟨.expr Token.eof _, .expr hint, rfl, rfl, rfl⟩

/-- **The rendering of settled statements is a fixed point.** -/
theorem Settled.fixed (h : Settled ss) (hc : Coherent ⟨ss⟩) : Fixed (render ⟨ss⟩) := by
  induction h with
  | nil => exact ⟨[], Attempt.clean_render_nil, rfl⟩
  | @cons s ss hw hn hh _ ih =>
    have hf : ∀ next ∈ ss.head?, s.fuses next = false := by
      intro next _
      exact Statement.fuses_eq_false hw hn next
    exact (fixed_cons_iff hc hf).mpr ⟨hh, ih hc.tail⟩
  | @words run ss hne hrun hnext hk _ ih =>
    obtain ⟨hcr, hcs⟩ := hc.append
    obtain ⟨leaf, hl, hw, hh, hr⟩ :=
      exists_word (hcr.render_ne_empty hne) (hcr.letters_render hrun) hk
    apply (fixed_append_iff hl hh hr hcs ?_).mpr (ih hcs)
    intro next hn
    rw [Statement.fuses_of_isWord hw, hnext next hn]
  | @numbers run ss hne hrun hnext hle _ ih =>
    obtain ⟨hcr, hcs⟩ := hc.append
    obtain ⟨leaf, hl, hw, hh, hr⟩ :=
      exists_number (hcr.render_ne_empty hne) (hcr.digits_render hrun) hle
    apply (fixed_append_iff hl hh hr hcs ?_).mpr (ih hcs)
    intro next hn
    rw [Statement.fuses_of_isNumber hw, hnext next hn]

/-! ## Statements with a fixed point are settled -/

variable {t : Token} {cs : List Char}

/-- A word or an integer at the head of a fixed point is a keyword before a blank, or it is a leaf
and what comes after it is a rendering, too. -/
theorem Fixed.head (ht : Token.Lexeme t) (hk : t.kind.isWord = true ∨ t.kind = .int)
    (he : t.EndsBefore cs) (h : Fixed w) (hw : w.toList = t.literal.toList ++ cs) :
    (t.kind = .letWord ∨ t.kind = .returnWord) ∧ cs.head? = some ' ' ∨
      ∃ value us, Expr.Coherent value ∧ t ∈ value.leaf? ∧ Coherent ⟨us⟩ ∧
        (render ⟨us⟩).toList = cs := by
  obtain ⟨out, hc, rfl⟩ := h
  have hcoh := Attempt.Clean.coherent hc
  rw [Token.ofText, hw, Token.scan_lexeme ht he] at hc
  obtain ⟨n, u, us, body, left, rfl, -, hd, -⟩ := hc.exists_cons
  rw [toList_render_cons] at hw
  cases hd with
  | binding hkey _ _ _ =>
    left
    simp only [Statement.render, String.toList_append, List.append_assoc] at hw
    rw [← List.append_cancel_left hw]
    exact ⟨.inl hkey, rfl⟩
  | ret hkey _ =>
    left
    simp only [Statement.render, String.toList_append, List.append_assoc] at hw
    rw [← List.append_cancel_left hw]
    exact ⟨.inr hkey, rfl⟩
  | @expr _ value _ hd =>
    right
    have hv : value.Coherent := by
      cases hcoh.head with
      | expr hv => exact hv
    -- the value begins like its first token, so it is no operator in parentheses
    obtain ⟨c, vs, hvs, hl, hdig, -⟩ := hv.render_cons
    obtain ⟨c', ts, hts, hl', hdig'⟩ := ht.literal_cons hk
    rw [Statement.render, hvs, hts] at hw
    obtain rfl : c = c' := (List.cons_eq_cons.mp hw).1
    rw [← hvs, ← hts] at hw
    have hclass : value.isWord = true ∨ value.isNumber = true := by
      rw [← hl, hl', ← hdig, hdig']
      simpa using hk
    obtain ⟨u, hu⟩ := Expr.exists_leaf hclass
    have hparen : t.kind ≠ .lParen := by
      intro hp
      simp [hp, TokenKind.isWord] at hk
    obtain rfl := hd.eq_of_leaf hu hparen
    rw [(hv.isLeaf hu).render] at hw
    exact ⟨value, us, hv, hu, hcoh.tail, List.append_cancel_left hw⟩

/-- The token of a run of letters, whatever its kind. -/
theorem lexeme_ofWord (hne : w ≠ "") (hl : ∀ c ∈ w.toList, isLetter c = true) :
    Token.Lexeme ⟨.ofWord w, w⟩ := Token.lexeme_of_letters hne hl rfl

theorem joins_ofWord (w : String) (c : Char) :
    Token.joins ⟨.ofWord w, w⟩ c = isLetter c := by
  simp [Token.joins, TokenKind.isWord_ofWord]

theorem ofWord_of_fixed (hne : w ≠ "") (hl : ∀ c ∈ w.toList, isLetter c = true)
    (hs : Coherent ⟨ss⟩) (hnext : ∀ s ∈ ss.head?, s.beginsWord = false)
    (h : Fixed (w ++ render ⟨ss⟩)) : TokenKind.ofWord w ∈ TokenKind.leafWords := by
  have he : Token.EndsBefore ⟨.ofWord w, w⟩ (render ⟨ss⟩).toList := by
    intro c hc
    obtain ⟨s, hsm, hlc, -⟩ := hs.head_render hc
    rw [joins_ofWord, hlc, hnext s hsm]
  rcases h.head (lexeme_ofWord hne hl) (.inl (TokenKind.isWord_ofWord w)) he String.toList_append
    with ⟨-, hblank⟩ | ⟨value, us, hv, hleaf, -⟩
  · exact absurd (hs.opensRendering_head ' ' hblank) (by decide)
  · rcases hv.kind_of_leaf hleaf with hk | ⟨hk, -⟩
    · exact hk
    · have := TokenKind.isWord_ofWord w
      rw [show TokenKind.ofWord w = .int from hk] at this
      cases this

/-- Neither keyword of a statement ends in the other one, nor does it begin later. -/
theorem append_keyword_ne {k k' : TokenKind} (hne : w ≠ "") (hk : k ∈ [.letWord, .returnWord])
    (hk' : k' ∈ [.letWord, .returnWord]) : w ++ k.keyword ≠ k'.keyword := by
  have same : ∀ k ∈ [TokenKind.letWord, .returnWord], ∀ k' ∈ [TokenKind.letWord, .returnWord],
      k.keyword.toList <:+ k'.keyword.toList → k = k' := by decide
  intro h
  obtain rfl := same k hk k' hk' ⟨w.toList, by rw [← String.toList_append, h]⟩
  have := congrArg String.toList h
  simp [hne] at this

/-- A word in front of a keyword hides it, and the blank after the keyword begins no rendering. -/
theorem not_fixed_of_keyword (hne : w ≠ "") (hl : ∀ c ∈ w.toList, isLetter c = true)
    (hs : Coherent ⟨s :: ss⟩) (hb : s.beginsWord = true) (hw : s.isWord = false) :
    ¬ Fixed (w ++ render ⟨s :: ss⟩) := by
  obtain ⟨k, hk, cs, hcs⟩ := hs.head.exists_keyword hb hw
  have hlex : Token.Lexeme ⟨.ofWord (w ++ k.keyword), w ++ k.keyword⟩ := by
    apply lexeme_ofWord (by simp [hne])
    intro c hc
    rw [String.toList_append] at hc
    exact (List.mem_append.mp hc).elim (hl c) (k.letters_keyword c)
  have htext : (w ++ render ⟨s :: ss⟩).toList =
      (w ++ k.keyword).toList ++ ' ' :: (cs ++ (render ⟨ss⟩).toList) := by
    simp [toList_render_cons, hcs]
  intro h
  rcases h.head hlex (.inl (TokenKind.isWord_ofWord _)) (Token.endsBefore_space _ _) htext
    with ⟨hkey, -⟩ | ⟨value, us, -, -, hus, hblank⟩
  · rcases hkey with hkey | hkey
    · exact append_keyword_ne hne hk (by simp) (TokenKind.eq_keyword hkey nofun)
    · exact append_keyword_ne hne hk (by simp) (TokenKind.eq_keyword hkey nofun)
  · exact absurd (hus.opensRendering_head ' ' (by simp [hblank])) (by decide)

theorem ofDigitChars_of_fixed (hne : w ≠ "") (hd : ∀ c ∈ w.toList, c.isDigit = true)
    (hs : Coherent ⟨ss⟩) (hnext : ∀ s ∈ ss.head?, s.isNumber = false)
    (h : Fixed (w ++ render ⟨ss⟩)) : Nat.ofDigitChars 10 w.toList 0 ≤ maxInteger := by
  have he : Token.EndsBefore ⟨.int, w⟩ (render ⟨ss⟩).toList := by
    intro c hc
    obtain ⟨s, hsm, -, hdc, -⟩ := hs.head_render hc
    exact hdc.trans (hnext s hsm)
  rcases h.head (Token.lexeme_of_digits hne hd rfl) (.inr rfl) he String.toList_append
    with ⟨hkey, -⟩ | ⟨value, us, hv, hleaf, -⟩
  · simp at hkey
  · rcases hv.kind_of_leaf hleaf with hk | ⟨-, hle⟩
    · exact absurd (TokenKind.isWord_of_mem_leafWords hk) nofun
    · exact hle

/-- The statements at the head with a property, and the others. -/
theorem exists_run (p : Statement → Bool) (ss : List Statement) :
    ∃ run rest, ss = run ++ rest ∧ (∀ s ∈ run, p s = true) ∧ (∀ s ∈ rest.head?, p s = false) ∧
      rest.length ≤ ss.length :=
  ⟨ss.takeWhile p, ss.dropWhile p, List.takeWhile_append_dropWhile.symm,
    fun _ hs => List.mem_takeWhile_imp hs, fun _ hs => Token.head?_dropWhile_eq_false hs,
    (List.dropWhile_sublist p).length_le⟩

/-- A run of words at the head of a fixed point is a leaf, and no keyword comes after it. -/
theorem Coherent.words_of_fixed (hc : Coherent ⟨run ++ ss⟩) (hne : run ≠ [])
    (hrun : ∀ s ∈ run, s.isWord = true) (hend : ∀ s ∈ ss.head?, s.isWord = false)
    (h : Fixed (render ⟨run ++ ss⟩)) :
    (∀ s ∈ ss.head?, s.beginsWord = false) ∧
      TokenKind.ofWord (render ⟨run⟩) ∈ TokenKind.leafWords ∧
      Fixed (render ⟨ss⟩) := by
  obtain ⟨hcr, hcs⟩ := hc.append
  have hw := hcr.render_ne_empty hne
  have hl := hcr.letters_render hrun
  have hnext : ∀ s ∈ ss.head?, s.beginsWord = false := by
    intro s hs
    obtain ⟨us, rfl⟩ := List.head?_eq_some_iff.mp hs
    rw [← Bool.not_eq_true]
    intro hb
    rw [render_append] at h
    exact not_fixed_of_keyword hw hl hcs hb (hend s hs) h
  have hk := ofWord_of_fixed hw hl hcs hnext (render_append run ss ▸ h)
  obtain ⟨leaf, hleaf, hword, hh, hr⟩ := exists_word hw hl hk
  refine ⟨hnext, hk, (fixed_append_iff hleaf hh hr hcs ?_).mp h⟩
  intro next hn
  rw [Statement.fuses_of_isWord hword, hnext next hn]

/-- A run of integers at the head of a fixed point is an integer that is not too large. -/
theorem Coherent.numbers_of_fixed (hc : Coherent ⟨run ++ ss⟩) (hne : run ≠ [])
    (hrun : ∀ s ∈ run, s.isNumber = true) (hnext : ∀ s ∈ ss.head?, s.isNumber = false)
    (h : Fixed (render ⟨run ++ ss⟩)) :
    Nat.ofDigitChars 10 (render ⟨run⟩).toList 0 ≤ maxInteger ∧ Fixed (render ⟨ss⟩) := by
  obtain ⟨hcr, hcs⟩ := hc.append
  have hw := hcr.render_ne_empty hne
  have hd := hcr.digits_render hrun
  have hle := ofDigitChars_of_fixed hw hd hcs hnext (render_append run ss ▸ h)
  obtain ⟨leaf, hleaf, hnumber, hh, hr⟩ := exists_number hw hd hle
  refine ⟨hle, (fixed_append_iff hleaf hh hr hcs ?_).mp h⟩
  intro next hn
  rw [Statement.fuses_of_isNumber hnumber, hnext next hn]

/-- **Statements whose rendering is a fixed point are settled.** -/
theorem settled_of_fixed : ∀ ss : List Statement, Coherent ⟨ss⟩ → Fixed (render ⟨ss⟩) → Settled ss
  | [], _, _ => .nil
  | s :: ss, hc, h => by
    by_cases hw : s.isWord = true
    · obtain ⟨run, rest, rfl, hrun, hend, hlen⟩ := exists_run Statement.isWord ss
      rw [← List.cons_append] at hc h ⊢
      have hwords : ∀ u ∈ s :: run, u.isWord = true := List.forall_mem_cons.mpr ⟨hw, hrun⟩
      obtain ⟨hnext, hk, hrest⟩ := hc.words_of_fixed (List.cons_ne_nil s run) hwords hend h
      exact .words (List.cons_ne_nil s run) hwords hnext hk (settled_of_fixed rest hc.append.2 hrest)
    · by_cases hn : s.isNumber = true
      · obtain ⟨run, rest, rfl, hrun, hnext, hlen⟩ := exists_run Statement.isNumber ss
        rw [← List.cons_append] at hc h ⊢
        have hnumbers : ∀ u ∈ s :: run, u.isNumber = true :=
          List.forall_mem_cons.mpr ⟨hn, hrun⟩
        obtain ⟨hle, hrest⟩ := hc.numbers_of_fixed (List.cons_ne_nil s run) hnumbers hnext h
        exact .numbers (List.cons_ne_nil s run) hnumbers hnext hle
          (settled_of_fixed rest hc.append.2 hrest)
      · rw [Bool.not_eq_true] at hw hn
        have hf : ∀ next ∈ ss.head?, s.fuses next = false := by
          intro next _
          exact Statement.fuses_eq_false hw hn next
        obtain ⟨hh, hrest⟩ := (fixed_cons_iff hc hf).mp h
        exact .cons hw hn hh (settled_of_fixed ss hc.tail hrest)
termination_by ss => ss.length

end Program

/-- **When rendering is a fixed point.** The rendering of what comes from a text is read without a
diagnostic and rendered as itself exactly if no word runs into a keyword, every run of words is a
name or a truth value, every run of integers is an integer that is not too large, and every other
statement has a height of at most 128. -/
theorem fixedPoint_iff (text : String) :
    (parse (parse text).1.render).2 = [] ∧
        (parse (parse text).1.render).1.render = (parse text).1.render ↔
      Program.Settled (parse text).1.statements := by
  have hc := coherent_parse text
  constructor
  · rintro ⟨hd, hr⟩
    exact Program.settled_of_fixed _ hc ⟨_, ⟨hd, rfl⟩, hr⟩
  · intro h
    obtain ⟨ss, ⟨hd, rfl⟩, hr⟩ := h.fixed hc
    exact ⟨hd, hr⟩

/-- A name in front of a binding hides its keyword. -/
theorem not_fixedPoint_name_binding :
    (parse "a; let x = 1").2 = [] ∧
      (parse (parse "a; let x = 1").1.render).2 = [.noOperand .assign] := by
  decide +kernel

end ExprLang
