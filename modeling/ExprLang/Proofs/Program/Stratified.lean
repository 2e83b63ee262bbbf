import ExprLang.Proofs.Program.Register

/-!
# Reading builds the tree of the stratified grammar

* `Machine.Consumes` — a machine has moved over what is written and has the rest behind it.

Principal results: `exists_written_of_read`, `exact_read_of_not_lt` — what is read is the only
derivation of its tokens from the level of the precedence, and what is derived so is read, if it fits;
`consumes_of_expression`, `expression_of_stratum` — the same for a machine, at any depth;
`read_stratified` — both together.

Reading knows one loop for all binary operators and compares precedences, the grammar has a level for
each precedence. The room is what is left of the levels of nesting when the reader is called. A machine
that succeeds was seen passing the tokens; that it succeeds is carried over from the reader, which it
mirrors.
-/

namespace ExprLang

namespace Machine

/-- The machine has moved on to the last token of what is written, and behind it are the tokens `rest`.
The depth and the diagnostics are given. -/
structure Consumes (m : Machine) (w : Expr.Written) (rest : List Token) (d : Nat)
    (ds : List Diagnostic) (m' : Machine) : Prop where
  spans : m.Spans w.tokens m'
  ahead : m'.At (m'.current :: rest) d ds

/-- What was passed, if no end token is among it, was ahead. -/
theorem Spans.exists_rest {m m' : Machine} {us ts : List Token} {d : Nat} {ds : List Diagnostic}
    (h : m.Spans us m') (hat : m.At ts d ds) (hus : ∀ u ∈ us, u.kind ≠ .eof) :
    ∃ rest, ts = us ++ rest ∧ m'.At (m'.current :: rest) d ds := by
  induction h generalizing ts with
  | @last m height =>
    obtain ⟨t, rest, rfl⟩ := hat.exists_cons (hus _ List.mem_cons_self)
    have hcurrent : m.current = t := hat.current
    subst hcurrent
    exact ⟨rest, rfl, hat.setHeight height⟩
  | @cons m _ us _ ih =>
    obtain ⟨hfirst, hmore⟩ := List.forall_mem_cons.mp hus
    obtain ⟨t, rest, rfl⟩ := hat.exists_cons hfirst
    have hcurrent : m.current = t := hat.current
    subst hcurrent
    obtain ⟨rest', hrest, hat'⟩ := ih hat.advance hmore
    exact ⟨rest', congrArg (m.current :: ·) hrest, hat'⟩

end Machine

namespace Expr

variable {room d fuel : Nat} {bound : Precedence} {ts rest : List Token} {ds : List Diagnostic}
  {m m' : Machine} {e : Expr} {w : Written}

/-! ## Readers -/

/-- **A success consumed the tokens of the one derivation that they have.** -/
theorem exists_written_of_read {r : Reading} (hr : read room bound ts = .ok r) :
    ∃ w, Stratum bound.stratum w ∧ ts = w.tokens ++ r.rest ∧ r.expr = w.tree ∧
      (∀ w', Stratum bound.stratum w' → w'.tokens = w.tokens → w' = w) ∧
      ∀ t ∈ r.rest.head?, ¬ bound < t.kind.precedence := by
  have hsound := sound_read room bound ts
  rw [hr] at hsound
  obtain ⟨used, hts, hd, hstop, -⟩ := hsound
  obtain ⟨w, hw, rfl, htree, -, hunique⟩ := hd.exists_stratum
  refine ⟨w, hw, hts, htree.symm, hunique, fun t ht hlt => ?_⟩
  exact Nat.not_lt.mpr (hstop t ht) (Precedence.lt_iff.mp hlt)

/-- **What is derived is read whole if it fits.** -/
theorem exact_read_of_not_lt (room : Nat) (hw : Stratum bound.stratum w) (hi : w.InRange)
    (hstop : ∀ t ∈ rest.head?, ¬ bound < t.kind.precedence) :
    Exact (w.Fits room) (.ok ⟨w.tree, w.height, rest⟩) (read room bound (w.tokens ++ rest)) := by
  apply hw.exact_read room hi
  intro t ht
  exact Nat.le_of_not_lt fun hlt => hstop t ht (Precedence.lt_iff.mpr hlt)

/-! ## Machines -/

/-- **A machine that succeeds has consumed the tokens of the one derivation that they have.** -/
theorem consumes_of_expression (hat : m.At ts d ds) (hd : d + room = maxNesting)
    (hfuel : maxNesting + room < fuel) (h : Step.expression fuel bound m = some (some e, m')) :
    ∃ w rest, Stratum bound.stratum w ∧ ts = w.tokens ++ rest ∧ e = w.tree ∧
      (∀ w', Stratum bound.stratum w' → w'.tokens = w.tokens → w' = w) ∧
      m.Consumes w rest d ds m' ∧ ¬ bound < m'.peek.kind.precedence := by
  have hgives := Step.settles_expression hd hfuel bound m hat.depth
  rw [h] at hgives
  obtain ⟨⟨us, hspans, hderives, -⟩, hstop⟩ := hgives
  obtain ⟨rest, hts, hrest⟩ := hspans.exists_rest hat (hderives.kind_ne rfl rfl nofun)
  obtain ⟨w, hw, rfl, rfl, -, hunique⟩ := hderives.exists_stratum
  refine ⟨w, rest, hw, hts, rfl, hunique, ⟨hspans, hrest⟩, fun hlt => ?_⟩
  exact Nat.not_lt.mpr hstop (Precedence.lt_iff.mp hlt)

/-- **A machine consumes what is derived if it fits,** and records no diagnostic; otherwise it records
one, that this is nested too deeply. -/
theorem expression_of_stratum (hw : Stratum bound.stratum w) (hi : w.InRange)
    (hstop : ∀ t ∈ rest.head?, ¬ bound < t.kind.precedence) (hat : m.At (w.tokens ++ rest) d ds)
    (hd : d + room = maxNesting) (hfuel : maxNesting + room < fuel) :
    (w.Fits room → ∃ m', Step.expression fuel bound m = some (some w.tree, m') ∧
        m.Consumes w rest d ds m' ∧ m'.height = w.height) ∧
      (¬ w.Fits room → ∃ m', Step.expression fuel bound m = some (none, m') ∧
        m'.depth = d ∧ m'.diagnostics = ds ++ [.nestingTooDeep]) := by
  have hread := exact_read_of_not_lt room hw hi hstop
  have hagrees := Step.mirrors_expression hd hfuel bound m _ ds hat
  constructor
  · intro hfits
    rw [hread.eq hfits] at hagrees
    obtain ⟨e, m', hrun, rfl, hheight, last, -, hlast⟩ := hagrees
    obtain ⟨w', rest', -, hts, -, -, ⟨hspans, hat'⟩, -⟩ :=
      consumes_of_expression hat hd hfuel hrun
    have hrest : rest' = rest := (List.cons.inj (hat'.ahead.symm.trans hlast.ahead)).2
    subst hrest
    have htokens : w.tokens = w'.tokens := List.append_cancel_right hts
    rw [← htokens] at hspans
    exact ⟨m', hrun, ⟨hspans, hat'⟩, hheight⟩
  · intro hfits
    obtain ⟨left, hdeep⟩ := hread.tooDeep hfits
    rw [hdeep] at hagrees
    obtain ⟨m', hrun, hstuck⟩ := hagrees
    exact ⟨m', hrun, hstuck.depth, hstuck.diagnostics⟩

/-- **Reading builds the tree of the stratified grammar.** A success consumed the tokens of the one
derivation from the level of the precedence that they have, gives its tree, and stopped where no binary
operator of a higher precedence comes next. In front of such a place, what is derived from the level
and has no integer that is too large is read whole, if there is room for its depth and its height is
within the limit; otherwise it is refused as nested too deeply. All this holds for a machine with the
tokens ahead, at the depth that leaves the room: it is then at the last token of the derivation, and
only a refusal changes the diagnostics. -/
theorem read_stratified (room : Nat) (bound : Precedence) (ts : List Token) :
    (∀ r, read room bound ts = .ok r →
        ∃ w, Stratum bound.stratum w ∧ ts = w.tokens ++ r.rest ∧ r.expr = w.tree ∧
          (∀ w', Stratum bound.stratum w' → w'.tokens = w.tokens → w' = w) ∧
          ∀ t ∈ r.rest.head?, ¬ bound < t.kind.precedence) ∧
      (∀ w rest, Stratum bound.stratum w → w.InRange → ts = w.tokens ++ rest →
        (∀ t ∈ rest.head?, ¬ bound < t.kind.precedence) →
          Exact (w.Fits room) (.ok ⟨w.tree, w.height, rest⟩) (read room bound ts)) ∧
      ∀ (m : Machine) (d fuel : Nat) (ds : List Diagnostic),
        m.At ts d ds → d + room = maxNesting → maxNesting + room < fuel →
        (∀ e m', Step.expression fuel bound m = some (some e, m') →
          ∃ w rest, Stratum bound.stratum w ∧ ts = w.tokens ++ rest ∧ e = w.tree ∧
            (∀ w', Stratum bound.stratum w' → w'.tokens = w.tokens → w' = w) ∧
            m.Consumes w rest d ds m' ∧ ¬ bound < m'.peek.kind.precedence) ∧
        ∀ w rest, Stratum bound.stratum w → w.InRange → ts = w.tokens ++ rest →
          (∀ t ∈ rest.head?, ¬ bound < t.kind.precedence) →
            (w.Fits room → ∃ m', Step.expression fuel bound m = some (some w.tree, m') ∧
              m.Consumes w rest d ds m' ∧ m'.height = w.height) ∧
            (¬ w.Fits room → ∃ m', Step.expression fuel bound m = some (none, m') ∧
              m'.depth = d ∧ m'.diagnostics = ds ++ [.nestingTooDeep]) := by
  refine ⟨fun r hr => exists_written_of_read hr, ?_, ?_⟩
  · rintro w rest hw hi rfl hstop
    exact exact_read_of_not_lt room hw hi hstop
  · intro m d fuel ds hat hd hfuel
    refine ⟨fun e m' h => consumes_of_expression hat hd hfuel h, ?_⟩
    rintro w rest hw hi rfl hstop
    exact expression_of_stratum hw hi hstop hat hd hfuel

/-- A product with a group on the right of a minus sign, in front of a looser operator: four readers are
active at the integer, so four levels of nesting are enough and three are not. -/
theorem read_stratified_product :
    let w : Written := .binary (.leaf (.word ['a'])) (.symbol '-')
      (.binary (.leaf (.word ['b'])) (.symbol '*')
        (.group (.symbol '(') (.leaf (.digits ['0', '7'])) (.symbol ')')))
    let rest := [⟨.eq, "=="⟩, .word ['d']]
    let ts := Token.ofText "a - b * (07) == d"
    let m (depth : Nat) := (Machine.ofText "a - b * (07) == d").setDepth depth
    (Stratum (Precedence.stratum .equals) w ∧ w.InRange ∧ ts = w.tokens ++ rest ∧
        (∀ t ∈ rest.head?, ¬ Precedence.equals < t.kind.precedence) ∧
        ∀ depth, (m depth).At ts depth []) ∧
      read 4 .equals ts = .ok ⟨w.tree, w.height, rest⟩ ∧ TooDeep (read 3 .equals ts) ∧
      (∃ w', Stratum (Precedence.stratum .equals) w' ∧ ts = w'.tokens ++ rest ∧ w'.tree = w.tree) ∧
      (∃ m', Step.expression 600 .equals (m 252) = some (some w.tree, m') ∧
        (m 252).Consumes w rest 252 [] m') ∧
      ∃ m', Step.expression 600 .equals (m 253) = some (none, m') ∧
        m'.diagnostics = [.nestingTooDeep] := by
  intro w rest ts m
  have leaf {t : Token} {k : Nat} (ht : t.kind.isLeaf = true) (hk : k ≤ 5) : Stratum k (.leaf t) :=
    (Stratum.leaf ht).mono hk (Nat.le_refl 5)
  have hgroup : Stratum 5 (.group (.symbol '(') (.leaf (.digits ['0', '7'])) (.symbol ')')) :=
    .group rfl rfl (leaf rfl (by decide))
  have hw : Stratum (Precedence.stratum .equals) w :=
    .tighter (by decide) (.binary rfl (leaf (by decide) (by decide))
      (.binary rfl (leaf (by decide) (by decide)) (hgroup.mono (by decide) (by decide))))
  have hi : w.InRange := by decide
  have hts : ts = w.tokens ++ rest := by decide +kernel
  have hstop : ∀ t ∈ rest.head?, ¬ Precedence.equals < t.kind.precedence := by decide
  have hm (depth : Nat) : (m depth).At ts depth [] := (Machine.at_ofScanner _).setDepth depth
  obtain ⟨hsound, hexact, hmachine⟩ := read_stratified 4 .equals ts
  obtain ⟨-, hexact', hmachine'⟩ := read_stratified 3 .equals ts
  have hread := (hexact w rest hw hi hts hstop).eq (by decide)
  obtain ⟨w', hw', hts', htree, -⟩ := hsound _ hread
  obtain ⟨m', hrun, hconsumes, -⟩ :=
    ((hmachine (m 252) 252 600 [] (hm 252) rfl (by decide)).2 w rest hw hi hts hstop).1 (by decide)
  obtain ⟨stuck, hfail, -, hds⟩ :=
    ((hmachine' (m 253) 253 600 [] (hm 253) rfl (by decide)).2 w rest hw hi hts hstop).2 (by decide)
  exact ⟨⟨hw, hi, hts, hstop, hm⟩, hread, (hexact' w rest hw hi hts hstop).tooDeep (by decide),
    ⟨w', hw', hts', htree.symm⟩, ⟨m', hrun, hconsumes⟩, stuck, hfail, hds⟩

end Expr

end ExprLang
