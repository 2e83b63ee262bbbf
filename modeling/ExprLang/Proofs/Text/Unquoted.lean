import ExprLang.Proofs.Text.Visible

/-!
# Reading quoted text back

* `ofHexDigits` — the number that some hexadecimal digits stand for.
* `unescape?` — the character that comes first between quotes, and what follows it.
* `PrefixFree` — each way of writing tells what it writes and where it ends.

Principal results: `unescape?_escape` — an escaped character is read back, whatever follows it;
`prefixFree_quote` — so a quoted text tells what it holds and where it ends; `PrefixFree.join` —
texts that do so can be told apart when they follow each other.

No escape is the beginning of another one: the character after a backslash tells its form, and a code
point ends at its closing brace. A plain character is neither a backslash nor a quote.
-/

namespace ExprLang.Text

/-! ## Code points -/

/-- The value of a hexadecimal digit. -/
def hexValue (c : Char) : Nat := if c.isDigit then c.toNat - 48 else c.toNat - 87

/-- The number that the digits stand for, the first one being the highest. -/
def ofHexDigits (cs : List Char) : Nat := cs.foldl (fun n c => 16 * n + hexValue c) 0

theorem hexValue_digitChar : ∀ d < 16, hexValue d.digitChar = d := by decide

theorem ofHexDigits_toDigits (n : Nat) : ofHexDigits (Nat.toDigits 16 n) = n := by
  induction n using Nat.strongRecOn with
  | ind n ih =>
    rw [Nat.toDigits_eq_if (by decide)]
    split
    · simpa [ofHexDigits] using hexValue_digitChar n (by assumption)
    · have hdiv : ofHexDigits (Nat.toDigits 16 (n / 16)) = n / 16 := ih (n / 16) (by omega)
      have hmod : hexValue (n % 16).digitChar = n % 16 := hexValue_digitChar _ (by omega)
      simp only [ofHexDigits, List.foldl_append, List.foldl_cons, List.foldl_nil] at hdiv ⊢
      rw [hdiv, hmod]
      omega

/-- A digit does not close a code point. -/
theorem ne_closing_of_mem_toDigits {n : Nat} {c : Char} (h : c ∈ Nat.toDigits 16 n) : c ≠ '}' := by
  obtain ⟨d, -, rfl⟩ := exists_digitChar_of_mem_toDigits (by decide) h
  exact Nat.digitChar_ne '}' (by decide)

/-! ## One character -/

/-- The first character between quotes, and what follows it; none at a closing quote. -/
def unescape? : List Char → Option (Char × List Char)
  | [] => none
  | '"' :: _ => none
  | '\\' :: '0' :: rest => some ('\x00', rest)
  | '\\' :: 't' :: rest => some ('\t', rest)
  | '\\' :: 'r' :: rest => some ('\r', rest)
  | '\\' :: 'n' :: rest => some ('\n', rest)
  | '\\' :: 'u' :: '{' :: rest =>
    some (Char.ofNat (ofHexDigits (rest.takeWhile (· ≠ '}'))), (rest.dropWhile (· ≠ '}')).tail)
  | '\\' :: c :: rest => some (c, rest)
  | c :: rest => some (c, rest)

theorem unescape?_escapeCodePoint (c : Char) (rest : List Char) :
    unescape? (escapeCodePoint c ++ rest) = some (c, rest) := by
  have hdigits : ∀ d ∈ Nat.toDigits 16 c.toNat, decide (d ≠ '}') = true :=
    fun d hd => decide_eq_true (ne_closing_of_mem_toDigits hd)
  simp only [escapeCodePoint, List.append_assoc, List.cons_append, List.nil_append, unescape?]
  rw [List.takeWhile_append_of_pos hdigits, List.dropWhile_append_of_pos hdigits]
  simp [ofHexDigits_toDigits, Char.ofNat_toNat]

/-- **An escaped character is read back,** whatever follows it. -/
theorem unescape?_escape (c : Char) (rest : List Char) :
    unescape? (escape c ++ rest) = some (c, rest) := by
  unfold escape
  split
  case h_7 =>
    split
    · exact unescape?_escapeCodePoint c rest
    · unfold unescape?
      split <;> simp_all
  all_goals rfl

/-! ## Quoted text -/

variable {cs ds r s : List Char}

/-- Escaped text in front of a quote tells its characters. -/
theorem flatMap_escape_append_inj
    (h : cs.flatMap escape ++ '"' :: r = ds.flatMap escape ++ '"' :: s) : cs = ds ∧ r = s := by
  -- Both sides are read one character after the other, until a quote closes one of them.
  induction cs generalizing ds with
  | nil =>
    cases ds with
    | nil => simpa using h
    | cons d ds =>
      have hread := congrArg unescape? h
      rw [List.flatMap_cons, List.append_assoc, unescape?_escape] at hread
      cases hread
  | cons c cs ih =>
    have hread := congrArg unescape? h
    rw [List.flatMap_cons, List.append_assoc, unescape?_escape] at hread
    cases ds with
    | nil => cases hread
    | cons d ds =>
      rw [List.flatMap_cons, List.append_assoc, unescape?_escape, Option.some.injEq,
        Prod.mk.injEq] at hread
      obtain ⟨rfl, hrest⟩ := hread
      obtain ⟨rfl, rfl⟩ := ih hrest
      exact ⟨rfl, rfl⟩

/-- What is written tells the value that it stands for, and where it ends, whatever follows it. -/
def PrefixFree {α : Type} (f : α → String) : Prop :=
  ∀ (a b : α) (r s : List Char), (f a).toList ++ r = (f b).toList ++ s → a = b ∧ r = s

/-- **A quoted text tells what it holds and where it ends.** -/
theorem prefixFree_quote : PrefixFree quote := by
  intro a b r s h
  simp only [quote, encode, String.toList_ofList, List.cons_append, List.append_assoc,
    List.nil_append, List.cons.injEq, true_and] at h
  obtain ⟨hab, hrs⟩ := flatMap_escape_append_inj h
  exact ⟨String.toList_inj.mp hab, hrs⟩

/-- **Values can be told apart when they are written one after the other.** -/
theorem PrefixFree.join {α : Type} {f : α → String} (hf : PrefixFree f) (hne : ∀ a, f a ≠ "")
    {as bs : List α} (h : String.join (as.map f) = String.join (bs.map f)) : as = bs := by
  induction as generalizing bs with
  | nil =>
    cases bs with
    | nil => rfl
    | cons b bs => simp [hne] at h
  | cons a as ih =>
    cases bs with
    | nil => simp [hne] at h
    | cons b bs =>
      have hchars := congrArg String.toList h
      rw [List.map_cons, List.map_cons, String.join_cons, String.join_cons, String.toList_append,
        String.toList_append] at hchars
      obtain ⟨rfl, hrest⟩ := hf a b _ _ hchars
      rw [ih (String.toList_inj.mp hrest)]

end ExprLang.Text
