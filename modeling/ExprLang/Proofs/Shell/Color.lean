import ExprLang.Shell.Paint

/-!
# Taking colour off

* `esc` — the character that control sequences begin with.
* `dropColors` — a text without the sequences that set a foreground colour or reset it.
* `Fades` — a text becomes another one when colours are taken off, whatever comes after it.

Principal results: `fades_self`, `fades_paint`, `Fades.append`, `Fades.join` — text without `esc` stays
as it is, and paint comes off it.

A sequence is told by its first characters, so what is painted may look like the rest of a sequence:
only `esc` is not allowed in it.
-/

namespace ExprLang.Shell

/-- The character that control sequences begin with. -/
def esc : Char := '\x1b'

/-- What comes after a decimal number and this stop, if both come first. -/
def afterNumber? (stop : Char) (cs : List Char) : Option (List Char) :=
  match cs.dropWhile Char.isDigit with
  | [] => none
  | c :: rest => if c = stop ∧ cs.takeWhile Char.isDigit ≠ [] then some rest else none

/-- What comes after a sequence that sets or resets the foreground colour, if one comes first. -/
def afterColor? : List Char → Option (List Char)
  | '\x1b' :: '[' :: '3' :: '9' :: 'm' :: rest => some rest
  | '\x1b' :: '[' :: '3' :: '8' :: ';' :: '2' :: ';' :: rest =>
    ((afterNumber? ';' rest).bind (afterNumber? ';')).bind (afterNumber? 'm')
  | _ => none

theorem length_afterNumber?_le {stop : Char} {cs rest : List Char}
    (h : afterNumber? stop cs = some rest) : rest.length ≤ cs.length := by
  have hle : (cs.dropWhile Char.isDigit).length ≤ cs.length :=
    (List.dropWhile_sublist Char.isDigit).length_le
  unfold afterNumber? at h
  split at h
  · cases h
  · rename_i hd
    split at h
    · cases h
      rw [hd, List.length_cons] at hle
      omega
    · cases h

theorem length_afterColor?_lt {cs rest : List Char} (h : afterColor? cs = some rest) :
    rest.length < cs.length := by
  unfold afterColor? at h
  split at h
  · cases h
    simp only [List.length_cons]
    omega
  · obtain ⟨b, hb, h⟩ := Option.bind_eq_some_iff.mp h
    obtain ⟨a, ha, hb⟩ := Option.bind_eq_some_iff.mp hb
    have h1 := length_afterNumber?_le ha
    have h2 := length_afterNumber?_le hb
    have h3 := length_afterNumber?_le h
    simp only [List.length_cons]
    omega
  · cases h

/-- The text without all sequences that set or reset the foreground colour. -/
def dropColors (cs : List Char) : List Char :=
  match _h : afterColor? cs with
  | some rest => dropColors rest
  | none =>
    match cs with
    | [] => []
    | c :: rest => c :: dropColors rest
termination_by cs.length
decreasing_by
  · exact length_afterColor?_lt _h
  · exact Nat.lt_succ_self _

theorem dropColors_of_some {cs rest : List Char} (h : afterColor? cs = some rest) :
    dropColors cs = dropColors rest := by
  rw [dropColors]
  split <;> simp_all

theorem afterColor?_cons {c : Char} (hc : c ≠ esc) (cs : List Char) :
    afterColor? (c :: cs) = none := by
  unfold afterColor?
  split <;> simp_all [esc]

theorem dropColors_cons {c : Char} (hc : c ≠ esc) (cs : List Char) :
    dropColors (c :: cs) = c :: dropColors cs := by
  have h := afterColor?_cons hc cs
  rw [dropColors]
  split <;> simp_all

theorem dropColors_nil : dropColors [] = [] := by
  rw [dropColors]
  split <;> simp_all [afterColor?]

/-! ## Sequences -/

theorem afterNumber?_toDigits (stop : Char) (hs : stop.isDigit = false) (n : Nat)
    (rest : List Char) : afterNumber? stop (Nat.toDigits 10 n ++ stop :: rest) = some rest := by
  have hd : ∀ c ∈ Nat.toDigits 10 n, c.isDigit = true :=
    fun _ hc => Nat.isDigit_of_mem_toDigits (by decide) (by decide) hc
  simp [afterNumber?, List.dropWhile_append_of_pos hd, List.takeWhile_append_of_pos hd, hs]

/-- The text `s` becomes the text `t` when colours are taken off, whatever comes after it. -/
def Fades (s t : String) : Prop :=
  ∀ rest, dropColors (s.toList ++ rest) = t.toList ++ dropColors rest

theorem Fades.dropColors_eq {s t : String} (h : Fades s t) : dropColors s.toList = t.toList := by
  have := h []
  rwa [List.append_nil, dropColors_nil, List.append_nil] at this

/-- **Text without `esc` stays as it is.** -/
theorem fades_self {s : String} (h : esc ∉ s.toList) : Fades s s := by
  intro rest
  -- Only `esc` begins a sequence, so each character is passed by itself.
  generalize s.toList = cs at h
  induction cs with
  | nil => rfl
  | cons c cs ih =>
    obtain ⟨hc, hcs⟩ := not_or.mp (mt List.mem_cons.mpr h)
    rw [List.cons_append, dropColors_cons (Ne.symm hc), ih hcs, List.cons_append]

theorem Fades.append {s s' t t' : String} (h : Fades s t) (h' : Fades s' t') :
    Fades (s ++ s') (t ++ t') := by
  intro rest
  rw [String.toList_append, String.toList_append, List.append_assoc, List.append_assoc, h, h']

theorem Fades.join {α : Type} {f g : α → String} (h : ∀ a, Fades (f a) (g a)) (as : List α) :
    Fades (String.join (as.map f)) (String.join (as.map g)) := by
  induction as with
  | nil => exact fades_self (by simp)
  | cons a as ih =>
    simp only [List.map_cons, String.join_cons]
    exact (h a).append ih

theorem fades_start (c : Rgb) : Fades c.start "" := by
  intro rest
  apply dropColors_of_some
  have hsep := afterNumber?_toDigits ';' rfl
  have hend := afterNumber?_toDigits 'm' rfl
  simp [Rgb.start, afterColor?, hsep, hend]

theorem fades_stop : Fades Rgb.stop "" := fun _ => dropColors_of_some rfl

/-- **Paint comes off text without `esc`.** -/
theorem fades_paint (c : Rgb) {s : String} (h : esc ∉ s.toList) : Fades (c.paint s) s := by
  have hp := ((fades_start c).append (fades_self h)).append fades_stop
  simpa [Rgb.paint] using hp

end ExprLang.Shell
