import ExprLang.Proofs.Program.Grammar

/-!
# The beginnings of statements

* `Viable` — tokens that some statement of the grammar begins with.
* `Place` — where a statement stands after some tokens, as far as it matters for the next one: the
  groups that are open, and whether an operand or an operator comes next.
* `Place.step`, `Place.run` — the place after a token, and after several; none if no statement goes on
  with them.
* `Closing` — what may still come after an operand.

Principal result: `viable_iff` — some statement begins with the tokens exactly if there is a place after
them. A place forgets precedence and the tree, which do not decide what may come next.
-/

namespace ExprLang

open ExprLang.Expr (IsExpr)

/-- Some statement of the grammar begins with the tokens. -/
def Viable (ts : List Token) : Prop := ∃ more, IsStatement (ts ++ more)

/-- A place inside a statement; `depth` is the number of groups that are open. -/
inductive Place where
  | start
  | name
  | sign
  | operand (depth : Nat)
  | operator (depth : Nat)
  | closed
  deriving DecidableEq, Repr

namespace Place

/-- The place after a token where an operand must begin. -/
def stepOperand (depth : Nat) (t : Token) : Option Place :=
  match t.kind with
  | .ident | .trueWord | .falseWord => some (operator depth)
  | .int =>
    if Nat.ofDigitChars 10 t.literal.toList 0 ≤ maxInteger then some (operator depth) else none
  | .bang | .minus => some (operand depth)
  | .lParen => some (operand (depth + 1))
  | _ => none

/-- The place after a token that comes after an operand. -/
def stepOperator (depth : Nat) (t : Token) : Option Place :=
  if t.kind ∈ TokenKind.binaryOperators then some (operand depth)
  else
    match t.kind, depth with
    | .rParen, depth + 1 => some (operator depth)
    | .semicolon, 0 => some closed
    | _, _ => none

/-- The place after a token, if a statement can go on with it. -/
def step : Place → Token → Option Place
  | start, t =>
    match t.kind with
    | .letWord => some name
    | .returnWord => some (operand 0)
    | _ => stepOperand 0 t
  | name, t => if t.kind = .ident then some sign else none
  | sign, t => if t.kind = .assign then some (operand 0) else none
  | operand depth, t => stepOperand depth t
  | operator depth, t => stepOperator depth t
  | closed, _ => none

/-- The place after several tokens. -/
def run : Place → List Token → Option Place
  | p, [] => some p
  | p, t :: ts => (p.step t).bind fun q => q.run ts

theorem run_append (p : Place) (ts us : List Token) :
    p.run (ts ++ us) = (p.run ts).bind fun q => q.run us := by
  induction ts generalizing p with
  | nil => rfl
  | cons t ts ih =>
    rw [List.cons_append, run, run]
    cases p.step t with
    | none => rfl
    | some q => exact ih q

theorem run_singleton (p : Place) (t : Token) : p.run [t] = p.step t := by
  rw [run]
  cases p.step t <;> rfl

section

variable {depth : Nat} {t : Token}

theorem step_operand_prefix (hk : t.kind = .bang ∨ t.kind = .minus) :
    (operand depth).step t = some (operand depth) := by
  rcases hk with hk | hk <;> simp [step, stepOperand, hk]

theorem step_operand_opening (hk : t.kind = .lParen) :
    (operand depth).step t = some (operand (depth + 1)) := by
  simp [step, stepOperand, hk]

theorem step_operator_binary (hk : t.kind ∈ TokenKind.binaryOperators) :
    (operator depth).step t = some (operand depth) := if_pos hk

theorem step_operator_closing (hk : t.kind = .rParen) :
    (operator (depth + 1)).step t = some (operator depth) := by
  have hb : TokenKind.rParen ∉ TokenKind.binaryOperators := by decide
  simp only [step, stepOperator, hk, if_neg hb]

theorem step_operator_semicolon (hk : t.kind = .semicolon) :
    (operator 0).step t = some closed := by
  have hb : TokenKind.semicolon ∉ TokenKind.binaryOperators := by decide
  simp only [step, stepOperator, hk, if_neg hb]

end

/-- An expression can begin a statement wherever no keyword does. -/
theorem step_start_of_operand {t : Token} {p : Place} (h : (operand 0).step t = some p) :
    start.step t = some p := by
  simp only [step, stepOperand] at h ⊢
  split <;> simp_all

/-- Where no keyword comes, a statement begins like an expression. -/
theorem step_start {t : Token} (hl : t.kind ≠ .letWord) (hr : t.kind ≠ .returnWord) :
    start.step t = (operand 0).step t := by
  simp only [step]

/-! ## Statements keep to places -/

/-- **An expression leads from where an operand must begin to where an operator may come.** -/
theorem run_expr {ts : List Token} (h : IsExpr ts) (depth : Nat) :
    (operand depth).run ts = some (operator depth) := by
  induction h generalizing depth with
  | ident hk => simp [run_singleton, step, stepOperand, hk]
  | bool hk => rcases hk with hk | hk <;> simp [run_singleton, step, stepOperand, hk]
  | int hk hv => simp [run_singleton, step, stepOperand, hk, hv]
  | prefixed hk _ ih =>
    rw [run, step_operand_prefix hk]
    exact ih depth
  | binary hk _ _ ihl ihr =>
    rw [run_append, ihl, Option.bind_some, run, step_operator_binary hk]
    exact ihr depth
  | group ho hc _ ih =>
    rw [run, step_operand_opening ho, Option.bind_some, run_append, ih, Option.bind_some,
      run_singleton, step_operator_closing hc]

theorem run_start_of_operand {ts : List Token} {p : Place} (hne : ts ≠ [])
    (h : (operand 0).run ts = some p) : start.run ts = some p := by
  obtain ⟨t, ts, rfl⟩ := List.exists_cons_of_ne_nil hne
  rw [run, Option.bind_eq_some_iff] at h
  obtain ⟨q, hq, h⟩ := h
  rw [run, step_start_of_operand hq]
  exact h

theorem run_head {head value : List Token} (hh : IsHead head) (hv : IsExpr value) :
    start.run (head ++ value) = some (operator 0) := by
  have hrun := run_expr hv 0
  cases hh with
  | binding hk hn hs => simpa [run, step, hk, hn, hs] using hrun
  | ret hk => simpa [run, step, hk] using hrun
  | none => exact run_start_of_operand hv.ne_nil hrun

theorem isSome_run_of_isStatement {ts : List Token} (h : IsStatement ts) :
    (start.run ts).isSome := by
  obtain ⟨head, value, last, rfl, hh, hv, hl⟩ := h
  rw [← List.append_assoc, run_append, run_head hh hv, Option.bind_some]
  rcases hl with rfl | ⟨semi, hs, rfl⟩
  · rfl
  · rw [run_singleton, step_operator_semicolon hs]
    rfl

end Place

/-! ## Every place can be completed -/

/-- What may come after an operand with some groups open, up to the end of the expression: operators
with their operands, and a closing parenthesis for each group. -/
inductive Closing : Nat → List Token → Prop
  | nil : Closing 0 []
  | binary {depth : Nat} {op : Token} {xs rest : List Token}
      (hk : op.kind ∈ TokenKind.binaryOperators) (hx : IsExpr xs) (h : Closing depth rest) :
      Closing depth (op :: (xs ++ rest))
  | close {depth : Nat} {t : Token} {rest : List Token} (hk : t.kind = .rParen)
      (h : Closing depth rest) : Closing (depth + 1) (t :: rest)

namespace Closing

variable {depth : Nat} {xs rest : List Token}

theorem isExpr (h : Closing depth rest) (hd : depth = 0) (hx : IsExpr xs) :
    IsExpr (xs ++ rest) := by
  induction h generalizing xs with
  | nil => rwa [List.append_nil]
  | @binary _ op ys rest hk hy _ ih =>
    have := ih hd (.binary hk hx hy)
    rwa [List.append_assoc] at this
  | close _ _ => cases hd

/-- The innermost group is closed after an expression that begins with the operand. -/
theorem exists_group (h : Closing depth rest) {outer : Nat} (hd : depth = outer + 1)
    (hx : IsExpr xs) :
    ∃ ys closing after, rest = ys ++ closing :: after ∧ closing.kind = .rParen ∧
      IsExpr (xs ++ ys) ∧ Closing outer after := by
  induction h generalizing xs with
  | nil => cases hd
  | @binary _ op zs rest hk hz _ ih =>
    obtain ⟨ys, closing, after, rfl, hc, he, hafter⟩ := ih hd (.binary hk hx hz)
    refine ⟨op :: (zs ++ ys), closing, after, by simp, hc, ?_, hafter⟩
    rwa [List.append_assoc] at he
  | @close _ t rest hk h _ =>
    cases hd
    exact ⟨[], t, rest, rfl, hk, by rwa [List.append_nil], h⟩

/-- Closing parentheses are enough. -/
theorem replicate (depth : Nat) : Closing depth (List.replicate depth ⟨.rParen, ")"⟩) := by
  induction depth with
  | zero => exact .nil
  | succ depth ih => exact .close rfl ih

end Closing

/-- A statement without a semicolon. -/
def IsBody (ts : List Token) : Prop :=
  ∃ head value, ts = head ++ value ∧ IsHead head ∧ IsExpr value

theorem IsBody.isStatement {ts last : List Token} (h : IsBody ts) (hl : IsEnd last) :
    IsStatement (ts ++ last) := by
  obtain ⟨head, value, rfl, hh, hv⟩ := h
  exact ⟨head, value, last, List.append_assoc .., hh, hv, hl⟩

namespace Place

/-- What the tokens in front of a place can be completed with. -/
def Holds (ts : List Token) : Place → Prop
  | start => ts = []
  | name => ∃ keyword : Token, keyword.kind = .letWord ∧ ts = [keyword]
  | sign => ∃ keyword id : Token, keyword.kind = .letWord ∧ id.kind = .ident ∧ ts = [keyword, id]
  | operand depth => ∀ xs rest, IsExpr xs → Closing depth rest → IsBody (ts ++ (xs ++ rest))
  | operator depth => ∀ rest, Closing depth rest → IsBody (ts ++ rest)
  | closed => IsStatement ts

variable {ts us : List Token} {t : Token} {p q : Place} {depth : Nat}

theorem holds_of_head (h : IsHead ts) : (operand 0).Holds ts := by
  intro xs rest hx hr
  exact ⟨ts, xs ++ rest, rfl, h, hr.isExpr rfl hx⟩

theorem holds_stepOperand (h : (operand depth).Holds ts) (hs : stepOperand depth t = some q) :
    q.Holds (ts ++ [t]) := by
  have leaf (ht : IsExpr [t]) : (operator depth).Holds (ts ++ [t]) := by
    intro rest hr
    simpa using h [t] rest ht hr
  have operation (ht : t.kind = .bang ∨ t.kind = .minus) : (operand depth).Holds (ts ++ [t]) := by
    intro xs rest hx hr
    simpa using h (t :: xs) rest (.prefixed ht hx) hr
  unfold stepOperand at hs
  split at hs <;> rename_i hk
  · cases hs; exact leaf (.ident hk)
  · cases hs; exact leaf (.bool (.inl hk))
  · cases hs; exact leaf (.bool (.inr hk))
  · split at hs <;> rename_i hv
    · cases hs; exact leaf (.int hk hv)
    · cases hs
  · cases hs; exact operation (.inl hk)
  · cases hs; exact operation (.inr hk)
  · cases hs
    intro xs rest hx hr
    obtain ⟨ys, closing, after, rfl, hc, he, hafter⟩ := hr.exists_group rfl hx
    simpa using h (t :: (xs ++ ys ++ [closing])) after (.group hk hc he) hafter
  · cases hs

theorem holds_stepOperator (h : (operator depth).Holds ts) (hs : stepOperator depth t = some q) :
    q.Holds (ts ++ [t]) := by
  unfold stepOperator at hs
  split at hs
  · rename_i hk
    cases hs
    intro xs rest hx hr
    simpa using h (t :: (xs ++ rest)) (.binary hk hx hr)
  · split at hs
    · rename_i hk
      cases hs
      intro rest hr
      simpa using h (t :: rest) (.close hk hr)
    · rename_i hk
      cases hs
      have hbody : IsBody ts := by simpa using h [] .nil
      exact hbody.isStatement (.inr ⟨t, hk, rfl⟩)
    · cases hs

/-- **One token keeps what holds.** -/
theorem holds_step (h : p.Holds ts) (hs : p.step t = some q) : q.Holds (ts ++ [t]) := by
  cases p with
  | start =>
    obtain rfl : ts = [] := h
    simp only [step] at hs
    split at hs <;> rename_i hk
    · cases hs; exact ⟨t, hk, rfl⟩
    · cases hs; exact holds_of_head (.ret hk)
    · exact holds_stepOperand (holds_of_head .none) hs
  | name =>
    obtain ⟨keyword, hk, rfl⟩ := h
    simp only [step] at hs
    split at hs <;> rename_i hn
    · cases hs; exact ⟨keyword, t, hk, hn, rfl⟩
    · cases hs
  | sign =>
    obtain ⟨keyword, id, hk, hn, rfl⟩ := h
    simp only [step] at hs
    split at hs <;> rename_i ha
    · cases hs; exact holds_of_head (.binding hk hn ha)
    · cases hs
  | operand depth => exact holds_stepOperand h hs
  | operator depth => exact holds_stepOperator h hs
  | closed => cases hs

theorem holds_run (h : p.Holds ts) (hr : p.run us = some q) : q.Holds (ts ++ us) := by
  induction us generalizing p ts with
  | nil =>
    cases hr
    rwa [List.append_nil]
  | cons u us ih =>
    rw [run, Option.bind_eq_some_iff] at hr
    obtain ⟨mid, hmid, hr⟩ := hr
    simpa using ih (holds_step h hmid) hr

/-- Every place can be completed to a statement. -/
theorem Holds.viable (h : p.Holds ts) : Viable ts := by
  have hname : IsExpr [⟨.ident, "x"⟩] := .ident rfl
  have hbinding {keyword id : Token} (hk : keyword.kind = .letWord) (hn : id.kind = .ident) :
      IsStatement ([keyword, id] ++ [⟨.assign, "="⟩, ⟨.ident, "x"⟩]) := by
    have hh : IsHead [keyword, id, ⟨.assign, "="⟩] := .binding hk hn rfl
    exact ⟨_, _, [], by simp, hh, hname, .inl rfl⟩
  cases p with
  | start =>
    obtain rfl : ts = [] := h
    exact ⟨[⟨.ident, "x"⟩], [], _, [], rfl, .none, hname, .inl rfl⟩
  | name =>
    obtain ⟨keyword, hk, rfl⟩ := h
    have hn : Token.kind ⟨.ident, "x"⟩ = .ident := rfl
    exact ⟨_, hbinding hk hn⟩
  | sign =>
    obtain ⟨keyword, id, hk, hn, rfl⟩ := h
    exact ⟨_, hbinding hk hn⟩
  | operand depth =>
    have hbody := h _ _ hname (Closing.replicate depth)
    exact ⟨_, by simpa using hbody.isStatement (.inl rfl)⟩
  | operator depth =>
    have hbody := h _ (Closing.replicate depth)
    exact ⟨_, by simpa using hbody.isStatement (.inl rfl)⟩
  | closed => exact ⟨[], by rwa [List.append_nil]⟩

end Place

/-- **Some statement begins with the tokens exactly if there is a place after them.** -/
theorem viable_iff {ts : List Token} : Viable ts ↔ (Place.start.run ts).isSome := by
  constructor
  · rintro ⟨more, h⟩
    have hrun := Place.isSome_run_of_isStatement h
    rw [Place.run_append] at hrun
    exact Option.isSome_of_isSome_bind hrun
  · intro h
    obtain ⟨p, hp⟩ := Option.isSome_iff_exists.mp h
    have hstart : Place.start.Holds [] := rfl
    exact (Place.holds_run hstart hp).viable

end ExprLang
