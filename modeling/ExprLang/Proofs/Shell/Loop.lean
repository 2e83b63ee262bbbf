import ExprLang.Shell.Loop

/-!
# The loop does what a session says

* `Port.act` — carrying out an action.
* `Console.after` — the transcript of a console on which some more actions are carried out.
* `Console.Carried` — what a computation on a console comes to, if it carries out some actions.
* `Console.Rounded` — what a round comes to.

Principal results: `forM_greet`, `forM_respond`, `forM_farewell` — whatever the port is, the prompt, the
answer to a line and the newline at the end are the actions of a session, one by one; `carried_forM` —
carrying out actions on a console gives the transcript of the actions; `rounded_round`, `loop_eq_whole`
— so does a round, and so does the loop.

A write that fails is the last one in the loop, since nothing is bound behind it, and in the transcript,
since `perform` stops there.
-/

namespace ExprLang.Shell

/-! ## Any port -/

namespace Port

variable {m : Type → Type} [Monad m] (port : Port m) (config : Config)

/-- Carries out an action. -/
def act : Action → m Unit
  | .write text => port.write text
  | .flush => port.flush
  | .report event => port.report event

variable [LawfulMonad m]

theorem forM_greet : (greet config).forM port.act = port.prompt config := by
  simp [greet, prompt, act]

theorem forM_tokens (line : String) :
    ((outputLines .tokens config.color line).map Action.write).forM port.act =
      port.printTokens config line := by
  simp [outputLines, printTokens, act, List.forM_map]

theorem forM_program (line : String) :
    ((answerEvents .program line).map Action.report ++
      (outputLines .program config.color line).map Action.write).forM port.act =
      port.printProgram config line := by
  simp only [answerEvents, outputLines, programLines, parse, printProgram]
  split <;> simp [act, List.forM_map, *]

/-- **The answer to a line is what a session does after reading it.** -/
theorem forM_respond (line : String) :
    (respond config line).forM port.act = port.print config line := by
  obtain ⟨mode, color, text⟩ := config
  cases mode with
  | tokens => simp [respond, print, act, answerEvents, ← forM_tokens]
  | program => simp [respond, print, act, ← forM_program]

theorem forM_farewell : (farewell none).forM port.act = port.write "\n" := by
  simp [farewell, act]

end Port

/-! ## A console -/

namespace Console

variable {α β : Type} {c c' : Console} {as bs : List Action} {ending : Option Fault}

theorem bind_of_ok {x : EStateM Fault Console α} {a : α} (h : x c = .ok a c')
    (f : α → EStateM Fault Console β) : (x >>= f) c = f a c' := by
  show EStateM.bind x f c = f a c'
  rw [EStateM.bind, h]

theorem bind_of_error {x : EStateM Fault Console α} {fault : Fault} (h : x c = .error fault c')
    (f : α → EStateM Fault Console β) : (x >>= f) c = .error fault c' := by
  show EStateM.bind x f c = .error fault c'
  rw [EStateM.bind, h]

/-- The transcript if from here on the actions are carried out, and then the run ends. -/
def after (ending : Option Fault) (as : List Action) (c : Console) : Transcript :=
  let t := perform c.limit ending c.output.length as
  ⟨c.output ++ t.output, c.flushes ++ t.flushes, c.events ++ t.events, t.fault⟩

theorem after_nil (c : Console) : c.after ending [] = c.transcript ending := by
  simp [after, perform, transcript]

/-- The computation has carried out the actions: it has read nothing, and whatever comes next, the
transcript is the one with the actions before it. If it failed, there is no next one. -/
def Carried (as : List Action) (c : Console) : EStateM.Result Fault Console α → Prop
  | .ok _ c' => c'.input = c.input ∧ ∀ ending bs, c.after ending (as ++ bs) = c'.after ending bs
  | .error fault c' => ∀ ending bs, c.after ending (as ++ bs) = c'.transcript (some fault)

theorem carried_pure (a : α) (c : Console) : Carried [] c ((pure a : EStateM Fault Console α) c) :=
  ⟨rfl, fun _ _ => rfl⟩

/-- What comes after the actions has carried out its own ones too. -/
theorem Carried.append {r : EStateM.Result Fault Console α} (hinput : c'.input = c.input)
    (hafter : ∀ ending bs, c.after ending (as ++ bs) = c'.after ending bs) (h : Carried bs c' r) :
    Carried (as ++ bs) c r := by
  match r, h with
  | .ok _ c'', ⟨hinput', hafter'⟩ =>
    refine ⟨hinput'.trans hinput, fun ending more => ?_⟩
    rw [List.append_assoc, hafter, hafter']
  | .error fault c'', hfault =>
    intro ending more
    rw [List.append_assoc, hafter, hfault]

theorem Carried.bind {x : EStateM Fault Console α} {f : α → EStateM Fault Console β}
    (h : Carried as c (x c)) (hf : ∀ a c', Carried bs c' (f a c')) :
    Carried (as ++ bs) c ((x >>= f) c) := by
  cases hx : x c with
  | error fault c' =>
    rw [hx] at h
    rw [bind_of_error hx]
    intro ending more
    rw [List.append_assoc]
    exact h ending (bs ++ more)
  | ok a c' =>
    rw [hx] at h
    rw [bind_of_ok hx]
    exact .append h.1 h.2 (hf a c')

theorem carried_write (text : String) (c : Console) : Carried [.write text] c (write text c) := by
  obtain ⟨input, limit, output, flushes, events⟩ := c
  cases limit with
  | none =>
    refine ⟨rfl, fun ending bs => ?_⟩
    simp [after, perform]
  | some n =>
    simp only [write]
    split
    · intro ending bs
      simp [after, perform, transcript, *]
    · refine ⟨rfl, fun ending bs => ?_⟩
      simp [after, perform, *]

theorem carried_act (a : Action) (c : Console) : Carried [a] c (port.act a c) := by
  cases a with
  | write text => exact carried_write text c
  | flush =>
    refine ⟨rfl, fun ending bs => ?_⟩
    simp [after, perform]
  | report event =>
    refine ⟨rfl, fun ending bs => ?_⟩
    simp [after, perform]

/-- **Carrying out actions gives their transcript.** -/
theorem carried_forM (as : List Action) (c : Console) : Carried as c (as.forM port.act c) := by
  induction as generalizing c with
  | nil => exact carried_pure () c
  | cons a as ih => exact (carried_act a c).bind fun _ c' => ih c'

theorem carried_prompt (config : Config) (c : Console) :
    Carried (greet config) c (port.prompt config c) := by
  rw [← port.forM_greet]
  exact carried_forM _ c

theorem carried_print (config : Config) (line : String) (c : Console) :
    Carried (respond config line) c (port.print config line c) := by
  rw [← port.forM_respond]
  exact carried_forM _ c

/-! ## Rounds -/

/-- The transcript if all that is left to read is answered. -/
def whole (config : Config) (c : Console) : Transcript :=
  c.after c.input.fault (session config c.input)

/-- What a session does after the first prompt. -/
def afterPrompt (config : Config) : Input → List Action
  | ⟨line :: lines, fault⟩ => respond config line ++ session config ⟨lines, fault⟩
  | ⟨[], fault⟩ => farewell fault

theorem session_eq (config : Config) (input : Input) :
    session config input = greet config ++ afterPrompt config input := by
  obtain ⟨_ | ⟨line, lines⟩, fault⟩ := input <;> simp [session, afterPrompt]

/-- What a round comes to: there are less lines and the same transcript is ahead, or the transcript is
there, at the end or with a fault. -/
def Rounded (config : Config) (before : Nat) (t : Transcript) :
    EStateM.Result Fault Console Bool → Prop
  | .ok true c => c.input.lines.length < before ∧ c.whole config = t
  | .ok false c => c.transcript none = t
  | .error fault c => c.transcript (some fault) = t

/-- After some actions a round comes to what the computation behind them comes to. -/
theorem Rounded.bind {config : Config} {before : Nat} {x : EStateM Fault Console α}
    {f : α → EStateM Fault Console Bool} (h : Carried as c (x c))
    (hf : ∀ a c', c'.input = c.input → Rounded config before (c'.after ending bs) (f a c')) :
    Rounded config before (c.after ending (as ++ bs)) ((x >>= f) c) := by
  cases hx : x c with
  | error fault c' =>
    rw [hx] at h
    rw [bind_of_error hx]
    exact (h ending bs).symm
  | ok a c' =>
    rw [hx] at h
    rw [bind_of_ok hx, h.2]
    exact hf a c' h.1

/-- After the last line there is a newline. -/
theorem rounded_none (config : Config) (before : Nat) (c : Console) :
    Rounded config before (c.after none (farewell none)) (port.proceed config none c) := by
  have hwrite := carried_forM (farewell none) c
  rw [port.forM_farewell] at hwrite
  exact Rounded.bind hwrite fun _ c' _ => (after_nil c').symm

/-- After a line there is its answer, and then the next round. -/
theorem rounded_some (config : Config) (line : String) (c : Console) :
    Rounded config (c.input.lines.length + 1)
      (c.after c.input.fault (respond config line ++ session config c.input))
      (port.proceed config (some line) c) := by
  refine Rounded.bind (carried_print config line c) fun _ c' hinput => ?_
  rw [← hinput]
  exact ⟨Nat.lt_succ_self _, rfl⟩

/-- A read after the prompt, and what comes after it. -/
theorem rounded_read (config : Config) (c : Console) :
    Rounded config c.input.lines.length (c.after c.input.fault (afterPrompt config c.input))
      ((nextLine >>= port.proceed config) c) := by
  obtain ⟨⟨lines, fault⟩, limit, output, flushes, events⟩ := c
  match lines, fault with
  | [], some fault => exact (after_nil _).symm
  | [], none => exact rounded_none config 0 _
  | line :: lines, fault =>
    exact rounded_some config line ⟨⟨lines, fault⟩, limit, output, flushes, events⟩

/-- **A round is what a session does up to the next prompt.** -/
theorem rounded_round (config : Config) (c : Console) :
    Rounded config c.input.lines.length (c.whole config) (port.round config c) := by
  rw [whole, session_eq]
  refine Rounded.bind (carried_prompt config c) fun _ c' hinput => ?_
  rw [← hinput]
  exact rounded_read config c'

/-- **The loop gives the transcript of a session,** from any console on. -/
theorem loop_eq_whole (config : Config) {fuel : Nat} (h : c.input.lines.length < fuel) :
    c.loop config fuel = some (c.whole config) := by
  induction fuel generalizing c with
  | zero => omega
  | succ fuel ih =>
    have hround := rounded_round config c
    rw [loop]
    match port.round config c, hround with
    | .ok true c', ⟨hless, hwhole⟩ => exact (ih (by omega)).trans (congrArg some hwhole)
    | .ok false c', hdone => exact congrArg some hdone
    | .error fault c', hdone => exact congrArg some hdone

end Console

/-- **The loop of the shell is its session:** the same bytes, flushes and events, and the same fault, on
a sink with any limit. -/
theorem loop_start (config : Config) (input : Input) (limit : Option Nat) {fuel : Nat}
    (h : input.lines.length < fuel) :
    (Console.start input limit).loop config fuel = some (run config input limit) :=
  Console.loop_eq_whole config h

end ExprLang.Shell
