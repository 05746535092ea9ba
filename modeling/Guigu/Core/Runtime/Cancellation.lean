import Guigu.Core.Runtime.LoopTurns

/-! What a run still starts behind an `Abort` or `Shutdown` that it has drained. -/
namespace Guigu

/-- A command that cuts the run has been drained. -/
def hasCut (effects : List Effect) : Bool := (drainedOf effects).any AgentCommand.cuts

/-- No turn and no tool starts behind a command that cuts the run. -/
def heedsCuts : List Effect → Bool
  | [] => true
  | .drained cmd :: es => (!cmd.cuts || es.all fun e => !e.starts) && heedsCuts es
  | _ :: es => heedsCuts es

/-- The run heeds what cuts it, and tells its end. -/
def EndsWhenCut (ctx ctx' : RunContext) : Prop :=
  heedsCuts (ctx.since ctx') = true ∧
    (ctx.since ctx').getLast? = some (.event (.agentEnd ctx'.transcript))

instance (ctx ctx' : RunContext) : Decidable (EndsWhenCut ctx ctx') :=
  inferInstanceAs (Decidable (_ ∧ _))

/-- What cuts the run behind one of its first messages comes with a `Shutdown`. -/
def cutsStartByShutdown (initial : List Message) (arrivals : List (List AgentCommand)) : Bool :=
  !(initialDrains initial arrivals).any (fun arrived => arrived.any AgentCommand.cuts) ||
    (initialDrains initial arrivals).any fun arrived => arrived.any AgentCommand.isShutdown

theorem hasCut_append (es fs : List Effect) : hasCut (es ++ fs) = (hasCut es || hasCut fs) := by
  unfold hasCut
  rw [drainedOf_append, List.any_append]

theorem heedsCuts_append (es fs : List Effect) :
    heedsCuts (es ++ fs) =
      (heedsCuts es && (!hasCut es || fs.all fun e => !e.starts) && heedsCuts fs) := by
  induction es with
  | nil => rfl
  | cons e es ih =>
    cases e with
    | drained cmd =>
      have hcut : hasCut (.drained cmd :: es) = (cmd.cuts || hasCut es) := rfl
      simp only [List.cons_append, heedsCuts, ih, hcut, List.all_append]
      cases cmd.cuts <;> cases hasCut es <;>
        simp [Bool.and_assoc, Bool.and_comm, Bool.and_left_comm]
    | event | request | processing | initial | taken | streamed | executed => exact ih

/-- Effects without a start are heedful whatever they drain. -/
theorem heedsCuts_of_starts {es : List Effect} (h : ∀ e ∈ es, e.starts = false) :
    heedsCuts es = true := by
  induction es with
  | nil => rfl
  | cons e es ih =>
    obtain ⟨-, hrest⟩ := List.forall_mem_cons.mp h
    cases e with
    | drained cmd =>
      have hall : (es.all fun e => !e.starts) = true := by
        rw [List.all_eq_true]
        intro e he
        rw [hrest e he]
        rfl
      simp only [heedsCuts, hall, Bool.or_true, Bool.true_and]
      exact ih hrest
    | event | request | processing | initial | taken | streamed | executed => exact ih hrest

theorem heedsCuts_of_hasCut {es : List Effect} (h : hasCut es = false) : heedsCuts es = true := by
  induction es with
  | nil => rfl
  | cons e es ih =>
    cases e with
    | drained cmd =>
      have hcut : hasCut (.drained cmd :: es) = (cmd.cuts || hasCut es) := rfl
      rw [hcut, Bool.or_eq_false_iff] at h
      simp only [heedsCuts, h.1, Bool.not_false, Bool.true_or, Bool.true_and]
      exact ih h.2
    | event | request | processing | initial | taken | streamed | executed => exact ih h

theorem all_starts {es : List Effect} (h : ∀ e ∈ es, e.starts = false) :
    (es.all fun e => !e.starts) = true := by
  rw [List.all_eq_true]
  intro e he
  rw [h e he]
  rfl

/-- A stream during which the run is cut gives an aborted answer. -/
theorem aborted_of_drains {acc : TurnAccumulator} {items : List StreamItem}
    (h : ((acc.drains items).flatten.any AgentCommand.cuts) = true) :
    (acc.run items).aborted = true := by
  induction items generalizing acc with
  | nil => cases h
  | cons item items ih =>
    cases item with
    | cancelled => rfl
    | event arrived e =>
      unfold TurnAccumulator.run
      unfold TurnAccumulator.drains at h
      cases hcut : arrived.any AgentCommand.cuts with
      | true => rfl
      | false =>
        simp only [hcut, Bool.false_eq_true, ↓reduceIte] at h ⊢
        cases hend : (acc.handleEvent e).1 with
        | true =>
          simp only [hend, ↓reduceIte, List.flatten_cons, List.flatten_nil, List.append_nil] at h
          rw [hcut] at h
          cases h
        | false =>
          simp only [hend, Bool.false_eq_true, ↓reduceIte, List.flatten_cons, List.any_append, hcut,
            Bool.false_or] at h ⊢
          exact ih h

theorem hasCut_ofTools {es : List Effect} (h : OfTools es) : hasCut es = false := by
  have hnone : drainedOf es = [] := by
    apply List.filterMap_eq_nil_iff.mpr
    intro e he
    have htools := h e he
    unfold drained?
    split
    · cases htools
    · rfl
  unfold hasCut
  rw [hnone]
  rfl

theorem StreamOutcome.starts {rt : AgentRuntime} {env : TurnEnv} {tokens : Tokens}
    {turn : TurnResult} {stream : List Effect} (h : StreamOutcome rt env tokens turn stream) :
    ∀ e ∈ stream, e.starts = false := by
  cases h with
  | failed => exact List.forall_mem_nil _
  | answered _ hquiet =>
    exact List.forall_mem_append.mpr ⟨hquiet.starts_eq, List.forall_mem_singleton.mpr rfl⟩

theorem StreamOutcome.aborted {rt : AgentRuntime} {env : TurnEnv} {tokens : Tokens}
    {turn : TurnResult} {stream : List Effect} (h : StreamOutcome rt env tokens turn stream)
    (hcut : hasCut stream = true) : turn.aborted = true := by
  cases h with
  | failed => cases hcut
  | answered _ _ _ hdrained =>
    rw [hasCut_append] at hcut
    unfold hasCut at hcut
    rw [hdrained] at hcut
    exact aborted_of_drains
      ((Bool.or_eq_true_iff.mp hcut).resolve_right (by simp [drainedOf, drained?]))

/-- A drain behind the answer that cuts the run ends it. -/
theorem TurnFinish.breaks {rt : AgentRuntime} {env : TurnEnv} {turn : TurnResult}
    {shutdown : Bool} {queue queue' : List AgentCommand} {injected : List Message}
    {behind : List Effect} {step : LoopStep}
    (h : TurnFinish rt env turn shutdown queue injected behind queue' step)
    (hcut : hasCut behind = true) : ∃ shutdown, step = .break_ shutdown := by
  unfold hasCut at hcut
  cases h with
  | aborted => exact ⟨_, rfl⟩
  | cut => exact ⟨_, rfl⟩
  | steered _ _ hno =>
    simp only [drainedOf_event, drainedOf_append, drainedOf_drained, drainedOf_taken,
      drainedOf_said, List.append_nil, hno, Bool.false_eq_true] at hcut
  | followed _ _ hno =>
    simp only [drainedOf_event, drainedOf_append, drainedOf_drained, drainedOf_taken,
      drainedOf_said, List.append_nil, hno, Bool.false_eq_true] at hcut
  | ended => exact ⟨_, rfl⟩
  | stopped => exact ⟨_, rfl⟩
  | toolCut => exact ⟨_, rfl⟩
  | toolDone _ _ _ hno =>
    simp only [drainedOf_event, drainedOf_append, drainedOf_drained, drainedOf_said,
      List.nil_append, hno, Bool.false_eq_true] at hcut

/-- A turn heeds what cuts it, and a turn that is cut is the last. -/
theorem turnStep_heeds {rt : AgentRuntime} {s : LoopState} (env : TurnEnv)
    (hs : s.finished = false) :
    ∃ effects, (turnStep rt s env).ctx.trace = s.ctx.trace ++ .event .turnStart :: effects ∧
      heedsCuts effects = true ∧
      (hasCut effects = true → (turnStep rt s env).finished = true) := by
  rcases turnStep_cases env hs with ⟨-, hnext, hadds, -⟩ | ⟨-, base, turn, injected, before, stream,
    behind, step, h⟩
  · exact ⟨_, hadds.trace, rfl, fun _ => by rw [hnext]⟩
  · obtain ⟨request, htrace⟩ := h.trace
    refine ⟨_, htrace, ?_⟩
    have hbefore : hasCut (before ++ [.request base request]) = false := by
      cases h.prepared <;> rfl
    have htools := hasCut_ofTools (toolWork_ofTools rt env turn)
    have hbehind := h.finish.announces.starts
    have hcat :
        before ++ .request base request :: (stream ++ ((env.toolWork rt turn).1 ++ behind)) =
          (before ++ [.request base request]) ++
            (stream ++ ((env.toolWork rt turn).1 ++ behind)) := by
      simp
    rw [hcat]
    constructor
    · rw [heedsCuts_append, heedsCuts_of_hasCut hbefore, hbefore, heedsCuts_append,
        heedsCuts_of_starts h.outcome.starts, heedsCuts_append, heedsCuts_of_hasCut htools, htools,
        heedsCuts_of_starts hbehind]
      cases hcut : hasCut stream with
      | false => rfl
      | true =>
        -- an answer that was cut is not followed up
        have hwork : (env.toolWork rt turn).1 = [] := by
          unfold TurnEnv.toolWork
          rw [h.outcome.aborted hcut]
          rfl
        rw [hwork, List.nil_append, all_starts hbehind]
        rfl
    · rw [hasCut_append, hbefore, hasCut_append, hasCut_append, htools, Bool.false_or,
        Bool.false_or, Bool.or_eq_true_iff, h.next]
      rintro (hcut | hcut)
      · rw [(h.finish.of_aborted (h.outcome.aborted hcut)).2]
        rfl
      · obtain ⟨shutdown, hstep⟩ := h.finish.breaks hcut
        rw [hstep]
        rfl

/-- Turns from an unfinished loop on heed what cuts them. -/
theorem turns_heed (rt : AgentRuntime) (s : LoopState) (envs : List TurnEnv) :
    ∃ effects, (Runs.run (turnStep rt) s envs).ctx.trace = s.ctx.trace ++ effects ∧
      heedsCuts effects = true ∧ (s.finished = true → effects = []) ∧
      (s.finished = false → envs ≠ [] → ∃ rest, effects = .event .turnStart :: rest) := by
  induction envs generalizing s with
  | nil => exact ⟨[], (List.append_nil _).symm, rfl, fun _ => rfl, fun _ h => absurd rfl h⟩
  | cons env envs ih =>
    obtain ⟨effects, htrace, hheeds, hdone, -⟩ := ih (turnStep rt s env)
    cases hs : s.finished with
    | true =>
      have hstay : turnStep rt s env = s := turnStep_finished env hs
      rw [hstay] at htrace hdone
      refine ⟨effects, ?_, hheeds, fun _ => hdone hs, ?_⟩
      · rwa [Runs.run_cons, hstay]
      · intro h
        cases h
    | false =>
      obtain ⟨effects₁, htrace₁, hheeds₁, hcut⟩ := @turnStep_heeds rt s env hs
      refine ⟨.event .turnStart :: (effects₁ ++ effects), ?_, ?_, ?_,
        fun _ _ => ⟨effects₁ ++ effects, rfl⟩⟩
      · rw [Runs.run_cons, htrace, htrace₁, List.append_assoc]
        rfl
      · show heedsCuts (effects₁ ++ effects) = true
        rw [heedsCuts_append, hheeds₁, hheeds]
        cases hc : hasCut effects₁ with
        | false => rfl
        | true =>
          rw [hdone (hcut hc)]
          rfl
      · intro h
        cases h

/-- A run starts nothing behind a command that cuts it exactly when what cuts it behind its first
messages comes with a `Shutdown`; it always tells its end. -/
theorem endsWhenCut_iff (rt : AgentRuntime) (ctx : RunContext) (initial : List Message)
    (env : RunEnv) :
    EndsWhenCut ctx (runAgentLoop rt ctx initial env).2 ↔
      cutsStartByShutdown initial env.arrivals = true := by
  obtain ⟨effects, htrace, hheeds, hdone, hstarts⟩ := turns_heed rt
    (startLoop ctx initial env.arrivals) (env.turns ++ [.cut])
  have hshutdown : (startLoop ctx initial env.arrivals).finished =
      (initialDrains initial env.arrivals).any fun arrived =>
        arrived.any AgentCommand.isShutdown :=
    (RunContext.appendInitialMessages_eq _ initial env.arrivals).2.2
  have hcut : hasCut (initialEffects initial env.arrivals ++ [Effect.event .agentStart]) =
      (initialDrains initial env.arrivals).any fun arrived => arrived.any AgentCommand.cuts := by
    unfold hasCut
    rw [drainedOf_append, drainedOf_initialEffects, List.any_append, List.any_flatten]
    exact Bool.or_false _
  have hbegin := heedsCuts_of_starts (announces_startLoop initial env.arrivals).starts
  unfold EndsWhenCut cutsStartByShutdown
  rw [RunContext.since_eq (runAgentLoop_trace rt ctx initial env htrace), ← hcut, ← hshutdown,
    heedsCuts_append, hbegin, heedsCuts_append, hheeds]
  have hlast : ((initialEffects initial env.arrivals ++ [Effect.event .agentStart]) ++ (effects ++
      [Effect.event (.agentEnd (loopRun rt ctx initial env).ctx.transcript)])).getLast? =
      some (.event (.agentEnd (runAgentLoop rt ctx initial env).2.transcript)) := by
    rw [← List.append_assoc, List.getLast?_append]
    rfl
  rw [and_iff_left hlast]
  cases hc : hasCut (initialEffects initial env.arrivals ++ [Effect.event .agentStart]) with
  | false => simp [heedsCuts, Effect.starts]
  | true =>
    cases hs : (startLoop ctx initial env.arrivals).finished with
    | true =>
      rw [hdone hs]
      simp [heedsCuts, Effect.starts]
    | false =>
      obtain ⟨rest, hrest⟩ := hstarts hs (by simp)
      rw [hrest]
      simp [Effect.starts]

/-- Behind an `Abort` that comes with the first message a turn starts and calls a tool. -/
theorem abortedStart_calls : ¬ EndsWhenCut (.start []) (runAgentLoop .withBash (.start [])
    [helloMessage] ⟨[[.abort]], [.streaming [.done callingAnswer]]⟩).2 := by
  decide +kernel

end Guigu
