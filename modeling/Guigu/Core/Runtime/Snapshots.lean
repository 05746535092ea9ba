import Guigu.Core.AgentRuns

/-! Every place that changes the transcript publishes it, so that the snapshot shows it whenever the
task has finished a command. -/
namespace Guigu

namespace RunContext

/-- The snapshot shows the transcript. -/
def Published (ctx : RunContext) : Prop := ctx.snapshot.messages = ctx.transcript

instance (ctx : RunContext) : Decidable ctx.Published := inferInstanceAs (Decidable (_ = _))

/-- The step is neither seen in the transcript nor in the snapshot. -/
structure Keeps (ctx ctx' : RunContext) : Prop where
  transcript : ctx'.transcript = ctx.transcript
  snapshot : ctx'.snapshot = ctx.snapshot

theorem Keeps.refl (ctx : RunContext) : Keeps ctx ctx := ⟨rfl, rfl⟩

theorem Keeps.trans {a b c : RunContext} (h : Keeps a b) (h' : Keeps b c) : Keeps a c :=
  ⟨h'.transcript.trans h.transcript, h'.snapshot.trans h.snapshot⟩

theorem Keeps.published {ctx ctx' : RunContext} (h : Keeps ctx ctx') (hctx : ctx.Published) :
    ctx'.Published := by
  unfold Published
  rw [h.snapshot, h.transcript]
  exact hctx

theorem keeps_record (ctx : RunContext) (effects : List Effect) : Keeps ctx (ctx.record effects) :=
  ⟨rfl, rfl⟩

theorem keeps_send (ctx : RunContext) (e : AgentEvent) : Keeps ctx (ctx.send e) := ⟨rfl, rfl⟩

theorem keeps_drainOne (r : Drain × RunContext) (cmd : AgentCommand) :
    Keeps r.2 (drainOne r cmd).2 := by
  cases cmd <;> exact ⟨rfl, rfl⟩

theorem keeps_drainCommands (ctx : RunContext) (arrived : List AgentCommand) :
    Keeps ctx (ctx.drainCommands arrived).2 := by
  have hfold (r : Drain × RunContext) : Keeps r.2 (arrived.foldl drainOne r).2 := by
    induction arrived generalizing r with
    | nil => exact .refl r.2
    | cons cmd arrived ih => exact (keeps_drainOne r cmd).trans (ih _)
  exact hfold (.empty, ctx)

theorem keeps_requeue (ctx : RunContext) (d : Drain) : Keeps ctx (ctx.requeue d) := ⟨rfl, rfl⟩

theorem keeps_collectPending (ctx : RunContext) (arrived : List AgentCommand) :
    Keeps ctx (ctx.collectPending arrived).2 :=
  ⟨(keeps_drainCommands ctx arrived).transcript, (keeps_drainCommands ctx arrived).snapshot⟩

/-- A drain in the middle of a run. -/
theorem keeps_drained (ctx : RunContext) (arrived : List AgentCommand) :
    Keeps ctx ((ctx.drainCommands arrived).2.requeue (ctx.drainCommands arrived).1) :=
  (keeps_drainCommands ctx arrived).trans (keeps_requeue _ _)

theorem published_updateSnapshot (ctx : RunContext) (isStreaming : Bool)
    (streamingMessage : Option Message) (pending : List String) (error : Option String) :
    (ctx.updateSnapshot isStreaming streamingMessage pending error).Published := rfl

theorem published_appendUserMessage (ctx : RunContext) (m : Message) :
    (ctx.appendUserMessage m).Published :=
  (keeps_send _ _).published (published_updateSnapshot _ _ _ _ _)

theorem Published.appendUserMessages {ctx : RunContext} (h : ctx.Published) (ms : List Message) :
    (ctx.appendUserMessages ms).Published := by
  induction ms generalizing ctx with
  | nil => exact h
  | cons m ms ih => exact ih (published_appendUserMessage ctx m)

theorem published_commitCompaction (ctx : RunContext) (commit : CompactionCommit) :
    (ctx.commitCompaction commit).Published := published_updateSnapshot _ _ _ _ _

theorem Published.prepareRequestMessages {ctx : RunContext} (h : ctx.Published)
    (rt : AgentRuntime) (env : TurnEnv) : (ctx.prepareRequestMessages rt env).2.Published := by
  unfold RunContext.prepareRequestMessages
  split
  · split
    · exact h
    · exact h
    · split
      next commit _ => exact published_commitCompaction ctx commit
      next => exact h
  · exact h

theorem Published.appendInitialMessages {ctx : RunContext} (h : ctx.Published)
    (ms : List Message) (arrivals : List (List AgentCommand)) :
    (ctx.appendInitialMessages ms arrivals).2.Published := by
  induction ms generalizing ctx arrivals with
  | nil => exact h
  | cons m ms ih =>
    have hctx := (keeps_drained _ (arrivals.headD [])).published
      (published_appendUserMessage (ctx.record [.initial m]) m)
    unfold RunContext.appendInitialMessages
    dsimp only
    split
    · exact hctx
    · exact ih hctx arrivals.tail

theorem published_pushAssistantMessage (ctx : RunContext) (turn : TurnResult) :
    (ctx.pushAssistantMessage turn).Published := published_updateSnapshot _ _ _ _ _

end RunContext

open RunContext

theorem published_pushToolResults (ctx : RunContext) (results : List ToolResultMessage) :
    (pushToolResults ctx results).Published := published_updateSnapshot _ _ _ _ _

theorem published_noToolStep {ctx : RunContext} (h : ctx.Published) (m : AssistantMessage)
    (env : TurnEnv) : (noToolStep ctx m env).2.Published := by
  have hpending := (keeps_collectPending _ env.arrived).published
    ((keeps_send ctx (.turnEnd m [])).published h)
  unfold noToolStep
  simp only
  split
  · exact hpending
  · split
    · exact Published.appendUserMessages (by exact hpending) _
    · split
      · exact Published.appendUserMessages (by exact hpending) _
      · exact hpending

theorem published_toolStep (rt : AgentRuntime) (ctx : RunContext) (turn : TurnResult)
    (env : TurnEnv) : (toolStep rt ctx turn env).2.Published := by
  let executed := executeToolCalls rt env turn.toolCalls turn.assistantMessage.stopReason
  have hresults := (keeps_send _ (.turnEnd turn.assistantMessage executed.2)).published
    (published_pushToolResults (ctx.record executed.1) executed.2)
  have hdrained := (keeps_drainCommands _ env.arrived).published
    (hresults.appendUserMessages (env.injection rt.loopConfig))
  unfold toolStep
  simp only
  split
  · exact hresults
  · split
    · exact hdrained
    · exact (keeps_requeue _ _).published hdrained

theorem published_finishTurn {rt : AgentRuntime} {s : LoopState} {ctx : RunContext}
    (h : ctx.Published) (turn : TurnResult) (env : TurnEnv) :
    (s.finishTurn rt ctx turn env).ctx.Published := by
  have hafter (ctx : RunContext) (step : LoopStep) : (s.after ctx step).ctx = ctx := by
    cases step <;> rfl
  unfold LoopState.finishTurn
  split
  · exact (keeps_send ctx _).published h
  · simp only [hafter]
    split
    · exact published_noToolStep h turn.assistantMessage env
    · exact published_toolStep rt ctx turn env

/-- One round of the loop. -/
theorem published_turnStep {rt : AgentRuntime} {s : LoopState} (h : s.ctx.Published)
    (env : TurnEnv) : (turnStep rt s env).ctx.Published := by
  unfold turnStep
  split
  · exact h
  · have hprepared := ((keeps_send s.ctx .turnStart).published h).prepareRequestMessages rt env
    split
    next ctx hnone =>
      rw [hnone] at hprepared
      exact (keeps_send ctx _).published hprepared
    next messages ctx hsome =>
      exact published_finishTurn (published_pushAssistantMessage _ _) _ env

/-- One run, from a transcript that is published. -/
theorem published_runAgentLoop (rt : AgentRuntime) {ctx : RunContext} (h : ctx.Published)
    (initial : List Message) (env : RunEnv) : (runAgentLoop rt ctx initial env).2.Published := by
  have hstart : (startLoop ctx initial env.arrivals).ctx.Published :=
    (keeps_send _ _).published (Published.appendInitialMessages (by exact h) initial env.arrivals)
  have hturns : (loopRun rt ctx initial env).ctx.Published := by
    have hstep : ∀ (s : LoopState) (env : TurnEnv), s.ctx.Published →
        (turnStep rt s env).ctx.Published := fun _ env h => published_turnStep h env
    exact (Runs.always hstep (fun _ h => h) hstart _).last
  exact (keeps_send _ _).published hturns

theorem published_processCommand (rt : AgentRuntime) {ctx : RunContext} (h : ctx.Published)
    (cmd : AgentCommand) (env : RunEnv) : (processCommand rt ctx cmd env).2.Published := by
  cases cmd with
  | prompt ms => exact published_runAgentLoop rt h ms env
  | steer m | followUp m => exact published_runAgentLoop rt h [m] env
  | continue_ => exact published_runAgentLoop rt h [] env
  | abort | shutdown => exact h
  | reset => rfl

theorem Next.published {ctx ctx' : RunContext} {cmd : AgentCommand} (h : Next ctx cmd ctx')
    (hctx : ctx.Published) : ctx'.Published := by
  cases h with
  | dequeued => exact hctx
  | received => exact (keeps_record ctx _).published hctx

/-- One round of the task. -/
theorem AgentState.published_step (rt : AgentRuntime) {s : AgentState} (h : s.ctx.Published)
    (a : AgentAction) : (s.step rt a).ctx.Published := by
  unfold AgentState.step
  split
  next cmd ctx hnext =>
    have hctx := (AgentState.next_of_next? hnext).published h
    exact published_processCommand rt ((keeps_record ctx _).published hctx) cmd a.env
  next => exact h

theorem AgentSystem.published_step (rt : AgentRuntime) {s : AgentSystem}
    (h : s.agent.ctx.Published) (a : SystemAction) : (s.step rt a).agent.ctx.Published := by
  cases a with
  | send cmd =>
    simp only [AgentSystem.step]
    split <;> exact h
  | count call =>
    rw [(s.sent_count rt call).2]
    exact h
  | runtime a =>
    simp only [AgentSystem.step]
    split
    · exact AgentState.published_step rt h a
    · exact h

/-- Whatever the clients send and the providers, tools, hooks and compactors answer: between two
commands, the snapshot shows the transcript. -/
theorem snapshot_between_commands (rt : AgentRuntime) (transcript : List Message)
    (as : List SystemAction) :
    Runs.Throughout (AgentSystem.step rt)
      (fun s => s.agent.ctx.snapshot.messages = s.agent.ctx.transcript)
      (AgentSystem.start transcript) as := by
  have hstep : ∀ (s : AgentSystem) (a : SystemAction), s.agent.ctx.Published →
      (s.step rt a).agent.ctx.Published := fun _ a h => AgentSystem.published_step rt h a
  have hstart : (AgentSystem.start transcript).agent.ctx.Published := rfl
  exact Runs.always hstep (fun _ h => h) hstart as

end Guigu
