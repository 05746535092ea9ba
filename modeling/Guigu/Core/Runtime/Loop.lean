import Guigu.Core.Runtime.Tools
import Guigu.Library.Runs

/-! One run of the agent loop: the new messages, then turn after turn until a turn ends it. -/
namespace Guigu

def toolSpecs (tools : List Tool) : List ToolSpec := tools.map Tool.spec

def buildRequest (rt : AgentRuntime) (messages : List Message) : ProviderRequest where
  model := rt.loopConfig.model
  context := ⟨rt.systemPrompt, rt.loopConfig.convertToLlm messages, toolSpecs rt.tools⟩
  thinkingLevel := rt.thinkingLevel
  sessionId := none

/-- The last word on the messages of a request: the hook, or the hard limit of the window. -/
def applyFinalProjection (rt : AgentRuntime) (env : TurnEnv) (messages : List Message) :
    List Message :=
  if rt.loopConfig.transformContext then env.transformed
  else
    let toolSchemas :=
      String.join (rt.tools.map fun t => t.name ++ t.description ++ t.parametersText)
    let budget := ContextBudget.withOverhead rt.loopConfig.model.contextWindow rt.systemPrompt
      toolSchemas rt.loopConfig.compaction.reserveOutputTokens
      rt.loopConfig.compaction.protocolWrapperTokens
    budget.truncate messages

namespace RunContext

/-- The messages in front of the cut become one summary, which is announced as new. -/
def commitCompaction (ctx : RunContext) (commit : CompactionCommit) : RunContext :=
  let summary := summaryMessage commit.summary
  (({ ctx with transcript := summary :: ctx.transcript.drop commit.keepFrom } : RunContext).send
    (.messageEnd summary)).updateSnapshot false none [] none

/-- The messages of the next request; none when the compaction was cancelled. -/
def prepareRequestMessages (rt : AgentRuntime) (ctx : RunContext) (env : TurnEnv) :
    Option (List Message) × RunContext :=
  if rt.loopConfig.compactor then
    match planContext ctx.transcript rt.loopConfig.compaction env.compacted with
    | .error .cancelled =>
      (none, { ctx with tokens := if env.setupCancelled then ctx.tokens.observe else ctx.tokens })
    | .error _ => (some (applyFinalProjection rt env ctx.transcript), ctx)
    | .ok prepared =>
      (some (applyFinalProjection rt env prepared.requestMessages),
        match prepared.commit with
        | some commit => ctx.commitCompaction commit
        | none => ctx)
  else (some (applyFinalProjection rt env ctx.transcript), ctx)

def abortedMessage : AssistantMessage := ⟨[], none, none, some .aborted, none, 0⟩

def sendAbortedTurnEnd (ctx : RunContext) : RunContext := ctx.send (.turnEnd abortedMessage [])

/-- The answer enters the transcript; its event is sent where it is streamed. -/
def pushAssistantMessage (ctx : RunContext) (turn : TurnResult) : RunContext :=
  (ctx.push (.assistant turn.assistantMessage)).updateSnapshot false none []
    turn.assistantMessage.errorMessage

/-- The new messages, each followed by a look at the commands that have arrived. -/
def appendInitialMessages : RunContext → List Message → List (List AgentCommand) →
    Bool × RunContext
  | ctx, [], _ => (false, ctx)
  | ctx, m :: ms, arrivals =>
    let d := ((ctx.record [.initial m]).appendUserMessage m).drainCommands (arrivals.headD [])
    let ctx := d.2.requeue d.1
    if d.1.aborted || d.1.shutdown then (d.1.shutdown, ctx)
    else appendInitialMessages ctx ms arrivals.tail

end RunContext

inductive LoopStep where
  | break_ (shutdown : Bool)
  | continue_ (consumed : ℕ)
  deriving DecidableEq, Repr

/-- Behind an answer without calls: steering messages first, follow-ups only without them. -/
def noToolStep (ctx : RunContext) (m : AssistantMessage) (env : TurnEnv) :
    LoopStep × RunContext :=
  let d := (ctx.send (.turnEnd m [])).collectPending env.arrived
  let steer := d.1.steer
  let followup := d.1.followup
  let consumed := steer.length + followup.length
  if d.1.aborted || d.1.shutdown then (.break_ d.1.shutdown, d.2)
  else if !steer.isEmpty then
    let ctx : RunContext := { d.2 with queue := d.2.queue ++ followup.map .followUp }
    (.continue_ consumed,
      (ctx.record (steer.map fun m => .taken (.steer m))).appendUserMessages steer)
  else if !followup.isEmpty then
    (.continue_ consumed,
      (d.2.record (followup.map fun m => .taken (.followUp m))).appendUserMessages followup)
  else (.break_ false, d.2)

/-- The results of the calls enter the transcript. -/
def pushToolResults (ctx : RunContext) (results : List ToolResultMessage) : RunContext :=
  ({ ctx with transcript := ctx.transcript ++ results.map .toolResult } :
    RunContext).updateSnapshot false none [] none

/-- What the plugins, then the closure add in front of the next turn. -/
def TurnEnv.injection (env : TurnEnv) (config : LoopConfig) : List Message :=
  (if config.hooks then env.pluginInjected.toOption.getD [] else []) ++
    if config.prepareNextTurn then env.injected else []

/-- The plugins, then the closure may stop the run behind a turn with calls. -/
def TurnEnv.shouldStop (env : TurnEnv) (config : LoopConfig) : Bool :=
  (config.hooks && decide (env.pluginStop = some true)) || (config.shouldStopAfterTurn && env.stop)

/-- Behind an answer with calls: execute them, then the hooks, then the commands. -/
def toolStep (rt : AgentRuntime) (ctx : RunContext) (turn : TurnResult) (env : TurnEnv) :
    LoopStep × RunContext :=
  let executed := executeToolCalls rt env turn.toolCalls turn.assistantMessage.stopReason
  let ctx := (pushToolResults (ctx.record executed.1) executed.2).send
    (.turnEnd turn.assistantMessage executed.2)
  if env.shouldStop rt.loopConfig then (.break_ false, ctx)
  else
    let d := (ctx.appendUserMessages (env.injection rt.loopConfig)).drainCommands env.arrived
    if d.1.aborted || d.1.shutdown then (.break_ d.1.shutdown, d.2)
    else (.continue_ 0, d.2.requeue d.1)

structure LoopState where
  ctx : RunContext
  consumed : ℕ
  shutdown : Bool
  finished : Bool
  deriving DecidableEq, Repr

/-- The loop behind a step. -/
def LoopState.after (s : LoopState) (ctx : RunContext) : LoopStep → LoopState
  | .break_ shutdown => { s with ctx := ctx, shutdown := shutdown, finished := true }
  | .continue_ consumed => { s with ctx := ctx, consumed := s.consumed + consumed }

/-- Behind the answer of a turn; an aborted turn leaves the shutdown flag. -/
def LoopState.finishTurn (rt : AgentRuntime) (s : LoopState) (ctx : RunContext)
    (turn : TurnResult) (env : TurnEnv) : LoopState :=
  if turn.aborted then
    s.after (ctx.send (.turnEnd turn.assistantMessage [])) (.break_ s.shutdown)
  else
    let r := if turn.toolCalls.isEmpty then noToolStep ctx turn.assistantMessage env
      else toolStep rt ctx turn env
    s.after r.2 r.1

/-- The answer to a request, on its way into the transcript. -/
def answerTurn (rt : AgentRuntime) (ctx : RunContext) (messages : List Message) (env : TurnEnv) :
    TurnResult × RunContext :=
  let r := streamTurn rt (ctx.record [.request ctx.transcript (buildRequest rt messages)]) env
  (r.1, r.2.pushAssistantMessage r.1)

/-- One round of the loop; a loop that has ended stays as it is. -/
def turnStep (rt : AgentRuntime) (s : LoopState) (env : TurnEnv) : LoopState :=
  if s.finished then s
  else
    match (s.ctx.send .turnStart).prepareRequestMessages rt env with
    | (none, ctx) => { s with ctx := ctx.sendAbortedTurnEnd, finished := true }
    | (some messages, ctx) =>
      let r := answerTurn rt ctx messages env
      s.finishTurn rt r.2 r.1 env

/-- The loop in front of its first turn, under a token of its own. -/
def startLoop (ctx : RunContext) (initial : List Message) (arrivals : List (List AgentCommand)) :
    LoopState :=
  let ctx := { ctx with tokens := { ctx.tokens with signal := false } }
  let r := ctx.appendInitialMessages initial arrivals
  ⟨r.2.send .agentStart, 0, r.1, r.1⟩

/-- The answers to a run: the commands behind each new message, and the answers to the turns. -/
structure RunEnv where
  arrivals : List (List AgentCommand)
  turns : List TurnEnv

/-- A turn whose stream is cut by the handle: what comes when the turns of a run are used up. -/
def TurnEnv.cut : TurnEnv where
  compacted := .error .emptySummary
  transformed := []
  attempts := [⟨.established, false, false⟩]
  setupCancelled := false
  stream := [.cancelled]
  calls := fun _ => ⟨"", .ok (), .ok (), [], .error "", .error "", .error ""⟩
  schedule := fun _ => []
  pluginStop := none
  stop := false
  pluginInjected := .error ""
  injected := []
  arrived := []

/-- A turn whose stream is set up and brings the events, no command in between. -/
def TurnEnv.streaming (events : List AssistantEvent) : TurnEnv :=
  { TurnEnv.cut with stream := events.map (.event []) }

/-- The turns of a run, to its end. -/
def loopRun (rt : AgentRuntime) (ctx : RunContext) (initial : List Message) (env : RunEnv) :
    LoopState :=
  Runs.run (turnStep rt) (startLoop ctx initial env.arrivals) (env.turns ++ [.cut])

structure RunOutcome where
  shutdown : Bool
  consumed : ℕ
  deriving DecidableEq, Repr

def runAgentLoop (rt : AgentRuntime) (ctx : RunContext) (initial : List Message) (env : RunEnv) :
    RunOutcome × RunContext :=
  let s := loopRun rt ctx initial env
  (⟨s.shutdown, s.consumed⟩, s.ctx.send (.agentEnd s.ctx.transcript))

/-- A runtime without tools and hooks. -/
def AgentRuntime.plain : AgentRuntime := ⟨[], .default, "", .off⟩

/-- A tool that runs alone. -/
def bashTool : Tool := ⟨"bash", "", none, "", .exclusive⟩

def AgentRuntime.withBash : AgentRuntime := { AgentRuntime.plain with tools := [bashTool] }

def helloAnswer : AssistantMessage := ⟨[.text "hello"], none, none, some .completed, none, 0⟩

/-- An answer that calls a tool. -/
def callingAnswer : AssistantMessage :=
  ⟨[.toolCall ⟨"c1", "bash", "{}"⟩], none, none, some .completed, none, 0⟩

end Guigu
