import Guigu.Core.Context

/-! The state of one run of the agent loop, and what its surroundings answer. Providers, tools,
hooks, the compactor and the command channel are outside the loop: their answers to one turn
are a record, so a run is a function of the answers it gets. -/
namespace Guigu

inductive ToolExecutionMode where
  | sequential | readOnlyParallel
  deriving DecidableEq, Repr

/-- A flag tells that the hook of its name is set. -/
structure LoopConfig where
  model : Model
  convertToLlm : List Message → List Message
  transformContext : Bool
  beforeToolCall : Bool
  afterToolCall : Bool
  shouldStopAfterTurn : Bool
  prepareNextTurn : Bool
  toolExecution : ToolExecutionMode
  maxRetries : ℕ
  requestTimeout : Bool
  compactor : Bool
  compaction : CompactionPolicy
  hooks : Bool

def LoopConfig.default : LoopConfig where
  model := ⟨"default", 8192⟩
  convertToLlm := defaultConvertToLlm
  transformContext := false
  beforeToolCall := false
  afterToolCall := false
  shouldStopAfterTurn := false
  prepareNextTurn := false
  toolExecution := .sequential
  maxRetries := 3
  requestTimeout := false
  compactor := false
  compaction := .default
  hooks := false

structure AgentRuntime where
  tools : List Tool
  loopConfig : LoopConfig
  systemPrompt : String
  thinkingLevel : ThinkingLevel

/-- The run's own token and the token of the handle above it. -/
structure Tokens where
  signal : Bool
  shutdown : Bool
  deriving DecidableEq, Repr

def Tokens.isCancelled (t : Tokens) : Bool := t.signal || t.shutdown

/-- A cancellation that no command of the run has asked for comes from the handle. -/
def Tokens.observe (t : Tokens) : Tokens :=
  if t.isCancelled then t else { t with shutdown := true }

/-- How an attempt to set a stream up ends. -/
inductive AttemptOutcome where
  | established
  | failed (error : ProviderError)
  | timedOut
  | cancelled
  deriving DecidableEq, Repr

/-- The flags tell whether the run is cancelled when a failure is looked at, and while it is
waited for the next attempt. -/
structure Attempt where
  outcome : AttemptOutcome
  cancelledMeanwhile : Bool
  backoffCancelled : Bool
  deriving DecidableEq, Repr

/-- What the loop over a stream is woken by: an event, with the commands that have arrived by
then, or the cancellation. -/
inductive StreamItem where
  | event (arrived : List AgentCommand) (e : AssistantEvent)
  | cancelled
  deriving DecidableEq, Repr

/-- The answers to one tool call: of the JSON reader when it refuses the arguments, of the hooks
and of the tool. -/
structure CallEnv where
  parseError : String
  pluginBefore : Except String Unit
  before : Except String Unit
  updates : List ToolResult
  outcome : Except String ToolResult
  pluginAfter : Except String ToolResult
  after : ToolResult

/-- The answers to one turn. A stream that is not cut or ended by an event ends by itself;
`schedule` orders the steps of the calls that run together behind a call. -/
structure TurnEnv where
  compacted : Except CompactionError String
  transformed : List Message
  attempts : List Attempt
  setupCancelled : Bool
  stream : List StreamItem
  calls : ℕ → CallEnv
  schedule : ℕ → List ℕ
  pluginStop : Option Bool
  stop : Bool
  pluginInjected : Except String (List Message)
  injected : List Message
  arrived : List AgentCommand

/-- What a run does, in order: events it sends, requests it builds (with the transcript at that
moment), commands it drains, messages it starts with and messages of waiting commands it takes in,
stream events it handles, tools it executes. Between runs commands are taken up. -/
inductive Effect where
  | event (e : AgentEvent)
  | request (transcript : List Message) (request : ProviderRequest)
  | drained (command : AgentCommand)
  | processing (command : AgentCommand)
  | initial (message : Message)
  | taken (command : AgentCommand)
  | streamed (e : AssistantEvent)
  | executed (call : ToolCall) (args : Json)
  deriving DecidableEq, Repr

structure RunContext where
  transcript : List Message
  queue : List AgentCommand
  snapshot : AgentSnapshot
  tokens : Tokens
  trace : List Effect
  deriving DecidableEq, Repr

def messageEnd? : Effect → Option Message
  | .event (.messageEnd m) => some m
  | _ => none

/-- The messages that a subscriber of the events writes to the session. -/
def messageEnds (effects : List Effect) : List Message := effects.filterMap messageEnd?

def request? : Effect → Option (List Message)
  | .request transcript _ => some transcript
  | _ => none

/-- The transcripts at the moments a request is built. -/
def requested (effects : List Effect) : List (List Message) := effects.filterMap request?

def streamed? : Effect → Option AssistantEvent
  | .streamed e => some e
  | _ => none

/-- The stream event handled last. -/
def lastStreamed (effects : List Effect) : Option AssistantEvent :=
  (effects.filterMap streamed?).getLast?

def executed? : Effect → Option (ToolCall × Json)
  | .executed call args => some (call, args)
  | _ => none

/-- The tool calls that have been executed. -/
def executions (effects : List Effect) : List (ToolCall × Json) := effects.filterMap executed?

def drained? : Effect → Option AgentCommand
  | .drained cmd => some cmd
  | _ => none

/-- The commands that have left the channel, in the order they were sent. -/
def drainedOf (effects : List Effect) : List AgentCommand := effects.filterMap drained?

/-- A turn, or the work of a tool, starts here. -/
def Effect.starts : Effect → Bool
  | .event .turnStart | .event (.toolExecutionStart _ _ _) | .executed _ _ => true
  | _ => false

/-- What the handling of a stream leaves: commands drained, events handled and passed on. -/
def Effect.isQuiet : Effect → Bool
  | .drained _ | .streamed _ | .event (.messageStart _) | .event (.messageUpdate _ _) => true
  | _ => false

namespace RunContext

/-- A runtime over a transcript, in front of its first run. -/
def start (transcript : List Message) : RunContext :=
  ⟨transcript, [], ⟨transcript, false, none, [], none⟩, ⟨false, false⟩, []⟩

def record (ctx : RunContext) (effects : List Effect) : RunContext :=
  { ctx with trace := ctx.trace ++ effects }

def send (ctx : RunContext) (e : AgentEvent) : RunContext := ctx.record [.event e]

/-- Publish the transcript. -/
def updateSnapshot (ctx : RunContext) (isStreaming : Bool) (streamingMessage : Option Message)
    (pendingToolCalls : List String) (errorMessage : Option String) : RunContext :=
  { ctx with
    snapshot := ⟨ctx.transcript, isStreaming, streamingMessage, pendingToolCalls, errorMessage⟩ }

def push (ctx : RunContext) (m : Message) : RunContext :=
  { ctx with transcript := ctx.transcript ++ [m] }

/-- Steps of a run push messages and have effects; what was there stays. -/
structure Adds (ctx ctx' : RunContext) (pushed : List Message) (effects : List Effect) :
    Prop where
  transcript : ctx'.transcript = ctx.transcript ++ pushed
  trace : ctx'.trace = ctx.trace ++ effects

theorem Adds.refl (ctx : RunContext) : Adds ctx ctx [] [] := ⟨by simp, by simp⟩

theorem Adds.trans {a b c : RunContext} {ms ns : List Message} {es fs : List Effect}
    (h : Adds a b ms es) (h' : Adds b c ns fs) : Adds a c (ms ++ ns) (es ++ fs) := by
  constructor
  · rw [h'.transcript, h.transcript, List.append_assoc]
  · rw [h'.trace, h.trace, List.append_assoc]

theorem adds_record (ctx : RunContext) (effects : List Effect) :
    Adds ctx (ctx.record effects) [] effects := ⟨by simp [record], rfl⟩

theorem adds_send (ctx : RunContext) (e : AgentEvent) : Adds ctx (ctx.send e) [] [.event e] :=
  adds_record ctx _

theorem adds_push (ctx : RunContext) (m : Message) : Adds ctx (ctx.push m) [m] [] :=
  ⟨rfl, by simp [push]⟩

theorem adds_updateSnapshot (ctx : RunContext) (isStreaming : Bool)
    (streamingMessage : Option Message) (pending : List String) (error : Option String) :
    Adds ctx (ctx.updateSnapshot isStreaming streamingMessage pending error) [] [] :=
  ⟨by simp [updateSnapshot], by simp [updateSnapshot]⟩

end RunContext

@[simp] theorem messageEnds_append (es fs : List Effect) :
    messageEnds (es ++ fs) = messageEnds es ++ messageEnds fs := List.filterMap_append

@[simp] theorem requested_append (es fs : List Effect) :
    requested (es ++ fs) = requested es ++ requested fs := List.filterMap_append

@[simp] theorem executions_append (es fs : List Effect) :
    executions (es ++ fs) = executions es ++ executions fs := List.filterMap_append

@[simp] theorem drainedOf_append (es fs : List Effect) :
    drainedOf (es ++ fs) = drainedOf es ++ drainedOf fs := List.filterMap_append

theorem lastStreamed_append (es fs : List Effect) :
    lastStreamed (es ++ fs) = (lastStreamed fs).or (lastStreamed es) := by
  rw [lastStreamed, List.filterMap_append, List.getLast?_append]
  rfl

/-- Effects of a stream only. -/
def Quiet (effects : List Effect) : Prop := ∀ e ∈ effects, e.isQuiet = true

theorem quiet_singleton {e : Effect} (h : e.isQuiet = true) : Quiet [e] :=
  List.forall_mem_singleton.mpr h

namespace Quiet

theorem append {es fs : List Effect} (h : Quiet es) (h' : Quiet fs) : Quiet (es ++ fs) :=
  List.forall_mem_append.mpr ⟨h, h'⟩

/-- Nothing that a stream does not leave can be found among its effects. -/
theorem filterMap_eq {α : Type} {f : Effect → Option α} {effects : List Effect}
    (h : Quiet effects) (hf : ∀ e, e.isQuiet = true → f e = none) : effects.filterMap f = [] :=
  List.filterMap_eq_nil_iff.mpr fun e he => hf e (h e he)

theorem messageEnds_eq {effects : List Effect} (h : Quiet effects) : messageEnds effects = [] := by
  apply h.filterMap_eq
  intro e he
  unfold messageEnd?
  split
  · cases he
  · rfl

theorem requested_eq {effects : List Effect} (h : Quiet effects) : requested effects = [] := by
  apply h.filterMap_eq
  intro e he
  unfold request?
  split
  · cases he
  · rfl

theorem executions_eq {effects : List Effect} (h : Quiet effects) : executions effects = [] := by
  apply h.filterMap_eq
  intro e he
  unfold executed?
  split
  · cases he
  · rfl

theorem starts_eq {effects : List Effect} (h : Quiet effects) :
    ∀ e ∈ effects, e.starts = false := by
  intro e he
  have hquiet := h e he
  unfold Effect.starts
  split
  · cases hquiet
  · cases hquiet
  · cases hquiet
  · rfl

end Quiet

end Guigu
