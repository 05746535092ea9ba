import Guigu.Core.Message

/-! What the runtime exchanges with providers, tools and its subscribers. -/
namespace Guigu

inductive ThinkingLevel where
  | off | minimal | low | medium | high | xhigh | max
  deriving DecidableEq, Repr

structure Model where
  id : String
  contextWindow : UInt32
  deriving DecidableEq, Repr

structure ToolSpec where
  name : String
  description : String
  parameters : Option Json
  deriving DecidableEq, Repr

structure ProviderContext where
  systemPrompt : String
  messages : List Message
  tools : List ToolSpec
  deriving DecidableEq, Repr

structure ProviderRequest where
  model : Model
  context : ProviderContext
  thinkingLevel : ThinkingLevel
  sessionId : Option String
  deriving DecidableEq, Repr

inductive RetryClass where
  | transient | rateLimited | permanent
  deriving DecidableEq, Repr

/-- A failure to set a stream up; `retryAfter` counts nanoseconds. -/
inductive ProviderError where
  | request (text : String)
  | aborted
  | timeout
  | network (text : String)
  | httpStatus (status : UInt16) (body : String) (retryAfter : Option ℕ)
  | parse (text : String)
  | build (text : String)
  deriving DecidableEq, Repr

namespace ProviderError

def retryClass : ProviderError → RetryClass
  | .network _ | .timeout | .request _ => .transient
  | .aborted | .parse _ | .build _ => .permanent
  | .httpStatus status _ _ =>
    if status = 429 then .rateLimited
    else if 500 ≤ status ∧ status ≤ 599 then .transient
    else if 400 ≤ status ∧ status ≤ 499 then .permanent
    else .transient

def text : ProviderError → String
  | .request t => "Provider request failed: " ++ t
  | .aborted => "Provider request aborted"
  | .timeout => "provider request timed out"
  | .network t => "Network error: " ++ t
  | .httpStatus status body _ => "HTTP status " ++ toString status ++ ": " ++ body
  | .parse t => "Parse error: " ++ t
  | .build t => "Build error: " ++ t

end ProviderError

/-- One event of the stream of an answer. -/
inductive AssistantEvent where
  | textDelta (text : String)
  | thinkingDelta (thinking : String)
  | toolCallStart (id name arguments : String)
  | toolCallDelta (id argumentsDelta : String)
  | toolCallEnd (id : String)
  | done (message : AssistantMessage)
  | error (message : String) (aborted : Bool)
  deriving DecidableEq, Repr

structure ToolResult where
  content : List ToolResultContent
  isError : Bool
  details : Option Json
  deriving DecidableEq, Repr

def ToolResult.error (text : String) : ToolResult := ⟨[.text text], true, none⟩

inductive ResourceScope where
  | readOnly | fileWriter | exclusive
  deriving DecidableEq, Repr

/-- `parametersText` is the debug text of the parameters, which only sizes a request. -/
structure Tool where
  name : String
  description : String
  parameters : Option Json
  parametersText : String
  resourceScope : ResourceScope
  deriving DecidableEq, Repr

def Tool.spec (t : Tool) : ToolSpec := ⟨t.name, t.description, t.parameters⟩

inductive AgentEvent where
  | agentStart
  | agentEnd (messages : List Message)
  | turnStart
  | turnEnd (message : AssistantMessage) (toolResults : List ToolResultMessage)
  | messageStart (message : Message)
  | messageUpdate (message : Message) (assistantEvent : AssistantEvent)
  | messageEnd (message : Message)
  | toolExecutionStart (toolCallId toolName : String) (args : Json)
  | toolExecutionUpdate (toolCallId toolName : String) (args : Json) (partialResult : ToolResult)
  | toolExecutionEnd (toolCallId toolName : String) (result : ToolResult) (isError : Bool)
  deriving DecidableEq, Repr

inductive AgentCommand where
  | prompt (messages : List Message)
  | continue_
  | steer (message : Message)
  | followUp (message : Message)
  | abort
  | reset
  | shutdown
  deriving DecidableEq, Repr

/-- The published state, without the parts that never change. -/
structure AgentSnapshot where
  messages : List Message
  isStreaming : Bool
  streamingMessage : Option Message
  pendingToolCalls : List String
  errorMessage : Option String
  deriving DecidableEq, Repr

end Guigu
