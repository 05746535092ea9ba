import Guigu.Library.JsonRoundTrip

/-! The messages of a conversation. -/
namespace Guigu

structure ImageContent where
  data : String
  mimeType : String
  deriving DecidableEq, Repr

inductive UserContent where
  | text (text : String)
  | image (image : ImageContent)
  deriving DecidableEq, Repr

structure UserMessage where
  content : List UserContent
  timestamp : UInt64
  deriving DecidableEq, Repr

structure ToolCall where
  id : String
  name : String
  arguments : String
  deriving DecidableEq, Repr

inductive AssistantContent where
  | text (text : String)
  | thinking (text : String)
  | toolCall (call : ToolCall)
  deriving DecidableEq, Repr

/-- The cost is a double: `none` stands for the infinities and for what is no number, which
have no JSON text. -/
structure Usage where
  input : UInt64
  output : UInt64
  cacheRead : UInt64
  cacheWrite : UInt64
  totalTokens : UInt64
  cost : Option Json.Numeral
  deriving DecidableEq, Repr

inductive StopReason where
  | completed | length | error | aborted | pending
  | other (s : String)
  deriving DecidableEq, Repr

def StopReason.fromString (s : String) : StopReason :=
  if s = "completed" then .completed
  else if s = "length" then .length
  else if s = "error" then .error
  else if s = "aborted" then .aborted
  else if s = "pending" then .pending
  else .other s

structure AssistantMessage where
  content : List AssistantContent
  model : Option String
  usage : Option Usage
  stopReason : Option StopReason
  errorMessage : Option String
  timestamp : UInt64
  deriving DecidableEq, Repr

inductive ToolResultContent where
  | text (text : String)
  | image (image : ImageContent)
  deriving DecidableEq, Repr

structure ToolResultMessage where
  toolCallId : String
  toolName : String
  isError : Bool
  content : List ToolResultContent
  details : Option Json
  timestamp : UInt64
  deriving DecidableEq, Repr

inductive Message where
  | user (m : UserMessage)
  | assistant (m : AssistantMessage)
  | toolResult (m : ToolResultMessage)
  deriving DecidableEq, Repr

/-- The first message of a session. -/
def helloMessage : Message := .user ⟨[.text "hi"], 0⟩

end Guigu
