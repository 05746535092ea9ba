import Guigu.Core.MessageJson
import Guigu.Core.Provider
import Guigu.Library.SerdeReturns
import Mathlib.Data.List.Dedup

/-! The JSON form of events and snapshots, and which of them it preserves. -/
namespace Guigu

open Serde

def ToolResult.toJson (r : ToolResult) : Json :=
  .obj [("content", .arr (r.content.map ToolResultContent.toJson)), ("is_error", .bool r.isError),
    ("details", ofOption id r.details)]

def ToolResult.ofJson (j : Json) : Option ToolResult :=
  (fields ["content", "is_error", "details"] j).bind fun
    | [content, isError, details] => do
      return ⟨← required (list ToolResultContent.ofJson) content, ← required bool isError,
        ← maybe some details⟩
    | _ => none

def AssistantMessage.toJson (m : AssistantMessage) : Json := .obj m.members

def ToolResultMessage.toJson (m : ToolResultMessage) : Json := .obj m.members

namespace AssistantEvent

def toJson : AssistantEvent → Json
  | .textDelta text => .obj [("TextDelta", .obj [("text", .str text)])]
  | .thinkingDelta thinking => .obj [("ThinkingDelta", .obj [("thinking", .str thinking)])]
  | .toolCallStart id name arguments =>
    .obj [("ToolCallStart", .obj [("id", .str id), ("name", .str name),
      ("arguments", .str arguments)])]
  | .toolCallDelta id argumentsDelta =>
    .obj [("ToolCallDelta", .obj [("id", .str id), ("arguments_delta", .str argumentsDelta)])]
  | .toolCallEnd id => .obj [("ToolCallEnd", .obj [("id", .str id)])]
  | .done message => .obj [("Done", .obj [("message", message.toJson)])]
  | .error message aborted =>
    .obj [("Error", .obj [("message", .str message), ("aborted", .bool aborted)])]

def variants : List String :=
  ["TextDelta", "ThinkingDelta", "ToolCallStart", "ToolCallDelta", "ToolCallEnd", "Done", "Error"]

def toolCallStartOfJson (j : Json) : Option AssistantEvent :=
  (fields ["id", "name", "arguments"] j).bind fun
    | [id, name, arguments] => do
      return .toolCallStart (← required string id) (← required string name)
        (← required string arguments)
    | _ => none

def ofJson (j : Json) : Option AssistantEvent :=
  (variantOf variants j).bind fun (variant, rest) =>
    if variant = "TextDelta" then (oneField "text" string rest).map .textDelta
    else if variant = "ThinkingDelta" then (oneField "thinking" string rest).map .thinkingDelta
    else if variant = "ToolCallStart" then toolCallStartOfJson rest
    else if variant = "ToolCallDelta" then
      (twoFields "id" string "arguments_delta" string rest).map fun p => .toolCallDelta p.1 p.2
    else if variant = "ToolCallEnd" then (oneField "id" string rest).map .toolCallEnd
    else if variant = "Done" then (oneField "message" AssistantMessage.ofJson rest).map .done
    else (twoFields "message" string "aborted" bool rest).map fun p => .error p.1 p.2

end AssistantEvent

namespace AgentEvent

def members : AgentEvent → List (String × Json)
  | .agentStart => [("type", .str "agent_start")]
  | .agentEnd messages =>
    [("type", .str "agent_end"), ("messages", .arr (messages.map Message.toJson))]
  | .turnStart => [("type", .str "turn_start")]
  | .turnEnd message toolResults =>
    [("type", .str "turn_end"), ("message", message.toJson),
      ("tool_results", .arr (toolResults.map ToolResultMessage.toJson))]
  | .messageStart message => [("type", .str "message_start"), ("message", message.toJson)]
  | .messageUpdate message assistantEvent =>
    [("type", .str "message_update"), ("message", message.toJson),
      ("assistant_event", assistantEvent.toJson)]
  | .messageEnd message => [("type", .str "message_end"), ("message", message.toJson)]
  | .toolExecutionStart toolCallId toolName args =>
    [("type", .str "tool_execution_start"), ("tool_call_id", .str toolCallId),
      ("tool_name", .str toolName), ("args", args)]
  | .toolExecutionUpdate toolCallId toolName args partialResult =>
    [("type", .str "tool_execution_update"), ("tool_call_id", .str toolCallId),
      ("tool_name", .str toolName), ("args", args), ("partial", partialResult.toJson)]
  | .toolExecutionEnd toolCallId toolName result isError =>
    [("type", .str "tool_execution_end"), ("tool_call_id", .str toolCallId),
      ("tool_name", .str toolName), ("result", result.toJson), ("is_error", .bool isError)]

def variants : List String :=
  ["agent_start", "agent_end", "turn_start", "turn_end", "message_start", "message_update",
    "message_end", "tool_execution_start", "tool_execution_update", "tool_execution_end"]

def toolExecutionStartOfJson (j : Json) : Option AgentEvent :=
  (fields ["tool_call_id", "tool_name", "args"] j).bind fun
    | [toolCallId, toolName, args] => do
      return .toolExecutionStart (← required string toolCallId) (← required string toolName)
        (← required value args)
    | _ => none

def toolExecutionUpdateOfJson (j : Json) : Option AgentEvent :=
  (fields ["tool_call_id", "tool_name", "args", "partial"] j).bind fun
    | [toolCallId, toolName, args, partialResult] => do
      return .toolExecutionUpdate (← required string toolCallId) (← required string toolName)
        (← required value args) (← required ToolResult.ofJson partialResult)
    | _ => none

def toolExecutionEndOfJson (j : Json) : Option AgentEvent :=
  (fields ["tool_call_id", "tool_name", "result", "is_error"] j).bind fun
    | [toolCallId, toolName, result, isError] => do
      return .toolExecutionEnd (← required string toolCallId) (← required string toolName)
        (← required ToolResult.ofJson result) (← required bool isError)
    | _ => none

def ofJson (j : Json) : Option AgentEvent :=
  (tagged "type" variants j).bind fun (variant, rest) =>
    if variant = "agent_start" then (unit rest).map fun _ => .agentStart
    else if variant = "agent_end" then
      (oneField "messages" (list Message.ofJson) rest).map .agentEnd
    else if variant = "turn_start" then (unit rest).map fun _ => .turnStart
    else if variant = "turn_end" then
      (twoFields "message" AssistantMessage.ofJson "tool_results" (list ToolResultMessage.ofJson)
        rest).map fun p => .turnEnd p.1 p.2
    else if variant = "message_start" then
      (oneField "message" Message.ofJson rest).map .messageStart
    else if variant = "message_update" then
      (twoFields "message" Message.ofJson "assistant_event" AssistantEvent.ofJson rest).map
        fun p => .messageUpdate p.1 p.2
    else if variant = "message_end" then (oneField "message" Message.ofJson rest).map .messageEnd
    else if variant = "tool_execution_start" then toolExecutionStartOfJson rest
    else if variant = "tool_execution_update" then toolExecutionUpdateOfJson rest
    else toolExecutionEndOfJson rest

end AgentEvent

/-- `AgentSnapshot` with all its fields; the pending calls are a set, in the order in which it is
written. -/
structure PublishedSnapshot where
  systemPrompt : String
  model : Option String
  thinkingLevel : ThinkingLevel
  messages : List Message
  isStreaming : Bool
  streamingMessage : Option Message
  pendingToolCalls : { ids : List String // ids.Nodup }
  errorMessage : Option String

def ThinkingLevel.names : List String := ["Off", "Minimal", "Low", "Medium", "High", "Xhigh", "Max"]

def ThinkingLevel.toString : ThinkingLevel → String
  | .off => "Off"
  | .minimal => "Minimal"
  | .low => "Low"
  | .medium => "Medium"
  | .high => "High"
  | .xhigh => "Xhigh"
  | .max => "Max"

def ThinkingLevel.ofJson (j : Json) : Option ThinkingLevel :=
  (unitVariantOf names j).map fun name =>
    if name = "Off" then .off
    else if name = "Minimal" then .minimal
    else if name = "Low" then .low
    else if name = "Medium" then .medium
    else if name = "High" then .high
    else if name = "Xhigh" then .xhigh
    else .max

/-- A set: what is listed twice is in it once. -/
def setOfJson (j : Json) : Option { ids : List String // ids.Nodup } :=
  (list string j).map fun ids => ⟨ids.dedup, ids.nodup_dedup⟩

namespace PublishedSnapshot

def toJson (s : PublishedSnapshot) : Json :=
  .obj [("system_prompt", .str s.systemPrompt), ("model", ofOption .str s.model),
    ("thinking_level", .str s.thinkingLevel.toString),
    ("messages", .arr (s.messages.map Message.toJson)), ("is_streaming", .bool s.isStreaming),
    ("streaming_message", ofOption Message.toJson s.streamingMessage),
    ("pending_tool_calls", .arr (s.pendingToolCalls.1.map .str)),
    ("error_message", ofOption .str s.errorMessage)]

def ofJson (j : Json) : Option PublishedSnapshot :=
  (fields ["system_prompt", "model", "thinking_level", "messages", "is_streaming",
    "streaming_message", "pending_tool_calls", "error_message"] j).bind fun
    | [systemPrompt, model, thinkingLevel, messages, isStreaming, streamingMessage,
        pendingToolCalls, errorMessage] => do
      return ⟨← required string systemPrompt, ← maybe string model,
        ← required ThinkingLevel.ofJson thinkingLevel, ← required (list Message.ofJson) messages,
        ← required bool isStreaming, ← maybe Message.ofJson streamingMessage,
        ← required setOfJson pendingToolCalls, ← maybe string errorMessage⟩
    | _ => none

end PublishedSnapshot

/-! ### What comes back -/

/-- Nothing in the answer would come back as something else: a cost without a JSON text, or another
reason under the name of a known one. -/
def AssistantMessage.Intact (m : AssistantMessage) : Prop :=
  (∀ u ∈ m.usage, u.cost ≠ none) ∧ ∀ r ∈ m.stopReason, r.Storable

/-- Details that are `null` would come back as none. -/
def ToolResultMessage.Intact (m : ToolResultMessage) : Prop := m.details ≠ some .null

def Message.Intact : Message → Prop
  | .user _ => True
  | .assistant m => m.Intact
  | .toolResult m => m.Intact

def ToolResult.Intact (r : ToolResult) : Prop := r.details ≠ some .null

def AssistantEvent.Intact : AssistantEvent → Prop
  | .done m => m.Intact
  | _ => True

def AgentEvent.Intact : AgentEvent → Prop
  | .agentStart | .turnStart | .toolExecutionStart _ _ _ => True
  | .agentEnd messages => ∀ m ∈ messages, m.Intact
  | .turnEnd m results => m.Intact ∧ ∀ r ∈ results, r.Intact
  | .messageStart m | .messageEnd m => m.Intact
  | .messageUpdate m e => m.Intact ∧ e.Intact
  | .toolExecutionUpdate _ _ _ r => r.Intact
  | .toolExecutionEnd _ _ r _ => r.Intact

def PublishedSnapshot.Intact (s : PublishedSnapshot) : Prop :=
  (∀ m ∈ s.messages, m.Intact) ∧ ∀ m ∈ s.streamingMessage, m.Intact

theorem Usage.ofJson_toJson_iff {u : Usage} : Usage.ofJson u.toJson = some u ↔ u.cost ≠ none := by
  obtain ⟨input, output, cacheRead, cacheWrite, totalTokens, cost⟩ := u
  cases cost with
  | none => simp [Usage.ofJson, Usage.toJson, fields, field, required, costToJson, float]
  | some n => simp [Usage.ofJson, Usage.toJson, fields, field, required, costToJson, float]

theorem option_string (o : Option String) : option string (ofOption .str o) = some o :=
  option_ofOption fun s _ => ⟨rfl, by simp⟩

theorem option_details_iff {o : Option Json} :
    option some (ofOption id o) = some o ↔ o ≠ some .null := by
  rw [option_ofOption_iff]
  constructor
  · intro h hnull
    exact (h .null hnull).2 rfl
  · rintro h j hj
    refine ⟨rfl, ?_⟩
    rintro rfl
    exact h hj

theorem AssistantMessage.ofJson_toJson_iff {m : AssistantMessage} :
    AssistantMessage.ofJson m.toJson = some m ↔ m.Intact := by
  have hcontent := list_map m.content fun c _ => AssistantContent.ofJson_toJson c
  have husage : option Usage.ofJson (ofOption Usage.toJson m.usage) = some m.usage ↔
      ∀ u ∈ m.usage, u.cost ≠ none := by
    rw [option_ofOption_iff]
    refine forall₂_congr fun u hu => ?_
    rw [Usage.ofJson_toJson_iff, and_iff_left]
    exact Json.noConfusion
  have hreason : option StopReason.ofJson (ofOption (fun r => .str r.toString) m.stopReason) =
      some m.stopReason ↔ ∀ r ∈ m.stopReason, r.Storable := by
    rw [option_ofOption_iff]
    refine forall₂_congr fun r hr => ?_
    rw [and_iff_left (by exact Json.noConfusion)]
    exact Option.some_inj
  rw [AssistantMessage.Intact, ← husage, ← hreason]
  obtain ⟨content, model, usage, stopReason, errorMessage, timestamp⟩ := m
  simp [AssistantMessage.ofJson, AssistantMessage.toJson, AssistantMessage.members, fields, field,
    required, maybe, hcontent, option_string, Option.bind_eq_some_iff]

theorem ToolResultMessage.ofJson_toJson_iff {m : ToolResultMessage} :
    ToolResultMessage.ofJson m.toJson = some m ↔ m.Intact := by
  have hcontent := list_map m.content fun c _ => ToolResultContent.ofJson_toJson c
  rw [ToolResultMessage.Intact, ← option_details_iff]
  obtain ⟨toolCallId, toolName, isError, content, details, timestamp⟩ := m
  simp [ToolResultMessage.ofJson, ToolResultMessage.toJson, ToolResultMessage.members, fields,
    field, required, maybe, hcontent, Option.bind_eq_some_iff]

theorem Message.ofJson_toJson_iff {m : Message} : Message.ofJson m.toJson = some m ↔ m.Intact := by
  cases m with
  | user m => simp [Message.ofJson_toJson (m := .user m) trivial, Message.Intact]
  | assistant m =>
    rw [Message.ofJson_assistant, Message.Intact, ← AssistantMessage.ofJson_toJson_iff]
    simp [AssistantMessage.toJson]
  | toolResult m =>
    rw [Message.ofJson_toolResult, Message.Intact, ← ToolResultMessage.ofJson_toJson_iff]
    simp [ToolResultMessage.toJson]

theorem Message.toJson_ne_null (m : Message) : m.toJson ≠ .null := by
  cases m <;> exact Json.noConfusion

theorem list_message_iff {ms : List Message} :
    list Message.ofJson (.arr (ms.map Message.toJson)) = some ms ↔ ∀ m ∈ ms, m.Intact := by
  simp [Message.ofJson_toJson_iff]

theorem ToolResult.ofJson_toJson_iff {r : ToolResult} :
    ToolResult.ofJson r.toJson = some r ↔ r.Intact := by
  have hcontent := list_map r.content fun c _ => ToolResultContent.ofJson_toJson c
  rw [ToolResult.Intact, ← option_details_iff]
  obtain ⟨content, isError, details⟩ := r
  simp [ToolResult.ofJson, ToolResult.toJson, fields, field, required, maybe, hcontent,
    Option.bind_eq_some_iff]

theorem AssistantEvent.ofJson_toJson_iff {e : AssistantEvent} :
    AssistantEvent.ofJson e.toJson = some e ↔ e.Intact := by
  cases e with
  | done m =>
    rw [Intact, ← AssistantMessage.ofJson_toJson_iff]
    simp [ofJson, toJson, variantOf, variants, oneField, fields, field, required]
  | toolCallStart id name arguments =>
    simp [ofJson, toJson, variantOf, variants, toolCallStartOfJson, fields, field, required, Intact]
  | _ =>
    simp [ofJson, toJson, variantOf, variants, oneField, twoFields, fields, field, required, Intact]

theorem AgentEvent.ofJson_members_iff {e : AgentEvent} :
    AgentEvent.ofJson (.obj e.members) = some e ↔ e.Intact := by
  cases e with
  | agentStart | turnStart =>
    simp [ofJson, members, tagged, field, variant, variants, unit, Intact]
  | agentEnd messages =>
    rw [Intact, ← list_message_iff]
    simp [ofJson, members, tagged, field, variant, variants, oneField, fields, required]
  | turnEnd m results =>
    have hresults : list ToolResultMessage.ofJson
        (.arr (results.map ToolResultMessage.toJson)) = some results ↔ ∀ r ∈ results, r.Intact := by
      simp [ToolResultMessage.ofJson_toJson_iff]
    rw [Intact, ← AssistantMessage.ofJson_toJson_iff, ← hresults]
    simp [ofJson, members, tagged, field, variant, variants, twoFields, fields, required,
      Option.bind_eq_some_iff]
  | messageStart m | messageEnd m =>
    rw [Intact, ← Message.ofJson_toJson_iff]
    simp [ofJson, members, tagged, field, variant, variants, oneField, fields, required]
  | messageUpdate m e =>
    rw [Intact, ← Message.ofJson_toJson_iff, ← AssistantEvent.ofJson_toJson_iff]
    simp [ofJson, members, tagged, field, variant, variants, twoFields, fields, required,
      Option.bind_eq_some_iff]
  | toolExecutionStart id name args =>
    simp [ofJson, members, tagged, field, variant, variants, toolExecutionStartOfJson, fields,
      required, value, Intact]
  | toolExecutionUpdate id name args r =>
    rw [Intact, ← ToolResult.ofJson_toJson_iff]
    simp [ofJson, members, tagged, field, variant, variants, toolExecutionUpdateOfJson, fields,
      required, value, Option.bind_eq_some_iff]
  | toolExecutionEnd id name r isError =>
    rw [Intact, ← ToolResult.ofJson_toJson_iff]
    simp [ofJson, members, tagged, field, variant, variants, toolExecutionEndOfJson, fields,
      required, Option.bind_eq_some_iff]

theorem ThinkingLevel.ofJson_toString (l : ThinkingLevel) :
    ThinkingLevel.ofJson (.str l.toString) = some l := by
  cases l <;> simp [ThinkingLevel.ofJson, unitVariantOf, names, toString]

theorem setOfJson_map (s : { ids : List String // ids.Nodup }) :
    setOfJson (.arr (s.1.map .str)) = some s := by
  have hlist : list string (.arr (s.1.map .str)) = some s.1 := list_map s.1 fun _ _ => rfl
  rw [setOfJson, hlist, Option.map_some]
  exact congrArg some (Subtype.ext s.2.dedup)

theorem PublishedSnapshot.ofJson_toJson_iff {s : PublishedSnapshot} :
    PublishedSnapshot.ofJson s.toJson = some s ↔ s.Intact := by
  have hstreaming : option Message.ofJson (ofOption Message.toJson s.streamingMessage) =
      some s.streamingMessage ↔ ∀ m ∈ s.streamingMessage, m.Intact := by
    rw [option_ofOption_iff]
    refine forall₂_congr fun m hm => ?_
    rw [and_iff_left m.toJson_ne_null, Message.ofJson_toJson_iff]
  rw [Intact, ← list_message_iff, ← hstreaming]
  obtain ⟨systemPrompt, model, level, messages, isStreaming, streaming, pending, error⟩ := s
  simp [ofJson, toJson, fields, field, required, maybe, option_string, setOfJson_map,
    ThinkingLevel.ofJson_toString, Option.bind_eq_some_iff]

end Guigu
