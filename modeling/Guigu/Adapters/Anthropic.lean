import Guigu.Adapters.Acc
import Guigu.Adapters.Sse
import Guigu.Library.Serde

/-! The events of an Anthropic stream. The text for what is no JSON is the reader's. -/
namespace Guigu.Anthropic

open Serde

variable (jsonError : String → String)

abbrev Mapped := Except ProviderError (List AssistantEvent × Acc)

/-- A part of an event that must be there. -/
def demand {α : Type*} (found : Option α) (text : String) : Except ProviderError α :=
  match found with
  | some a => .ok a
  | none => .error (.parse text)

theorem demand_eq_ok {α : Type*} {found : Option α} {text : String} {a : α} :
    demand found text = .ok a ↔ found = some a := by
  cases found <;> simp [demand]

/-- The debug text of what is known of a block. -/
def kindText : Option SegmentKind → String
  | none => "None"
  | some (.text i) => "Some(Text(" ++ toString i ++ "))"
  | some (.thinking i) => "Some(Thinking(" ++ toString i ++ "))"
  | some (.toolCall i) => "Some(ToolCall(" ++ toString i ++ "))"

def blockIndex (v : Json) (event : String) : Except ProviderError ℕ :=
  demand (getU64 "index" v) (event ++ " missing valid index")

def startToolUse (index : ℕ) (block : Json) (acc : Acc) : Mapped := do
  let id ← demand (getString "id" block) "content_block_start tool_use missing id"
  let name ← demand (getString "name" block) "content_block_start tool_use missing name"
  let r := acc.startToolCall id name
  return ([.toolCallStart id name ""], r.2.noteBlock index (.toolCall r.1))

def startBlock (index : ℕ) (blockType : String) (block : Json) (acc : Acc) : Mapped :=
  if blockType = "tool_use" then startToolUse index block acc
  else if blockType = "text" then
    let r := acc.startTextBlock
    .ok ([], r.2.noteBlock index (.text r.1))
  else if blockType = "thinking" then
    let r := acc.startThinkingBlock
    .ok ([], r.2.noteBlock index (.thinking r.1))
  else .error (.parse ("content_block_start unknown block type: " ++ blockType))

def handleBlockStart (v : Json) (acc : Acc) : Mapped := do
  let index ← blockIndex v "content_block_start"
  if (acc.blockKind index).isSome then
    .error (.parse ("duplicate content_block_start at index " ++ toString index))
  else
    let block ← demand (get "content_block" v) "content_block_start missing content_block"
    let blockType ← demand (getString "type" block)
      "content_block_start missing content_block.type"
    startBlock index blockType block acc

def textDelta (index : ℕ) (delta : Json) (acc : Acc) : Mapped := do
  let text ← demand (getString "text" delta) "text_delta missing text"
  match acc.blockKind index with
  | some (.text i) => .ok ([.textDelta text], acc.appendTextBlock i text)
  | other => .error (.parse ("text_delta for block " ++ toString index ++
      " without text block start (kind: " ++ kindText other ++ ")"))

def thinkingDelta (index : ℕ) (delta : Json) (acc : Acc) : Mapped := do
  let thinking ← demand (getString "thinking" delta) "thinking_delta missing thinking"
  match acc.blockKind index with
  | some (.thinking i) => .ok ([.thinkingDelta thinking], acc.appendThinkingBlock i thinking)
  | other => .error (.parse ("thinking_delta for block " ++ toString index ++
      " without thinking block start (kind: " ++ kindText other ++ ")"))

def inputJsonDelta (index : ℕ) (delta : Json) (acc : Acc) : Mapped := do
  let args ← demand (getString "partial_json" delta) "input_json_delta missing partial_json"
  match acc.blockKind index with
  | some (.toolCall i) => do
    let tc ← demand acc.toolCalls[i]?
      ("tool call " ++ toString i ++ " missing for block " ++ toString index)
    return ([.toolCallDelta tc.id args], acc.appendArguments i args)
  | other => .error (.parse ("input_json_delta for block " ++ toString index ++
      " without tool_use block start (kind: " ++ kindText other ++ ")"))

def handleBlockDelta (v : Json) (acc : Acc) : Mapped := do
  let index ← blockIndex v "content_block_delta"
  let delta ← demand (get "delta" v) "content_block_delta missing delta"
  let deltaType ← demand (getString "type" delta) "content_block_delta missing delta.type"
  if deltaType = "text_delta" then textDelta index delta acc
  else if deltaType = "thinking_delta" then thinkingDelta index delta acc
  else if deltaType = "input_json_delta" then inputJsonDelta index delta acc
  else .error (.parse ("content_block_delta unknown delta type: " ++ deltaType))

def handleBlockStop (v : Json) (acc : Acc) : Mapped := do
  let index ← blockIndex v "content_block_stop"
  match acc.blockKind index with
  | some (.toolCall i) => do
    let tc ← demand acc.toolCalls[i]?
      ("tool call " ++ toString i ++ " missing for block " ++ toString index)
    if tc.done then
      .error (.parse ("duplicate content_block_stop for tool call " ++ tc.id ++
        " at block index " ++ toString index))
    else return ([.toolCallEnd tc.id], acc.endToolCall tc.id)
  | some (.text _) | some (.thinking _) => .ok ([], acc)
  | none => .error (.parse ("content_block_stop for unknown block index " ++ toString index))

/-- The input tokens that the start of the message has named come first. -/
def mapUsage (v : Json) (accInput : UInt64) : Usage :=
  let input := if 0 < accInput then accInput
    else UInt64.ofNat ((getU64 "input_tokens" v).getD 0)
  let output := UInt64.ofNat ((getU64 "output_tokens" v).getD 0)
  { input := input
    output := output
    cacheRead := UInt64.ofNat ((getU64 "cache_read_input_tokens" v).getD 0)
    cacheWrite := UInt64.ofNat ((getU64 "cache_creation_input_tokens" v).getD 0)
    totalTokens := input + output
    cost := noCost }

def mapStopReason (s : String) : StopReason :=
  if s = "end_turn" ∨ s = "stop_sequence" ∨ s = "tool_use" then .completed
  else if s = "max_tokens" then .length
  else if s = "refusal" then .error
  else .other s

def messageStart (v : Json) (acc : Acc) : Acc :=
  match ((get "message" v).bind (get "usage")).bind (getU64 "input_tokens") with
  | some input => { acc with inputTokens := UInt64.ofNat input }
  | none => acc

def messageDelta (v : Json) (acc : Acc) : Acc :=
  let acc := match (get "delta" v).bind (getString "stop_reason") with
    | some reason => { acc with stopReason := some (mapStopReason reason) }
    | none => acc
  match nonNull (get "usage" v) with
  | some usage => { acc with usage := some (mapUsage usage acc.inputTokens) }
  | none => acc

/-- An event by its type; unknown types are skipped. -/
def handle (eventType : String) (v : Json) (acc : Acc) : Mapped :=
  if eventType = "content_block_start" then handleBlockStart v acc
  else if eventType = "content_block_delta" then handleBlockDelta v acc
  else if eventType = "content_block_stop" then handleBlockStop v acc
  else if eventType = "message_start" then .ok ([], messageStart v acc)
  else if eventType = "message_delta" then .ok ([], messageDelta v acc)
  else if eventType = "message_stop" then .ok ([.done acc.buildMessage], acc)
  else .ok ([], acc)

def dispatch (eventType data : String) (acc : Acc) : Mapped :=
  match fromStr data.toList with
  | none => .error (.parse (jsonError data))
  | some v => handle eventType v acc

/-- An event without a name has its type in the data. -/
def mapEvent (sse : SseEvent) (acc : Acc) : Mapped :=
  match sse with
  | .named event data => dispatch jsonError event data acc
  | .data data =>
    match fromStr data.toList with
    | none => .error (.parse (jsonError data))
    | some v => dispatch jsonError ((getString "type" v).getD "") data acc
  | .done => .ok ([.done acc.buildMessage], acc)

end Guigu.Anthropic
