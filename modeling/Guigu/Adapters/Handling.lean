import Guigu.Adapters.Stream
import Guigu.Library.Panicking

/-! The adapters with what can stop them short: tables are grown to an index and looked up there,
and sums have to fit. `room` is the most entries that a table can be given. What is refused leaves
the answer as far as it has come. -/
namespace Guigu

open Serde Panicking

inductive Panic where
  | overflow
  | capacity
  | outOfBounds
  deriving DecidableEq, Repr

abbrev Handling (α : Type) : Type := Panicking Panic Acc ProviderError α

namespace Handling

variable {α : Type}

def refuse (text : String) : Handling α := throw (.parse text)

def require (found : Option α) (text : String) : Handling α := demand found (.parse text)

def addUsize (a b : ℕ) : Handling ℕ :=
  if a + b < 2 ^ 64 then pure (a + b) else panic .overflow

def addU64 (a b : UInt64) : Handling UInt64 :=
  if a.toNat + b.toNat < 2 ^ 64 then pure (a + b) else panic .overflow

/-- The element of an index that must be in bounds. -/
def entry (xs : List α) (i : ℕ) : Handling α :=
  match xs[i]? with
  | some a => pure a
  | none => panic .outOfBounds

def store (xs : List (Option α)) (i : ℕ) (a : α) : Handling (List (Option α)) :=
  if i < xs.length then pure (xs.set i (some a)) else panic .outOfBounds

def appendTextBlock (i : ℕ) (text : String) : Handling Unit := do
  let acc ← MonadState.get
  if i < acc.texts.length then set (acc.appendTextBlock i text) else panic .outOfBounds

def appendThinkingBlock (i : ℕ) (thinking : String) : Handling Unit := do
  let acc ← MonadState.get
  if i < acc.thinkings.length then set (acc.appendThinkingBlock i thinking)
  else panic .outOfBounds

def appendArguments (i : ℕ) (args : String) : Handling Unit := do
  let acc ← MonadState.get
  if i < acc.toolCalls.length then set (acc.appendArguments i args) else panic .outOfBounds

def textBlock : Handling ℕ := do
  match Acc.firstText? (← MonadState.get).segments with
  | some i => pure i
  | none => modifyGet Acc.startTextBlock

def thinkingBlock : Handling ℕ := do
  match Acc.firstThinking? (← MonadState.get).segments with
  | some i => pure i
  | none => modifyGet Acc.startThinkingBlock

def appendText (text : String) : Handling Unit := do appendTextBlock (← textBlock) text

def appendThinking (thinking : String) : Handling Unit := do
  appendThinkingBlock (← thinkingBlock) thinking

variable (room : ℕ)

/-- Makes a table longer, where there is room. -/
def resize (xs : List (Option α)) (n : ℕ) : Handling (List (Option α)) :=
  if n ≤ room then pure (xs ++ List.replicate (n - xs.length) none) else panic .capacity

/-- A table with an entry for the index. -/
def reach (xs : List (Option α)) (i : ℕ) : Handling (List (Option α)) :=
  if xs.length ≤ i then do resize room xs (← addUsize i 1) else pure xs

def noteBlock (index : ℕ) (kind : SegmentKind) : Handling Unit := do
  let acc ← MonadState.get
  let table ← reach room acc.blockKinds index
  set { acc with blockKinds := ← store table index kind }

def mapToolIndex (providerIndex localIndex : ℕ) : Handling Unit := do
  let acc ← MonadState.get
  let table ← reach room acc.toolIndexMap providerIndex
  set { acc with toolIndexMap := table }
  match ← entry table providerIndex with
  | none => do set { acc with toolIndexMap := ← store table providerIndex localIndex }
  | some _ => refuse ("duplicate tool_call start at provider index " ++ toString providerIndex)

/-! ### Anthropic -/

namespace Anthropic

def blockIndex (v : Json) (event : String) : Handling ℕ :=
  require (getU64 "index" v) (event ++ " missing valid index")

def startToolUse (index : ℕ) (block : Json) : Handling (List AssistantEvent) := do
  let id ← require (getString "id" block) "content_block_start tool_use missing id"
  let name ← require (getString "name" block) "content_block_start tool_use missing name"
  let i ← modifyGet (·.startToolCall id name)
  noteBlock room index (.toolCall i)
  return [.toolCallStart id name ""]

def startText (index : ℕ) : Handling (List AssistantEvent) := do
  let i ← modifyGet Acc.startTextBlock
  noteBlock room index (.text i)
  return []

def startThinking (index : ℕ) : Handling (List AssistantEvent) := do
  let i ← modifyGet Acc.startThinkingBlock
  noteBlock room index (.thinking i)
  return []

def startBlock (index : ℕ) (blockType : String) (block : Json) :
    Handling (List AssistantEvent) :=
  if blockType = "tool_use" then startToolUse room index block
  else if blockType = "text" then startText room index
  else if blockType = "thinking" then startThinking room index
  else refuse ("content_block_start unknown block type: " ++ blockType)

def handleBlockStart (v : Json) : Handling (List AssistantEvent) := do
  let index ← blockIndex v "content_block_start"
  let acc ← MonadState.get
  if (acc.blockKind index).isSome then
    refuse ("duplicate content_block_start at index " ++ toString index)
  else
    let block ← require (Serde.get "content_block" v) "content_block_start missing content_block"
    let blockType ← require (getString "type" block)
      "content_block_start missing content_block.type"
    startBlock room index blockType block

def textDelta (index : ℕ) (delta : Json) : Handling (List AssistantEvent) := do
  let text ← require (getString "text" delta) "text_delta missing text"
  match (← MonadState.get).blockKind index with
  | some (.text i) => do
    appendTextBlock i text
    return [.textDelta text]
  | other => refuse ("text_delta for block " ++ toString index ++
      " without text block start (kind: " ++ Guigu.Anthropic.kindText other ++ ")")

def thinkingDelta (index : ℕ) (delta : Json) : Handling (List AssistantEvent) := do
  let thinking ← require (getString "thinking" delta) "thinking_delta missing thinking"
  match (← MonadState.get).blockKind index with
  | some (.thinking i) => do
    appendThinkingBlock i thinking
    return [.thinkingDelta thinking]
  | other => refuse ("thinking_delta for block " ++ toString index ++
      " without thinking block start (kind: " ++ Guigu.Anthropic.kindText other ++ ")")

def inputJsonDelta (index : ℕ) (delta : Json) : Handling (List AssistantEvent) := do
  let args ← require (getString "partial_json" delta) "input_json_delta missing partial_json"
  let acc ← MonadState.get
  match acc.blockKind index with
  | some (.toolCall i) => do
    let tc ← require acc.toolCalls[i]?
      ("tool call " ++ toString i ++ " missing for block " ++ toString index)
    appendArguments i args
    return [.toolCallDelta tc.id args]
  | other => refuse ("input_json_delta for block " ++ toString index ++
      " without tool_use block start (kind: " ++ Guigu.Anthropic.kindText other ++ ")")

def handleBlockDelta (v : Json) : Handling (List AssistantEvent) := do
  let index ← blockIndex v "content_block_delta"
  let delta ← require (Serde.get "delta" v) "content_block_delta missing delta"
  let deltaType ← require (getString "type" delta) "content_block_delta missing delta.type"
  if deltaType = "text_delta" then textDelta index delta
  else if deltaType = "thinking_delta" then thinkingDelta index delta
  else if deltaType = "input_json_delta" then inputJsonDelta index delta
  else refuse ("content_block_delta unknown delta type: " ++ deltaType)

def handleBlockStop (v : Json) : Handling (List AssistantEvent) := do
  let index ← blockIndex v "content_block_stop"
  let acc ← MonadState.get
  match acc.blockKind index with
  | some (.toolCall i) => do
    let tc ← require acc.toolCalls[i]?
      ("tool call " ++ toString i ++ " missing for block " ++ toString index)
    if tc.done then
      refuse ("duplicate content_block_stop for tool call " ++ tc.id ++
        " at block index " ++ toString index)
    else do
      modify (·.endToolCall tc.id)
      return [.toolCallEnd tc.id]
  | some (.text _) | some (.thinking _) => return []
  | none => refuse ("content_block_stop for unknown block index " ++ toString index)

def mapUsage (v : Json) (accInput : UInt64) : Handling Usage := do
  let input := if 0 < accInput then accInput
    else UInt64.ofNat ((getU64 "input_tokens" v).getD 0)
  let output := UInt64.ofNat ((getU64 "output_tokens" v).getD 0)
  let total ← addU64 input output
  return {
    input := input
    output := output
    cacheRead := UInt64.ofNat ((getU64 "cache_read_input_tokens" v).getD 0)
    cacheWrite := UInt64.ofNat ((getU64 "cache_creation_input_tokens" v).getD 0)
    totalTokens := total
    cost := noCost }

def recordStopReason (v : Json) (acc : Acc) : Acc :=
  match (Serde.get "delta" v).bind (getString "stop_reason") with
  | some reason => { acc with stopReason := some (Guigu.Anthropic.mapStopReason reason) }
  | none => acc

def recordUsage (v : Json) : Handling Unit :=
  match nonNull (Serde.get "usage" v) with
  | some usage => do
    let acc ← MonadState.get
    let usage ← mapUsage usage acc.inputTokens
    set { acc with usage := some usage }
  | none => pure ()

def messageDelta (v : Json) : Handling (List AssistantEvent) := do
  modify (recordStopReason v)
  recordUsage v
  return []

def handle (eventType : String) (v : Json) : Handling (List AssistantEvent) :=
  if eventType = "content_block_start" then handleBlockStart room v
  else if eventType = "content_block_delta" then handleBlockDelta v
  else if eventType = "content_block_stop" then handleBlockStop v
  else if eventType = "message_start" then
    modifyGet fun acc => ([], Guigu.Anthropic.messageStart v acc)
  else if eventType = "message_delta" then messageDelta v
  else if eventType = "message_stop" then modifyGet fun acc => ([.done acc.buildMessage], acc)
  else return []

def dispatch (jsonError : String → String) (eventType data : String) :
    Handling (List AssistantEvent) := do
  let v ← require (fromStr data.toList) (jsonError data)
  handle room eventType v

def mapEvent (jsonError : String → String) : SseEvent → Handling (List AssistantEvent)
  | .named event data => dispatch room jsonError event data
  | .data data => do
    let v ← require (fromStr data.toList) (jsonError data)
    dispatch room jsonError ((getString "type" v).getD "") data
  | .done => modifyGet fun acc => ([.done acc.buildMessage], acc)

end Anthropic

/-! ### OpenAI -/

namespace OpenAi

/-- The tokens are added up even where the total is given. -/
def mapUsage (v : Json) : Handling Usage := do
  let input := UInt64.ofNat ((getU64 "prompt_tokens" v).getD 0)
  let output := UInt64.ofNat ((getU64 "completion_tokens" v).getD 0)
  let cacheRead := ((Serde.get "prompt_tokens_details" v).bind (getU64 "cached_tokens")).getD 0
  let sum ← addU64 input output
  return {
    input := input
    output := output
    cacheRead := UInt64.ofNat cacheRead
    cacheWrite := 0
    totalTokens := ((getU64 "total_tokens" v).map UInt64.ofNat).getD sum
    cost := noCost }

def mapText (delta : Json) : Handling (List AssistantEvent) :=
  match Guigu.OpenAi.nonEmpty (getString "content" delta) with
  | some text => do
    appendText text
    return [.textDelta text]
  | none => return []

def mapThinking (delta : Json) : Handling (List AssistantEvent) :=
  match Guigu.OpenAi.nonEmpty (getString "reasoning_content" delta) with
  | some thinking => do
    appendThinking thinking
    return [.thinkingDelta thinking]
  | none => return []

def locate (index : ℕ) (id name : String) : Handling (List AssistantEvent × ℕ) := do
  let acc ← MonadState.get
  if id ≠ "" then
    if (acc.toolLocalIndex index).isSome then
      refuse ("duplicate tool_call start at provider index " ++ toString index)
    else
      let i ← modifyGet (·.startToolCall id name)
      mapToolIndex room index i
      return ([.toolCallStart id name ""], i)
  else
    let i ← require (acc.toolLocalIndex index)
      ("tool_call continuation with unknown provider index " ++ toString index)
    return ([], i)

def mapToolCall (tc : Json) : Handling (List AssistantEvent) := do
  let index ← require (getU64 "index" tc) "tool_call chunk missing valid index"
  let function ← require (Serde.get "function" tc) "tool_call chunk missing function"
  let located ← locate room index ((getString "id" tc).getD "")
    ((getString "name" function).getD "")
  let args := (getString "arguments" function).getD ""
  let more ← modifyGet (Guigu.OpenAi.mapArguments located.2 args)
  return located.1 ++ more

def mapToolCalls : List Json → Handling (List AssistantEvent)
  | [] => return []
  | tc :: tcs => do
    let first ← mapToolCall room tc
    let rest ← mapToolCalls tcs
    return first ++ rest

def mapChoice (choice : Json) : Handling (List AssistantEvent) := do
  let delta := (Serde.get "delta" choice).getD .null
  let text ← mapText delta
  let thinking ← mapThinking delta
  let calls ← mapToolCalls room (((Serde.get "tool_calls" delta).bind array).getD [])
  let finish ← modifyGet (Guigu.OpenAi.mapFinish choice)
  return text ++ thinking ++ calls ++ finish

def mapFirstChoice (v : Json) : Handling (List AssistantEvent) :=
  match ((Serde.get "choices" v).bind array).bind List.head? with
  | some choice => mapChoice room choice
  | none => return []

def recordUsage (v : Json) : Handling Unit :=
  match nonNull (Serde.get "usage" v) with
  | some usage => do
    let usage ← mapUsage usage
    modify fun acc => { acc with usage := some usage }
  | none => pure ()

def mapChunk (jsonError : String → String) (data : String) :
    Handling (List AssistantEvent) := do
  let v ← require (fromStr data.toList) (jsonError data)
  let events ← mapFirstChoice room v
  recordUsage v
  return events

def mapEvent (jsonError : String → String) : SseEvent → Handling (List AssistantEvent)
  | .data data | .named _ data => mapChunk room jsonError data
  | .done => modifyGet fun acc => ([.done acc.buildMessage], acc)

end OpenAi

end Handling

/-- `map_event` of a provider's adapter. -/
def Adapter.handling (room : ℕ) (jsonError : String → String) :
    Adapter → SseEvent → Handling (List AssistantEvent)
  | .openAi => Handling.OpenAi.mapEvent room jsonError
  | .anthropic => Handling.Anthropic.mapEvent room jsonError

end Guigu
