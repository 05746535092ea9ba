import Guigu.Adapters.Acc
import Guigu.Adapters.Sse
import Guigu.Library.Serde

/-! The events of an OpenAI stream. The text for what is no JSON is the reader's. -/
namespace Guigu.OpenAi

open Serde

variable (jsonError : String → String)

/-- What mapping an event yields: events to hand out, and the answer so far. -/
abbrev Mapped := Except ProviderError (List AssistantEvent × Acc)

def mapUsage (v : Json) : Usage :=
  let input := (getU64 "prompt_tokens" v).getD 0
  let output := (getU64 "completion_tokens" v).getD 0
  let cacheRead := (((get "prompt_tokens_details" v).bind (getU64 "cached_tokens"))).getD 0
  { input := UInt64.ofNat input
    output := UInt64.ofNat output
    cacheRead := UInt64.ofNat cacheRead
    cacheWrite := 0
    totalTokens := ((getU64 "total_tokens" v).map UInt64.ofNat).getD
      (UInt64.ofNat input + UInt64.ofNat output)
    cost := noCost }

def mapStopReason (s : String) : StopReason :=
  if s = "stop" ∨ s = "tool_calls" then .completed
  else if s = "length" then .length
  else if s = "content_filter" then .error
  else .other s

/-- A text that is there and has characters. -/
def nonEmpty (o : Option String) : Option String := o.filter (· ≠ "")

def mapText (delta : Json) (acc : Acc) : List AssistantEvent × Acc :=
  match nonEmpty (getString "content" delta) with
  | some text => ([.textDelta text], acc.appendText text)
  | none => ([], acc)

def mapThinking (delta : Json) (acc : Acc) : List AssistantEvent × Acc :=
  match nonEmpty (getString "reasoning_content" delta) with
  | some thinking => ([.thinkingDelta thinking], acc.appendThinking thinking)
  | none => ([], acc)

/-- The call a piece belongs to: a new one if it has an identifier. -/
def locate (index : ℕ) (id name : String) (acc : Acc) :
    Except ProviderError (List AssistantEvent × ℕ × Acc) :=
  if id ≠ "" then
    if (acc.toolLocalIndex index).isSome then
      .error (.parse ("duplicate tool_call start at provider index " ++ toString index))
    else
      let r := acc.startToolCall id name
      (r.2.mapToolIndex index r.1).map fun acc => ([.toolCallStart id name ""], r.1, acc)
  else
    match acc.toolLocalIndex index with
    | some i => .ok ([], i, acc)
    | none => .error (.parse
        ("tool_call continuation with unknown provider index " ++ toString index))

/-- The arguments of a piece go to its call. -/
def mapArguments (i : ℕ) (args : String) (acc : Acc) : List AssistantEvent × Acc :=
  if args = "" then ([], acc)
  else
    match acc.toolCalls[i]? with
    | some tc => ([.toolCallDelta tc.id args], acc.appendArguments i args)
    | none => ([], acc)

def mapToolCall (tc : Json) (acc : Acc) : Mapped :=
  match getU64 "index" tc with
  | none => .error (.parse "tool_call chunk missing valid index")
  | some index =>
    match get "function" tc with
    | none => .error (.parse "tool_call chunk missing function")
    | some function =>
      (locate index ((getString "id" tc).getD "") ((getString "name" function).getD "") acc).map
        fun r =>
          let a := mapArguments r.2.1 ((getString "arguments" function).getD "") r.2.2
          (r.1 ++ a.1, a.2)

def mapToolCalls : List Json → Acc → Mapped
  | [], acc => .ok ([], acc)
  | tc :: tcs, acc =>
    match mapToolCall tc acc with
    | .error e => .error e
    | .ok r => (mapToolCalls tcs r.2).map fun rest => (r.1 ++ rest.1, rest.2)

/-- Calls that have not ended end with the answer. -/
def mapFinish (choice : Json) (acc : Acc) : List AssistantEvent × Acc :=
  match getString "finish_reason" choice with
  | none => ([], acc)
  | some reason =>
    let r : List AssistantEvent × Acc :=
      if reason = "tool_calls" then
        ((acc.toolCalls.filter fun tc => !tc.done).map fun tc => .toolCallEnd tc.id,
          { acc with toolCalls := acc.toolCalls.map fun tc => { tc with done := true } })
      else ([], acc)
    (r.1, { r.2 with stopReason := some (mapStopReason reason) })

/-- The first choice of a chunk. -/
def mapChoice (choice : Json) (acc : Acc) : Mapped :=
  let delta := (get "delta" choice).getD .null
  let text := mapText delta acc
  let thinking := mapThinking delta text.2
  (mapToolCalls (((get "tool_calls" delta).bind array).getD []) thinking.2).map fun calls =>
    let finish := mapFinish choice calls.2
    (text.1 ++ thinking.1 ++ calls.1 ++ finish.1, finish.2)

def recordUsage (v : Json) (acc : Acc) : Acc :=
  match nonNull (get "usage" v) with
  | some usage => { acc with usage := some (mapUsage usage) }
  | none => acc

def mapChunk (data : String) (acc : Acc) : Mapped :=
  match fromStr data.toList with
  | none => .error (.parse (jsonError data))
  | some v =>
    let choice := ((get "choices" v).bind array).bind List.head?
    let mapped : Mapped := match choice with
      | some choice => mapChoice choice acc
      | none => .ok ([], acc)
    mapped.map fun r => (r.1, recordUsage v r.2)

def mapEvent (sse : SseEvent) (acc : Acc) : Mapped :=
  match sse with
  | .data data | .named _ data => mapChunk jsonError data acc
  | .done => .ok ([.done acc.buildMessage], acc)

end Guigu.OpenAi
