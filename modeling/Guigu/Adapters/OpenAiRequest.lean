import Guigu.Adapters.AnthropicRequest
import Mathlib.Data.List.ReduceOption

/-! The requests to OpenAI. -/
namespace Guigu

structure OpenAiConfig where
  apiKey : String
  baseUrl : Option String
  deriving DecidableEq, Repr

def OpenAiConfig.new (apiKey : String) : OpenAiConfig := ⟨apiKey, none⟩

namespace OpenAi

def defaultBaseUrl : String := "https://api.openai.com/v1"

def mapTool (t : ToolSpec) : Json :=
  .obj [("type", .str "function"), ("function", .obj [("name", .str t.name),
    ("description", .str t.description), ("parameters", t.parameters.getD (.obj []))])]

def userTexts (u : UserMessage) : List String :=
  u.content.filterMap fun | .text t => some t | .image _ => none

def assistantTexts (a : AssistantMessage) : List String :=
  a.content.filterMap fun | .text t => some t | .thinking _ | .toolCall _ => none

def resultTexts (t : ToolResultMessage) : List String :=
  t.content.filterMap fun | .text t => some t | .image _ => none

def hasImage (u : UserMessage) : Bool :=
  u.content.any fun | .text _ => false | .image _ => true

def dataUrl (img : ImageContent) : String := "data:" ++ img.mimeType ++ ";base64," ++ img.data

def mapUserContent : UserContent → Json
  | .text t => .obj [("type", .str "text"), ("text", .str t)]
  | .image img =>
    .obj [("type", .str "image_url"), ("image_url", .obj [("url", .str (dataUrl img))])]

/-- Without an image, all the texts are one. -/
def mapUser (u : UserMessage) : Json :=
  if hasImage u then
    .obj [("role", .str "user"), ("content", .arr (u.content.map mapUserContent))]
  else .obj [("role", .str "user"), ("content", .str (String.join (userTexts u)))]

/-- A call as an entry of `tool_calls`. -/
def callEntry (tc : ToolCall) : Json :=
  .obj [("id", .str tc.id), ("type", .str "function"),
    ("function", .obj [("name", .str tc.name), ("arguments", .str tc.arguments)])]

/-- Thinking is left out. -/
def mapAssistant (a : AssistantMessage) : Json :=
  let text := String.join (assistantTexts a)
  let toolCalls := (extractToolCalls a).map callEntry
  .obj ([("role", .str "assistant"), ("content", if text = "" then .null else .str text)] ++
    if toolCalls = [] then [] else [("tool_calls", .arr toolCalls)])

/-- Only the texts of a result are sent. -/
def mapToolResult (t : ToolResultMessage) : Json :=
  .obj [("role", .str "tool"), ("tool_call_id", .str t.toolCallId),
    ("content", .str (String.join (resultTexts t)))]

def mapMessage : Message → Json
  | .user u => mapUser u
  | .assistant a => mapAssistant a
  | .toolResult t => mapToolResult t

def requestUrl (config : OpenAiConfig) : String :=
  Anthropic.trimSlashes ((config.baseUrl.filter (· ≠ "")).getD defaultBaseUrl) ++
    "/chat/completions"

def requestBody (request : ProviderRequest) : Json :=
  let system := if request.context.systemPrompt = "" then []
    else [.obj [("role", .str "system"), ("content", .str request.context.systemPrompt)]]
  .obj ([("model", .str request.model.id),
      ("messages", .arr (system ++ request.context.messages.map mapMessage)),
      ("stream", .bool true), ("stream_options", .obj [("include_usage", .bool true)])] ++
    if request.context.tools = [] then []
      else [("tools", .arr (request.context.tools.map mapTool))])

/-- Every request can be built. -/
def buildRequest (config : OpenAiConfig) (request : ProviderRequest) : BuiltRequest :=
  ⟨requestUrl config,
    [("Authorization", "Bearer " ++ config.apiKey), ("Content-Type", "application/json")],
    requestBody request⟩

end OpenAi

/-! ### What a provider reads -/

/-- A piece of what a user says; an image is given by its data URL. -/
inductive SaidPiece where
  | text (text : String)
  | image (url : String)
  deriving DecidableEq, Repr

/-- The input is `none` where the arguments are no JSON. -/
structure SaidCall where
  id : String
  name : String
  input : Option Json
  deriving DecidableEq, Repr

inductive Said where
  | user (pieces : List SaidPiece)
  | assistant (text : String) (calls : List SaidCall)
  | result (callId text : String)
  deriving DecidableEq, Repr

structure SaidTool where
  name : String
  description : String
  schema : Json
  deriving DecidableEq, Repr

structure Conversation where
  model : String
  system : String
  said : List Said
  tools : List SaidTool
  deriving DecidableEq, Repr

/-- Neighbouring texts are one text, and an empty text is none. -/
def SaidPiece.cons : SaidPiece → List SaidPiece → List SaidPiece
  | .text t, .text t' :: rest => .text (t ++ t') :: rest
  | .text t, rest => if t = "" then rest else .text t :: rest
  | .image url, rest => .image url :: rest

def SaidPiece.merge (pieces : List SaidPiece) : List SaidPiece := pieces.foldr SaidPiece.cons []

/-- No arguments are an empty object. -/
def inputOfArguments (arguments : String) : Option Json :=
  if arguments = "" then some (.obj []) else Serde.fromStr arguments.toList

def UserContent.piece : UserContent → SaidPiece
  | .text t => .text t
  | .image img => .image (OpenAi.dataUrl img)

def ToolCall.said (tc : ToolCall) : SaidCall := ⟨tc.id, tc.name, inputOfArguments tc.arguments⟩

/-- What a message says to a provider: no thinking, no image of a result, and no error flag. -/
def Message.said : Message → Said
  | .user u => .user (SaidPiece.merge (u.content.map UserContent.piece))
  | .assistant a => .assistant (String.join (OpenAi.assistantTexts a))
      ((extractToolCalls a).map ToolCall.said)
  | .toolResult t => .result t.toolCallId (String.join (OpenAi.resultTexts t))

/-- What a request says; `schema` stands in for the parameters of a tool without any. -/
def ProviderRequest.conversation (request : ProviderRequest) (schema : Json) : Conversation where
  model := request.model.id
  system := request.context.systemPrompt
  said := request.context.messages.map Message.said
  tools := request.context.tools.map fun t => ⟨t.name, t.description, t.parameters.getD schema⟩

namespace OpenAi

open Serde

def readPart (j : Json) : Option SaidPiece := do
  let type ← getString "type" j
  if type = "text" then (getString "text" j).map .text
  else if type = "image_url" then
    ((Serde.get "image_url" j).bind (getString "url")).map .image
  else none

/-- A content is a text or a list of parts. -/
def readContent : Json → Option (List SaidPiece)
  | .str s => some (SaidPiece.merge [.text s])
  | .arr parts => (parts.mapM readPart).map SaidPiece.merge
  | _ => none

def readToolCall (j : Json) : Option SaidCall := do
  let function ← Serde.get "function" j
  return ⟨← getString "id" j, ← getString "name" function,
    inputOfArguments (← getString "arguments" function)⟩

/-- The text of an answer, which may be `null`. -/
def readText : Json → Option String
  | .null => some ""
  | .str s => some s
  | _ => none

/-- A list that may be left out. -/
def readList {α : Type} (read : Json → Option α) : Option Json → Option (List α)
  | none => some []
  | some j => (array j).bind fun items => items.mapM read

def readMessage (j : Json) : Option Said := do
  let role ← getString "role" j
  let content ← Serde.get "content" j
  if role = "user" then (readContent content).map .user
  else if role = "assistant" then
    return .assistant (← readText content) (← readList readToolCall (Serde.get "tool_calls" j))
  else if role = "tool" then
    return .result (← getString "tool_call_id" j) (← string content)
  else none

def readTool (j : Json) : Option SaidTool := do
  let function ← Serde.get "function" j
  return ⟨← getString "name" function, ← getString "description" function,
    ← Serde.get "parameters" function⟩

/-- A message of the system may come first. -/
def readMessages : List Json → Option (String × List Said)
  | [] => some ("", [])
  | m :: ms =>
    if getString "role" m = some "system" then do
      return (← getString "content" m, ← ms.mapM readMessage)
    else ((m :: ms).mapM readMessage).map fun said => ("", said)

def readConversation (body : Json) : Option Conversation := do
  let (system, said) ← ((Serde.get "messages" body).bind array).bind readMessages
  return ⟨← getString "model" body, system, said, ← readList readTool (Serde.get "tools" body)⟩

end OpenAi

namespace Anthropic

open Serde

/-- A block of a message: a piece, a call, or a result. -/
inductive MessageBlock where
  | piece (piece : SaidPiece)
  | call (call : SaidCall)
  | result (callId text : String)

def readBlock (j : Json) : Option MessageBlock := do
  let type ← getString "type" j
  if type = "text" then (getString "text" j).map fun t => .piece (.text t)
  else if type = "image" then
    let source ← Serde.get "source" j
    return .piece (.image (OpenAi.dataUrl
      ⟨← getString "data" source, ← getString "media_type" source⟩))
  else if type = "tool_use" then
    return .call ⟨← getString "id" j, ← getString "name" j, ← Serde.get "input" j⟩
  else if type = "tool_result" then
    return .result (← getString "tool_use_id" j) (← getString "content" j)
  else none

def MessageBlock.piece? : MessageBlock → Option SaidPiece
  | .piece p => some p
  | .call _ | .result _ _ => none

def MessageBlock.text? : MessageBlock → Option String
  | .piece (.text t) => some t
  | .piece (.image _) | .call _ | .result _ _ => none

def MessageBlock.call? : MessageBlock → Option SaidCall
  | .call c => some c
  | .piece _ | .result _ _ => none

/-- What the user says is a result or is made of pieces. -/
def saidByUser : List MessageBlock → Option Said
  | [.result callId text] => some (.result callId text)
  | blocks => (blocks.mapM MessageBlock.piece?).map fun pieces => .user (SaidPiece.merge pieces)

def readMessage (j : Json) : Option Said := do
  let role ← getString "role" j
  let blocks ← ((Serde.get "content" j).bind array).bind fun blocks => blocks.mapM readBlock
  if role = "user" then saidByUser blocks
  else if role = "assistant" then
    some (.assistant (String.join (blocks.filterMap MessageBlock.text?))
      (blocks.filterMap MessageBlock.call?))
  else none

def readTool (j : Json) : Option SaidTool := do
  return ⟨← getString "name" j, ← getString "description" j, ← Serde.get "input_schema" j⟩

def readConversation (body : Json) : Option Conversation := do
  let messages ← (Serde.get "messages" body).bind array
  let system ← match Serde.get "system" body with
    | none => some ""
    | some system => string system
  return ⟨← getString "model" body, system, ← messages.mapM readMessage,
    ← OpenAi.readList readTool (Serde.get "tools" body)⟩

end Anthropic

namespace SaidPiece

theorem merge_cons (p : SaidPiece) (ps : List SaidPiece) :
    merge (p :: ps) = cons p (merge ps) := rfl

theorem cons_text_append (t t' : String) (ps : List SaidPiece) :
    cons (.text t) (cons (.text t') ps) = cons (.text (t ++ t')) ps := by
  cases ps with
  | nil => by_cases ht' : t' = "" <;> simp [cons, ht']
  | cons p ps =>
    cases p with
    | text t'' => simp [cons, String.append_assoc]
    | image url => by_cases ht' : t' = "" <;> simp [cons, ht']

/-- Texts are as good as the one text that they make. -/
theorem merge_texts (ts : List String) : merge (ts.map .text) = merge [.text (String.join ts)] := by
  induction ts with
  | nil => rfl
  | cons t ts ih =>
    rw [List.map_cons, merge_cons, ih, merge_cons, merge_cons, cons_text_append, String.join_cons]

end SaidPiece

namespace OpenAi

open Serde

theorem readList_map {α β : Type} {read : Json → Option α} {write : β → Json} {f : β → α}
    (h : ∀ b, read (write b) = some (f b)) (bs : List β) :
    (bs.map write).mapM read = some (bs.map f) := by
  induction bs with
  | nil => rfl
  | cons b bs ih => simp [List.mapM_cons, h, ih]

theorem readPart_mapUserContent (c : UserContent) : readPart (mapUserContent c) = some c.piece := by
  cases c <;> simp [readPart, mapUserContent, getString, Serde.get, string, UserContent.piece]

theorem readToolCall_callEntry (tc : ToolCall) : readToolCall (callEntry tc) = some tc.said := by
  simp [readToolCall, callEntry, getString, Serde.get, string, ToolCall.said]

theorem readTool_mapTool (t : ToolSpec) : readTool (mapTool t) =
    some ⟨t.name, t.description, t.parameters.getD (.obj [])⟩ := by
  simp [readTool, mapTool, getString, Serde.get, string]

/-- The texts of a message without an image are its pieces. -/
theorem merge_of_not_hasImage {u : UserMessage} (h : hasImage u = false) :
    SaidPiece.merge (u.content.map UserContent.piece) =
      SaidPiece.merge [.text (String.join (userTexts u))] := by
  have htexts : ∀ cs : List UserContent, hasImage ⟨cs, u.timestamp⟩ = false →
      cs.map UserContent.piece = (userTexts ⟨cs, u.timestamp⟩).map SaidPiece.text := by
    intro cs
    induction cs with
    | nil => exact fun _ => rfl
    | cons c cs ih =>
      intro hcs
      cases c with
      | text t => exact congrArg (SaidPiece.text t :: ·) (ih hcs)
      | image img => cases hcs
  rw [← SaidPiece.merge_texts, htexts u.content h]

theorem readMessage_mapMessage (m : Message) : readMessage (mapMessage m) = some m.said := by
  cases m with
  | user u =>
    rw [mapMessage, mapUser, Message.said]
    split_ifs with himage
    · have hparts := readList_map readPart_mapUserContent u.content
      simp [readMessage, getString, Serde.get, string, readContent, hparts]
    · rw [merge_of_not_hasImage (eq_false_of_ne_true himage)]
      simp [readMessage, getString, Serde.get, string, readContent]
  | assistant a =>
    have hcalls := readList_map readToolCall_callEntry (extractToolCalls a)
    rw [mapMessage, mapAssistant, Message.said]
    by_cases htext : String.join (assistantTexts a) = "" <;>
      by_cases hnone : extractToolCalls a = [] <;>
      simp [readMessage, getString, Serde.get, string, readText, readList, array, htext, hnone,
        hcalls]
  | toolResult t =>
    simp [readMessage, mapMessage, mapToolResult, getString, Serde.get, string, Message.said]

/-- A mapped message is none of the system. -/
theorem role_mapMessage (m : Message) : getString "role" (mapMessage m) ≠ some "system" := by
  cases m with
  | user u =>
    rw [mapMessage, mapUser]
    split_ifs <;> simp [getString, Serde.get, string]
  | assistant a =>
    by_cases hnone : extractToolCalls a = [] <;>
      simp [mapMessage, mapAssistant, getString, Serde.get, string, hnone]
  | toolResult t => simp [mapMessage, mapToolResult, getString, Serde.get, string]

/-- The prompt of the system, if there is one, and the messages behind it. -/
theorem readMessages_of_context (system : String) (ms : List Message) :
    readMessages ((if system = "" then []
      else [.obj [("role", .str "system"), ("content", .str system)]]) ++ ms.map mapMessage) =
        some (system, ms.map Message.said) := by
  have hms := readList_map readMessage_mapMessage ms
  split_ifs with hsystem
  · rw [List.nil_append, hsystem]
    cases ms with
    | nil => rfl
    | cons m ms =>
      rw [List.map_cons] at hms ⊢
      rw [readMessages, if_neg (role_mapMessage m), hms]
      rfl
  · simp [readMessages, getString, Serde.get, string, hms]

/-- What the body of a request says to OpenAI. -/
theorem readConversation_requestBody (request : ProviderRequest) :
    readConversation (requestBody request) = some (request.conversation (.obj [])) := by
  have hms := readMessages_of_context request.context.systemPrompt request.context.messages
  have htools := readList_map readTool_mapTool request.context.tools
  by_cases hnone : request.context.tools = [] <;>
    simp [readConversation, requestBody, ProviderRequest.conversation, getString, Serde.get, string,
      array, readList, hnone, hms, htools]

end OpenAi

namespace Anthropic

open Serde

/-- What a content of an answer says as a block. -/
def messageBlock? : AssistantContent → Option MessageBlock
  | .text t => some (.piece (.text t))
  | .thinking _ => none
  | .toolCall tc => some (.call tc.said)

variable {jsonError : String → String}

/-- Arguments that can be sent are sent as what they say. -/
theorem inputOfArguments_of_parse {id arguments : String} {input : Json}
    (h : parseToolArguments jsonError id arguments = .ok input) :
    inputOfArguments arguments = some input := by
  unfold parseToolArguments at h
  unfold inputOfArguments
  split_ifs at h ⊢ with hempty
  · cases h
    rfl
  · split at h
    · cases h
    · rename_i value hvalue
      split_ifs at h
      cases h
      exact hvalue

theorem readBlock_mapAssistantContent {c : AssistantContent} {block : Option Json}
    (h : mapAssistantContent jsonError c = .ok block) :
    block.map readBlock = (messageBlock? c).map some := by
  cases c with
  | text t =>
    cases h
    simp [readBlock, messageBlock?, getString, Serde.get, string]
  | thinking t =>
    cases h
    rfl
  | toolCall tc =>
    rw [mapAssistantContent] at h
    cases hparse : parseToolArguments jsonError tc.id tc.arguments with
    | error e =>
      rw [hparse] at h
      cases h
    | ok input =>
      rw [hparse] at h
      cases h
      simp [readBlock, messageBlock?, getString, Serde.get, string, ToolCall.said,
        inputOfArguments_of_parse hparse]

/-- The blocks of an answer are what its contents say. -/
theorem readBlocks {cs : List AssistantContent} {blocks : List (Option Json)}
    (h : cs.mapM (mapAssistantContent jsonError) = .ok blocks) :
    blocks.reduceOption.mapM readBlock = some (cs.filterMap messageBlock?) := by
  induction cs generalizing blocks with
  | nil =>
    cases h
    rfl
  | cons c cs ih =>
    rw [List.mapM_cons] at h
    cases hc : mapAssistantContent jsonError c with
    | error e =>
      rw [hc] at h
      cases h
    | ok block =>
      cases hcs : cs.mapM (mapAssistantContent jsonError) with
      | error e =>
        rw [hc, hcs] at h
        cases h
      | ok rest =>
        rw [hc, hcs] at h
        cases h
        have hblock := readBlock_mapAssistantContent hc
        have hrest := ih hcs
        cases hblockOf : messageBlock? c with
        | none =>
          rw [hblockOf, Option.map_none, Option.map_eq_none_iff] at hblock
          rw [hblock, List.reduceOption_cons_of_none, List.filterMap_cons_none hblockOf]
          exact hrest
        | some b =>
          rw [hblockOf, Option.map_some, Option.map_eq_some_iff] at hblock
          obtain ⟨j, rfl, hj⟩ := hblock
          rw [List.reduceOption_cons_of_some, List.filterMap_cons_some hblockOf, List.mapM_cons, hj,
            hrest]
          rfl

theorem text?_blockOf? (a : AssistantMessage) :
    (a.content.filterMap messageBlock?).filterMap MessageBlock.text? = OpenAi.assistantTexts a := by
  rw [List.filterMap_filterMap, OpenAi.assistantTexts]
  refine List.filterMap_congr fun c _ => ?_
  cases c <;> rfl

theorem call?_blockOf? (a : AssistantMessage) :
    (a.content.filterMap messageBlock?).filterMap MessageBlock.call? =
      (extractToolCalls a).map ToolCall.said := by
  rw [List.filterMap_filterMap, extractToolCalls, List.map_filterMap]
  refine List.filterMap_congr fun c _ => ?_
  cases c <;> rfl

theorem readBlock_mapUserContent (c : UserContent) :
    readBlock (mapUserContent c) = some (.piece c.piece) := by
  cases c <;> simp [readBlock, mapUserContent, getString, Serde.get, string, UserContent.piece]

/-- A message of the user is read as its pieces. -/
theorem readMessage_mapUser (u : UserMessage) :
    readMessage (mapUser u) = some (Message.user u).said := by
  have hblocks := OpenAi.readList_map readBlock_mapUserContent u.content
  have hpieces : (u.content.map fun c => MessageBlock.piece c.piece).mapM MessageBlock.piece? =
      some (u.content.map UserContent.piece) := by
    induction u.content with
    | nil => rfl
    | cons c cs ih => simp [List.mapM_cons, MessageBlock.piece?, ih]
  have hsaid : saidByUser (u.content.map fun c => MessageBlock.piece c.piece) =
      some (Message.user u).said := by
    unfold saidByUser
    split
    · rename_i callId text hsingle
      have hmem : MessageBlock.result callId text ∈
          u.content.map fun c => MessageBlock.piece c.piece := by
        rw [hsingle]
        exact List.mem_singleton_self _
      obtain ⟨c, -, hc⟩ := List.mem_map.mp hmem
      cases hc
    · rw [hpieces]
      rfl
  simp [readMessage, mapUser, getString, Serde.get, string, array, hblocks, hsaid]

theorem mapToolResult_eq (t : ToolResultMessage) : mapToolResult t =
    .obj [("role", .str "user"), ("content", .arr [.obj [("type", .str "tool_result"),
      ("tool_use_id", .str t.toolCallId), ("content", .str (String.join (OpenAi.resultTexts t))),
      ("is_error", .bool t.isError)]])] := rfl

theorem readMessage_mapMessage {m : Message} {j : Json} (h : mapMessage jsonError m = .ok j) :
    readMessage j = some m.said := by
  cases m with
  | user u =>
    cases h
    exact readMessage_mapUser u
  | assistant a =>
    rw [mapMessage, mapAssistant] at h
    cases hblocks : a.content.mapM (mapAssistantContent jsonError) with
    | error e =>
      rw [hblocks] at h
      cases h
    | ok blocks =>
      rw [hblocks] at h
      cases h
      have hread := readBlocks hblocks
      have htexts := text?_blockOf? a
      have hcalls := call?_blockOf? a
      simp [readMessage, getString, Serde.get, string, array, hread, Message.said, htexts, hcalls]
  | toolResult t =>
    cases h
    rw [mapToolResult_eq]
    simp [readMessage, readBlock, saidByUser, getString, Serde.get, string, array, Message.said]

theorem readMessages {ms : List Message} {js : List Json}
    (h : ms.mapM (mapMessage jsonError) = .ok js) :
    js.mapM readMessage = some (ms.map Message.said) := by
  induction ms generalizing js with
  | nil =>
    cases h
    rfl
  | cons m ms ih =>
    rw [List.mapM_cons] at h
    cases hm : mapMessage jsonError m with
    | error e =>
      rw [hm] at h
      cases h
    | ok j =>
      cases hms : ms.mapM (mapMessage jsonError) with
      | error e =>
        rw [hm, hms] at h
        cases h
      | ok js' =>
        rw [hm, hms] at h
        cases h
        simp [List.mapM_cons, readMessage_mapMessage hm, ih hms]

theorem readTool_mapTool (t : ToolSpec) : readTool (mapTool t) =
    some ⟨t.name, t.description, t.parameters.getD (.obj [("type", .str "object")])⟩ := by
  simp [readTool, mapTool, getString, Serde.get, string]

/-- What the body of a request says to Anthropic. -/
theorem readConversation_requestBody (config : AnthropicConfig) (request : ProviderRequest)
    {messages : List Json}
    (h : request.context.messages.mapM (mapMessage jsonError) = .ok messages) :
    readConversation (requestBody config request messages) =
      some (request.conversation (.obj [("type", .str "object")])) := by
  have hms := readMessages h
  have htools := OpenAi.readList_map readTool_mapTool request.context.tools
  by_cases hsystem : request.context.systemPrompt = "" <;>
    by_cases hnone : request.context.tools = [] <;>
    simp [readConversation, requestBody, ProviderRequest.conversation, getString, Serde.get, string,
      array, OpenAi.readList, hsystem, hnone, hms, htools]

end Anthropic

/-- Both adapters say the same of a request: the body of the one and, where the request can be
built, the body of the other are read as the conversation, up to the schema of a tool without
one. -/
theorem conversation_of_bodies (jsonError : String → String) (openAi : OpenAiConfig)
    (anthropic : AnthropicConfig) (request : ProviderRequest) :
    OpenAi.readConversation (OpenAi.buildRequest openAi request).body =
        some (request.conversation (.obj [])) ∧
      (Anthropic.buildRequest jsonError anthropic request).map
          (fun built => Anthropic.readConversation built.body) =
        (Anthropic.buildRequest jsonError anthropic request).map fun _ =>
          some (request.conversation (.obj [("type", .str "object")])) := by
  refine ⟨OpenAi.readConversation_requestBody request, ?_⟩
  rw [Anthropic.buildRequest]
  cases hmessages : request.context.messages.mapM (Anthropic.mapMessage jsonError) with
  | error e => rfl
  | ok messages =>
    exact congrArg Except.ok
      (Anthropic.readConversation_requestBody anthropic request hmessages)

end Guigu
