import Guigu.Core.Message
import Guigu.Library.Serde

/-! The JSON form of messages, and which messages it preserves. -/
namespace Guigu

open Serde

def ImageContent.members (i : ImageContent) : List (String × Json) :=
  [("data", .str i.data), ("mime_type", .str i.mimeType)]

def ImageContent.ofJson (j : Json) : Option ImageContent :=
  (fields ["data", "mime_type"] j).bind fun
    | [data, mimeType] => do
      return ⟨← required string data, ← required string mimeType⟩
    | _ => none

def textOfJson (j : Json) : Option String :=
  (fields ["text"] j).bind fun
    | [text] => required string text
    | _ => none

def UserContent.toJson : UserContent → Json
  | .text t => .obj [("type", .str "text"), ("text", .str t)]
  | .image i => .obj (("type", .str "image") :: i.members)

def UserContent.ofJson (j : Json) : Option UserContent :=
  (tagged "type" ["text", "image"] j).bind fun (variant, rest) =>
    if variant = "text" then (textOfJson rest).map .text
    else (ImageContent.ofJson rest).map .image

def UserMessage.members (m : UserMessage) : List (String × Json) :=
  [("content", .arr (m.content.map UserContent.toJson)), ("timestamp", ofU64 m.timestamp)]

def UserMessage.ofJson (j : Json) : Option UserMessage :=
  (fields ["content", "timestamp"] j).bind fun
    | [content, timestamp] => do
      return ⟨← required (list UserContent.ofJson) content, ← required u64 timestamp⟩
    | _ => none

def ToolCall.members (c : ToolCall) : List (String × Json) :=
  [("id", .str c.id), ("name", .str c.name), ("arguments", .str c.arguments)]

def ToolCall.ofJson (j : Json) : Option ToolCall :=
  (fields ["id", "name", "arguments"] j).bind fun
    | [id, name, arguments] => do
      return ⟨← required string id, ← required string name, ← required string arguments⟩
    | _ => none

def AssistantContent.toJson : AssistantContent → Json
  | .text t => .obj [("type", .str "text"), ("text", .str t)]
  | .thinking t => .obj [("type", .str "thinking"), ("text", .str t)]
  | .toolCall c => .obj (("type", .str "tool_call") :: c.members)

def AssistantContent.ofJson (j : Json) : Option AssistantContent :=
  (tagged "type" ["text", "thinking", "tool_call"] j).bind fun (variant, rest) =>
    if variant = "text" then (textOfJson rest).map .text
    else if variant = "thinking" then (textOfJson rest).map .thinking
    else (ToolCall.ofJson rest).map .toolCall

/-- A double without a JSON text is written as `null`. -/
def costToJson : Option Json.Numeral → Json
  | some n => .num n
  | none => .null

def Usage.toJson (u : Usage) : Json :=
  .obj [("input", ofU64 u.input), ("output", ofU64 u.output), ("cache_read", ofU64 u.cacheRead),
    ("cache_write", ofU64 u.cacheWrite), ("total_tokens", ofU64 u.totalTokens),
    ("cost", costToJson u.cost)]

def Usage.ofJson (j : Json) : Option Usage :=
  (fields ["input", "output", "cache_read", "cache_write", "total_tokens", "cost"] j).bind fun
    | [input, output, cacheRead, cacheWrite, totalTokens, cost] => do
      return ⟨← required u64 input, ← required u64 output, ← required u64 cacheRead,
        ← required u64 cacheWrite, ← required u64 totalTokens, some (← required float cost)⟩
    | _ => none

def StopReason.toString : StopReason → String
  | .completed => "completed"
  | .length => "length"
  | .error => "error"
  | .aborted => "aborted"
  | .pending => "pending"
  | .other s => s

def StopReason.ofJson (j : Json) : Option StopReason := (string j).map StopReason.fromString

def AssistantMessage.members (m : AssistantMessage) : List (String × Json) :=
  [("content", .arr (m.content.map AssistantContent.toJson)),
    ("model", ofOption .str m.model), ("usage", ofOption Usage.toJson m.usage),
    ("stop_reason", ofOption (fun r => .str r.toString) m.stopReason),
    ("error_message", ofOption .str m.errorMessage), ("timestamp", ofU64 m.timestamp)]

def AssistantMessage.ofJson (j : Json) : Option AssistantMessage :=
  (fields ["content", "model", "usage", "stop_reason", "error_message", "timestamp"] j).bind fun
    | [content, model, usage, stopReason, errorMessage, timestamp] => do
      return ⟨← required (list AssistantContent.ofJson) content, ← maybe string model,
        ← maybe Usage.ofJson usage, ← maybe StopReason.ofJson stopReason,
        ← maybe string errorMessage, ← required u64 timestamp⟩
    | _ => none

def ToolResultContent.toJson : ToolResultContent → Json
  | .text t => .obj [("type", .str "text"), ("text", .str t)]
  | .image i => .obj (("type", .str "image") :: i.members)

def ToolResultContent.ofJson (j : Json) : Option ToolResultContent :=
  (tagged "type" ["text", "image"] j).bind fun (variant, rest) =>
    if variant = "text" then (textOfJson rest).map .text
    else (ImageContent.ofJson rest).map .image

def ToolResultMessage.members (m : ToolResultMessage) : List (String × Json) :=
  [("tool_call_id", .str m.toolCallId), ("tool_name", .str m.toolName),
    ("is_error", .bool m.isError), ("content", .arr (m.content.map ToolResultContent.toJson)),
    ("details", ofOption id m.details), ("timestamp", ofU64 m.timestamp)]

def ToolResultMessage.ofJson (j : Json) : Option ToolResultMessage :=
  (fields ["tool_call_id", "tool_name", "is_error", "content", "details", "timestamp"] j).bind fun
    | [toolCallId, toolName, isError, content, details, timestamp] => do
      return ⟨← required string toolCallId, ← required string toolName, ← required bool isError,
        ← required (list ToolResultContent.ofJson) content, ← maybe some details,
        ← required u64 timestamp⟩
    | _ => none

def Message.toJson : Message → Json
  | .user m => .obj (("type", .str "user") :: m.members)
  | .assistant m => .obj (("type", .str "assistant") :: m.members)
  | .toolResult m => .obj (("type", .str "tool_result") :: m.members)

def Message.ofJson (j : Json) : Option Message :=
  (tagged "type" ["user", "assistant", "tool_result"] j).bind fun (variant, rest) =>
    if variant = "user" then (UserMessage.ofJson rest).map .user
    else if variant = "assistant" then (AssistantMessage.ofJson rest).map .assistant
    else (ToolResultMessage.ofJson rest).map .toolResult

theorem ImageContent.ofJson_members (i : ImageContent) :
    ImageContent.ofJson (.obj i.members) = some i := by
  simp [ImageContent.ofJson, ImageContent.members, fields, field, required]

theorem UserContent.ofJson_toJson (c : UserContent) : UserContent.ofJson c.toJson = some c := by
  cases c with
  | text t => simp [UserContent.ofJson, UserContent.toJson, tagged, field, variant, textOfJson,
      fields, required]
  | image i => simp [UserContent.ofJson, UserContent.toJson, tagged, field, variant,
      ImageContent.members, ImageContent.ofJson, fields, required]

theorem ToolResultContent.ofJson_toJson (c : ToolResultContent) :
    ToolResultContent.ofJson c.toJson = some c := by
  cases c with
  | text t => simp [ToolResultContent.ofJson, ToolResultContent.toJson, tagged, field, variant,
      textOfJson, fields, required]
  | image i => simp [ToolResultContent.ofJson, ToolResultContent.toJson, tagged, field, variant,
      ImageContent.members, ImageContent.ofJson, fields, required]

theorem AssistantContent.ofJson_toJson (c : AssistantContent) :
    AssistantContent.ofJson c.toJson = some c := by
  cases c with
  | text t => simp [AssistantContent.ofJson, AssistantContent.toJson, tagged, field, variant,
      textOfJson, fields, required]
  | thinking t => simp [AssistantContent.ofJson, AssistantContent.toJson, tagged, field, variant,
      textOfJson, fields, required]
  | toolCall c => simp [AssistantContent.ofJson, AssistantContent.toJson, tagged, field, variant,
      ToolCall.members, ToolCall.ofJson, fields, required]

/-- The reason has the name it would be read back under. -/
def StopReason.Storable (r : StopReason) : Prop := StopReason.fromString r.toString = r

def Usage.Storable (u : Usage) : Prop := ∃ n ∈ u.cost, n.finite = true

/-- A stored `null` reads back as no details at all. -/
def DetailsStorable (d : Json) : Prop := d ≠ .null ∧ d.finite = true ∧ d.depth + 2 ≤ maxDepth

/-- The messages that come back from their JSON text unchanged. -/
def Message.Storable : Message → Prop
  | .user _ => True
  | .assistant m => (∀ u ∈ m.usage, u.Storable) ∧ ∀ r ∈ m.stopReason, r.Storable
  | .toolResult m => ∀ d ∈ m.details, DetailsStorable d

instance (r : StopReason) : Decidable r.Storable := inferInstanceAs (Decidable (_ = _))

instance (u : Usage) : Decidable u.Storable :=
  inferInstanceAs (Decidable (∃ n ∈ u.cost, n.finite = true))

instance (d : Json) : Decidable (DetailsStorable d) := inferInstanceAs (Decidable (_ ∧ _ ∧ _))

instance : (m : Message) → Decidable m.Storable
  | .user _ => .isTrue trivial
  | .assistant m => inferInstanceAs (Decidable ((∀ u ∈ m.usage, u.Storable) ∧
    ∀ r ∈ m.stopReason, r.Storable))
  | .toolResult m => inferInstanceAs (Decidable (∀ d ∈ m.details, DetailsStorable d))

/-- The names that stand for the known reasons. -/
def knownReasons : List String := ["completed", "length", "error", "aborted", "pending"]

/-- No other reason has the same name, and details are more than a `null` and not too deep. -/
def Message.Recoverable : Message → Prop
  | .user _ => True
  | .assistant m => ∀ s ∈ knownReasons, m.stopReason ≠ some (.other s)
  | .toolResult m => m.details ≠ some .null ∧ ∀ d ∈ m.details, d.depth + 2 ≤ maxDepth

/-- The doubles of the message have a JSON text. -/
def Message.Finite : Message → Prop
  | .user _ => True
  | .assistant m => ∀ u ∈ m.usage, u.Storable
  | .toolResult m => ∀ d ∈ m.details, d.finite = true

theorem StopReason.storable_of_ne_other {r : StopReason} (h : ∀ s, r ≠ .other s) : r.Storable := by
  cases r with
  | other s => exact absurd rfl (h s)
  | _ => simp [StopReason.Storable, StopReason.toString, StopReason.fromString]

theorem StopReason.storable_fromString (s : String) : (StopReason.fromString s).Storable := by
  unfold StopReason.fromString
  split_ifs with h1 h2 h3 h4 h5
  · exact storable_of_ne_other (by simp)
  · exact storable_of_ne_other (by simp)
  · exact storable_of_ne_other (by simp)
  · exact storable_of_ne_other (by simp)
  · exact storable_of_ne_other (by simp)
  · simp [StopReason.Storable, StopReason.toString, StopReason.fromString, h1, h2, h3, h4, h5]

theorem StopReason.storable_iff {r : StopReason} :
    r.Storable ↔ ∀ s ∈ knownReasons, r ≠ .other s := by
  constructor
  · intro h s hs hr
    rw [hr] at h
    simp only [knownReasons, List.mem_cons, List.not_mem_nil, or_false] at hs
    rcases hs with rfl | rfl | rfl | rfl | rfl <;>
      exact absurd h (by simp [Storable, toString, fromString])
  · intro h
    by_cases hother : ∃ s, r = .other s
    · obtain ⟨s, rfl⟩ := hother
      have hs : s ∉ knownReasons := fun hs => h s hs rfl
      simp only [knownReasons, List.mem_cons, List.not_mem_nil, or_false, not_or] at hs
      simp [Storable, toString, fromString, hs]
    · exact storable_of_ne_other (not_exists.mp hother)

theorem Message.storable_iff {m : Message} : m.Storable ↔ m.Finite ∧ m.Recoverable := by
  cases m with
  | user m => simp [Storable, Finite, Recoverable]
  | assistant m =>
    simp only [Storable, Finite, Recoverable, StopReason.storable_iff]
    refine and_congr_right fun _ => ⟨?_, ?_⟩
    · intro h s hs hr
      exact h _ hr s hs rfl
    · rintro h r hr s hs rfl
      exact h s hs hr
  | toolResult m =>
    simp only [Storable, Finite, Recoverable, DetailsStorable]
    constructor
    · intro h
      exact ⟨fun d hd => (h d hd).2.1, fun hnull => (h _ hnull).1 rfl, fun d hd => (h d hd).2.2⟩
    · rintro ⟨hfinite, hnull, hdepth⟩ d hd
      exact ⟨fun heq => hnull (heq ▸ hd), hfinite d hd, hdepth d hd⟩

theorem Usage.ofJson_toJson {u : Usage} (h : u.Storable) : Usage.ofJson u.toJson = some u := by
  obtain ⟨n, hn, -⟩ := h
  obtain ⟨input, output, cacheRead, cacheWrite, totalTokens, cost⟩ := u
  obtain rfl : cost = some n := hn
  simp [Usage.ofJson, Usage.toJson, fields, field, required, costToJson, float]

theorem UserMessage.ofJson_members (m : UserMessage) :
    UserMessage.ofJson (.obj m.members) = some m := by
  have hc := list_map m.content fun c _ => UserContent.ofJson_toJson c
  simp [UserMessage.ofJson, UserMessage.members, fields, field, required, hc]

theorem AssistantMessage.ofJson_members {m : AssistantMessage}
    (h : (Message.assistant m).Storable) : AssistantMessage.ofJson (.obj m.members) = some m := by
  obtain ⟨husage, hreason⟩ := h
  have hc := list_map m.content fun c _ => AssistantContent.ofJson_toJson c
  have hm : option string (ofOption .str m.model) = some m.model :=
    option_ofOption fun s _ => ⟨rfl, by simp⟩
  have he : option string (ofOption .str m.errorMessage) = some m.errorMessage :=
    option_ofOption fun s _ => ⟨rfl, by simp⟩
  have hu : option Usage.ofJson (ofOption Usage.toJson m.usage) = some m.usage :=
    option_ofOption fun u hu => ⟨Usage.ofJson_toJson (husage u hu), by simp [Usage.toJson]⟩
  have hr : option StopReason.ofJson (ofOption (fun r => .str r.toString) m.stopReason) =
      some m.stopReason :=
    option_ofOption fun r hr => ⟨congrArg some (hreason r hr), by simp⟩
  simp [AssistantMessage.ofJson, AssistantMessage.members, fields, field, required, maybe, hc,
    hm, he, hu, hr]

theorem ToolResultMessage.ofJson_members {m : ToolResultMessage}
    (h : (Message.toolResult m).Storable) : ToolResultMessage.ofJson (.obj m.members) = some m := by
  have hc := list_map m.content fun c _ => ToolResultContent.ofJson_toJson c
  have hd : option some (ofOption id m.details) = some m.details :=
    option_ofOption fun d hd => ⟨rfl, (h d hd).1⟩
  simp [ToolResultMessage.ofJson, ToolResultMessage.members, fields, field, required, maybe, hc,
    hd]

theorem Message.ofJson_assistant (m : AssistantMessage) :
    Message.ofJson (Message.assistant m).toJson =
      (AssistantMessage.ofJson (.obj m.members)).map .assistant := by
  simp [Message.ofJson, Message.toJson, tagged, field, variant, AssistantMessage.members]

theorem Message.ofJson_toolResult (m : ToolResultMessage) :
    Message.ofJson (Message.toolResult m).toJson =
      (ToolResultMessage.ofJson (.obj m.members)).map .toolResult := by
  simp [Message.ofJson, Message.toJson, tagged, field, variant, ToolResultMessage.members]

theorem Message.ofJson_toJson {m : Message} (h : m.Storable) :
    Message.ofJson m.toJson = some m := by
  cases m with
  | user m =>
    have := UserMessage.ofJson_members m
    simp_all [Message.ofJson, Message.toJson, tagged, field, variant, UserMessage.members]
  | assistant m => rw [Message.ofJson_assistant, AssistantMessage.ofJson_members h, Option.map_some]
  | toolResult m =>
    rw [Message.ofJson_toolResult, ToolResultMessage.ofJson_members h, Option.map_some]

/-- An answer that comes back unchanged keeps its reason. -/
theorem AssistantMessage.storable_of_ofJson {m : AssistantMessage} {r : StopReason}
    (h : AssistantMessage.ofJson (.obj m.members) = some m) (hr : m.stopReason = some r) :
    r.Storable := by
  simp [AssistantMessage.ofJson, AssistantMessage.members, fields, field, required, maybe] at h
  obtain ⟨content, -, h⟩ := Option.bind_eq_some_iff.mp h
  obtain ⟨model, -, h⟩ := Option.bind_eq_some_iff.mp h
  obtain ⟨usage, -, h⟩ := Option.bind_eq_some_iff.mp h
  obtain ⟨reason, hreason, h⟩ := Option.bind_eq_some_iff.mp h
  obtain ⟨error, -, h⟩ := Option.bind_eq_some_iff.mp h
  obtain rfl : reason = m.stopReason := congrArg AssistantMessage.stopReason (Option.some.inj h)
  rw [hr] at hreason
  exact Option.some.inj (option_ofOption_inv hreason).1

/-- A result that comes back unchanged keeps its details. -/
theorem ToolResultMessage.details_of_ofJson {m : ToolResultMessage}
    (h : ToolResultMessage.ofJson (.obj m.members) = some m) : m.details ≠ some .null := by
  intro hnull
  simp [ToolResultMessage.ofJson, ToolResultMessage.members, fields, field, required, maybe] at h
  obtain ⟨content, -, h⟩ := Option.bind_eq_some_iff.mp h
  obtain ⟨details, hdetails, h⟩ := Option.bind_eq_some_iff.mp h
  obtain rfl : details = m.details := congrArg ToolResultMessage.details (Option.some.inj h)
  rw [hnull] at hdetails
  exact (option_ofOption_inv hdetails).2 rfl

/-- A message that fits into a line and comes back unchanged is one of the recoverable ones. -/
theorem Message.recoverable_of_ofJson {m : Message} (h : Message.ofJson m.toJson = some m)
    (hdepth : m.toJson.depth + 1 ≤ maxDepth) : m.Recoverable := by
  cases m with
  | user m => trivial
  | assistant m =>
    rw [Message.ofJson_assistant, Option.map_eq_some_iff] at h
    obtain ⟨m', h, hm⟩ := h
    cases hm
    intro s hs hr
    exact StopReason.storable_iff.mp (AssistantMessage.storable_of_ofJson h hr) s hs rfl
  | toolResult m =>
    rw [Message.ofJson_toolResult, Option.map_eq_some_iff] at h
    obtain ⟨m', h, hm⟩ := h
    cases hm
    refine ⟨ToolResultMessage.details_of_ofJson h, fun d hd => ?_⟩
    have hwritten : (ofOption id m.details).depth = d.depth := by
      rw [Option.mem_def.mp hd]
      rfl
    simp only [Message.toJson, ToolResultMessage.members, Json.depth, Json.depthFields,
      Json.depthField, hwritten] at hdepth
    omega

theorem UserContent.depth_toJson (c : UserContent) : c.toJson.depth = 1 := by
  cases c <;> rfl

theorem AssistantContent.depth_toJson (c : AssistantContent) : c.toJson.depth = 1 := by
  cases c <;> rfl

theorem ToolResultContent.depth_toJson (c : ToolResultContent) : c.toJson.depth = 1 := by
  cases c <;> rfl

theorem Usage.depth_toJson (u : Usage) : u.toJson.depth = 1 := by
  obtain ⟨input, output, cacheRead, cacheWrite, totalTokens, cost⟩ := u
  cases cost <;> rfl

/-- A storable message leaves room for the line around it. -/
theorem Message.depth_toJson {m : Message} (h : m.Storable) : m.toJson.depth + 1 ≤ maxDepth := by
  cases m with
  | user m =>
    have hc := Json.depthItems_map_le UserContent.toJson m.content
      fun c _ => c.depth_toJson.le
    simp only [Message.toJson, UserMessage.members, Json.depth, Json.depthFields, Json.depthField,
      depth_ofU64, maxDepth]
    omega
  | assistant m =>
    have hc := Json.depthItems_map_le AssistantContent.toJson m.content
      fun c _ => c.depth_toJson.le
    have hm : (ofOption .str m.model).depth ≤ 0 := depth_ofOption_le fun s _ => le_rfl
    have he : (ofOption .str m.errorMessage).depth ≤ 0 := depth_ofOption_le fun s _ => le_rfl
    have hr : (ofOption (fun r => .str r.toString) m.stopReason : Json).depth ≤ 0 :=
      depth_ofOption_le fun r _ => le_rfl
    have hu : (ofOption Usage.toJson m.usage).depth ≤ 1 :=
      depth_ofOption_le fun u _ => u.depth_toJson.le
    simp only [Message.toJson, AssistantMessage.members, Json.depth, Json.depthFields,
      Json.depthField, depth_ofU64, maxDepth]
    omega
  | toolResult m =>
    have hc := Json.depthItems_map_le ToolResultContent.toJson m.content
      fun c _ => c.depth_toJson.le
    have hd : (ofOption id m.details).depth ≤ maxDepth - 2 :=
      depth_ofOption_le fun d hd => by
        have := (h d hd).2.2
        simp only [id]
        omega
    simp only [Message.toJson, ToolResultMessage.members, Json.depth, Json.depthFields,
      Json.depthField, depth_ofU64, maxDepth] at hd ⊢
    omega

theorem UserContent.finite_toJson (c : UserContent) : c.toJson.finite = true := by
  cases c <;> rfl

theorem AssistantContent.finite_toJson (c : AssistantContent) : c.toJson.finite = true := by
  cases c <;> rfl

theorem ToolResultContent.finite_toJson (c : ToolResultContent) : c.toJson.finite = true := by
  cases c <;> rfl

theorem Usage.finite_toJson {u : Usage} (h : u.Storable) : u.toJson.finite = true := by
  obtain ⟨n, hn, hf⟩ := h
  obtain ⟨input, output, cacheRead, cacheWrite, totalTokens, cost⟩ := u
  obtain rfl : cost = some n := hn
  simp [Usage.toJson, Json.finite, Json.finiteFields, Json.finiteField, finite_ofU64, costToJson,
    hf]

theorem Message.finite_toJson {m : Message} (h : m.Storable) : m.toJson.finite = true := by
  cases m with
  | user m =>
    have hc := Json.finiteItems_map UserContent.toJson m.content
      fun c _ => c.finite_toJson
    simp [Message.toJson, UserMessage.members, Json.finite, Json.finiteFields, Json.finiteField,
      hc, finite_ofU64]
  | assistant m =>
    have hc := Json.finiteItems_map AssistantContent.toJson m.content
      fun c _ => c.finite_toJson
    have hm : (ofOption .str m.model).finite = true := finite_ofOption fun s _ => rfl
    have he : (ofOption .str m.errorMessage).finite = true := finite_ofOption fun s _ => rfl
    have hr : (ofOption (fun r => .str r.toString) m.stopReason : Json).finite = true :=
      finite_ofOption fun r _ => rfl
    have hu : (ofOption Usage.toJson m.usage).finite = true :=
      finite_ofOption fun u hu => Usage.finite_toJson (h.1 u hu)
    simp [Message.toJson, AssistantMessage.members, Json.finite, Json.finiteFields,
      Json.finiteField, hc, hm, he, hr, hu, finite_ofU64]
  | toolResult m =>
    have hc := Json.finiteItems_map ToolResultContent.toJson m.content
      fun c _ => c.finite_toJson
    have hd : (ofOption id m.details).finite = true := finite_ofOption fun d hd => (h d hd).2.1
    simp [Message.toJson, ToolResultMessage.members, Json.finite, Json.finiteFields,
      Json.finiteField, hc, hd, finite_ofU64]

end Guigu
