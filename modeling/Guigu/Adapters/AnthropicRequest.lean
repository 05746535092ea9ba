import Guigu.Adapters.Chunking
import Guigu.Core.Pairing

/-! The requests to Anthropic: which transcripts can be sent, and which of them an agent comes to.
The text for what is no JSON is the reader's. -/
namespace Guigu

structure AnthropicConfig where
  apiKey : String
  baseUrl : Option String
  maxTokens : UInt32
  anthropicVersion : String
  deriving DecidableEq, Repr

def AnthropicConfig.new (apiKey : String) : AnthropicConfig := ⟨apiKey, none, 4096, "2023-06-01"⟩

structure BuiltRequest where
  url : String
  headers : List (String × String)
  body : Json

namespace Anthropic

variable (jsonError : String → String)

def defaultBaseUrl : String := "https://api.anthropic.com/v1"

def valueTypeName : Json → String
  | .null => "null"
  | .bool _ => "boolean"
  | .num _ => "number"
  | .str _ => "string"
  | .arr _ => "array"
  | .obj _ => "object"

def isObject : Json → Bool
  | .obj _ => true
  | _ => false

/-- No arguments are an empty object; everything else has to be an object. -/
def parseToolArguments (id arguments : String) : Except ProviderError Json :=
  if arguments = "" then .ok (.obj [])
  else
    match Serde.fromStr arguments.toList with
    | none => .error (.build ("assistant tool call " ++ id ++ " has invalid JSON arguments: " ++
        jsonError arguments))
    | some value =>
      if isObject value then .ok value
      else .error (.build ("assistant tool call " ++ id ++
        " arguments must be a JSON object, got " ++ valueTypeName value))

def mapUserContent : UserContent → Json
  | .text t => .obj [("type", .str "text"), ("text", .str t)]
  | .image img => .obj [("type", .str "image"), ("source", .obj [("type", .str "base64"),
      ("media_type", .str img.mimeType), ("data", .str img.data)])]

def mapUser (u : UserMessage) : Json :=
  .obj [("role", .str "user"), ("content", .arr (u.content.map mapUserContent))]

/-- A content as its block; thinking is left out. -/
def mapAssistantContent : AssistantContent → Except ProviderError (Option Json)
  | .text t => .ok (some (.obj [("type", .str "text"), ("text", .str t)]))
  | .thinking _ => .ok none
  | .toolCall tc => (parseToolArguments jsonError tc.id tc.arguments).map fun input =>
      some (.obj [("type", .str "tool_use"), ("id", .str tc.id), ("name", .str tc.name),
        ("input", input)])

def mapAssistant (a : AssistantMessage) : Except ProviderError Json :=
  (a.content.mapM (mapAssistantContent jsonError)).map fun blocks =>
    .obj [("role", .str "assistant"), ("content", .arr blocks.reduceOption)]

/-- A result is a message of the user; only its texts are sent. -/
def mapToolResult (t : ToolResultMessage) : Json :=
  let text := String.join (t.content.filterMap fun | .text t => some t | .image _ => none)
  .obj [("role", .str "user"), ("content", .arr [.obj [("type", .str "tool_result"),
    ("tool_use_id", .str t.toolCallId), ("content", .str text), ("is_error", .bool t.isError)]])]

def mapMessage : Message → Except ProviderError Json
  | .user u => .ok (mapUser u)
  | .assistant a => mapAssistant jsonError a
  | .toolResult t => .ok (mapToolResult t)

def mapTool (t : ToolSpec) : Json :=
  .obj [("name", .str t.name), ("description", .str t.description),
    ("input_schema", t.parameters.getD (.obj [("type", .str "object")]))]

/-- `trim_end_matches('/')`. -/
def trimSlashes (s : String) : String :=
  String.ofList (s.toList.reverse.dropWhile (· = '/')).reverse

def requestUrl (config : AnthropicConfig) : String :=
  trimSlashes ((config.baseUrl.filter (· ≠ "")).getD defaultBaseUrl) ++ "/messages"

def requestBody (config : AnthropicConfig) (request : ProviderRequest) (messages : List Json) :
    Json :=
  .obj ([("model", .str request.model.id), ("max_tokens", Serde.ofNat config.maxTokens.toNat),
      ("messages", .arr messages), ("stream", .bool true)] ++
    (if request.context.systemPrompt = "" then []
      else [("system", .str request.context.systemPrompt)]) ++
    if request.context.tools = [] then []
      else [("tools", .arr (request.context.tools.map mapTool))])

def buildRequest (config : AnthropicConfig) (request : ProviderRequest) :
    Except ProviderError BuiltRequest :=
  (request.context.messages.mapM (mapMessage jsonError)).map fun messages =>
    ⟨requestUrl config,
      [("x-api-key", config.apiKey), ("anthropic-version", config.anthropicVersion),
        ("Content-Type", "application/json")],
      requestBody config request messages⟩

end Anthropic

/-- The arguments of a call are empty, or the text of a JSON object. -/
def ToolCall.builds (tc : ToolCall) : Bool :=
  tc.arguments = "" || (Serde.fromStr tc.arguments.toList).any Anthropic.isObject

/-- All calls of a message have arguments that can be sent. -/
def Message.builds (m : Message) : Bool := m.toolCalls.all ToolCall.builds

namespace Anthropic

variable {jsonError : String → String}

theorem mapM_isOk {ε α β : Type} (f : α → Except ε β) (xs : List α) :
    (xs.mapM f).isOk = xs.all fun x => (f x).isOk := by
  induction xs with
  | nil => rfl
  | cons x xs ih =>
    rw [List.mapM_cons, List.all_cons, ← ih]
    cases f x with
    | error e => rfl
    | ok y => cases xs.mapM f <;> rfl

theorem map_isOk {ε α β : Type} (x : Except ε α) (f : α → β) : (x.map f).isOk = x.isOk := by
  cases x <;> rfl

theorem parseToolArguments_isOk (id arguments : String) :
    (parseToolArguments jsonError id arguments).isOk =
      (decide (arguments = "") || (Serde.fromStr arguments.toList).any isObject) := by
  unfold parseToolArguments
  split_ifs with hempty
  · simp [hempty, Except.isOk, Except.toBool]
  · cases Serde.fromStr arguments.toList with
    | none => simp [hempty, Except.isOk, Except.toBool]
    | some value =>
      cases hobject : isObject value <;> simp [hempty, hobject, Except.isOk, Except.toBool]

theorem mapMessage_isOk (m : Message) : (mapMessage jsonError m).isOk = m.builds := by
  cases m with
  | user u => rfl
  | toolResult t => rfl
  | assistant a =>
    rw [mapMessage, mapAssistant, map_isOk, mapM_isOk, Message.builds, Message.toolCalls,
      extractToolCalls, List.all_filterMap]
    congr 1
    funext c
    cases c with
    | toolCall tc => rw [mapAssistantContent, map_isOk, parseToolArguments_isOk]; rfl
    | _ => rfl

/-- A request can be built if and only if the calls of its messages have arguments that can be
sent. -/
theorem buildRequest_isOk (config : AnthropicConfig) (request : ProviderRequest) :
    (buildRequest jsonError config request).isOk = request.context.messages.all Message.builds := by
  rw [buildRequest, map_isOk, mapM_isOk]
  simp only [mapMessage_isOk]

end Anthropic

/-! ### Calls that are executed and calls that can be sent back -/

/-- No hook refuses the call. -/
def CallEnv.permits (rt : AgentRuntime) (env : CallEnv) : Bool :=
  (!rt.loopConfig.hooks || env.pluginBefore.isOk) &&
    (!rt.loopConfig.beforeToolCall || env.before.isOk)

/-- The arguments that a call is taken with, unless it is refused. -/
def PreparedCall.taken? (p : PreparedCall) : Option Json :=
  if p.rejected.isNone then some p.args else none

theorem refusal_of_isOk {r : Except String Unit} (h : r.isOk = true) : refusal r = none := by
  cases r with
  | ok u => rfl
  | error e => cases h

/-- Where no hook refuses it, a call is refused for its arguments only. -/
theorem prepareCall_taken? {rt : AgentRuntime} {env : CallEnv} (h : env.permits rt = true)
    (tc : ToolCall) : (prepareCall rt env tc).taken? = Serde.fromStr tc.arguments.toList := by
  obtain ⟨hplugin, hclosure⟩ := Bool.and_eq_true_iff.mp h
  have hbefore : (if rt.loopConfig.beforeToolCall then refusal env.before else none) = none := by
    split_ifs with hset
    · rw [hset, Bool.not_true, Bool.false_or] at hclosure
      exact refusal_of_isOk hclosure
    · rfl
  have hrejected : (if rt.loopConfig.hooks then (refusal env.pluginBefore).or none else none) =
      none := by
    split_ifs with hset
    · rw [hset, Bool.not_true, Bool.false_or] at hplugin
      rw [refusal_of_isOk hplugin]
      rfl
    · rfl
  unfold prepareCall PreparedCall.taken?
  cases Serde.fromStr tc.arguments.toList with
  | none => rfl
  | some args =>
    simp only [hbefore, hrejected]
    rfl

/-- A call of a tool that is there runs when its arguments are taken. -/
theorem PreparedCall.runs_eq {p : PreparedCall} (h : p.tool.isSome = true) :
    p.runs = p.taken?.isSome := by
  unfold runs taken?
  rw [h, Bool.and_true]
  cases p.rejected <;> rfl

section Arguments

variable (jsonError : String → String) (arguments : String)

/-- The runtime takes arguments that can be sent back, as the same value, and no others: a call of
a tool that is there runs if and only if a request can be built from it. -/
def ArgumentsAgree : Prop :=
  ∀ (rt : AgentRuntime) (env : CallEnv) (tc : ToolCall), tc.arguments = arguments →
    env.permits rt = true →
    (prepareCall rt env tc).taken? =
        (Anthropic.parseToolArguments jsonError tc.id tc.arguments).toOption ∧
      ((prepareCall rt env tc).tool.isSome = true → (prepareCall rt env tc).runs = tc.builds)

/-- What the request makes of arguments: the runtime knows neither the empty text nor the demand for
an object. -/
theorem parseToolArguments_toOption (id : String) :
    (Anthropic.parseToolArguments jsonError id arguments).toOption =
      if arguments = "" then some (.obj [])
      else (Serde.fromStr arguments.toList).filter Anthropic.isObject := by
  unfold Anthropic.parseToolArguments
  split_ifs with hempty
  · rfl
  · cases Serde.fromStr arguments.toList with
    | none => rfl
    | some value =>
      cases hobject : Anthropic.isObject value <;> simp [hobject, Option.filter, Except.toOption]

theorem argumentsAgree_iff :
    ArgumentsAgree jsonError arguments ↔
      arguments ≠ "" ∧ ∀ value ∈ Serde.fromStr arguments.toList,
        Anthropic.isObject value = true := by
  constructor
  · intro h
    obtain ⟨htaken, -⟩ := h .plain (TurnEnv.cut.calls 0) ⟨"", "", arguments⟩ rfl rfl
    rw [prepareCall_taken? rfl, parseToolArguments_toOption] at htaken
    split_ifs at htaken with hempty
    · rw [hempty] at htaken
      cases htaken
    · refine ⟨hempty, fun value hvalue => ?_⟩
      rw [hvalue, eq_comm, Option.filter_eq_some_iff] at htaken
      exact htaken.2
  · rintro ⟨hempty, hobject⟩ rt env tc rfl hpermits
    have htaken : (prepareCall rt env tc).taken? =
        (Anthropic.parseToolArguments jsonError tc.id tc.arguments).toOption := by
      rw [prepareCall_taken? hpermits, parseToolArguments_toOption, if_neg hempty]
      cases hvalue : Serde.fromStr tc.arguments.toList with
      | none => rfl
      | some value => rw [Option.filter_some, if_pos (hobject value hvalue)]
    refine ⟨htaken, fun htool => ?_⟩
    rw [PreparedCall.runs_eq htool, prepareCall_taken? hpermits, ToolCall.builds,
      decide_eq_false hempty, Bool.false_or]
    cases hvalue : Serde.fromStr tc.arguments.toList with
    | none => rfl
    | some value => exact (hobject value hvalue).symm

/-- A call without arguments can be sent back, and is not executed. -/
theorem argumentsDisagree_empty : ¬ ArgumentsAgree (fun _ => "") "" := by
  intro h
  obtain ⟨htaken, -⟩ := h .plain (TurnEnv.cut.calls 0) ⟨"c1", "bash", ""⟩ rfl rfl
  cases htaken

end Arguments

/-! ### Transcripts of an agent -/

/-- The transcript and all transcripts that requests were built from can be sent. -/
structure Sendable (ctx : RunContext) : Prop where
  transcript : ctx.transcript.all Message.builds = true
  requests : ∀ ms ∈ requested ctx.trace, ms.all Message.builds = true

/-- The calls of an answer, as far as the stream has brought them, have arguments that can be sent,
and so have those of all messages that are taken in. -/
def Demand.builds : Demand where
  takes _ cmd := cmd.messages.all Message.builds
  start _ _ := true
  turn rt s env :=
    (!env.established rt.loopConfig s.ctx.tokens ||
      (env.answer rt).toolCalls.all ToolCall.builds) &&
      (env.aborts rt s || (env.injection rt.loopConfig ++
        boundarySteers (env.waiting rt s) env.arrived ++
        boundaryFollowUps (env.waiting rt s) env.arrived).all Message.builds)

theorem Prepared.builds {rt : AgentRuntime} {env : TurnEnv} {transcript base : List Message}
    {before : List Effect} (h : Prepared rt env transcript base before)
    (hbuilds : transcript.all Message.builds = true) :
    base.all Message.builds = true ∧ requested before = [] := by
  cases h with
  | kept => exact ⟨hbuilds, rfl⟩
  | committed =>
    refine ⟨?_, rfl⟩
    rw [List.all_eq_true] at hbuilds
    rw [List.all_cons, Bool.and_eq_true, List.all_eq_true]
    exact ⟨rfl, fun m hm => hbuilds m (List.mem_of_mem_drop hm)⟩

/-- A turn leaves a transcript that can be sent, and has built its request from one. -/
theorem Sendable.turnStep {rt : AgentRuntime} {s : LoopState} {env : TurnEnv} (h : Sendable s.ctx)
    (hturn : Demand.builds.turn rt s env = true) : Sendable (turnStep rt s env).ctx := by
  simp only [Demand.builds, Bool.and_eq_true] at hturn
  obtain ⟨hanswer, hcond⟩ := hturn
  cases hs : s.finished with
  | true => rwa [turnStep_finished env hs]
  | false =>
    rcases turnStep_cases env hs with ⟨-, -, hadds, -⟩ | ⟨-, base, turn, injected, before, stream,
      behind, step, ht⟩
    · constructor
      · rw [hadds.transcript, List.append_nil]
        exact h.transcript
      · rw [hadds.trace, requested_append]
        exact (List.append_nil (requested s.ctx.trace)).symm ▸ h.requests
    · obtain ⟨hbase, hbefore⟩ := ht.prepared.builds h.transcript
      have hmessage : (Message.assistant turn.assistantMessage).builds = true := by
        cases ht.outcome with
        | failed _ _ hcontent =>
          simp only [Message.builds, Message.toolCalls, extractToolCalls, hcontent]
          rfl
        | answered hset =>
          rw [hset, Bool.not_true, Bool.false_or] at hanswer
          exact hanswer
      have hinjected : injected.all Message.builds = true := by
        apply ht.finish.injected_all
        intro hno
        have hcut : env.aborts rt s = false := by
          by_contra habort
          rw [Bool.not_eq_false] at habort
          exact absurd (hno.symm.trans (ht.outcome.aborted_of_aborts habort)) (by simp)
        rw [hcut, Bool.false_or] at hcond
        exact hcond
      have hresults : ((env.toolWork rt turn).2.map Message.toolResult).all Message.builds =
          true := by
        rw [List.all_map, List.all_eq_true]
        intro r hr
        rfl
      obtain ⟨request, htrace⟩ := ht.trace
      constructor
      · rw [ht.transcript, List.all_append, List.all_cons, List.all_append, hbase, hmessage,
          hresults,
          hinjected]
        rfl
      · have hrequests : requested (.event .turnStart :: (before ++ .request base request ::
            (stream ++ ((env.toolWork rt turn).1 ++ behind)))) = [base] := by
          show requested (before ++ ([.request base request] ++
            (stream ++ ((env.toolWork rt turn).1 ++ behind)))) = _
          rw [requested_append, requested_append, requested_append, requested_append, hbefore,
            ht.outcome.requested_eq, (toolWork_ofTools rt env turn).requested_eq,
            ht.finish.announces.requests]
          rfl
        rw [htrace, requested_append, hrequests]
        exact List.forall_mem_append.mpr ⟨h.requests, List.forall_mem_singleton.mpr hbase⟩

theorem builds_keeps (rt : AgentRuntime) : Demand.builds.Keeps rt fun ctx _ => Sendable ctx where
  start := by
    intro ctx ctx' cmd initial n arrivals h hnext hinitial htakes hstart
    obtain ⟨-, -, htranscript, -⟩ := hnext.books
    have hadds := RunContext.adds_startLoop (ctx'.record [.processing cmd]) initial arrivals
    have hall : (appendedInitial initial arrivals).all Message.builds = true := by
      apply appendedInitial_all
      rw [← messages_of_initial? hinitial]
      exact htakes
    constructor
    · rw [hadds.transcript]
      show (ctx'.transcript ++ _).all Message.builds = true
      rw [htranscript, List.all_append, h.transcript, hall]
      rfl
    · rw [hadds.trace, requested_append, (announces_startLoop initial arrivals).requests,
        List.append_nil]
      exact hnext.requested_eq.symm ▸ h.requests
  turn := by
    intro s env n h hturn
    exact h.turnStep hturn
  close := by
    intro ctx n h
    have hrequests : requested (ctx.send (.agentEnd ctx.transcript)).trace = requested ctx.trace :=
      (requested_append _ _).trans (List.append_nil _)
    exact ⟨h.transcript, hrequests.symm ▸ h.requests⟩
  reset := by
    intro ctx ctx' n h hnext htakes
    exact ⟨rfl, hnext.requested_eq.symm ▸ h.requests⟩
  skip := by
    intro ctx ctx' cmd n h hnext hcuts htakes
    obtain ⟨-, -, htranscript, -⟩ := hnext.books
    refine ⟨?_, hnext.requested_eq.symm ▸ h.requests⟩
    show ctx'.transcript.all Message.builds = true
    rw [htranscript]
    exact h.transcript

namespace AgentSystem

/-- A request over the transcript can be built now, and could be built over the transcripts of all
requests so far. -/
def Buildable (jsonError : String → String) (s : AgentSystem) : Prop :=
  ∀ config request, request.context.messages = s.agent.ctx.transcript ∨
      request.context.messages ∈ requested s.agent.ctx.trace →
    (Anthropic.buildRequest jsonError config request).isOk = true

theorem Buildable.transcript {jsonError : String → String} {s : AgentSystem}
    (h : Buildable jsonError s) : s.agent.ctx.transcript.all Message.builds = true := by
  have hok := h (.new "") ⟨⟨"", 0⟩, ⟨"", s.agent.ctx.transcript, []⟩, .off, none⟩ (.inl rfl)
  rwa [Anthropic.buildRequest_isOk] at hok

/-- Requests can be built all along a run in which every call of an answer, also of one that is cut
off, has arguments that are empty or the text of an object, and so has every call of the messages
that are taken in. -/
theorem buildable_throughout (jsonError : String → String) {rt : AgentRuntime}
    {transcript : List Message} {as : List SystemAction}
    (hbuilds : transcript.all Message.builds = true)
    (h : Runs.Along (AgentSystem.step rt) (Demand.builds.MetBySystem rt) (.start transcript) as) :
    Runs.Throughout (AgentSystem.step rt) (Buildable jsonError) (.start transcript) as := by
  refine (builds_keeps rt).throughout ⟨hbuilds, List.forall_mem_nil _⟩ ?_ h
  intro s hs _ config request hmessages
  rw [Anthropic.buildRequest_isOk]
  rcases hmessages with hmessages | hmessages
  · rw [hmessages]
    exact hs.transcript
  · exact hs.requests _ hmessages

theorem buildable_callingAgent : Runs.Throughout (AgentSystem.step .withBash)
    (Buildable fun _ => "") (.start []) [.send (.prompt [helloMessage]),
      .runtime (.receive (.prompt [helloMessage])
        ⟨[], [.streaming [.done callingAnswer], .streaming [.done helloAnswer]]⟩)] :=
  buildable_throughout (fun _ => "") rfl (by decide +kernel)

end AgentSystem

/-- What a provider sends for a call that the limit of tokens cuts off. -/
def cutCall : List SseEvent :=
  [.named "content_block_start" ("\x7b\"index\":0,\"content_block\":" ++
      "\x7b\"type\":\"tool_use\",\"id\":\"c1\",\"name\":\"bash\"\x7d\x7d"),
    .named "content_block_delta" ("\x7b\"index\":0,\"delta\":" ++
      "\x7b\"type\":\"input_json_delta\",\"partial_json\":\"\x7b\"\x7d\x7d"),
    .named "content_block_stop" "\x7b\"index\":0\x7d",
    .named "message_delta" "\x7b\"delta\":\x7b\"stop_reason\":\"max_tokens\"\x7d\x7d",
    .named "message_stop" "\x7b\x7d"]

namespace AgentSystem

/-- Behind an answer with a call that is cut off no request can be built any more. -/
theorem cutCall_unbuildable : ¬ Buildable (fun _ => "") (Runs.run (AgentSystem.step .withBash)
    (.start []) [.send (.prompt [helloMessage]),
      .runtime (.receive (.prompt [helloMessage]) ⟨[], [.streaming
        (mapAll (Anthropic.mapEvent fun _ => "") (.new "default") cutCall).1]⟩)]) := by
  intro hbuildable
  have hcut : (Runs.run (AgentSystem.step .withBash) (.start []) [.send (.prompt [helloMessage]),
      .runtime (.receive (.prompt [helloMessage]) ⟨[], [.streaming
        (mapAll (Anthropic.mapEvent fun _ => "") (.new "default") cutCall).1]⟩)]
      ).agent.ctx.transcript.all Message.builds = false := by
    decide +kernel
  exact absurd (hcut.symm.trans hbuildable.transcript) (by simp)

end AgentSystem

end Guigu
