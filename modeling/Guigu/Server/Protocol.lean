import Guigu.Remote.Wire
import Guigu.Server.Transport

/-! The JSON form of the session protocol, and what a peer reads of what was written. -/
namespace Guigu.Server

open Serde Remote

/-! ### Requests -/

namespace ServerRequest

/-- The members of the requests that are for a lane. -/
def laneMembers (name : String) (id : UInt64) (sessionId : SessionId) (laneId : LaneId) :
    List (String × Json) :=
  [("type", .str name), ("id", ofU64 id), ("session_id", .str sessionId), ("lane_id", .str laneId)]

def members : ServerRequest → List (String × Json)
  | .createSession id sessionId =>
    [("type", .str "create_session"), ("id", ofU64 id), ("session_id", ofOption .str sessionId)]
  | .loadSession id sessionId =>
    [("type", .str "load_session"), ("id", ofU64 id), ("session_id", .str sessionId)]
  | .listSessions id => [("type", .str "list_sessions"), ("id", ofU64 id)]
  | .spawnLane id sessionId laneId => laneMembers "spawn_lane" id sessionId laneId
  | .forkLane id sessionId fromLane newLane =>
    [("type", .str "fork_lane"), ("id", ofU64 id), ("session_id", .str sessionId),
      ("from_lane", .str fromLane), ("new_lane", .str newLane)]
  | .prompt id sessionId laneId messages =>
    [("type", .str "prompt"), ("id", ofU64 id), ("session_id", .str sessionId),
      ("lane_id", .str laneId), ("messages", .arr (messages.map Message.toJson))]
  | .continue id sessionId laneId => laneMembers "continue" id sessionId laneId
  | .abort id sessionId laneId => laneMembers "abort" id sessionId laneId
  | .reset id sessionId laneId => laneMembers "reset" id sessionId laneId
  | .getSnapshot id sessionId laneId => laneMembers "get_snapshot" id sessionId laneId
  | .subscribe id sessionId laneId => laneMembers "subscribe" id sessionId laneId
  | .unsubscribe id sessionId laneId => laneMembers "unsubscribe" id sessionId laneId
  | .shutdown id => [("type", .str "shutdown"), ("id", ofU64 id)]

def variants : List String :=
  ["create_session", "load_session", "list_sessions", "spawn_lane", "fork_lane", "prompt",
    "continue", "abort", "reset", "get_snapshot", "subscribe", "unsubscribe", "shutdown"]

def createSessionOfJson (j : Json) : Option ServerRequest :=
  (fields ["id", "session_id"] j).bind fun
    | [id, sessionId] => do return .createSession (← required u64 id) (← maybe string sessionId)
    | _ => none

def forkLaneOfJson (j : Json) : Option ServerRequest :=
  (fields ["id", "session_id", "from_lane", "new_lane"] j).bind fun
    | [id, sessionId, fromLane, newLane] => do
      return .forkLane (← required u64 id) (← required string sessionId)
        (← required string fromLane) (← required string newLane)
    | _ => none

def promptOfJson (j : Json) : Option ServerRequest :=
  (fields ["id", "session_id", "lane_id", "messages"] j).bind fun
    | [id, sessionId, laneId, messages] => do
      return .prompt (← required u64 id) (← required string sessionId) (← required string laneId)
        (← required (list Message.ofJson) messages)
    | _ => none

/-- A request that is for a lane. -/
def laneOfJson (request : UInt64 → SessionId → LaneId → ServerRequest) (j : Json) :
    Option ServerRequest :=
  (fields ["id", "session_id", "lane_id"] j).bind fun
    | [id, sessionId, laneId] => do
      return request (← required u64 id) (← required string sessionId) (← required string laneId)
    | _ => none

def ofJson (j : Json) : Option ServerRequest :=
  (tagged "type" variants j).bind fun (variant, rest) =>
    if variant = "create_session" then createSessionOfJson rest
    else if variant = "load_session" then
      (twoFields "id" u64 "session_id" string rest).map fun p => .loadSession p.1 p.2
    else if variant = "list_sessions" then (oneField "id" u64 rest).map .listSessions
    else if variant = "spawn_lane" then laneOfJson .spawnLane rest
    else if variant = "fork_lane" then forkLaneOfJson rest
    else if variant = "prompt" then promptOfJson rest
    else if variant = "continue" then laneOfJson .continue rest
    else if variant = "abort" then laneOfJson .abort rest
    else if variant = "reset" then laneOfJson .reset rest
    else if variant = "get_snapshot" then laneOfJson .getSnapshot rest
    else if variant = "subscribe" then laneOfJson .subscribe rest
    else if variant = "unsubscribe" then laneOfJson .unsubscribe rest
    else (oneField "id" u64 rest).map .shutdown

def messages : ServerRequest → List Message
  | .prompt _ _ _ messages => messages
  | _ => []

def Intact (r : ServerRequest) : Prop := ∀ m ∈ r.messages, m.Intact

section Lanes

variable (id : UInt64) (sessionId : SessionId) (laneId : LaneId)

theorem tagged_laneMembers {name : String} (h : name ∈ variants) :
    tagged "type" variants (.obj (laneMembers name id sessionId laneId)) =
      some (name, .obj [("id", ofU64 id), ("session_id", .str sessionId),
        ("lane_id", .str laneId)]) := by
  simp [laneMembers, tagged, field, variant, h]

theorem laneOfJson_members (request : UInt64 → SessionId → LaneId → ServerRequest) :
    laneOfJson request (.obj [("id", ofU64 id), ("session_id", .str sessionId),
      ("lane_id", .str laneId)]) = some (request id sessionId laneId) := by
  simp [laneOfJson, fields, field, required]

end Lanes

theorem ofJson_members_iff (r : ServerRequest) : ofJson (.obj r.members) = some r ↔ r.Intact := by
  unfold Intact
  cases r with
  | createSession id sessionId =>
    simp [ofJson, members, tagged, field, variant, variants, createSessionOfJson, fields, required,
      maybe, option_string, messages]
  | prompt id sessionId laneId ms =>
    rw [messages, ← list_message_iff]
    simp [ofJson, members, tagged, field, variant, variants, promptOfJson, fields, required,
      Option.bind_eq_some_iff]
  | forkLane id sessionId fromLane newLane =>
    simp [ofJson, members, tagged, field, variant, variants, forkLaneOfJson, fields, required,
      messages]
  | loadSession | listSessions | shutdown =>
    simp [ofJson, members, tagged, field, variant, variants, oneField, twoFields, fields, required,
      messages]
  | _ =>
    rw [members, ofJson, tagged_laneMembers _ _ _ (by simp [variants]), Option.bind_some]
    simp [laneOfJson_members, messages]

end ServerRequest

/-- The codec of the requests. -/
def requestCodec : MessageCodec ServerRequest := ⟨ServerRequest.members, ServerRequest.ofJson⟩

/-! ### Messages of the server -/

/-- `result_value_string`. -/
def resultToJson : Except String Json → Json
  | .ok v => .obj [("ok", v)]
  | .error text => .obj [("err", .str text)]

/-- A value under `ok` comes first, whatever it is. -/
def resultOfJson (j : Json) : Option (Except String Json) :=
  match Serde.get "ok" j with
  | some v => some (.ok v)
  | none => (getString "err" j).map .error

namespace ServerMessage

def members : ServerMessage PublishedSnapshot AgentEvent → List (String × Json)
  | .response id result =>
    [("type", .str "response"), ("id", ofU64 id), ("result", resultToJson result)]
  | .sessionList id sessions =>
    [("type", .str "session_list"), ("id", ofU64 id), ("sessions", .arr (sessions.map .str))]
  | .snapshot sessionId laneId s =>
    [("type", .str "snapshot"), ("session_id", .str sessionId), ("lane_id", .str laneId),
      ("snapshot", s.toJson)]
  | .event sessionId laneId e =>
    [("type", .str "event"), ("session_id", .str sessionId), ("lane_id", .str laneId),
      ("event", .obj e.members)]

/-- A message about a lane. -/
def laneOfJson {α : Type} (name : String) (read : Json → Option α) (j : Json) :
    Option (SessionId × LaneId × α) :=
  (fields ["session_id", "lane_id", name] j).bind fun
    | [sessionId, laneId, a] => do
      return (← required string sessionId, ← required string laneId, ← required read a)
    | _ => none

def ofJson (j : Json) : Option (ServerMessage PublishedSnapshot AgentEvent) :=
  (tagged "type" ["response", "session_list", "snapshot", "event"] j).bind fun (variant, rest) =>
    if variant = "response" then
      (twoFields "id" u64 "result" resultOfJson rest).map fun p => .response p.1 p.2
    else if variant = "session_list" then
      (twoFields "id" u64 "sessions" (list string) rest).map fun p => .sessionList p.1 p.2
    else if variant = "snapshot" then
      (laneOfJson "snapshot" PublishedSnapshot.ofJson rest).map fun p => .snapshot p.1 p.2.1 p.2.2
    else (laneOfJson "event" AgentEvent.ofJson rest).map fun p => .event p.1 p.2.1 p.2.2

def Intact : ServerMessage PublishedSnapshot AgentEvent → Prop
  | .response _ _ | .sessionList _ _ => True
  | .snapshot _ _ s => s.Intact
  | .event _ _ e => e.Intact

theorem resultOfJson_toJson (result : Except String Json) :
    resultOfJson (resultToJson result) = some result := by
  cases result with
  | ok v => simp [resultOfJson, resultToJson, Serde.get]
  | error text => simp [resultOfJson, resultToJson, Serde.get, getString]

theorem ofJson_members_iff (m : ServerMessage PublishedSnapshot AgentEvent) :
    ofJson (.obj m.members) = some m ↔ m.Intact := by
  cases m with
  | response id result =>
    simp [ofJson, members, tagged, field, variant, twoFields, fields, required,
      resultOfJson_toJson, Intact]
  | sessionList id sessions =>
    have hsessions : list string (.arr (sessions.map .str)) = some sessions :=
      list_map sessions fun _ _ => rfl
    simp [ofJson, members, tagged, field, variant, twoFields, fields, required, hsessions, Intact]
  | snapshot sessionId laneId s =>
    rw [Intact, ← PublishedSnapshot.ofJson_toJson_iff]
    simp [ofJson, members, tagged, field, variant, laneOfJson, fields, required,
      Option.bind_eq_some_iff]
  | event sessionId laneId e =>
    rw [Intact, ← AgentEvent.ofJson_members_iff]
    simp [ofJson, members, tagged, field, variant, laneOfJson, fields, required,
      Option.bind_eq_some_iff]

end ServerMessage

/-- The codec of the messages of the server. -/
def messageCodec : MessageCodec (ServerMessage PublishedSnapshot AgentEvent) :=
  ⟨ServerMessage.members, ServerMessage.ofJson⟩

/-- Both protocols carry requests and messages over any stream of bytes: all that is sent is read as
it was sent, one message after another, if and only if no message of it would lose something in its
JSON form and none is too deep to be read. The values of doubles are left aside. -/
theorem protocols_carry :
    Carries Remote.requestCodec (fun r => r.Intact ∧ Fits (.obj r.members)) ∧
      Carries Remote.messageCodec (fun m => m.Intact ∧ Fits (.obj m.members)) ∧
      Carries requestCodec (fun r => r.Intact ∧ Fits (.obj r.members)) ∧
      Carries messageCodec (fun m => m.Intact ∧ Fits (.obj m.members)) :=
  ⟨carries_of_ofJson RemoteRequest.ofJson_members_iff,
    carries_of_ofJson Remote.ServerMessage.ofJson_members_iff,
    carries_of_ofJson ServerRequest.ofJson_members_iff,
    carries_of_ofJson ServerMessage.ofJson_members_iff⟩

end Guigu.Server
