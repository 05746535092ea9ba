import Guigu.Core.MessageJson

/-! The requests of the remote protocol, and their JSON form. -/
namespace Guigu.Remote

open Serde

inductive RemoteError where
  | io
  | serde
  | protocol (text : String)
  | command (text : String)
  | timeout
  deriving DecidableEq

inductive RemoteRequest where
  | prompt (id : UInt64) (messages : List Message)
  | continue (id : UInt64)
  | steer (id : UInt64) (message : Message)
  | followUp (id : UInt64) (message : Message)
  | abort (id : UInt64)
  | reset (id : UInt64)
  | getSnapshot (id : UInt64)
  | shutdown (id : UInt64)

namespace RemoteRequest

def id : RemoteRequest → UInt64
  | .prompt id _ | .continue id | .steer id _ | .followUp id _ | .abort id | .reset id
  | .getSnapshot id | .shutdown id => id

def members : RemoteRequest → List (String × Json)
  | .prompt id messages =>
    [("type", .str "prompt"), ("id", ofU64 id), ("messages", .arr (messages.map Message.toJson))]
  | .continue id => [("type", .str "continue"), ("id", ofU64 id)]
  | .steer id message => [("type", .str "steer"), ("id", ofU64 id), ("message", message.toJson)]
  | .followUp id message =>
    [("type", .str "follow_up"), ("id", ofU64 id), ("message", message.toJson)]
  | .abort id => [("type", .str "abort"), ("id", ofU64 id)]
  | .reset id => [("type", .str "reset"), ("id", ofU64 id)]
  | .getSnapshot id => [("type", .str "get_snapshot"), ("id", ofU64 id)]
  | .shutdown id => [("type", .str "shutdown"), ("id", ofU64 id)]

def idOfJson (j : Json) : Option UInt64 :=
  (fields ["id"] j).bind fun
    | [id] => required u64 id
    | _ => none

def messageOfJson (j : Json) : Option (UInt64 × Message) :=
  (fields ["id", "message"] j).bind fun
    | [id, message] => do return (← required u64 id, ← required Message.ofJson message)
    | _ => none

def messagesOfJson (j : Json) : Option (UInt64 × List Message) :=
  (fields ["id", "messages"] j).bind fun
    | [id, messages] => do return (← required u64 id, ← required (list Message.ofJson) messages)
    | _ => none

def variants : List String :=
  ["prompt", "continue", "steer", "follow_up", "abort", "reset", "get_snapshot", "shutdown"]

def ofJson (j : Json) : Option RemoteRequest :=
  (tagged "type" variants j).bind fun (variant, rest) =>
    if variant = "prompt" then (messagesOfJson rest).map fun p => .prompt p.1 p.2
    else if variant = "continue" then (idOfJson rest).map .continue
    else if variant = "steer" then (messageOfJson rest).map fun p => .steer p.1 p.2
    else if variant = "follow_up" then (messageOfJson rest).map fun p => .followUp p.1 p.2
    else if variant = "abort" then (idOfJson rest).map .abort
    else if variant = "reset" then (idOfJson rest).map .reset
    else if variant = "get_snapshot" then (idOfJson rest).map .getSnapshot
    else (idOfJson rest).map .shutdown

def messages : RemoteRequest → List Message
  | .prompt _ messages => messages
  | .steer _ message | .followUp _ message => [message]
  | .continue _ | .abort _ | .reset _ | .getSnapshot _ | .shutdown _ => []

/-- Requests whose messages come back come back. -/
theorem ofJson_members {r : RemoteRequest} (h : ∀ m ∈ r.messages, m.Storable) :
    ofJson (.obj r.members) = some r := by
  have hmessages : ∀ ms : List Message, (∀ m ∈ ms, m.Storable) →
      list Message.ofJson (.arr (ms.map Message.toJson)) = some ms :=
    fun ms hms => list_map ms fun m hm => Message.ofJson_toJson (hms m hm)
  cases r with
  | prompt id ms =>
    have hms := hmessages ms h
    simp [ofJson, members, tagged, field, variant, variants, messagesOfJson, fields, required, hms]
  | steer id m | followUp id m =>
    have hm := Message.ofJson_toJson (h m (by simp [messages]))
    simp [ofJson, members, tagged, field, variant, variants, messageOfJson, fields, required, hm]
  | _ id =>
    simp [ofJson, members, tagged, field, variant, variants, idOfJson, fields, required]

/-- And so do their texts, unless their messages nest too deep. -/
theorem fromStr_members {r : RemoteRequest} (h : ∀ m ∈ r.messages, m.Storable)
    (hdepth : ∀ m ∈ r.messages, m.toJson.depth + 2 ≤ maxDepth) :
    (fromStr (Json.render (.obj r.members))).bind ofJson = some r := by
  have hfit : (Json.obj r.members).depth ≤ maxDepth ∧ (Json.obj r.members).finite = true := by
    cases r with
    | prompt id ms =>
      have hd := Json.depthItems_map_le Message.toJson ms fun m hm =>
        Nat.le_sub_of_add_le (hdepth m hm)
      have hf := Json.finiteItems_map Message.toJson ms fun m hm => Message.finite_toJson (h m hm)
      simp only [members, Json.depth, Json.depthFields, Json.depthField, depth_ofU64, Json.finite,
        Json.finiteFields, Json.finiteField, finite_ofU64, hf, maxDepth] at hd ⊢
      exact ⟨by omega, rfl⟩
    | steer id m | followUp id m =>
      have hd := hdepth m (by simp [messages])
      have hf := Message.finite_toJson (h m (by simp [messages]))
      simp only [members, Json.depth, Json.depthFields, Json.depthField, depth_ofU64, Json.finite,
        Json.finiteFields, Json.finiteField, finite_ofU64, hf, maxDepth] at hd ⊢
      exact ⟨by omega, rfl⟩
    | _ id =>
      simp only [members, Json.depth, Json.depthFields, Json.depthField, depth_ofU64, Json.finite,
        Json.finiteFields, Json.finiteField, finite_ofU64, maxDepth]
      exact ⟨by omega, rfl⟩
  rw [fromStr_render hfit.1 hfit.2, Option.bind_some, ofJson_members h]

end RemoteRequest

end Guigu.Remote
