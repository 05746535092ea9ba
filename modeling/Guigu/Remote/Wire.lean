import Guigu.Core.EventJson
import Guigu.Remote.Client
import Guigu.Remote.Codec

/-! What a peer of the remote protocol reads of what was written: every message as it was, if and
only if none of them loses something in its JSON form. -/
namespace Guigu.Remote

open Serde

/-! ### Streams -/

/-- Messages that are sent are read as they are, whatever the pieces they come in, if and only if
each of them is one of these. -/
def Carries {μ : Type*} (codec : MessageCodec μ) (ok : μ → Prop) : Prop :=
  ∀ (ms : List μ) (chunks : List { c : List UInt8 // c ≠ [] }),
    chunks.flatMap (·.1) = ms.flatMap codec.encodeLine →
      (LineReader.Yields codec (.new chunks) ms none ↔ ∀ m ∈ ms, ok m)

section Streams
variable {μ : Type*} {codec : MessageCodec μ} {r : LineReader}

theorem MessageCodec.decodes_iff {m : μ} : codec.Decodes m ↔
    Fits (.obj (codec.members m)) ∧ codec.ofJson (.obj (codec.members m)) = some m := by
  rw [Decodes, text, fromStr_render_eq]
  split_ifs with h
  · simp [h]
  · simp [h]

/-- A line of a message is an error if it is not the text of any message. -/
theorem decodeLine_line (m : μ) : codec.decodeLine (codec.text m ++ ['\n']) =
    ((fromStr (codec.text m)).bind codec.ofJson).elim (.error (.protocol "invalid frame"))
      fun m => .ok (some m) := by
  obtain ⟨⟨cs, hcs⟩, -⟩ := text_ends codec m
  have hne : codec.text m ≠ [] := by
    rw [hcs]
    exact List.cons_ne_nil _ _
  have hblank : ∀ c ∈ ['\n'], c.isWhiteSpace = true := List.forall_mem_singleton.mpr rfl
  simp only [MessageCodec.decodeLine, trim_text m hblank]
  rw [if_neg hne]
  cases (fromStr (codec.text m)).bind codec.ofJson <;> rfl

/-- What is read first of a line that comes first. -/
theorem LineReader.next_of_line {m : μ} {rest : List UInt8}
    (hr : r.inner.remaining = codec.encodeLine m ++ rest) :
    ∃ r', r'.inner.remaining = rest ∧ r.next codec =
      (((fromStr (codec.text m)).bind codec.ofJson).elim (.error (.protocol "invalid frame"))
        fun m => .ok (some m), r') := by
  rw [MessageCodec.encodeLine, List.append_assoc] at hr
  obtain ⟨hline, hrest⟩ := BufReader.readUntil_ended (lineFeed_not_mem_text m) hr
  have htext : Utf8.decode (Utf8.encode (codec.text m) ++ [10]) =
      some (codec.text m ++ ['\n']) := by
    apply Utf8.decode_eq_some.mpr
    rw [Utf8.encode, List.flatMap_append]
    rfl
  have hne : Utf8.encode (codec.text m) ++ [10] ≠ [] := by simp
  refine ⟨⟨(r.inner.readUntil 10).2⟩, hrest, ?_⟩
  rw [next]
  simp only [hline, htext, hne, if_false, decodeLine_line]
  cases (fromStr (codec.text m)).bind codec.ofJson <;> rfl

/-- Lines are read as the messages that were written if and only if each one decodes. -/
theorem LineReader.yields_iff {ms : List μ} (hr : r.inner.remaining = ms.flatMap codec.encodeLine) :
    Yields codec r ms none ↔ ∀ m ∈ ms, codec.Decodes m := by
  induction ms generalizing r with
  | nil =>
    obtain ⟨r', hnext⟩ := next_of_empty codec hr
    exact iff_of_true (.ended hnext) (List.forall_mem_nil _)
  | cons m ms ih =>
    rw [List.flatMap_cons] at hr
    obtain ⟨r', hrest, hnext⟩ := next_of_line hr
    rw [List.forall_mem_cons, ← ih hrest]
    constructor
    · intro h
      cases h with
      | message h hms =>
        rw [hnext] at h
        obtain ⟨hm, rfl⟩ := Prod.mk.inj h
        refine ⟨?_, hms⟩
        cases hread : (fromStr (codec.text m)).bind codec.ofJson with
        | none =>
          rw [hread] at hm
          cases hm
        | some m' =>
          rw [hread] at hm
          obtain rfl := Option.some.inj (Except.ok.inj hm)
          exact hread
    · rintro ⟨hm, hms⟩
      rw [show (fromStr (codec.text m)).bind codec.ofJson = some m from hm] at hnext
      exact .message hnext hms

theorem carries_of_ofJson {intact : μ → Prop}
    (h : ∀ m, codec.ofJson (.obj (codec.members m)) = some m ↔ intact m) :
    Carries codec fun m => intact m ∧ Fits (.obj (codec.members m)) := by
  intro ms chunks hchunks
  rw [LineReader.yields_iff (r := .new chunks) hchunks]
  refine forall₂_congr fun m _ => ?_
  rw [MessageCodec.decodes_iff, h, and_comm]

end Streams

/-! ### Requests -/

def RemoteRequest.Intact (r : RemoteRequest) : Prop := ∀ m ∈ r.messages, m.Intact

theorem RemoteRequest.ofJson_members_iff (r : RemoteRequest) :
    ofJson (.obj r.members) = some r ↔ r.Intact := by
  unfold Intact
  cases r with
  | prompt id ms =>
    rw [messages, ← list_message_iff]
    simp [ofJson, members, tagged, field, variant, variants, messagesOfJson, fields, required,
      Option.bind_eq_some_iff]
  | steer id m | followUp id m =>
    rw [messages, List.forall_mem_singleton, ← Message.ofJson_toJson_iff]
    simp [ofJson, members, tagged, field, variant, variants, messageOfJson, fields, required,
      Option.bind_eq_some_iff]
  | _ id =>
    simp [ofJson, members, tagged, field, variant, variants, idOfJson, fields, required, messages]

/-! ### Messages of the server -/

/-- `result_unit_string`. -/
def resultToJson : Except String Unit → Json
  | .ok () => .null
  | .error text => .str text

def resultOfJson : Json → Option (Except String Unit)
  | .null => some (.ok ())
  | .str text => some (.error text)
  | _ => none

namespace ServerMessage

def members : ServerMessage PublishedSnapshot AgentEvent → List (String × Json)
  | .snapshot id s => [("type", .str "snapshot"), ("id", ofU64 id), ("snapshot", s.toJson)]
  | .response id result =>
    [("type", .str "response"), ("id", ofU64 id), ("result", resultToJson result)]
  | .event e => [("type", .str "event"), ("event", .obj e.members)]

def ofJson (j : Json) : Option (ServerMessage PublishedSnapshot AgentEvent) :=
  (tagged "type" ["snapshot", "response", "event"] j).bind fun (variant, rest) =>
    if variant = "snapshot" then
      (twoFields "id" u64 "snapshot" PublishedSnapshot.ofJson rest).map fun p => .snapshot p.1 p.2
    else if variant = "response" then
      (twoFields "id" u64 "result" resultOfJson rest).map fun p => .response p.1 p.2
    else (oneField "event" AgentEvent.ofJson rest).map .event

def Intact : ServerMessage PublishedSnapshot AgentEvent → Prop
  | .snapshot _ s => s.Intact
  | .response _ _ => True
  | .event e => e.Intact

theorem ofJson_members_iff (m : ServerMessage PublishedSnapshot AgentEvent) :
    ofJson (.obj m.members) = some m ↔ m.Intact := by
  cases m with
  | snapshot id s =>
    rw [Intact, ← PublishedSnapshot.ofJson_toJson_iff]
    simp [ofJson, members, tagged, field, variant, twoFields, fields, required]
  | response id result =>
    cases result with
    | ok u | error text =>
      simp [ofJson, members, tagged, field, variant, twoFields, fields, required, resultToJson,
        resultOfJson, Intact]
  | event e =>
    rw [Intact, ← AgentEvent.ofJson_members_iff]
    simp [ofJson, members, tagged, field, variant, oneField, fields, required]

end ServerMessage

/-- The codec of the messages of the server. -/
def messageCodec : MessageCodec (ServerMessage PublishedSnapshot AgentEvent) :=
  ⟨ServerMessage.members, ServerMessage.ofJson⟩

end Guigu.Remote
