import Guigu.Core.MessageJson
import Guigu.Library.Utf8

/-! The lines of a session file: message nodes and lane heads. -/
namespace Guigu

open Serde

abbrev NodeId := ℕ

abbrev LaneId := String

structure SessionEntry where
  id : NodeId
  parentId : Option NodeId
  message : Message
  deriving DecidableEq, Repr

/-- The branch head of a lane; `none` for a lane that has no node yet. -/
structure LaneHeadRecord where
  laneId : LaneId
  head : Option NodeId
  deriving DecidableEq, Repr

inductive SessionRecord where
  | message (entry : SessionEntry)
  | laneHead (head : LaneHeadRecord)
  deriving DecidableEq, Repr

def SessionRecord.entry? : SessionRecord → Option SessionEntry
  | .message e => some e
  | .laneHead _ => none

def SessionRecord.head? : SessionRecord → Option LaneHeadRecord
  | .message _ => none
  | .laneHead h => some h

def SessionEntry.members (e : SessionEntry) : List (String × Json) :=
  [("id", ofNat e.id), ("parent_id", ofOption ofNat e.parentId), ("message", e.message.toJson)]

def SessionEntry.ofJson (j : Json) : Option SessionEntry :=
  (fields ["id", "parent_id", "message"] j).bind fun
    | [id, parentId, message] => do
      return ⟨← required nat64 id, ← maybe nat64 parentId, ← required Message.ofJson message⟩
    | _ => none

def LaneHeadRecord.members (h : LaneHeadRecord) : List (String × Json) :=
  [("lane_id", .str h.laneId), ("head", ofOption ofNat h.head)]

def LaneHeadRecord.ofJson (j : Json) : Option LaneHeadRecord :=
  (fields ["lane_id", "head"] j).bind fun
    | [laneId, head] => do return ⟨← required string laneId, ← maybe nat64 head⟩
    | _ => none

/-- The members of the line; no tag tells the two kinds apart. -/
def SessionRecord.members : SessionRecord → List (String × Json)
  | .message e => e.members
  | .laneHead h => h.members

/-- A message node is tried first. -/
def SessionRecord.ofJson (j : Json) : Option SessionRecord :=
  match SessionEntry.ofJson j with
  | some e => some (.message e)
  | none => (LaneHeadRecord.ofJson j).map .laneHead

def SessionRecord.fromStr (cs : List Char) : Option SessionRecord :=
  (Serde.fromStr cs).bind SessionRecord.ofJson

/-- The text of the line, without its line feed. -/
def SessionRecord.text (r : SessionRecord) : List Char := Json.render (.obj r.members)

def SessionRecord.body (r : SessionRecord) : List UInt8 := Utf8.encode r.text

/-- The record is what its own line is read as. -/
def SessionRecord.Legible (r : SessionRecord) : Prop := SessionRecord.fromStr r.text = some r

instance (r : SessionRecord) : Decidable r.Legible := inferInstanceAs (Decidable (_ = _))

def SessionRecord.Storable : SessionRecord → Prop
  | .message e => e.id < 2 ^ 64 ∧ (∀ p ∈ e.parentId, p < 2 ^ 64) ∧ e.message.Storable
  | .laneHead h => ∀ n ∈ h.head, n < 2 ^ 64

instance : (r : SessionRecord) → Decidable r.Storable
  | .message e => inferInstanceAs (Decidable (e.id < 2 ^ 64 ∧ (∀ p ∈ e.parentId, p < 2 ^ 64) ∧
    e.message.Storable))
  | .laneHead h => inferInstanceAs (Decidable (∀ n ∈ h.head, n < 2 ^ 64))

theorem nat64_ofOption {o : Option ℕ} (h : ∀ n ∈ o, n < 2 ^ 64) :
    option nat64 (ofOption ofNat o) = some o :=
  option_ofOption fun n hn => ⟨nat64_ofNat (h n hn), by simp [ofNat]⟩

theorem SessionEntry.ofJson_members {e : SessionEntry} (h : (SessionRecord.message e).Storable) :
    SessionEntry.ofJson (.obj e.members) = some e := by
  obtain ⟨hid, hparent, hmessage⟩ := h
  simp [SessionEntry.ofJson, SessionEntry.members, fields, field, required, maybe,
    nat64_ofNat hid, nat64_ofOption hparent, Message.ofJson_toJson hmessage]

theorem LaneHeadRecord.ofJson_members {h : LaneHeadRecord}
    (hs : (SessionRecord.laneHead h).Storable) :
    LaneHeadRecord.ofJson (.obj h.members) = some h := by
  simp [LaneHeadRecord.ofJson, LaneHeadRecord.members, fields, field, required, maybe,
    nat64_ofOption hs]

/-- A lane head is never mistaken for a message node. -/
theorem SessionEntry.ofJson_head (h : LaneHeadRecord) :
    SessionEntry.ofJson (.obj h.members) = none := by
  simp [SessionEntry.ofJson, LaneHeadRecord.members, fields, field, required]

theorem LaneHeadRecord.ofJson_entry (e : SessionEntry) :
    LaneHeadRecord.ofJson (.obj e.members) = none := by
  simp [LaneHeadRecord.ofJson, SessionEntry.members, fields, field, required]

/-- Whatever is read from the line of a message node has its identifier. -/
theorem SessionEntry.ofJson_id {e e' : SessionEntry}
    (h : SessionEntry.ofJson (.obj e.members) = some e') : e'.id = e.id := by
  simp [SessionEntry.ofJson, SessionEntry.members, fields, field, required] at h
  obtain ⟨id, hid, h⟩ := Option.bind_eq_some_iff.mp h
  obtain ⟨parentId, -, h⟩ := Option.bind_eq_some_iff.mp h
  obtain ⟨message, -, h⟩ := Option.bind_eq_some_iff.mp h
  obtain rfl := Option.some.inj h
  exact nat64_ofNat_eq hid

/-- Whatever is read from the line of a lane head is that lane head. -/
theorem LaneHeadRecord.ofJson_eq {h h' : LaneHeadRecord}
    (hread : LaneHeadRecord.ofJson (.obj h.members) = some h') : h' = h := by
  simp [LaneHeadRecord.ofJson, LaneHeadRecord.members, fields, field, required, maybe] at hread
  obtain ⟨head, hhead, hread⟩ := Option.bind_eq_some_iff.mp hread
  obtain rfl := Option.some.inj hread
  obtain ⟨laneId, known⟩ := h
  cases known with
  | none =>
    obtain rfl := Option.some.inj hhead
    rfl
  | some n =>
    obtain ⟨m, hm, rfl⟩ := Option.map_eq_some_iff.mp hhead
    rw [nat64_ofNat_eq hm]

theorem SessionRecord.ofJson_members {r : SessionRecord} (h : r.Storable) :
    SessionRecord.ofJson (.obj r.members) = some r := by
  cases r with
  | message e => simp [SessionRecord.ofJson, SessionRecord.members, SessionEntry.ofJson_members h]
  | laneHead h' => simp [SessionRecord.ofJson, SessionRecord.members, SessionEntry.ofJson_head,
      LaneHeadRecord.ofJson_members h]

theorem SessionRecord.depth_members {r : SessionRecord} (h : r.Storable) :
    (Json.obj r.members).depth ≤ maxDepth := by
  cases r with
  | message e =>
    have hp : (ofOption ofNat e.parentId).depth ≤ 0 := depth_ofOption_le fun n _ => le_rfl
    have hm := Message.depth_toJson h.2.2
    simp only [SessionRecord.members, SessionEntry.members, Json.depth, Json.depthFields,
      Json.depthField, depth_ofNat]
    omega
  | laneHead h' =>
    have hp : (ofOption ofNat h'.head).depth ≤ 0 := depth_ofOption_le fun n _ => le_rfl
    simp only [SessionRecord.members, LaneHeadRecord.members, Json.depth, Json.depthFields,
      Json.depthField, maxDepth]
    omega

theorem SessionRecord.finite_members {r : SessionRecord} (h : r.Storable) :
    (Json.obj r.members).finite = true := by
  cases r with
  | message e =>
    obtain ⟨hid, hparent, hmessage⟩ := h
    have hp : (ofOption ofNat e.parentId).finite = true :=
      finite_ofOption fun n hn => finite_ofNat (hparent n hn)
    simp [SessionRecord.members, SessionEntry.members, Json.finite, Json.finiteFields,
      Json.finiteField, finite_ofNat hid, hp, Message.finite_toJson hmessage]
  | laneHead h' =>
    have hp : (ofOption ofNat h'.head).finite = true :=
      finite_ofOption fun n hn => finite_ofNat (h n hn)
    simp [SessionRecord.members, LaneHeadRecord.members, Json.finite, Json.finiteFields,
      Json.finiteField, hp]

/-- A record as it may be read from the line of another: the same lane head, or a message node
with the same identifier. -/
inductive SessionRecord.Resembles : SessionRecord → SessionRecord → Prop
  | message {e e' : SessionEntry} : e'.id = e.id → Resembles (.message e) (.message e')
  | laneHead (h : LaneHeadRecord) : Resembles (.laneHead h) (.laneHead h)

theorem SessionRecord.resembles_of_fromStr {r r' : SessionRecord}
    (h : SessionRecord.fromStr r.text = some r') : r.Resembles r' := by
  obtain ⟨j, hj, hread⟩ := Option.bind_eq_some_iff.mp h
  obtain ⟨hparse, -⟩ := Option.filter_eq_some_iff.mp hj
  rw [SessionRecord.text, Json.parse_render] at hparse
  obtain rfl := Option.some.inj hparse
  unfold SessionRecord.ofJson at hread
  cases r with
  | message e =>
    cases he : SessionEntry.ofJson (.obj e.members) with
    | none =>
      simp only [SessionRecord.members, he, LaneHeadRecord.ofJson_entry] at hread
      cases hread
    | some e' =>
      simp only [SessionRecord.members, he] at hread
      exact Option.some.inj hread ▸ .message (SessionEntry.ofJson_id he)
  | laneHead lh =>
    simp only [SessionRecord.members, SessionEntry.ofJson_head] at hread
    obtain ⟨lh', hlh, rfl⟩ := Option.map_eq_some_iff.mp hread
    exact LaneHeadRecord.ofJson_eq hlh ▸ .laneHead _

/-- Everything storable is legible. -/
theorem SessionRecord.Storable.legible {r : SessionRecord} (h : r.Storable) : r.Legible := by
  rw [Legible, SessionRecord.fromStr, SessionRecord.text,
    fromStr_render (depth_members h) (finite_members h), Option.bind_some, ofJson_members h]

/-- Identifiers of 64 bits, and only numbers that have a JSON text. -/
def SessionRecord.Finite : SessionRecord → Prop
  | .message e => e.id < 2 ^ 64 ∧ (∀ p ∈ e.parentId, p < 2 ^ 64) ∧ e.message.Finite
  | .laneHead h => ∀ n ∈ h.head, n < 2 ^ 64

/-- Nothing is lost on the way through the text of the record. -/
def SessionRecord.Recoverable : SessionRecord → Prop
  | .message e => e.message.Recoverable
  | .laneHead _ => True

/-- A line is read back as its record exactly when the record can be told from its text. -/
theorem SessionRecord.legible_iff_recoverable {r : SessionRecord} (h : r.Finite) :
    SessionRecord.fromStr r.text = some r ↔ r.Recoverable := by
  constructor
  · intro hread
    obtain ⟨j, hj, hread⟩ := Option.bind_eq_some_iff.mp hread
    obtain ⟨hparse, hfits⟩ := Option.filter_eq_some_iff.mp hj
    rw [SessionRecord.text, Json.parse_render] at hparse
    obtain rfl := Option.some.inj hparse
    rw [Bool.and_eq_true, decide_eq_true_eq] at hfits
    cases r with
    | laneHead => trivial
    | message e =>
      have hentry : SessionEntry.ofJson (.obj e.members) = some e := by
        unfold SessionRecord.ofJson at hread
        cases he : SessionEntry.ofJson (.obj e.members) with
        | none => simp [SessionRecord.members, he, LaneHeadRecord.ofJson_entry] at hread
        | some e' =>
          simp only [SessionRecord.members, he, Option.some.injEq, SessionRecord.message.injEq]
            at hread
          rw [hread]
      simp [SessionEntry.ofJson, SessionEntry.members, fields, field, required, maybe] at hentry
      obtain ⟨id, -, hentry⟩ := Option.bind_eq_some_iff.mp hentry
      obtain ⟨parentId, -, hentry⟩ := Option.bind_eq_some_iff.mp hentry
      obtain ⟨message, hmessage, hentry⟩ := Option.bind_eq_some_iff.mp hentry
      obtain rfl : message = e.message := congrArg SessionEntry.message (Option.some.inj hentry)
      apply Message.recoverable_of_ofJson hmessage
      have hdepth := hfits.1
      simp only [SessionRecord.members, SessionEntry.members, Json.depth, Json.depthFields,
        Json.depthField] at hdepth
      omega
  · intro hrecoverable
    apply SessionRecord.Storable.legible
    cases r with
    | laneHead => exact h
    | message e => exact ⟨h.1, h.2.1, Message.storable_iff.mpr ⟨h.2.2, hrecoverable⟩⟩

/-- The node of a first message. -/
theorem SessionRecord.legible_helloNode :
    SessionRecord.fromStr (SessionRecord.message ⟨0, none, helloMessage⟩).text =
      some (.message ⟨0, none, helloMessage⟩) ↔
    (SessionRecord.message ⟨0, none, helloMessage⟩).Recoverable :=
  SessionRecord.legible_iff_recoverable (by simp [Finite, Message.Finite, helloMessage])

/-- An adapter keeps the reason `completed` of a provider as an unknown one; it is read back as
the known one. -/
theorem SessionRecord.completedReason_changes :
    ¬ ∀ r : SessionRecord, r.Finite → SessionRecord.fromStr r.text = some r := by
  intro h
  have hread := h (.message ⟨0, none, .assistant ⟨[], none, none, some (.other "completed"),
    none, 0⟩⟩) (by simp [Finite, Message.Finite])
  revert hread
  decide +kernel

end Guigu
