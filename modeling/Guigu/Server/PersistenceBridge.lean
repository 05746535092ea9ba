import Guigu.Core.Session.LaneWriters
import Guigu.Core.Runtime.RunContext
import Guigu.Library.Broadcast

/-! The persistence bridge of a lane: it receives the events of the runtime through a bounded
broadcast channel and appends the messages of the `MessageEnd` events to the session. -/
namespace Guigu

open Broadcast Runs

/-- The events of a lane between its runtime and its bridge. `received` is the message that the
bridge is about to append, `written` are the nodes its appends put into the log. -/
structure BridgedLane where
  storage : SharedSessionStorage
  channel : Channel AgentEvent
  next : ℕ
  writer : LaneWriter
  received : Option Message
  written : List SessionEntry
  deriving DecidableEq, Repr

/-- The runtime sends an event, the bridge receives one or ends its append, and another lane
appends to the same storage. -/
inductive BridgeAction where
  | send (event : AgentEvent)
  | recv
  | append (fault : WriteFault)
  | other (writer : LaneWriter) (message : Message) (fault : WriteFault)
  deriving DecidableEq, Repr

/-- The messages that `MessageEnd` events announce. -/
def endedMessages (events : List AgentEvent) : List Message := messageEnds (events.map .event)

namespace BridgedLane

/-- The bridge subscribes before the runtime gets its first command. -/
def spawnBridge (storage : SharedSessionStorage) (capacity : ℕ) (writer : LaneWriter) :
    BridgedLane := ⟨storage, ⟨capacity, []⟩, 0, writer, none, []⟩

/-- Only a `MessageEnd` is kept; missed events are only counted in a warning. -/
def recv (s : BridgedLane) : BridgedLane :=
  match s.channel.recv s.next with
  | (.value (.messageEnd message), next) => { s with next := next, received := some message }
  | (.value _, next) | (.lagged _, next) | (.empty, next) => { s with next := next }

/-- The bridge goes on behind an append that fails. -/
def append (s : BridgedLane) (message : Message) (fault : WriteFault) : BridgedLane :=
  let r := s.writer.append s.storage message fault
  { s with
    storage := r.2.2
    writer := r.2.1
    received := none
    written := s.written ++ r.2.2.log.drop s.storage.log.length }

def step (s : BridgedLane) : BridgeAction → BridgedLane
  | .send event => { s with channel := s.channel.send event }
  | .recv => if s.received.isSome then s else s.recv
  | .append fault =>
    match s.received with
    | none => s
    | some message => s.append message fault
  | .other writer message fault => { s with storage := (writer.append s.storage message fault).2.2 }

/-- What the bridge put into the log, what it is about to append and what it can still receive are
the announced messages, in order; and each node of the bridge is in the log once, in order. -/
def Persists (s : BridgedLane) : Prop :=
  s.written.map (·.message) ++ s.received.toList ++ endedMessages (s.channel.unread s.next) =
      endedMessages s.channel.sent ∧
    s.storage.log.filter (fun e => e.id ∈ s.written.map (·.id)) = s.written

/-- No `MessageEnd` is overwritten before it is received, and every append writes its message. -/
def Keeps (s : BridgedLane) : BridgeAction → Prop
  | .send _ => endedMessages (s.channel.overwritten? s.next).toList = []
  | .append fault => s.received ≠ none → fault ≠ .message ∧ s.storage.nextId ≠ maxNodeId
  | .recv | .other _ _ _ => True

instance (s : BridgedLane) : (a : BridgeAction) → Decidable (s.Keeps a)
  | .send _ => inferInstanceAs (Decidable (_ = _))
  | .append _ => inferInstanceAs (Decidable (_ → _))
  | .recv | .other _ _ _ => inferInstanceAs (Decidable True)

end BridgedLane

theorem endedMessages_append (as bs : List AgentEvent) :
    endedMessages (as ++ bs) = endedMessages as ++ endedMessages bs := by
  rw [endedMessages, List.map_append, messageEnds_append]
  rfl

theorem endedMessages_cons (a : AgentEvent) (as : List AgentEvent) :
    endedMessages (a :: as) = endedMessages [a] ++ endedMessages as :=
  endedMessages_append [a] as

/-- An append leaves the log alone, or puts one node with the next identifier behind it. -/
theorem LaneWriter.append_log (w : LaneWriter) (s : SharedSessionStorage) (message : Message)
    (fault : WriteFault) :
    ((w.append s message fault).2.2.log = s.log ∧
        s.nextId ≤ (w.append s message fault).2.2.nextId ∧
        (s.nextId = maxNodeId ∨ fault = .message)) ∨
      ((w.append s message fault).2.2.log = s.log ++ [w.entry s message] ∧
        (w.append s message fault).2.2.nextId = s.nextId + 1 ∧
        fault ≠ .message ∧ s.nextId ≠ maxNodeId) := by
  rcases w.append_cases s message fault with
    ⟨e, next, hw, hle, -, hfails⟩ | ⟨hmax, -, hfault, hw⟩ | ⟨hmax, hfault, -, hw⟩
  · rw [hw]
    exact .inl ⟨rfl, hle, hfails⟩
  · rw [hw, hfault]
    exact .inr ⟨entriesOf_append _ _, rfl, by decide, hmax⟩
  · rw [hw]
    refine .inr ⟨?_, rfl, hfault, hmax⟩
    cases hstore : s.headStore <;> exact entriesOf_append _ _

namespace BridgedLane

/-- What every step keeps. -/
structure Wired (s : BridgedLane) : Prop where
  capacity : 0 < s.channel.capacity
  next : s.next ≤ s.channel.sent.length
  below : ∀ e ∈ s.storage.log, e.id < s.storage.nextId
  once : s.storage.log.filter (fun e => e.id ∈ s.written.map (·.id)) = s.written

variable {s : BridgedLane}

/-- The identifier of a new node is none of those that were written. -/
theorem Wired.fresh (h : s.Wired) {message : Message} {w : LaneWriter} :
    (w.entry s.storage message).id ∉ s.written.map (·.id) := by
  intro hmem
  obtain ⟨e, he, hid⟩ := List.mem_map.mp hmem
  rw [← h.once] at he
  have hlt := h.below e (List.mem_filter.mp he).1
  have hsame : e.id = s.storage.nextId := hid
  rw [hsame] at hlt
  exact lt_irrefl _ hlt

theorem Wired.other (h : s.Wired) (w : LaneWriter) (message : Message) (fault : WriteFault) :
    Wired { s with storage := (w.append s.storage message fault).2.2 } := by
  rcases w.append_log s.storage message fault with ⟨hlog, hnext, -⟩ | ⟨hlog, hnext, -, -⟩
  · refine ⟨h.capacity, h.next, ?_, ?_⟩
    · intro e he
      exact lt_of_lt_of_le (h.below e (hlog ▸ he)) hnext
    · exact hlog ▸ h.once
  · refine ⟨h.capacity, h.next, ?_, ?_⟩
    · intro e he
      show _ < (w.append s.storage message fault).2.2.nextId
      rw [hnext]
      have he' : e ∈ s.storage.log ++ [w.entry s.storage message] := hlog ▸ he
      rcases List.mem_append.mp he' with he' | he'
      · exact Nat.lt_succ_of_lt (h.below e he')
      · rw [List.mem_singleton.mp he']
        exact Nat.lt_succ_self _
    · show (w.append s.storage message fault).2.2.log.filter _ = _
      rw [hlog, List.filter_append, List.filter_cons_of_neg (by simpa using h.fresh)]
      rw [List.filter_nil, List.append_nil]
      exact h.once

theorem Wired.recv (h : s.Wired) : s.recv.Wired := by
  have hnext : (s.channel.recv s.next).2 ≤ s.channel.sent.length := by
    rcases s.channel.recv_cases s.next with ⟨a, hr, hle, -⟩ | ⟨missed, hr, -⟩ | hr
    · rw [hr]
      exact hle
    · rw [hr]
      exact s.channel.oldest_le
    · rw [hr]
      exact h.next
  unfold BridgedLane.recv
  split <;>
  · rename_i hr
    rw [hr] at hnext
    exact ⟨h.capacity, hnext, h.below, h.once⟩

/-- What an append adds to the nodes of the bridge. -/
theorem append_written (s : BridgedLane) (message : Message) (fault : WriteFault) :
    (s.append message fault).storage.log = s.storage.log ∧
        (s.append message fault).written = s.written ∧
        (s.storage.nextId = maxNodeId ∨ fault = .message) ∨
      (s.append message fault).storage.log =
          s.storage.log ++ [s.writer.entry s.storage message] ∧
        (s.append message fault).written =
          s.written ++ [s.writer.entry s.storage message] ∧
        fault ≠ .message ∧ s.storage.nextId ≠ maxNodeId := by
  unfold append
  rcases s.writer.append_log s.storage message fault with
    ⟨hlog, -, hfails⟩ | ⟨hlog, -, hfault, hmax⟩
  · refine .inl ⟨hlog, ?_, hfails⟩
    simp only [hlog, List.drop_length, List.append_nil]
  · refine .inr ⟨hlog, ?_, hfault, hmax⟩
    simp only [hlog, List.drop_left]

theorem Wired.append (h : s.Wired) (message : Message) (fault : WriteFault) :
    (s.append message fault).Wired := by
  have hother := h.other s.writer message fault
  refine ⟨h.capacity, h.next, hother.below, ?_⟩
  rcases s.append_written message fault with ⟨hlog, hwritten, -⟩ | ⟨hlog, hwritten, -, -⟩
  · rw [hlog, hwritten]
    exact h.once
  · rw [hlog, hwritten, List.filter_append]
    have hold : s.storage.log.filter
        (fun e => e.id ∈ (s.written ++ [s.writer.entry s.storage message]).map (·.id)) =
        s.written := by
      conv_rhs => rw [← h.once]
      apply List.filter_congr
      intro e he
      have hne : e.id ≠ (s.writer.entry s.storage message).id := Nat.ne_of_lt (h.below e he)
      simp [hne]
    rw [hold, List.filter_cons_of_pos (by simp), List.filter_nil]

theorem Wired.step (h : s.Wired) (a : BridgeAction) : (s.step a).Wired := by
  cases a with
  | send event =>
    refine ⟨h.capacity, ?_, h.below, h.once⟩
    show s.next ≤ (s.channel.sent ++ [event]).length
    rw [List.length_append]
    exact Nat.le_add_right_of_le h.next
  | recv =>
    simp only [BridgedLane.step]
    split_ifs
    · exact h
    · exact h.recv
  | append fault =>
    simp only [BridgedLane.step]
    cases s.received with
    | none => exact h
    | some message => exact h.append message fault
  | other writer message fault => exact h.other writer message fault

/-- A reception moves a message from the channel to the bridge. -/
theorem recv_announced (s : BridgedLane) (hnone : s.received = none) :
    s.recv.received.toList ++ endedMessages (s.recv.channel.unread s.recv.next) =
        endedMessages (s.channel.unread s.next) ∧
      s.recv.written = s.written ∧ s.recv.channel = s.channel := by
  unfold BridgedLane.recv
  rcases s.channel.recv_cases s.next with ⟨a, hr, -, hunread⟩ | ⟨missed, hr, hunread⟩ | hr
  · rw [hr, hunread, endedMessages_cons]
    cases a with
    | messageEnd message => exact ⟨rfl, rfl, rfl⟩
    | _ =>
      refine ⟨?_, rfl, rfl⟩
      simp only [hnone]
      rfl
  · rw [hr, hunread]
    refine ⟨?_, rfl, rfl⟩
    simp only [hnone, Option.toList_none, List.nil_append]
  · rw [hr]
    refine ⟨?_, rfl, rfl⟩
    simp only [hnone, Option.toList_none, List.nil_append]

/-- A step loses nothing exactly where the condition holds. -/
theorem persists_step_iff (h : s.Wired) (hs : s.Persists) (a : BridgeAction) :
    (s.step a).Persists ↔ s.Keeps a := by
  obtain ⟨hall, -⟩ := hs
  have honce := (h.step a).once
  unfold Persists
  rw [and_iff_left honce]
  cases a with
  | send event =>
    have hsend := congrArg endedMessages (Channel.unread_send h.capacity h.next event)
    rw [endedMessages_append, endedMessages_append] at hsend
    have hsent : endedMessages (s.channel.send event).sent =
        s.written.map (·.message) ++ s.received.toList ++
          (endedMessages (s.channel.overwritten? s.next).toList ++
            endedMessages ((s.channel.send event).unread s.next)) := by
      show endedMessages (s.channel.sent ++ [event]) = _
      rw [endedMessages_append, ← hall, List.append_assoc, hsend]
    show s.written.map (·.message) ++ s.received.toList ++
        endedMessages ((s.channel.send event).unread s.next) =
      endedMessages (s.channel.send event).sent ↔ _
    rw [hsent, List.append_right_inj]
    exact List.self_eq_append_left
  | recv =>
    refine iff_of_true ?_ trivial
    simp only [BridgedLane.step]
    split_ifs with hbusy
    · exact hall
    · have hnone : s.received = none := Option.not_isSome_iff_eq_none.mp hbusy
      obtain ⟨hmoved, hwritten, hchannel⟩ := s.recv_announced hnone
      rw [List.append_assoc, hmoved, hwritten, hchannel, ← hall, hnone, Option.toList_none,
        List.append_nil]
  | append fault =>
    cases hreceived : s.received with
    | none =>
      refine iff_of_true ?_ fun hne => absurd hreceived hne
      have hidle : s.step (.append fault) = s := by simp only [BridgedLane.step, hreceived]
      rw [hidle]
      exact hall
    | some message =>
      have hends : s.step (.append fault) = s.append message fault := by
        simp only [BridgedLane.step, hreceived]
      rw [hends]
      show (s.append message fault).written.map (·.message) ++ [] ++
          endedMessages (s.channel.unread s.next) = endedMessages s.channel.sent ↔ _
      rw [← hall, hreceived, List.append_left_inj, List.append_nil]
      unfold Keeps
      rcases s.append_written message fault with ⟨-, hwritten, hfails⟩ | ⟨-, hwritten, hkeeps⟩
      · rw [hwritten]
        refine iff_of_false ?_ ?_
        · simp
        · intro hkeeps
          have hwrites := hkeeps (by rw [hreceived]; simp)
          rcases hfails with hmax | hfault
          · exact hwrites.2 hmax
          · exact hwrites.1 hfault
      · rw [hwritten]
        refine iff_of_true ?_ fun _ => hkeeps
        rw [List.map_append]
        rfl
  | other writer message fault => exact iff_of_true hall trivial

/-- The log gets every announced message once and in order exactly as long as no `MessageEnd` is
overwritten before the bridge has received it and every append writes its message. -/
theorem persists_throughout_iff {sessionId : String} {records : List SessionRecord}
    {headStore : Bool} {storage : SharedSessionStorage} {capacity : ℕ}
    (hopen : SharedSessionStorage.reopen sessionId records headStore = .ok storage)
    (hcapacity : 0 < capacity) (writer : LaneWriter) (as : List BridgeAction) :
    Throughout step Persists (spawnBridge storage capacity writer) as ↔
      Along step Keeps (spawnBridge storage capacity writer) as := by
  obtain ⟨-, hbelow⟩ := SharedSessionStorage.reopen_ok hopen
  have honce : storage.log.filter (fun e => e.id ∈ ([] : List SessionEntry).map (·.id)) = [] := by
    simp
  have hstart : (spawnBridge storage capacity writer).Wired :=
    ⟨hcapacity, Nat.zero_le _, hbelow, honce⟩
  have hempty : (spawnBridge storage capacity writer).Persists := by
    refine ⟨?_, honce⟩
    simp [spawnBridge, Channel.unread]
  exact throughout_iff_along (fun _ a h => h.step a) (fun _ a h hs => persists_step_iff h hs a)
    hstart hempty

/-- A short buffer whose first event is overwritten, but by then it has been received. -/
def busyBridge : List BridgeAction :=
  [.send (.messageEnd helloMessage), .recv, .send .turnStart, .send .turnStart, .append .clean,
    .send (.messageEnd helloMessage), .send .turnStart, .recv, .recv, .append .head]

theorem persists_busyBridge :
    Along step Keeps (spawnBridge ⟨"session", [], 0, true, []⟩ 2 ⟨"a", none⟩) busyBridge ∧
      Throughout step Persists (spawnBridge ⟨"session", [], 0, true, []⟩ 2 ⟨"a", none⟩)
        busyBridge := by
  have hopen : SharedSessionStorage.reopen "session" [] true =
      .ok ⟨"session", [], 0, true, []⟩ := rfl
  have hkeeps : Along step Keeps (spawnBridge ⟨"session", [], 0, true, []⟩ 2 ⟨"a", none⟩)
      busyBridge := by decide +kernel
  exact ⟨hkeeps, (persists_throughout_iff hopen (by decide) _ busyBridge).mpr hkeeps⟩

/-- The channel of `spawn_with_transcript` asks for 100 places and gets 128. While the bridge waits
for the disk, a message and 128 deltas of the next answer are sent. -/
def slowDisk : List BridgeAction :=
  [.send (.messageEnd helloMessage), .recv, .send (.messageEnd helloMessage)] ++
    List.replicate 128 (.send (.messageUpdate helloMessage (.textDelta "x"))) ++
    [.append .clean, .recv]

theorem slowDisk_loses :
    ¬Throughout step Persists
      (spawnBridge ⟨"session", [], 0, true, []⟩ (Nat.nextPowerOfTwo 100) ⟨"a", none⟩) slowDisk := by
  intro hrun
  have hend := hrun.last.1
  revert hend
  decide +kernel

end BridgedLane

end Guigu
