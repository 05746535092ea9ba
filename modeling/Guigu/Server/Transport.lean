import Guigu.Core.Session.Record
import Guigu.Library.Broadcast
import Guigu.Library.Json
import Guigu.Library.Runs
import Mathlib.Data.List.AList

/-! One connection to the server: its requests are dispatched one after another, and each lane it
has subscribed to has a task that forwards the events. -/
namespace Guigu.Server

abbrev SessionId := String

abbrev LaneKey := SessionId × LaneId

inductive ServerRequest where
  | createSession (id : UInt64) (sessionId : Option SessionId)
  | loadSession (id : UInt64) (sessionId : SessionId)
  | listSessions (id : UInt64)
  | spawnLane (id : UInt64) (sessionId : SessionId) (laneId : LaneId)
  | forkLane (id : UInt64) (sessionId : SessionId) (fromLane newLane : LaneId)
  | prompt (id : UInt64) (sessionId : SessionId) (laneId : LaneId) (messages : List Message)
  | continue (id : UInt64) (sessionId : SessionId) (laneId : LaneId)
  | abort (id : UInt64) (sessionId : SessionId) (laneId : LaneId)
  | reset (id : UInt64) (sessionId : SessionId) (laneId : LaneId)
  | getSnapshot (id : UInt64) (sessionId : SessionId) (laneId : LaneId)
  | subscribe (id : UInt64) (sessionId : SessionId) (laneId : LaneId)
  | unsubscribe (id : UInt64) (sessionId : SessionId) (laneId : LaneId)
  | shutdown (id : UInt64)

def ServerRequest.id : ServerRequest → UInt64
  | .createSession id _ | .loadSession id _ | .listSessions id | .spawnLane id _ _
  | .forkLane id _ _ _ | .prompt id _ _ _ | .continue id _ _ | .abort id _ _ | .reset id _ _
  | .getSnapshot id _ _ | .subscribe id _ _ | .unsubscribe id _ _ | .shutdown id => id

inductive ServerMessage (σ ε : Type*) where
  | response (id : UInt64) (result : Except String Json)
  | sessionList (id : UInt64) (sessions : List SessionId)
  | snapshot (sessionId : SessionId) (laneId : LaneId) (snapshot : σ)
  | event (sessionId : SessionId) (laneId : LaneId) (event : ε)

/-- The request that a message answers carries this identifier; snapshots carry none. -/
def ServerMessage.id? {σ ε : Type*} : ServerMessage σ ε → Option UInt64
  | .response id _ | .sessionList id _ => some id
  | .snapshot _ _ _ | .event _ _ _ => none

/-- The message answers the request. -/
def ServerMessage.Answers {σ ε : Type*} (msg : ServerMessage σ ε) (r : ServerRequest) : Prop :=
  msg.id? = some r.id ∨
    ∃ id sessionId laneId snapshot, r = .getSnapshot id sessionId laneId ∧
      msg = .snapshot sessionId laneId snapshot

/-- What the methods of the server come to. -/
structure Outcome (σ : Type*) where
  /-- An error is given by its text. -/
  result : Except String Unit
  sessions : List SessionId
  snapshot : σ

/-- A lane and the channel of its events. -/
structure EventChannel (ε : Type*) where
  key : LaneKey
  channel : Broadcast.Channel ε
  /-- The last sender is gone. -/
  closed : Bool

/-- A receiver of the events of a lane, which gets the event at `next` next. -/
structure EventReceiver where
  channel : ℕ
  next : ℕ

structure Forwarder where
  key : LaneKey
  receiver : EventReceiver
  cancelled : Bool
  done : Bool

/-- What is done when the old forwarder has ended. -/
inductive Continuation where
  | subscribe (id : UInt64) (key : LaneKey) (receiver : EventReceiver)
  | unsubscribe (id : UInt64) (key : LaneKey)
  | close

/-- Where the read loop stands. -/
inductive ConnectionPhase where
  | reading
  | dispatching (request : ServerRequest)
  /-- The receiver of a `Subscribe` is there, an old forwarder still runs. -/
  | subscribing (id : UInt64) (key : LaneKey) (receiver : EventReceiver)
  /-- The forwarder has been cancelled; its end is awaited. -/
  | stopping (forwarder : ℕ) (next : Continuation)
  | closing
  | closed

/-- The request that is worked on. -/
def Continuation.request? : Continuation → Option ServerRequest
  | .subscribe id key _ => some (.subscribe id key.1 key.2)
  | .unsubscribe id key => some (.unsubscribe id key.1 key.2)
  | .close => none

def ConnectionPhase.request? : ConnectionPhase → Option ServerRequest
  | .dispatching r => some r
  | .subscribing id key _ => some (.subscribe id key.1 key.2)
  | .stopping _ next => next.request?
  | .reading | .closing | .closed => none

/-- What the connection has done: read a request, or put a message into the write channel. -/
inductive LogEntry (σ ε : Type*) where
  | request (r : ServerRequest)
  | reply (r : ServerRequest) (msg : ServerMessage σ ε)
  /-- The event of a lane, by its channel and its place there. -/
  | event (key : LaneKey) (channel index : ℕ) (event : ε)

namespace LogEntry

variable {σ ε : Type*}

def request? : LogEntry σ ε → Option ServerRequest
  | .request r => some r
  | .reply _ _ | .event _ _ _ _ => none

def reply? : LogEntry σ ε → Option (ServerMessage σ ε)
  | .reply _ msg => some msg
  | .request _ | .event _ _ _ _ => none

/-- The message in the write channel. -/
def message? : LogEntry σ ε → Option (ServerMessage σ ε)
  | .request _ => none
  | .reply _ msg => some msg
  | .event key _ _ ev => some (.event key.1 key.2 ev)

end LogEntry

/-- Where the writer task stands. -/
inductive Writer where
  | running
  /-- A write has failed. -/
  | failed
  /-- Its end of the write channel is gone. -/
  | gone
  deriving DecidableEq

structure Connection (σ ε : Type*) where
  runtimeFactory : Bool
  storageFactory : Bool
  nextSessionId : UInt64
  /-- The lanes in the registry, each with its channel. -/
  lanes : AList fun _ : LaneKey => ℕ
  channel : ℕ → EventChannel ε
  nextChannel : ℕ
  subscriptions : AList fun _ : LaneKey => ℕ
  forwarder : ℕ → Forwarder
  nextForwarder : ℕ
  phase : ConnectionPhase
  log : List (LogEntry σ ε)
  writer : Writer
  /-- How many messages have been written. -/
  written : ℕ

inductive ConnectionAction (σ ε : Type*) where
  /-- `with_runtime_factory` -/
  | withRuntimeFactory
  /-- `with_storage_factory` -/
  | withStorageFactory
  /-- Another connection takes a session identifier. -/
  | takeSessionId
  /-- A lane enters the registry, with a channel that keeps so many events. -/
  | register (key : LaneKey) (capacity : ℕ)
  | unregister (key : LaneKey)
  | emit (channel : ℕ) (event : ε)
  | closeChannel (channel : ℕ)
  | request (r : ServerRequest)
  /-- The method of the server returns. -/
  | dispatch (outcome : Outcome σ)
  /-- The read loop goes on. -/
  | proceed
  /-- The stream ends, a line cannot be read, or the writer has failed. -/
  | endRead
  /-- Behind the loop a subscription is ended. -/
  | drain (key : LaneKey)
  | forward (forwarder : ℕ)
  | stop (forwarder : ℕ)
  | write (ok : Bool)
  | endWriter

namespace Connection

variable {σ ε : Type*}

/-- A new connection to a new server. -/
def serve : Connection σ ε where
  runtimeFactory := false
  storageFactory := false
  nextSessionId := 1
  lanes := ∅
  channel _ := ⟨("", ""), ⟨0, []⟩, true⟩
  nextChannel := 0
  subscriptions := ∅
  forwarder _ := ⟨("", ""), ⟨0, 0⟩, false, true⟩
  nextForwarder := 0
  phase := .reading
  log := []
  writer := .running
  written := 0

/-- The messages that have been put into the write channel. -/
def outbox (s : Connection σ ε) : List (ServerMessage σ ε) := s.log.filterMap LogEntry.message?

/-- The reply goes into the write channel; without the writer the connection ends. -/
def sendMsg (s : Connection σ ε) (r : ServerRequest) (msg : ServerMessage σ ε)
    (phase : ConnectionPhase) : Connection σ ε :=
  if s.writer = .gone then { s with phase := .closing }
  else { s with log := s.log ++ [.reply r msg], phase := phase }

def setForwarder (s : Connection σ ε) (f : ℕ) (forwarder : Forwarder) : Connection σ ε :=
  { s with forwarder := Function.update s.forwarder f forwarder }

def spawnEventForwarder (s : Connection σ ε) (key : LaneKey) (receiver : EventReceiver) :
    Connection σ ε :=
  { s with
    forwarder := Function.update s.forwarder s.nextForwarder ⟨key, receiver, false, false⟩
    nextForwarder := s.nextForwarder + 1
    subscriptions := s.subscriptions.insert key s.nextForwarder }

/-- No old forwarder of the lane runs. -/
def resume (s : Connection σ ε) : Continuation → Connection σ ε
  | .subscribe id key receiver =>
    (s.spawnEventForwarder key receiver).sendMsg (.subscribe id key.1 key.2)
      (.response id (.ok .null)) .reading
  | .unsubscribe id key =>
    s.sendMsg (.unsubscribe id key.1 key.2) (.response id (.ok .null)) .reading
  | .close => { s with phase := .closing }

/-- The forwarder of the lane leaves the subscriptions and is cancelled. -/
def cancel (s : Connection σ ε) (key : LaneKey) (next : Continuation) : Connection σ ε :=
  match s.subscriptions.lookup key with
  | some f =>
    { s with
      subscriptions := s.subscriptions.erase key
      phase := .stopping f next }.setForwarder f { s.forwarder f with cancelled := true }
  | none => s.resume next

/-- A request that needs a factory leaves the loop without it. -/
def withFactory (s : Connection σ ε) (factory : Bool) (reply : Connection σ ε) :
    Connection σ ε :=
  if factory then reply else { s with phase := .closing }

def dispatch (s : Connection σ ε) (o : Outcome σ) (r : ServerRequest) : Connection σ ε :=
  let done := ServerMessage.response r.id (o.result.map fun _ => Json.null)
  let notFound := ServerMessage.response r.id (.error "lane not found")
  match r with
  | .createSession id (some sessionId) =>
    s.withFactory s.storageFactory
      (s.sendMsg r (.response id (o.result.map fun _ => .str sessionId)) .reading)
  | .createSession id none =>
    let s' := { s with nextSessionId := s.nextSessionId + 1 }
    s'.withFactory s.storageFactory
      (s'.sendMsg r (.response id (o.result.map fun _ => .str (toString s.nextSessionId)))
        .reading)
  | .loadSession _ _ => s.withFactory s.storageFactory (s.sendMsg r done .reading)
  | .listSessions id => s.sendMsg r (.sessionList id o.sessions) .reading
  | .spawnLane _ _ _ | .forkLane _ _ _ _ =>
    s.withFactory s.runtimeFactory (s.sendMsg r done .reading)
  | .prompt _ _ _ _ | .continue _ _ _ | .abort _ _ _ | .reset _ _ _ => s.sendMsg r done .reading
  | .getSnapshot _ sessionId laneId =>
    match s.lanes.lookup (sessionId, laneId) with
    | some _ => s.sendMsg r (.snapshot sessionId laneId o.snapshot) .reading
    | none => s.sendMsg r notFound .reading
  | .subscribe id sessionId laneId =>
    match s.lanes.lookup (sessionId, laneId) with
    | some c =>
      let receiver := ⟨c, (s.channel c).channel.sent.length⟩
      { s with phase := .subscribing id (sessionId, laneId) receiver }
    | none => s.sendMsg r notFound .reading
  | .unsubscribe id sessionId laneId =>
    s.cancel (sessionId, laneId) (.unsubscribe id (sessionId, laneId))
  | .shutdown _ => s.sendMsg r done .closing

/-- What the forwarder gets from its channel next, and where it is then. -/
def received (s : Connection σ ε) (f : ℕ) : Broadcast.Received ε × ℕ :=
  (s.channel (s.forwarder f).receiver.channel).channel.recv (s.forwarder f).receiver.next

/-- The forwarder sees that it is cancelled, that its channel is closed, or that the writer is
gone. -/
def hasEnded (s : Connection σ ε) (f : ℕ) : Bool :=
  (s.forwarder f).cancelled || s.writer = .gone ||
    (s.channel (s.forwarder f).receiver.channel).closed &&
      (s.channel (s.forwarder f).receiver.channel).channel.sent.length ≤
        (s.forwarder f).receiver.next

/-- A forwarder that runs takes a value out of its channel. A cancelled one may still do so, the
`select!` is not biased. -/
def forward (s : Connection σ ε) (f : ℕ) : Connection σ ε :=
  let fwd := s.forwarder f
  let moved (next : ℕ) := s.setForwarder f { fwd with receiver := ⟨fwd.receiver.channel, next⟩ }
  match s.received f with
  | (.value event, next) =>
    if s.writer = .gone then moved next
    else
      { moved next with
        log := s.log ++ [.event fwd.key fwd.receiver.channel fwd.receiver.next event] }
  | (.lagged _, next) => moved next
  | (.empty, _) => s

/-- One step of some task; a step that is not possible leaves everything as it is. -/
def step (s : Connection σ ε) : ConnectionAction σ ε → Connection σ ε
  | .withRuntimeFactory => { s with runtimeFactory := true }
  | .withStorageFactory => { s with storageFactory := true }
  | .takeSessionId => { s with nextSessionId := s.nextSessionId + 1 }
  | .register key capacity =>
    { s with
      lanes := s.lanes.insert key s.nextChannel
      channel := Function.update s.channel s.nextChannel ⟨key, ⟨capacity, []⟩, false⟩
      nextChannel := s.nextChannel + 1 }
  | .unregister key => { s with lanes := s.lanes.erase key }
  | .emit c event =>
    if c < s.nextChannel ∧ ¬ (s.channel c).closed then
      { s with
        channel := Function.update s.channel c
          { s.channel c with channel := (s.channel c).channel.send event } }
    else s
  | .closeChannel c =>
    { s with channel := Function.update s.channel c { s.channel c with closed := true } }
  | .request r =>
    match s.phase with
    | .reading => { s with phase := .dispatching r, log := s.log ++ [.request r] }
    | _ => s
  | .dispatch o =>
    match s.phase with
    | .dispatching r => s.dispatch o r
    | _ => s
  | .proceed =>
    match s.phase with
    | .subscribing id key receiver => s.cancel key (.subscribe id key receiver)
    | .stopping f next => if (s.forwarder f).done then s.resume next else s
    | .closing => if s.subscriptions.entries.isEmpty then { s with phase := .closed } else s
    | .reading | .dispatching _ | .closed => s
  | .endRead =>
    match s.phase with
    | .reading => { s with phase := .closing }
    | _ => s
  | .drain key =>
    match s.phase with
    | .closing => s.cancel key .close
    | _ => s
  | .forward f => if (s.forwarder f).done then s else s.forward f
  | .stop f =>
    if s.hasEnded f then s.setForwarder f { s.forwarder f with done := true } else s
  | .write ok =>
    if s.writer = .running ∧ s.written < s.outbox.length then
      if ok then { s with written := s.written + 1 } else { s with writer := .failed }
    else s
  | .endWriter => if s.writer = .failed then { s with writer := .gone } else s

def requests (s : Connection σ ε) : List ServerRequest := s.log.filterMap LogEntry.request?

def replies (s : Connection σ ε) : List (ServerMessage σ ε) := s.log.filterMap LogEntry.reply?

/-- The requests have been answered in their order, save the one that is left. -/
def AnsweredBut (s : Connection σ ε) (left : Option ServerRequest) : Prop :=
  ∃ answered, s.requests = answered ++ left.toList ∧
    List.Forall₂ (fun r msg => msg.Answers r) answered s.replies

/-- Every request has its one reply, save the one that is worked on. -/
def Answered (s : Connection σ ε) : Prop := s.AnsweredBut s.phase.request?

/-- As long as the writer is there. -/
def AnsweredAlive (s : Connection σ ε) : Prop := s.writer ≠ .gone → s.Answered

/-- The factory that the request needs is there. -/
def HasFactory (s : Connection σ ε) : ServerRequest → Prop
  | .createSession _ _ | .loadSession _ _ => s.storageFactory = true
  | .spawnLane _ _ _ | .forkLane _ _ _ _ => s.runtimeFactory = true
  | .listSessions _ | .prompt _ _ _ _ | .continue _ _ _ | .abort _ _ _ | .reset _ _ _
  | .getSnapshot _ _ _ | .subscribe _ _ _ | .unsubscribe _ _ _ | .shutdown _ => True

/-- The request whose dispatch goes on finds its factory. -/
def Equipped (s : Connection σ ε) : ConnectionAction σ ε → Prop
  | .dispatch _ => s.writer = .gone ∨ ∀ r, s.phase = .dispatching r → s.HasFactory r
  | _ => True

variable {s : Connection σ ε} {r : ServerRequest} {msg : ServerMessage σ ε}

theorem AnsweredAlive.congr (h : s.AnsweredAlive) {s' : Connection σ ε}
    (hwriter : s'.writer ≠ .gone → s.writer ≠ .gone) (hrequests : s'.requests = s.requests)
    (hreplies : s'.replies = s.replies) (hphase : s'.phase.request? = s.phase.request?) :
    s'.AnsweredAlive := by
  intro halive
  rw [Answered, AnsweredBut, hrequests, hreplies, hphase]
  exact h (hwriter halive)

theorem withFactory_of_true {factory : Bool} (reply : Connection σ ε) (h : factory = true) :
    s.withFactory factory reply = reply := if_pos h

theorem withFactory_of_false {factory : Bool} (reply : Connection σ ε) (h : factory = false) :
    s.withFactory factory reply = { s with phase := .closing } := if_neg (Bool.eq_false_iff.mp h)

theorem sendMsg_answered (h : s.AnsweredBut (some r)) (hmsg : msg.Answers r)
    {phase : ConnectionPhase} (hphase : phase.request? = none) :
    (s.sendMsg r msg phase).AnsweredAlive := by
  intro halive
  obtain ⟨answered, hrequests, hreplies⟩ := h
  rw [sendMsg] at halive ⊢
  split_ifs at halive ⊢ with hgone
  · exact absurd hgone halive
  · refine ⟨answered ++ [r], ?_, ?_⟩
    · show List.filterMap LogEntry.request? (s.log ++ [.reply r msg]) =
        answered ++ [r] ++ phase.request?.toList
      rw [hphase, List.filterMap_append, Option.toList_none, List.append_nil]
      exact (List.append_nil _).trans hrequests
    · show List.Forall₂ _ _ (List.filterMap LogEntry.reply? (s.log ++ [.reply r msg]))
      rw [List.filterMap_append]
      exact List.rel_append hreplies (.cons hmsg .nil)

theorem resume_answered {next : Continuation} (h : s.AnsweredBut next.request?) :
    (s.resume next).AnsweredAlive := by
  cases next with
  | subscribe id key receiver =>
    have hspawned : (s.spawnEventForwarder key receiver).AnsweredBut
        (some (.subscribe id key.1 key.2)) := h
    exact sendMsg_answered hspawned (.inl rfl) rfl
  | unsubscribe id key => exact sendMsg_answered h (.inl rfl) rfl
  | close => exact fun _ => h

theorem cancel_answered {key : LaneKey} {next : Continuation} (h : s.AnsweredBut next.request?) :
    (s.cancel key next).AnsweredAlive := by
  unfold cancel
  cases s.subscriptions.lookup key with
  | some f => exact fun _ => h
  | none => exact resume_answered h

/-- A request that finds its factory is answered, or its old forwarder is awaited first. -/
theorem dispatch_answered (h : s.AnsweredBut (some r)) (hfactory : s.HasFactory r)
    (o : Outcome σ) : (s.dispatch o r).AnsweredAlive := by
  cases r with
  | createSession id sessionId =>
    have hstorage : s.storageFactory = true := hfactory
    cases sessionId with
    | none =>
      have htaken : ({ s with nextSessionId := s.nextSessionId + 1 } : Connection σ ε).AnsweredBut
          (some (.createSession id none)) := h
      simp only [dispatch, withFactory_of_true _ hstorage]
      exact sendMsg_answered htaken (.inl rfl) rfl
    | some sessionId =>
      simp only [dispatch, withFactory_of_true _ hstorage]
      exact sendMsg_answered h (.inl rfl) rfl
  | loadSession id sessionId =>
    have hstorage : s.storageFactory = true := hfactory
    simp only [dispatch, withFactory_of_true _ hstorage]
    exact sendMsg_answered h (.inl rfl) rfl
  | spawnLane id sessionId laneId | forkLane id sessionId fromLane newLane =>
    have hruntime : s.runtimeFactory = true := hfactory
    simp only [dispatch, withFactory_of_true _ hruntime]
    exact sendMsg_answered h (.inl rfl) rfl
  | listSessions id | prompt id sessionId laneId messages | «continue» id sessionId laneId
  | abort id sessionId laneId | reset id sessionId laneId | shutdown id =>
    exact sendMsg_answered h (.inl rfl) rfl
  | getSnapshot id sessionId laneId =>
    simp only [dispatch]
    cases s.lanes.lookup (sessionId, laneId) with
    | some c => exact sendMsg_answered h (.inr ⟨id, sessionId, laneId, o.snapshot, rfl, rfl⟩) rfl
    | none => exact sendMsg_answered h (.inl rfl) rfl
  | subscribe id sessionId laneId =>
    simp only [dispatch]
    cases s.lanes.lookup (sessionId, laneId) with
    | some c => exact fun _ => h
    | none => exact sendMsg_answered h (.inl rfl) rfl
  | unsubscribe id sessionId laneId =>
    have hleft : s.AnsweredBut
        (Continuation.unsubscribe id (sessionId, laneId)).request? := h
    exact cancel_answered hleft

/-- Without its factory it never is. -/
theorem dispatch_unanswered (h : s.AnsweredBut (some r)) (hfactory : ¬ s.HasFactory r)
    (o : Outcome σ) : ¬ (s.dispatch o r).Answered := by
  have hbroken : ∀ s' : Connection σ ε, s'.log = s.log → s'.phase = .closing → ¬ s'.Answered := by
    rintro s' hlog hphase ⟨answered, hrequests, hreplies⟩
    obtain ⟨answered', hrequests', hreplies'⟩ := h
    rw [hphase, requests, hlog] at hrequests
    rw [replies, hlog] at hreplies
    have hlength := congrArg List.length (hrequests.symm.trans hrequests')
    have hsame := hreplies.length_eq.trans hreplies'.length_eq.symm
    simp only [ConnectionPhase.request?, Option.toList_none, Option.toList_some,
      List.length_append, List.length_nil, List.length_singleton] at hlength
    omega
  cases r with
  | createSession id sessionId =>
    have hstorage : s.storageFactory = false := Bool.eq_false_iff.mpr hfactory
    cases sessionId with
    | none =>
      simp only [dispatch, withFactory_of_false _ hstorage]
      exact hbroken _ rfl rfl
    | some sessionId =>
      simp only [dispatch, withFactory_of_false _ hstorage]
      exact hbroken _ rfl rfl
  | loadSession id sessionId =>
    have hstorage : s.storageFactory = false := Bool.eq_false_iff.mpr hfactory
    simp only [dispatch, withFactory_of_false _ hstorage]
    exact hbroken _ rfl rfl
  | spawnLane id sessionId laneId | forkLane id sessionId fromLane newLane =>
    have hruntime : s.runtimeFactory = false := Bool.eq_false_iff.mpr hfactory
    simp only [dispatch, withFactory_of_false _ hruntime]
    exact hbroken _ rfl rfl
  | _ => exact absurd trivial hfactory

theorem sendMsg_writer (s : Connection σ ε) (r : ServerRequest) (msg : ServerMessage σ ε)
    (phase : ConnectionPhase) : (s.sendMsg r msg phase).writer = s.writer := by
  unfold sendMsg
  split_ifs <;> rfl

theorem resume_writer (s : Connection σ ε) (next : Continuation) :
    (s.resume next).writer = s.writer := by
  cases next with
  | subscribe id key receiver => exact sendMsg_writer ..
  | unsubscribe id key => exact sendMsg_writer ..
  | close => rfl

theorem cancel_writer (s : Connection σ ε) (key : LaneKey) (next : Continuation) :
    (s.cancel key next).writer = s.writer := by
  unfold cancel
  cases s.subscriptions.lookup key with
  | some f => rfl
  | none => exact resume_writer s next

theorem withFactory_writer {s reply : Connection σ ε} {factory : Bool}
    (h : reply.writer = s.writer) : (s.withFactory factory reply).writer = s.writer := by
  cases factory with
  | true => exact h
  | false => rfl

theorem dispatch_writer (s : Connection σ ε) (o : Outcome σ) (r : ServerRequest) :
    (s.dispatch o r).writer = s.writer := by
  cases r with
  | createSession id sessionId =>
    cases sessionId with
    | none => exact withFactory_writer (sendMsg_writer ..)
    | some sessionId => exact withFactory_writer (sendMsg_writer ..)
  | loadSession id sessionId => exact withFactory_writer (sendMsg_writer ..)
  | spawnLane id sessionId laneId | forkLane id sessionId fromLane newLane =>
    exact withFactory_writer (sendMsg_writer ..)
  | listSessions id | prompt id sessionId laneId messages | «continue» id sessionId laneId
  | abort id sessionId laneId | reset id sessionId laneId | shutdown id =>
    exact sendMsg_writer ..
  | getSnapshot id sessionId laneId | subscribe id sessionId laneId =>
    simp only [dispatch]
    cases s.lanes.lookup (sessionId, laneId) with
    | some c => first | rfl | exact sendMsg_writer ..
    | none => exact sendMsg_writer ..
  | unsubscribe id sessionId laneId => exact cancel_writer ..

theorem forward_answered (h : s.AnsweredAlive) (f : ℕ) : (s.forward f).AnsweredAlive := by
  simp only [forward]
  split
  · split_ifs with hgone
    · exact fun halive => absurd hgone halive
    · refine h.congr (fun halive => halive) ?_ ?_ rfl
      · rw [requests, List.filterMap_append]
        exact List.append_nil s.requests
      · rw [replies, List.filterMap_append]
        exact List.append_nil s.replies
  · exact h
  · exact h

/-- A step keeps the requests answered exactly when a request that is dispatched finds its
factory. -/
theorem answered_step (h : s.AnsweredAlive) (a : ConnectionAction σ ε) :
    (s.step a).AnsweredAlive ↔ s.Equipped a := by
  cases a with
  | withRuntimeFactory | withStorageFactory | takeSessionId | register key capacity | unregister key
  | closeChannel c => exact iff_of_true h trivial
  | emit c event =>
    refine iff_of_true ?_ trivial
    simp only [step]
    split_ifs
    · exact h
    · exact h
  | request r =>
    refine iff_of_true ?_ trivial
    simp only [step]
    split
    · rename_i hphase
      intro halive
      obtain ⟨answered, hrequests, hreplies⟩ := h halive
      rw [hphase] at hrequests
      refine ⟨answered, ?_, ?_⟩
      · show List.filterMap LogEntry.request? (s.log ++ [.request r]) = answered ++ [r]
        rw [List.filterMap_append]
        exact congrArg (· ++ [r]) (hrequests.trans (List.append_nil answered))
      · show List.Forall₂ _ answered (List.filterMap LogEntry.reply? (s.log ++ [.request r]))
        rw [List.filterMap_append]
        exact (List.append_nil s.replies).symm ▸ hreplies
    · exact h
  | dispatch o =>
    simp only [step, Equipped]
    split
    · rename_i r hphase
      by_cases hgone : s.writer = .gone
      · refine iff_of_true (fun halive => ?_) (.inl hgone)
        rw [dispatch_writer] at halive
        exact absurd hgone halive
      · have hleft := h hgone
        rw [Answered, hphase] at hleft
        by_cases hfactory : s.HasFactory r
        · refine iff_of_true (dispatch_answered hleft hfactory o) (.inr fun r' hr' => ?_)
          cases hphase.symm.trans hr'
          exact hfactory
        · refine iff_of_false (fun halive => ?_) ?_
          · refine dispatch_unanswered hleft hfactory o (halive ?_)
            rwa [dispatch_writer]
          · rintro (hgone' | hall)
            · exact hgone hgone'
            · exact hfactory (hall r hphase)
    · rename_i hphase
      exact iff_of_true h (.inr fun r hr => absurd hr (hphase r))
  | proceed =>
    refine iff_of_true ?_ trivial
    simp only [step]
    split
    · rename_i hphase
      intro halive
      rw [cancel_writer] at halive
      have hleft := h halive
      rw [Answered, hphase] at hleft
      exact cancel_answered hleft (by rwa [cancel_writer])
    · rename_i f next hphase
      split_ifs
      · intro halive
        rw [resume_writer] at halive
        have hleft := h halive
        rw [Answered, hphase] at hleft
        exact resume_answered hleft (by rwa [resume_writer])
      · exact h
    · rename_i hphase
      split_ifs
      · refine h.congr (fun halive => halive) rfl rfl ?_
        rw [hphase]
        rfl
      · exact h
    · exact h
    · exact h
    · exact h
  | endRead =>
    refine iff_of_true ?_ trivial
    simp only [step]
    split
    · rename_i hphase
      refine h.congr (fun halive => halive) rfl rfl ?_
      rw [hphase]
      rfl
    · exact h
  | drain key =>
    refine iff_of_true ?_ trivial
    simp only [step]
    split
    · rename_i hphase
      intro halive
      rw [cancel_writer] at halive
      have hleft := h halive
      have hnone : s.AnsweredBut Continuation.close.request? := by
        rwa [Answered, hphase] at hleft
      exact cancel_answered hnone (by rwa [cancel_writer])
    · exact h
  | forward f =>
    refine iff_of_true ?_ trivial
    simp only [step]
    split_ifs
    · exact h
    · exact forward_answered h f
  | stop f =>
    refine iff_of_true ?_ trivial
    simp only [step]
    split_ifs
    · exact h
    · exact h
  | write ok =>
    refine iff_of_true ?_ trivial
    simp only [step]
    split_ifs with hcan
    · exact h
    · exact h.congr (fun _ => by rw [hcan.1]; nofun) rfl rfl rfl
    · exact h
  | endWriter =>
    refine iff_of_true ?_ trivial
    simp only [step]
    split_ifs
    · exact fun halive => absurd rfl halive
    · exact h

/-- In a run whose writer stays, every request that is read gets its one reply, in the order of the
requests and under its identifier, exactly when no request is dispatched without the factory it
needs. -/
theorem answered_throughout_iff (as : List (ConnectionAction σ ε)) :
    Runs.Throughout step AnsweredAlive serve as ↔ Runs.Along step Equipped serve as := by
  have hstep : ∀ (s : Connection σ ε) a, True → s.AnsweredAlive →
      ((s.step a).AnsweredAlive ↔ s.Equipped a) := fun _ a _ h => answered_step h a
  exact Runs.throughout_iff_along (fun _ _ _ => trivial) hstep trivial fun _ => ⟨[], rfl, .nil⟩

/-- A session is asked for before the server has a factory for its storage. -/
def requestWithoutFactory : List (ConnectionAction Unit Unit) :=
  [.request (.createSession 1 (some "s")), .dispatch ⟨.ok (), [], ()⟩]

/-- The connection ends, and the request is left without a reply. -/
theorem factoryless_unanswered :
    ¬ ∀ as : List (ConnectionAction Unit Unit),
      Runs.Throughout step AnsweredAlive serve as := by
  intro h
  obtain ⟨answered, hrequests, hreplies⟩ := (h requestWithoutFactory).last nofun
  cases hreplies
  cases hrequests

end Connection

end Guigu.Server
