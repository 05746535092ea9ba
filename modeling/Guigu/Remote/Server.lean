import Guigu.Library.Broadcast
import Guigu.Library.Pipe
import Guigu.Remote.Client

/-! The server of a remote agent: the loop that reads and dispatches the requests, the task that
forwards the events of the agent, and the task that writes for both. -/
namespace Guigu.Remote

/-- Where the write task of the server stands. -/
inductive WriterTask where
  | writing
  /-- A write has failed, and the read loop has been told. -/
  | failed
  /-- Its end of the queue is dropped. -/
  | gone
  deriving DecidableEq

/-- Where `serve` stands. -/
inductive Serving where
  /-- The write task has been spawned. -/
  | starting
  /-- The events are subscribed to; the baseline is sent next. -/
  | subscribed
  | reading
  | dispatching (request : RemoteRequest)
  /-- A shutdown has been answered; the agent is shut down next. -/
  | shuttingDown
  | over (result : Except RemoteError Unit)
  /-- It is over, and a shutdown that could not be answered has not reached the agent. -/
  | refused (request : RemoteRequest) (e : RemoteError)

/-- The request that has been read, and that the agent has not been given. -/
def Serving.request? : Serving → Option RemoteRequest
  | .dispatching request | .refused request _ => some request
  | .starting | .subscribed | .reading | .shuttingDown | .over _ => none

/-- The baseline has not been sent. -/
def Serving.ungreeted : Serving → Bool
  | .starting | .subscribed => true
  | .reading | .dispatching _ | .shuttingDown | .over _ | .refused _ _ => false

/-- The table that the call with this request waits in. -/
def RemoteRequest.map : RemoteRequest → PendingMap
  | .getSnapshot _ => .pendingSnapshots
  | .prompt _ _ | .continue _ | .steer _ _ | .followUp _ _ | .abort _ | .reset _
  | .shutdown _ => .pending

def Reply.map {σ : Type*} : Reply σ → PendingMap
  | .command _ => .pending
  | .snapshot _ => .pendingSnapshots

/-- The message that carries a reply. -/
def Reply.message {σ : Type*} (ε : Type*) (id : UInt64) : Reply σ → ServerMessage σ ε
  | .command result => .response id result
  | .snapshot snap => .snapshot id snap

/-- The server, the agent it serves and, in the end, what has happened so far. -/
structure RemoteServer (σ ε : Type*) where
  snapshot : σ
  events : Broadcast.Channel ε
  /-- The position of the subscription. -/
  next : ℕ
  queue : List (ServerMessage σ ε)
  writer : WriterTask
  forwarding : Bool
  serving : Serving
  /-- The requests that the agent has been given, and its replies. -/
  handled : List (RemoteRequest × Reply σ)
  /-- What has been put into the queue. -/
  told : List (ServerMessage σ ε)
  /-- The position at which the events were subscribed to. -/
  since : ℕ
  /-- The snapshot that was sent first, and how many events the agent had sent by then. -/
  baseline : Option (σ × ℕ)
  /-- How many events the forwarder has been too slow for. -/
  missed : ℕ

/-- What the agent, a task of the server or its stream does next. -/
inductive ServerAction (σ ε : Type*) where
  | publish (snapshot : σ)
  | emit (event : ε)
  | subscribe
  | greet
  | read (request : RemoteRequest)
  /-- The stream ends, or cannot be read. -/
  | endRead (result : Except RemoteError Unit)
  /-- The read loop is told that a write has failed. -/
  | noticeFailure
  /-- The agent is given the request; `result` is what a command comes to. -/
  | dispatch (result : Except String Unit)
  | shutDown (result : Except String Unit)
  | forward
  | endForward
  | write (ok : Bool)
  | dropQueue

/-- The action takes something from the stream or puts something on it. -/
def ServerAction.onStream {σ ε : Type*} : ServerAction σ ε → Bool
  | .read _ | .write _ => true
  | .publish _ | .emit _ | .subscribe | .greet | .endRead _ | .noticeFailure | .dispatch _
  | .shutDown _ | .forward | .endForward | .dropQueue => false

/-- What the agent makes of a request, when a command comes to `result`; a shutdown ends the
connection. -/
def dispatch {σ : Type*} (snapshot : σ) (result : Except String Unit) :
    RemoteRequest → Reply σ × Bool
  | .prompt _ _ | .continue _ | .steer _ _ | .followUp _ _ | .reset _ => (.command result, true)
  | .abort _ => (.command (.ok ()), true)
  | .getSnapshot _ => (.snapshot snapshot, true)
  | .shutdown _ => (.command (.ok ()), false)

theorem map_dispatch {σ : Type*} (snapshot : σ) (result : Except String Unit)
    (request : RemoteRequest) : (dispatch snapshot result request).1.map = request.map := by
  cases request <;> rfl

namespace RemoteServer

variable {σ ε : Type*}

/-- A server at the beginning of `serve`. -/
def serve (snapshot : σ) (events : Broadcast.Channel ε) : RemoteServer σ ε where
  snapshot := snapshot
  events := events
  next := 0
  queue := []
  writer := .writing
  forwarding := false
  serving := .starting
  handled := []
  told := []
  since := 0
  baseline := none
  missed := 0

def sendMsg (s : RemoteServer σ ε) (msg : ServerMessage σ ε) :
    Except RemoteError (RemoteServer σ ε) :=
  if s.writer = .gone then .error (.protocol "write channel closed")
  else .ok { s with queue := s.queue ++ [msg], told := s.told ++ [msg] }

/-- One step; a step that is not possible leaves everything as it is. -/
def step (s : RemoteServer σ ε) : ServerAction σ ε → RemoteServer σ ε
  | .publish snap => { s with snapshot := snap }
  | .emit event => { s with events := s.events.send event }
  | .subscribe =>
    match s.serving with
    | .starting =>
      { s with next := s.events.sent.length, since := s.events.sent.length, serving := .subscribed }
    | _ => s
  | .greet =>
    match s.serving with
    | .subscribed =>
      match s.sendMsg (.snapshot 0 s.snapshot) with
      | .error _ => { s with serving := .over (.ok ()) }
      | .ok s' =>
        { s' with
          forwarding := true
          serving := .reading
          baseline := some (s.snapshot, s.events.sent.length) }
    | _ => s
  | .read request =>
    match s.serving with
    | .reading => { s with serving := .dispatching request }
    | _ => s
  | .endRead result =>
    match s.serving with
    | .reading => { s with serving := .over result }
    | _ => s
  | .noticeFailure =>
    match s.serving, s.writer with
    | .reading, .failed | .reading, .gone =>
      { s with serving := .over (.error (.protocol "writer failed")) }
    | _, _ => s
  | .dispatch result =>
    match s.serving with
    | .dispatching request =>
      let (reply, goesOn) := Remote.dispatch s.snapshot result request
      let s' := { s with handled := s.handled ++ [(request, reply)] }
      match s'.sendMsg (reply.message ε request.id) with
      | .error e =>
        { s with
          handled := if goesOn then s'.handled else s.handled
          serving := if goesOn then .over (.error e) else .refused request e }
      | .ok s'' => { s'' with serving := if goesOn then .reading else .shuttingDown }
    | _ => s
  | .shutDown result =>
    match s.serving, result with
    | .shuttingDown, .ok () => { s with serving := .over (.ok ()) }
    | .shuttingDown, .error text => { s with serving := .over (.error (.command text)) }
    | _, _ => s
  | .forward =>
    if s.forwarding then
      match s.events.recv s.next with
      | (.value event, next) =>
        match s.sendMsg (.event event) with
        | .error _ => { s with next := next, forwarding := false }
        | .ok s' => { s' with next := next }
      | (.lagged n, next) => { s with next := next, missed := s.missed + n }
      | (.empty, _) => s
    else s
  | .endForward =>
    -- the task is aborted behind the read loop, or the agent is gone and all is forwarded
    match s.serving, s.events.recv s.next with
    | .over _, _ | .refused _ _, _ | _, (.empty, _) => { s with forwarding := false }
    | _, _ => s
  | .write ok =>
    match s.writer, s.queue with
    | .writing, _ :: queue =>
      if ok then { s with queue := queue } else { s with queue := queue, writer := .failed }
    | _, _ => s
  | .dropQueue =>
    match s.writer with
    | .failed => { s with queue := [], writer := .gone }
    | _ => s

end RemoteServer

def ServerMessage.event? {σ ε : Type*} : ServerMessage σ ε → Option ε
  | .event e => some e
  | .snapshot _ _ | .response _ _ => none

/-- The message is no event. -/
def ServerMessage.isReply {σ ε : Type*} : ServerMessage σ ε → Bool
  | .event _ => false
  | .snapshot _ _ | .response _ _ => true

@[simp] theorem Reply.isReply_message {σ ε : Type*} (reply : Reply σ) (id : UInt64) :
    (reply.message ε id).isReply = true := by
  cases reply <;> rfl

@[simp] theorem Reply.event?_message {σ ε : Type*} (reply : Reply σ) (id : UInt64) :
    (reply.message ε id).event? = none := by
  cases reply <;> rfl

namespace RemoteServer

/-- The baseline comes first; behind it come the replies to the requests, in their order, and
between them the events since the subscription, in theirs. -/
structure Orderly {σ ε : Type*} (s : RemoteServer σ ε) : Prop where
  /-- Before the baseline, nothing is told or dispatched. -/
  unopened : s.baseline = none → s.told = [] ∧ s.handled = [] ∧ s.forwarding = false ∧
    s.next = s.since ∧ s.serving ≠ .reading ∧ s.serving.request? = none
  ungreeted : s.serving.ungreeted = true → s.baseline = none
  opening : ∀ b, s.baseline = some b → ∃ rest, s.told = .snapshot 0 b.1 :: rest
  since_le : ∀ b, s.baseline = some b → s.since ≤ b.2 ∧ b.2 ≤ s.events.sent.length
  matched : ∀ h ∈ s.handled, h.2.map = h.1.map
  replies : s.told.tail.filter ServerMessage.isReply <+:
    s.handled.map fun h => h.2.message ε h.1.id
  complete : s.writer ≠ .gone →
    s.told.tail.filter ServerMessage.isReply = s.handled.map fun h => h.2.message ε h.1.id
  position : s.since ≤ s.next ∧ s.next ≤ s.events.sent.length
  events :
    (s.told.filterMap ServerMessage.event?).Sublist ((s.events.sent.take s.next).drop s.since)
  unlagged : s.missed = 0 →
    s.told.filterMap ServerMessage.event? <+: (s.events.sent.take s.next).drop s.since
  exact_of_forwarding : s.missed = 0 → s.forwarding = true →
    s.told.filterMap ServerMessage.event? = (s.events.sent.take s.next).drop s.since

variable {σ ε : Type*} {s : RemoteServer σ ε}

theorem sendMsg_cases (s : RemoteServer σ ε) (msg : ServerMessage σ ε) :
    (s.writer = .gone ∧ s.sendMsg msg = .error (.protocol "write channel closed")) ∨
      (s.writer ≠ .gone ∧
        s.sendMsg msg = .ok { s with queue := s.queue ++ [msg], told := s.told ++ [msg] }) := by
  by_cases hgone : s.writer = .gone
  · exact .inl ⟨hgone, if_pos hgone⟩
  · exact .inr ⟨hgone, if_neg hgone⟩

namespace Orderly

theorem serve (snapshot : σ) (events : Broadcast.Channel ε) : Orderly (serve snapshot events) where
  unopened _ := ⟨rfl, rfl, rfl, rfl, nofun, rfl⟩
  ungreeted _ := rfl
  opening _ h := by cases h
  since_le _ h := by cases h
  matched _ h := by cases h
  replies := List.prefix_rfl
  complete _ := rfl
  position := ⟨le_rfl, Nat.zero_le _⟩
  events := List.nil_sublist _
  unlagged _ := List.nil_prefix
  exact_of_forwarding _ h := by cases h

/-- Nothing changes of what has been told and of the subscription. -/
theorem congr (h : Orderly s) {s' : RemoteServer σ ε} (htold : s'.told = s.told)
    (hhandled : s'.handled = s.handled) (hevents : s'.events = s.events)
    (hnext : s'.next = s.next) (hsince : s'.since = s.since) (hbaseline : s'.baseline = s.baseline)
    (hmissed : s'.missed = s.missed) (hforwarding : s'.forwarding = true → s.forwarding = true)
    (hwriter : s'.writer ≠ .gone → s.writer ≠ .gone)
    (hungreeted : s'.serving.ungreeted = true → s.serving.ungreeted = true)
    (hserving : s.baseline = none → s.serving ≠ .reading → s.serving.request? = none →
      s'.serving ≠ .reading ∧ s'.serving.request? = none) : Orderly s' := by
  constructor
  · rw [hbaseline, htold, hhandled, hnext, hsince]
    intro hnone
    obtain ⟨htold, hhandled, hidle, hnext, hreading, hrequest⟩ := h.unopened hnone
    refine ⟨htold, hhandled, ?_, hnext, hserving hnone hreading hrequest⟩
    exact eq_false_of_ne_true fun hon => Bool.false_ne_true (hidle.symm.trans (hforwarding hon))
  · rw [hbaseline]
    exact fun hyet => h.ungreeted (hungreeted hyet)
  · rw [hbaseline, htold]
    exact h.opening
  · rw [hbaseline, hsince, hevents]
    exact h.since_le
  · rw [hhandled]
    exact h.matched
  · rw [htold, hhandled]
    exact h.replies
  · rw [htold, hhandled]
    exact fun hgone => h.complete (hwriter hgone)
  · rw [hnext, hsince, hevents]
    exact h.position
  · rw [htold, hevents, hnext, hsince]
    exact h.events
  · rw [hmissed, htold, hevents, hnext, hsince]
    exact h.unlagged
  · rw [hmissed, htold, hevents, hnext, hsince]
    exact fun hmissed hon => h.exact_of_forwarding hmissed (hforwarding hon)

theorem emit (h : Orderly s) (event : ε) : Orderly { s with events := s.events.send event } := by
  have hsame : (s.events.send event).sent.take s.next = s.events.sent.take s.next :=
    List.take_append_of_le_length h.position.2
  have hgrown := s.events.length_le_send event
  exact {
    unopened := h.unopened
    ungreeted := h.ungreeted
    opening := h.opening
    since_le := fun b hb => (h.since_le b hb).imp_right (·.trans hgrown)
    matched := h.matched
    replies := h.replies
    complete := h.complete
    position := h.position.imp_right (·.trans hgrown)
    events := by
      rw [hsame]
      exact h.events
    unlagged := by
      rw [hsame]
      exact h.unlagged
    exact_of_forwarding := by
      rw [hsame]
      exact h.exact_of_forwarding }

theorem subscribe (h : Orderly s) (hserving : s.serving = .starting) :
    Orderly { s with
      next := s.events.sent.length
      since := s.events.sent.length
      serving := .subscribed } := by
  have hnone : s.baseline = none := h.ungreeted (by rw [hserving]; rfl)
  obtain ⟨htold, hhandled, hidle, -, -⟩ := h.unopened hnone
  exact {
    unopened := fun _ => ⟨htold, hhandled, hidle, rfl, nofun, rfl⟩
    ungreeted := fun _ => hnone
    opening := h.opening
    since_le := by
      intro b hb
      cases hnone.symm.trans hb
    matched := h.matched
    replies := h.replies
    complete := h.complete
    position := ⟨le_rfl, le_rfl⟩
    events := by
      rw [htold]
      exact List.nil_sublist _
    unlagged := by
      rw [htold]
      exact fun _ => List.nil_prefix
    exact_of_forwarding := by
      intro _ hon
      cases hidle.symm.trans hon }

/-- The baseline is told. -/
theorem greet (h : Orderly s) (hserving : s.serving = .subscribed) :
    Orderly { s with
      queue := s.queue ++ [.snapshot 0 s.snapshot]
      told := s.told ++ [.snapshot 0 s.snapshot]
      forwarding := true
      serving := .reading
      baseline := some (s.snapshot, s.events.sent.length) } := by
  have hnone : s.baseline = none := h.ungreeted (by rw [hserving]; rfl)
  obtain ⟨htold, hhandled, -, hnext, -⟩ := h.unopened hnone
  have hnow : s.told ++ [.snapshot 0 s.snapshot] = [.snapshot 0 s.snapshot] := by
    rw [htold, List.nil_append]
  have hempty : (s.events.sent.take s.next).drop s.since = [] := by
    rw [List.drop_eq_nil_iff, List.length_take, hnext]
    exact Nat.min_le_left _ _
  refine ⟨nofun, nofun, ?_, ?_, h.matched, ?_, ?_, h.position, ?_, ?_, ?_⟩
  · rintro b ⟨⟩
    exact ⟨[], hnow⟩
  · rintro b ⟨⟩
    exact ⟨h.position.1.trans h.position.2, le_rfl⟩
  · rw [hnow, hhandled]
    exact List.prefix_rfl
  · rw [hnow, hhandled]
    exact fun _ => rfl
  · rw [hnow]
    exact List.nil_sublist _
  · rw [hnow]
    exact fun _ => List.nil_prefix
  · rw [hnow, hempty]
    exact fun _ _ => rfl

theorem baseline_of_dispatching (h : Orderly s) {request : RemoteRequest}
    (hserving : s.serving = .dispatching request) : s.baseline ≠ none := by
  intro hnone
  obtain ⟨-, -, -, -, -, hrequest⟩ := h.unopened hnone
  rw [hserving] at hrequest
  cases hrequest

theorem matched_concat (h : Orderly s) {request : RemoteRequest} {reply : Reply σ}
    (hmatch : reply.map = request.map) :
    ∀ h ∈ s.handled ++ [(request, reply)], h.2.map = h.1.map := by
  intro h' hmem
  obtain hmem | hmem := List.mem_append.mp hmem
  · exact h.matched h' hmem
  · rw [List.mem_singleton.mp hmem]
    exact hmatch

/-- The agent has been given a request, and the connection goes on. -/
theorem dispatch (h : Orderly s) {request : RemoteRequest}
    (hserving : s.serving = .dispatching request) {reply : Reply σ}
    (hmatch : reply.map = request.map) {serving' : Serving} (hopen : s.writer ≠ .gone)
    (hungreeted : serving'.ungreeted = false) :
    Orderly { s with
      handled := s.handled ++ [(request, reply)]
      queue := s.queue ++ [reply.message ε request.id]
      told := s.told ++ [reply.message ε request.id]
      serving := serving' } := by
  have hsome := h.baseline_of_dispatching hserving
  obtain ⟨b, hb⟩ := Option.ne_none_iff_exists'.mp hsome
  obtain ⟨rest, hrest⟩ := h.opening b hb
  have hevents : (s.told ++ [reply.message ε request.id]).filterMap ServerMessage.event? =
      s.told.filterMap ServerMessage.event? := by
    rw [List.filterMap_append, List.filterMap_cons_none (by simp), List.filterMap_nil,
      List.append_nil]
  have hreplies : ((s.told ++ [reply.message ε request.id]).tail.filter ServerMessage.isReply) =
      (s.handled ++ [(request, reply)]).map fun h => h.2.message ε h.1.id := by
    have hcomplete := h.complete hopen
    rw [hrest] at hcomplete ⊢
    rw [List.cons_append, List.tail_cons, List.filter_append, List.map_append]
    rw [List.tail_cons] at hcomplete
    rw [hcomplete, List.filter_cons_of_pos (by simp), List.filter_nil, List.map_singleton]
  refine ⟨fun hnone => absurd hnone hsome, ?_, ?_, h.since_le, h.matched_concat hmatch, ?_, ?_,
    h.position, ?_, ?_, ?_⟩
  · intro hyet
    cases hungreeted.symm.trans hyet
  · intro b' hb'
    cases hb.symm.trans hb'
    exact ⟨rest ++ [reply.message ε request.id], by rw [hrest, List.cons_append]⟩
  · exact hreplies ▸ List.prefix_rfl
  · exact fun _ => hreplies
  · rw [hevents]
    exact h.events
  · rw [hevents]
    exact h.unlagged
  · rw [hevents]
    exact h.exact_of_forwarding

/-- The agent has been given a request, and the reply cannot be told any more. -/
theorem dispatch_gone (h : Orderly s) {request : RemoteRequest}
    (hserving : s.serving = .dispatching request) {reply : Reply σ}
    (hmatch : reply.map = request.map) (result : Except RemoteError Unit)
    (hgone : s.writer = .gone) :
    Orderly { s with
      handled := s.handled ++ [(request, reply)]
      serving := .over result } := by
  have hsome := h.baseline_of_dispatching hserving
  refine ⟨fun hnone => absurd hnone hsome, nofun, h.opening, h.since_le, h.matched_concat hmatch,
    ?_, ?_, h.position, h.events, h.unlagged, h.exact_of_forwarding⟩
  · rw [List.map_append]
    exact h.replies.trans (List.prefix_append _ _)
  · exact fun hopen => absurd hgone hopen

/-- The forwarder goes on, and tells of the event or of none. -/
theorem forward (h : Orderly s) (hon : s.forwarding = true) {event : ε} {next' : ℕ}
    (hrecv : s.events.recv s.next = (.value event, next')) :
    Orderly { s with
      queue := s.queue ++ [.event event]
      told := s.told ++ [.event event]
      next := next' } := by
  obtain ⟨rfl, hget⟩ := Broadcast.Channel.recv_value hrecv
  obtain ⟨hlt, hevent⟩ := List.getElem?_eq_some_iff.mp hget
  have hgrown : (s.events.sent.take (s.next + 1)).drop s.since =
      (s.events.sent.take s.next).drop s.since ++ [event] := by
    rw [List.take_add_one, hget, Option.toList_some, List.drop_append_of_le_length]
    rw [List.length_take]
    exact le_min h.position.1 (h.position.1.trans h.position.2)
  have htold : (s.told ++ [ServerMessage.event event]).filterMap ServerMessage.event? =
      s.told.filterMap ServerMessage.event? ++ [event] := by
    rw [List.filterMap_append]
    rfl
  have hsome : s.baseline ≠ none := by
    intro hnone
    cases (h.unopened hnone).2.2.1.symm.trans hon
  obtain ⟨b, hb⟩ := Option.ne_none_iff_exists'.mp hsome
  obtain ⟨rest, hrest⟩ := h.opening b hb
  have hreplies : (s.told ++ [ServerMessage.event event]).tail.filter ServerMessage.isReply =
      s.told.tail.filter ServerMessage.isReply := by
    rw [hrest, List.cons_append, List.tail_cons, List.tail_cons, List.filter_append]
    exact List.append_nil _
  refine ⟨fun hnone => absurd hnone hsome, h.ungreeted, ?_, h.since_le, h.matched, ?_, ?_, ?_, ?_,
    ?_, ?_⟩
  · intro b' hb'
    cases hb.symm.trans hb'
    exact ⟨rest ++ [.event event], by rw [hrest, List.cons_append]⟩
  · rw [hreplies]
    exact h.replies
  · rw [hreplies]
    exact h.complete
  · exact ⟨h.position.1.trans (Nat.le_succ _), hlt⟩
  · rw [htold, hgrown]
    exact h.events.append (List.Sublist.refl _)
  · rw [htold, hgrown]
    exact fun hmissed => h.exact_of_forwarding hmissed hon ▸ List.prefix_rfl
  · rw [htold, hgrown]
    exact fun hmissed _ => by rw [h.exact_of_forwarding hmissed hon]

/-- The subscription goes on, and nothing is told of it. -/
theorem advance (h : Orderly s) {next' : ℕ} (hon : s.forwarding = true) (hle : s.next ≤ next')
    (hend : next' ≤ s.events.sent.length) {forwarding' : Bool} {missed' : ℕ}
    (hmissed : missed' = 0 → s.missed = 0)
    (hstays : missed' = 0 → forwarding' = true → False) :
    Orderly { s with
      next := next'
      forwarding := forwarding'
      missed := missed' } := by
  have hsome : s.baseline ≠ none := by
    intro hnone
    cases (h.unopened hnone).2.2.1.symm.trans hon
  have hgrown : (s.events.sent.take s.next).drop s.since <+:
      (s.events.sent.take next').drop s.since := by
    obtain ⟨rest, hrest⟩ := List.take_prefix_take_left hle (l := s.events.sent)
    rw [← hrest, List.drop_append_of_le_length]
    · exact List.prefix_append _ _
    · rw [List.length_take]
      exact le_min h.position.1 (h.position.1.trans h.position.2)
  refine ⟨fun hnone => absurd hnone hsome, h.ungreeted, h.opening, h.since_le, h.matched,
    h.replies, h.complete, ⟨h.position.1.trans hle, hend⟩, ?_, ?_, ?_⟩
  · exact h.events.trans hgrown.sublist
  · exact fun hnone => (h.unlagged (hmissed hnone)).trans hgrown
  · exact fun hnone hgoes => (hstays hnone hgoes).elim

theorem step (h : Orderly s) (a : ServerAction σ ε) : Orderly (s.step a) := by
  cases a with
  | publish snap =>
    exact h.congr rfl rfl rfl rfl rfl rfl rfl id id id fun _ hread hrequest => ⟨hread, hrequest⟩
  | emit event => exact h.emit event
  | subscribe =>
    simp only [RemoteServer.step]
    split
    · rename_i hserving
      exact h.subscribe hserving
    · exact h
  | greet =>
    simp only [RemoteServer.step]
    split
    · rename_i hserving
      obtain ⟨-, hsend⟩ | ⟨-, hsend⟩ := s.sendMsg_cases (.snapshot 0 s.snapshot)
      · rw [hsend]
        exact h.congr rfl rfl rfl rfl rfl rfl rfl id id nofun fun _ _ _ => ⟨nofun, rfl⟩
      · rw [hsend]
        exact h.greet hserving
    · exact h
  | read request =>
    simp only [RemoteServer.step]
    split
    · rename_i hserving
      exact h.congr rfl rfl rfl rfl rfl rfl rfl id id nofun
        fun _ hread _ => absurd hserving hread
    · exact h
  | endRead result =>
    simp only [RemoteServer.step]
    split
    · exact h.congr rfl rfl rfl rfl rfl rfl rfl id id nofun fun _ _ _ => ⟨nofun, rfl⟩
    · exact h
  | noticeFailure =>
    simp only [RemoteServer.step]
    split
    · exact h.congr rfl rfl rfl rfl rfl rfl rfl id id nofun fun _ _ _ => ⟨nofun, rfl⟩
    · exact h.congr rfl rfl rfl rfl rfl rfl rfl id id nofun fun _ _ _ => ⟨nofun, rfl⟩
    · exact h
  | dispatch result =>
    simp only [RemoteServer.step]
    split
    · rename_i request hserving
      obtain ⟨hgone, hsend⟩ | ⟨hopen, hsend⟩ := sendMsg_cases
        { s with handled :=
            s.handled ++ [(request, (Remote.dispatch s.snapshot result request).1)] }
        ((Remote.dispatch s.snapshot result request).1.message ε request.id)
      · simp only [hsend]
        cases (Remote.dispatch s.snapshot result request).2 with
        | true => exact h.dispatch_gone hserving (map_dispatch ..) _ hgone
        | false =>
          refine h.congr rfl rfl rfl rfl rfl rfl rfl id id nofun fun hnone => ?_
          exact absurd hnone (h.baseline_of_dispatching hserving)
      · rw [hsend]
        refine h.dispatch hserving (map_dispatch ..) hopen ?_
        split_ifs
        · rfl
        · rfl
    · exact h
  | shutDown result =>
    simp only [RemoteServer.step]
    split
    · exact h.congr rfl rfl rfl rfl rfl rfl rfl id id nofun fun _ _ _ => ⟨nofun, rfl⟩
    · exact h.congr rfl rfl rfl rfl rfl rfl rfl id id nofun fun _ _ _ => ⟨nofun, rfl⟩
    · exact h
  | forward =>
    simp only [RemoteServer.step]
    split_ifs with hon
    · split
      · rename_i event next' hrecv
        obtain ⟨hgone, hsend⟩ | ⟨-, hsend⟩ := s.sendMsg_cases (.event event)
        · rw [hsend]
          obtain ⟨rfl, hget⟩ := Broadcast.Channel.recv_value hrecv
          obtain ⟨hlt, -⟩ := List.getElem?_eq_some_iff.mp hget
          exact h.advance hon (Nat.le_succ _) hlt id nofun
        · rw [hsend]
          exact h.forward hon hrecv
      · rename_i n next' hrecv
        obtain ⟨hpos, hlt, hend⟩ := Broadcast.Channel.recv_lagged hrecv
        refine h.advance hon hlt.le hend ?_ ?_
        · omega
        · omega
      · exact h
    · exact h
  | endForward =>
    simp only [RemoteServer.step]
    split
    · exact h.congr rfl rfl rfl rfl rfl rfl rfl nofun id id fun _ hread hrequest =>
        ⟨hread, hrequest⟩
    · exact h.congr rfl rfl rfl rfl rfl rfl rfl nofun id id fun _ hread hrequest =>
        ⟨hread, hrequest⟩
    · exact h.congr rfl rfl rfl rfl rfl rfl rfl nofun id id fun _ hread hrequest =>
        ⟨hread, hrequest⟩
    · exact h
  | write ok =>
    simp only [RemoteServer.step]
    split
    · rename_i hwriting _
      split_ifs
      · exact h.congr rfl rfl rfl rfl rfl rfl rfl id id id fun _ hread hrequest =>
          ⟨hread, hrequest⟩
      · refine h.congr rfl rfl rfl rfl rfl rfl rfl id ?_ id fun _ hread hrequest =>
          ⟨hread, hrequest⟩
        intro _
        rw [hwriting]
        nofun
    · exact h
  | dropQueue =>
    simp only [RemoteServer.step]
    split
    · exact h.congr rfl rfl rfl rfl rfl rfl rfl id (absurd rfl) id fun _ hread hrequest =>
        ⟨hread, hrequest⟩
    · exact h

end Orderly

/-- The requests that have been read. -/
def taken (s : RemoteServer σ ε) : List RemoteRequest :=
  s.handled.map Prod.fst ++ s.serving.request?.toList

/-- What is read later, and what is not, has been read. -/
theorem taken_step {a : ServerAction σ ε} (ha : a.onStream = false) :
    (s.step a).taken = s.taken := by
  cases a with
  | publish snap | emit event => rfl
  | read request | write ok => cases ha
  | subscribe =>
    simp only [step]
    split
    · rename_i hserving
      rw [taken, taken, hserving]
      rfl
    · rfl
  | greet =>
    simp only [step]
    split
    · rename_i hserving
      obtain ⟨-, hsend⟩ | ⟨-, hsend⟩ := s.sendMsg_cases (.snapshot 0 s.snapshot)
      · rw [hsend, taken, taken, hserving]
        rfl
      · rw [hsend, taken, taken, hserving]
        rfl
    · rfl
  | endRead result =>
    simp only [step]
    split
    · rename_i hserving
      rw [taken, taken, hserving]
      rfl
    · rfl
  | noticeFailure =>
    simp only [step]
    split
    · rename_i hserving _
      rw [taken, taken, hserving]
      rfl
    · rename_i hserving _
      rw [taken, taken, hserving]
      rfl
    · rfl
  | dispatch result =>
    simp only [step]
    split
    · rename_i request hserving
      obtain ⟨-, hsend⟩ | ⟨-, hsend⟩ := sendMsg_cases
        { s with handled :=
            s.handled ++ [(request, (Remote.dispatch s.snapshot result request).1)] }
        ((Remote.dispatch s.snapshot result request).1.message ε request.id)
      · rw [hsend, taken, taken, hserving]
        cases (Remote.dispatch s.snapshot result request).2 <;> simp [Serving.request?]
      · rw [hsend, taken, taken, hserving]
        split_ifs
        · simp [Serving.request?]
        · simp [Serving.request?]
    · rfl
  | shutDown result =>
    simp only [step]
    split
    · rename_i hserving
      rw [taken, taken, hserving]
      rfl
    · rename_i hserving
      rw [taken, taken, hserving]
      rfl
    · rfl
  | forward =>
    simp only [step]
    split_ifs
    · split
      · rename_i event next' _
        obtain ⟨-, hsend⟩ | ⟨-, hsend⟩ := s.sendMsg_cases (.event event)
        · rw [hsend]
          rfl
        · rw [hsend]
          rfl
      · rfl
      · rfl
    · rfl
  | endForward =>
    simp only [step]
    split <;> rfl
  | dropQueue =>
    simp only [step]
    split <;> rfl

theorem taken_read (hserving : s.serving = .reading) (request : RemoteRequest) :
    (s.step (.read request)).taken = s.taken ++ [request] := by
  simp only [step, hserving, taken]
  simp [Serving.request?]

/-- What is told goes into the queue, and the queue is dropped behind a failed write only. -/
theorem conveys_step {taken stream : List (ServerMessage σ ε)} {a : ServerAction σ ε}
    (ha : a.onStream = false)
    (h : Pipe.Conveys s.told taken stream s.queue (s.writer ≠ .writing)) :
    Pipe.Conveys (s.step a).told taken stream (s.step a).queue ((s.step a).writer ≠ .writing) := by
  have hsent : ∀ (t : RemoteServer σ ε) msg, t.told = s.told → t.queue = s.queue →
      t.writer = s.writer →
      Pipe.Conveys (t.told ++ [msg]) taken stream (t.queue ++ [msg]) (t.writer ≠ .writing) := by
    intro t msg htold hqueue hwriter
    rw [htold, hqueue, hwriter]
    exact h.append [msg]
  cases a with
  | publish snap | emit event => exact h
  | read request | write ok => cases ha
  | subscribe | endRead _ | noticeFailure | shutDown _ | endForward =>
    simp only [step]
    split <;> exact h
  | greet =>
    simp only [step]
    split
    · obtain ⟨-, hsend⟩ | ⟨-, hsend⟩ := s.sendMsg_cases (.snapshot 0 s.snapshot)
      · rw [hsend]
        exact h
      · rw [hsend]
        exact hsent s _ rfl rfl rfl
    · exact h
  | dispatch result =>
    simp only [step]
    split
    · rename_i request _
      obtain ⟨-, hsend⟩ | ⟨-, hsend⟩ := sendMsg_cases
        { s with handled :=
            s.handled ++ [(request, (Remote.dispatch s.snapshot result request).1)] }
        ((Remote.dispatch s.snapshot result request).1.message ε request.id)
      · rw [hsend]
        exact h
      · rw [hsend]
        exact hsent s _ rfl rfl rfl
    · exact h
  | forward =>
    simp only [step]
    split_ifs
    · split
      · rename_i event next' _
        obtain ⟨-, hsend⟩ | ⟨-, hsend⟩ := s.sendMsg_cases (.event event)
        · rw [hsend]
          exact h
        · rw [hsend]
          exact hsent s _ rfl rfl rfl
      · exact h
      · exact h
    · exact h
  | dropQueue =>
    simp only [step]
    split
    · exact h.drop (fun hwriting => by cases hwriting)
    · exact h

end RemoteServer

end Guigu.Remote
