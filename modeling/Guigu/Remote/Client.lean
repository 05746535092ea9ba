import Guigu.Library.Oneshots
import Guigu.Library.Runs
import Guigu.Remote.Protocol

/-! The client of a remote agent: calls that wait for their replies, and the two tasks that read
and write the stream for them. -/
namespace Guigu.Remote

/-- What a call asks for. -/
inductive Ask where
  | prompt (messages : List Message)
  | continue
  | steer (message : Message)
  | followUp (message : Message)
  | reset
  | shutdown
  | getSnapshot

def Ask.request (id : UInt64) : Ask → RemoteRequest
  | .prompt messages => .prompt id messages
  | .continue => .continue id
  | .steer message => .steer id message
  | .followUp message => .followUp id message
  | .reset => .reset id
  | .shutdown => .shutdown id
  | .getSnapshot => .getSnapshot id

/-- The two tables of senders. -/
inductive PendingMap where
  | pending | pendingSnapshots
  deriving DecidableEq

def Ask.map : Ask → PendingMap
  | .prompt _ | .continue | .steer _ | .followUp _ | .reset | .shutdown => .pending
  | .getSnapshot => .pendingSnapshots

inductive ServerMessage (σ ε : Type*) where
  | snapshot (id : UInt64) (snapshot : σ)
  | response (id : UInt64) (result : Except String Unit)
  | event (event : ε)

inductive Reply (σ : Type*) where
  | command (result : Except String Unit)
  | snapshot (snapshot : σ)

/-- What a call returns when it succeeds. -/
inductive Answer (σ : Type*) where
  | accepted
  | snapshot (snapshot : σ)

def Reply.result {σ : Type*} : Reply σ → Except RemoteError (Answer σ)
  | .command (.ok ()) => .ok .accepted
  | .command (.error text) => .error (.command text)
  | .snapshot snap => .ok (.snapshot snap)

/-- The call that a message is for; a snapshot with the identifier 0 is for none. -/
def ServerMessage.reply? {σ ε : Type*} :
    ServerMessage σ ε → Option (PendingMap × UInt64 × Reply σ)
  | .response id result => some (.pending, id, .command result)
  | .snapshot id snap =>
    if id ≠ 0 then some (.pendingSnapshots, id, .snapshot snap) else none
  | .event _ => none

/-- The error comes from the client and not from a reply. -/
def RemoteError.isLocal : RemoteError → Bool
  | .protocol _ | .timeout => true
  | .io | .serde | .command _ => false

/-- Where a call stands. -/
inductive CallPhase (σ : Type*) where
  | idle
  /-- It has its identifier, and looks whether the connection is closed. -/
  | checking
  /-- It waits for the table, to put its entry in. -/
  | entering
  | entered
  /-- Its request is queued; it looks a second time whether the connection is closed. -/
  | sent
  | waiting
  /-- It waits for the table, to take its entry out, and returns the error. -/
  | withdrawing (error : { e : RemoteError // e.isLocal = true })
  | returned (result : Except RemoteError (Answer σ))

/-- The call has put its entry in and has not returned. -/
def CallPhase.filed {σ : Type*} : CallPhase σ → Bool
  | .entered | .sent | .waiting | .withdrawing _ => true
  | .idle | .checking | .entering | .returned _ => false

structure Call (σ : Type*) where
  ask : Ask
  id : UInt64
  phase : CallPhase σ

/-- The key of the call in a table. -/
def Call.key {σ : Type*} (c : Call σ) (m : PendingMap) : Option UInt64 :=
  if c.ask.map = m ∧ c.phase.filed then some c.id else none

def Call.withPhase {σ : Type*} (c : Call σ) (phase : CallPhase σ) : Call σ := ⟨c.ask, c.id, phase⟩

@[simp] theorem Call.withPhase_ask {σ : Type*} (c : Call σ) (phase : CallPhase σ) :
    (c.withPhase phase).ask = c.ask := rfl

@[simp] theorem Call.withPhase_id {σ : Type*} (c : Call σ) (phase : CallPhase σ) :
    (c.withPhase phase).id = c.id := rfl

@[simp] theorem Call.withPhase_phase {σ : Type*} (c : Call σ) (phase : CallPhase σ) :
    (c.withPhase phase).phase = phase := rfl

/-- Where a task stands that ends the connection when its loop is over. -/
inductive Ending where
  | running
  /-- The loop is over; `closed` is set next. -/
  | broken
  /-- The commands are drained next. -/
  | marked
  /-- The snapshots are drained next. -/
  | halfDrained
  | done
  deriving DecidableEq

/-- The task goes on to drain the table. -/
def Ending.willDrain : Ending → PendingMap → Bool
  | .marked, _ | .halfDrained, .pendingSnapshots => true
  | .halfDrained, .pending | .running, _ | .broken, _ | .done, _ => false

structure RemoteClient (σ ε : Type*) where
  nextId : UInt64
  tables : PendingMap → Oneshots UInt64 (Reply σ)
  call : ℕ → Call σ
  nextCall : ℕ
  closed : Bool
  /-- The requests between the calls and the write task. -/
  queue : List RemoteRequest
  snapshot : σ
  events : List ε
  reader : Ending
  writer : Ending
  /-- The messages that the read task has read. -/
  read : List (ServerMessage σ ε)

/-- What a call or a task does next. -/
inductive ClientAction (σ ε : Type*) where
  | begin (ask : Ask)
  | check (call : ℕ)
  | enter (call : ℕ)
  | send (call : ℕ)
  | recheck (call : ℕ)
  /-- The call sees what has become of its channel. -/
  | receive (call : ℕ)
  | expire (call : ℕ)
  | withdraw (call : ℕ)
  | abort
  | read (msg : ServerMessage σ ε)
  /-- The stream ends, or cannot be read. -/
  | endRead
  | write (ok : Bool)
  | endReader
  | endWriter

namespace RemoteClient

variable {σ ε : Type*}

/-- A client that has just connected. -/
def connect (initial : σ) : RemoteClient σ ε where
  nextId := 1
  tables _ := .empty
  call _ := ⟨.continue, 0, .idle⟩
  nextCall := 0
  closed := false
  queue := []
  snapshot := initial
  events := []
  reader := .running
  writer := .running
  read := []

def setPhase (s : RemoteClient σ ε) (i : ℕ) (phase : CallPhase σ) : RemoteClient σ ε :=
  { s with call := Function.update s.call i ((s.call i).withPhase phase) }

/-- A call begins; the next one gets the identifier `nextId`. -/
def addCall (s : RemoteClient σ ε) (nextId : UInt64) (c : Call σ) : RemoteClient σ ε :=
  { s with
    nextId := nextId
    nextCall := s.nextCall + 1
    call := Function.update s.call s.nextCall c }

def setTable (s : RemoteClient σ ε) (m : PendingMap) (t : Oneshots UInt64 (Reply σ)) :
    RemoteClient σ ε :=
  { s with tables := Function.update s.tables m t }

/-- The channel that the call waits on. -/
def channel (s : RemoteClient σ ε) (i : ℕ) : Oneshot (Reply σ) :=
  (s.tables (s.call i).ask.map).channel i

def connectionClosed : RemoteError := .protocol "connection closed"

/-- The next step of a task behind its loop. -/
def cleanUp (s : RemoteClient σ ε) : Ending → Option (Ending × RemoteClient σ ε)
  | .broken => some (.marked, { s with closed := true })
  | .marked => some (.halfDrained, s.setTable .pending (s.tables .pending).drain)
  | .halfDrained =>
    some (.done, s.setTable .pendingSnapshots (s.tables .pendingSnapshots).drain)
  | .running | .done => none

/-- One step of some call or task; a step that is not possible leaves everything as it is. -/
def step (s : RemoteClient σ ε) : ClientAction σ ε → RemoteClient σ ε
  | .begin ask =>
    match ask.map with
    | .pending => s.addCall (s.nextId + 1) ⟨ask, s.nextId, .checking⟩
    | .pendingSnapshots =>
      if s.closed then s.addCall s.nextId ⟨ask, 0, .returned (.error connectionClosed)⟩
      else s.addCall (s.nextId + 1) ⟨ask, s.nextId, .entering⟩
  | .check i =>
    match (s.call i).phase with
    | .checking =>
      s.setPhase i (if s.closed then .returned (.error connectionClosed) else .entering)
    | _ => s
  | .enter i =>
    match (s.call i).phase with
    | .entering =>
      let m := (s.call i).ask.map
      (s.setTable m ((s.tables m).insert (s.call i).id i)).setPhase i .entered
    | _ => s
  | .send i =>
    match (s.call i).phase with
    | .entered =>
      if s.writer = .done then s.setPhase i (.withdrawing ⟨.protocol "write channel closed", rfl⟩)
      else
        { s with queue := s.queue ++ [(s.call i).ask.request (s.call i).id] }.setPhase i .sent
    | _ => s
  | .recheck i =>
    match (s.call i).phase with
    | .sent => s.setPhase i (if s.closed then .withdrawing ⟨connectionClosed, rfl⟩ else .waiting)
    | _ => s
  | .receive i =>
    match (s.call i).phase, s.channel i with
    | .waiting, .sent reply => s.setPhase i (.returned reply.result)
    | .waiting, .dropped =>
      s.setPhase i (.returned (.error (.protocol "response channel closed")))
    | _, _ => s
  | .expire i =>
    match (s.call i).phase, s.channel i with
    | .waiting, .open => s.setPhase i (.withdrawing ⟨.timeout, rfl⟩)
    | _, _ => s
  | .withdraw i =>
    match (s.call i).phase with
    | .withdrawing error =>
      let m := (s.call i).ask.map
      (s.setTable m ((s.tables m).remove (s.call i).id)).setPhase i (.returned (.error error.1))
    | _ => s
  | .abort =>
    if s.closed then s
    else
      let s' := { s with nextId := s.nextId + 1 }
      if s.writer = .done then s' else { s' with queue := s.queue ++ [.abort s.nextId] }
  | .read msg =>
    if s.reader = .running then
      let s' := { s with read := s.read ++ [msg] }
      let cached := match msg with
        | .snapshot _ snap => { s' with snapshot := snap }
        | .event event => { s' with events := s.events ++ [event] }
        | .response _ _ => s'
      match msg.reply? with
      | some (m, id, reply) => cached.setTable m ((s.tables m).resolve id reply)
      | none => cached
    else s
  | .endRead => if s.reader = .running then { s with reader := .broken } else s
  | .write ok =>
    match s.writer, s.queue with
    | .running, _ :: queue =>
      if ok then { s with queue := queue } else { s with queue := queue, writer := .broken }
    | _, _ => s
  | .endReader =>
    match s.cleanUp s.reader with
    | some (ending, s') => { s' with reader := ending }
    | none => s
  | .endWriter =>
    match s.cleanUp s.writer with
    | some (ending, s') => { s' with writer := ending }
    | none => s

/-- A message with the identifier of the call, for its table, has brought the reply. -/
def RepliedBy (s : RemoteClient σ ε) (i : ℕ) (reply : Reply σ) : Prop :=
  ∃ msg ∈ s.read, msg.reply? = some ((s.call i).ask.map, (s.call i).id, reply)

/-- What a channel has been sent was the reply to its call. -/
def RepliesOwn (s : RemoteClient σ ε) : Prop :=
  ∀ i m reply, (s.tables m).channel i = .sent reply →
    (s.call i).ask.map = m ∧ s.RepliedBy i reply

/-- A call that has returned returned its reply, or an error of the client. -/
def ReturnsOwn (s : RemoteClient σ ε) : Prop :=
  ∀ i result, (s.call i).phase = .returned result →
    (∃ reply, s.RepliedBy i reply ∧ result = reply.result) ∨
      ∃ e : RemoteError, e.isLocal = true ∧ result = .error e

/-- Once the connection is closed, what a call still waits on is drained. -/
def Watched (s : RemoteClient σ ε) : Prop :=
  ∀ i, s.closed = true → (s.call i).phase = .waiting → s.channel i = .open →
    (s.tables (s.call i).ask.map).entries.lookup (s.call i).id = some i ∧
      (s.reader.willDrain (s.call i).ask.map = true ∨
        s.writer.willDrain (s.call i).ask.map = true)

/-- The keys under which the calls are filed in a table. -/
def keys (s : RemoteClient σ ε) (m : PendingMap) : ℕ → Option UInt64 := fun i => (s.call i).key m

theorem keys_setPhase (s : RemoteClient σ ε) (i : ℕ) (phase : CallPhase σ) (m : PendingMap) :
    (s.setPhase i phase).keys m =
      Function.update (s.keys m) i (((s.call i).withPhase phase).key m) := by
  funext j
  by_cases hj : j = i
  · simp [keys, setPhase, hj]
  · simp [keys, setPhase, hj]

@[simp] theorem setPhase_ask (s : RemoteClient σ ε) (i : ℕ) (phase : CallPhase σ) (j : ℕ) :
    ((s.setPhase i phase).call j).ask = (s.call j).ask := by
  by_cases hj : j = i
  · simp [setPhase, hj]
  · simp [setPhase, hj]

@[simp] theorem setPhase_id (s : RemoteClient σ ε) (i : ℕ) (phase : CallPhase σ) (j : ℕ) :
    ((s.setPhase i phase).call j).id = (s.call j).id := by
  by_cases hj : j = i
  · simp [setPhase, hj]
  · simp [setPhase, hj]

@[simp] theorem setPhase_phase (s : RemoteClient σ ε) (i : ℕ) (phase : CallPhase σ) :
    ((s.setPhase i phase).call i).phase = phase := by
  simp [setPhase]

theorem setPhase_phase_of_ne (s : RemoteClient σ ε) {i j : ℕ} (hj : j ≠ i) (phase : CallPhase σ) :
    ((s.setPhase i phase).call j).phase = (s.call j).phase := by
  simp [setPhase, hj]

@[simp] theorem setPhase_channel (s : RemoteClient σ ε) (i : ℕ) (phase : CallPhase σ) (j : ℕ) :
    (s.setPhase i phase).channel j = s.channel j := by
  rw [channel, setPhase_ask]
  rfl

@[simp] theorem setPhase_repliedBy (s : RemoteClient σ ε) (i : ℕ) (phase : CallPhase σ) (j : ℕ)
    (reply : Reply σ) : (s.setPhase i phase).RepliedBy j reply ↔ s.RepliedBy j reply := by
  rw [RepliedBy, setPhase_ask, setPhase_id]
  rfl

theorem addCall_call (s : RemoteClient σ ε) (nextId : UInt64) (c : Call σ) :
    (s.addCall nextId c).call s.nextCall = c := Function.update_self ..

theorem addCall_call_of_ne (s : RemoteClient σ ε) (nextId : UInt64) (c : Call σ) {j : ℕ}
    (hj : j ≠ s.nextCall) : (s.addCall nextId c).call j = s.call j := Function.update_of_ne hj ..

@[simp] theorem setTable_tables (s : RemoteClient σ ε) (m : PendingMap)
    (t : Oneshots UInt64 (Reply σ)) : (s.setTable m t).tables m = t := Function.update_self ..

theorem setTable_tables_of_ne (s : RemoteClient σ ε) {m m' : PendingMap} (hm : m' ≠ m)
    (t : Oneshots UInt64 (Reply σ)) : (s.setTable m t).tables m' = s.tables m' :=
  Function.update_of_ne hm ..

end RemoteClient

/-- The call has been in a table. -/
def CallPhase.started {σ : Type*} : CallPhase σ → Bool
  | .entered | .sent | .waiting | .withdrawing _ | .returned _ => true
  | .idle | .checking | .entering => false

namespace RemoteClient

/-- What has been sent, and what has been returned, was in a message for the call; what still waits
behind the end of the connection is drained. -/
structure Calm {σ ε : Type*} (s : RemoteClient σ ε) : Prop where
  begun : ∀ i, s.nextCall ≤ i → (s.call i).phase = .idle
  replies : ∀ i m reply, (s.tables m).channel i = .sent reply →
    (s.call i).phase.started = true ∧ (s.call i).ask.map = m ∧ s.RepliedBy i reply
  returns : s.ReturnsOwn
  watched : ∀ i, s.closed = true → (s.call i).phase = .waiting → s.channel i = .open →
    s.reader.willDrain (s.call i).ask.map = true ∨ s.writer.willDrain (s.call i).ask.map = true

/-- And the tables hold the senders of the calls that have not returned. -/
structure Sound {σ ε : Type*} (s : RemoteClient σ ε) : Prop extends Calm s where
  filed : ∀ m, (s.tables m).Filed (s.keys m)

variable {σ ε : Type*} {s : RemoteClient σ ε} {i : ℕ}

theorem key_of_filed {c : Call σ} {m : PendingMap} (hm : c.ask.map = m)
    (hfiled : c.phase.filed = true) : c.key m = some c.id := if_pos ⟨hm, hfiled⟩

theorem key_of_unfiled {c : Call σ} (h : c.phase.filed = false) (m : PendingMap) :
    c.key m = none := if_neg fun hfiled => Bool.false_ne_true (h.symm.trans hfiled.2)

theorem key_of_ne {c : Call σ} {m : PendingMap} (h : c.ask.map ≠ m) : c.key m = none :=
  if_neg fun hfiled => h hfiled.1

theorem key_eq_some {m : PendingMap} {k : UInt64} (hi : s.keys m i = some k) :
    (s.call i).ask.map = m ∧ (s.call i).phase.filed = true ∧ (s.call i).id = k := by
  rw [keys, Call.key] at hi
  split_ifs at hi with hthere
  exact ⟨hthere.1, hthere.2, Option.some.inj hi⟩

theorem started_of_filed {phase : CallPhase σ} (h : phase.filed = true) :
    phase.started = true := by
  cases phase <;> simp_all [CallPhase.filed, CallPhase.started]

namespace Calm

theorem setPhase (h : Calm s) {phase : CallPhase σ} (hi : (s.call i).phase ≠ .idle)
    (hstarted : (s.call i).phase.started = true → phase.started = true)
    (hreturned : ∀ result, phase = .returned result →
      (∃ reply, s.RepliedBy i reply ∧ result = reply.result) ∨
        ∃ e : RemoteError, e.isLocal = true ∧ result = .error e)
    (hwaiting : phase = .waiting → s.closed = false) : Calm (s.setPhase i phase) := by
  constructor
  · intro j hj
    have hji : j ≠ i := by
      rintro rfl
      exact hi (h.begun j hj)
    exact (s.setPhase_phase_of_ne hji phase).trans (h.begun j hj)
  · intro j m reply hj
    obtain ⟨hphase, hmap, hreplied⟩ := h.replies j m reply hj
    rw [setPhase_ask, setPhase_repliedBy]
    refine ⟨?_, hmap, hreplied⟩
    by_cases hji : j = i
    · rw [hji, setPhase_phase]
      exact hstarted (hji ▸ hphase)
    · rwa [s.setPhase_phase_of_ne hji]
  · intro j result hj
    simp only [setPhase_repliedBy]
    by_cases hji : j = i
    · rw [hji, setPhase_phase] at hj
      rw [hji]
      exact hreturned result hj
    · rw [s.setPhase_phase_of_ne hji] at hj
      exact h.returns j result hj
  · intro j hclosed hj hopen
    rw [setPhase_channel] at hopen
    rw [setPhase_ask]
    by_cases hji : j = i
    · rw [hji, setPhase_phase] at hj
      have hstays : s.closed = true := hclosed
      rw [hwaiting hj] at hstays
      cases hstays
    · rw [s.setPhase_phase_of_ne hji] at hj
      exact h.watched j hclosed hj hopen

/-- The tables change while the calls stand where they are. -/
theorem retable (h : Calm s) {s' : RemoteClient σ ε} (hcall : s'.call = s.call)
    (hnext : s'.nextCall = s.nextCall) (hread : ∀ msg ∈ s.read, msg ∈ s'.read)
    (hreplies : ∀ i m reply, (s'.tables m).channel i = .sent reply →
      (s.tables m).channel i = .sent reply ∨
        ((s.call i).phase.started = true ∧ (s.call i).ask.map = m ∧ s'.RepliedBy i reply))
    (hwatched : ∀ i, s'.closed = true → (s.call i).phase = .waiting →
      (s'.tables (s.call i).ask.map).channel i = .open →
      s'.reader.willDrain (s.call i).ask.map = true ∨
        s'.writer.willDrain (s.call i).ask.map = true) : Calm s' := by
  have hreplied : ∀ i reply, s.RepliedBy i reply → s'.RepliedBy i reply := by
    rintro i reply ⟨msg, hmsg, hreply⟩
    exact ⟨msg, hread msg hmsg, by rw [hcall]; exact hreply⟩
  constructor
  · rw [hcall, hnext]
    exact h.begun
  · intro i m reply hi
    rw [hcall]
    rcases hreplies i m reply hi with hold | hnew
    · obtain ⟨hphase, hmap, hold⟩ := h.replies i m reply hold
      exact ⟨hphase, hmap, hreplied i reply hold⟩
    · exact hnew
  · intro i result hi
    rw [hcall] at hi
    rcases h.returns i result hi with ⟨reply, hold, hresult⟩ | herror
    · exact .inl ⟨reply, hreplied i reply hold, hresult⟩
    · exact .inr herror
  · intro i hclosed hi hopen
    rw [channel, hcall] at hopen
    rw [hcall] at hi ⊢
    exact hwatched i hclosed hi hopen

/-- A new call, which has put no entry in. -/
theorem addCall (h : Calm s) {c : Call σ} (nextId : UInt64) (hwaiting : c.phase ≠ .waiting)
    (hreturned : ∀ result, c.phase = .returned result →
      ∃ e : RemoteError, e.isLocal = true ∧ result = .error e) :
    Calm (s.addCall nextId c) := by
  constructor
  · intro j hj
    have hne : j ≠ s.nextCall := by
      rintro rfl
      exact absurd hj (Nat.not_succ_le_self _)
    rw [s.addCall_call_of_ne nextId c hne]
    exact h.begun j ((Nat.le_succ _).trans hj)
  · intro j m reply hj
    have hne : j ≠ s.nextCall := by
      rintro rfl
      have hphase := (h.replies _ m reply hj).1
      rw [h.begun _ le_rfl] at hphase
      cases hphase
    rw [RepliedBy, s.addCall_call_of_ne nextId c hne]
    exact h.replies j m reply hj
  · intro j result hj
    by_cases hne : j = s.nextCall
    · rw [hne, s.addCall_call] at hj
      exact .inr (hreturned result hj)
    · rw [s.addCall_call_of_ne nextId c hne] at hj
      simp only [RepliedBy, s.addCall_call_of_ne nextId c hne]
      exact h.returns j result hj
  · intro j hclosed hj hopen
    by_cases hne : j = s.nextCall
    · rw [hne, s.addCall_call] at hj
      exact absurd hj hwaiting
    · rw [s.addCall_call_of_ne nextId c hne] at hj ⊢
      rw [channel, s.addCall_call_of_ne nextId c hne] at hopen
      exact h.watched j hclosed hj hopen

end Calm

namespace Sound

theorem connect (initial : σ) : Sound (connect initial : RemoteClient σ ε) where
  begun _ _ := rfl
  replies _ _ _ h := by cases h
  returns _ _ h := by cases h
  watched _ h := by cases h
  filed m := by
    have hkeys : (RemoteClient.connect initial : RemoteClient σ ε).keys m = fun _ => none := by
      funext i
      simp [keys, RemoteClient.connect, Call.key, CallPhase.filed]
    rw [hkeys]
    exact .empty

/-- A call goes on under its key, or without one. -/
theorem setPhase (h : Sound s) {phase : CallPhase σ} (hi : (s.call i).phase ≠ .idle)
    (hsame : phase.filed = (s.call i).phase.filed)
    (hstarted : (s.call i).phase.started = true → phase.started = true)
    (hreturned : ∀ result, phase = .returned result →
      ∃ e : RemoteError, e.isLocal = true ∧ result = .error e)
    (hwaiting : phase = .waiting → s.closed = false) : Sound (s.setPhase i phase) where
  toCalm := h.toCalm.setPhase hi hstarted
    (fun result hresult => .inr (hreturned result hresult)) hwaiting
  filed m := by
    have hkey : ((s.call i).withPhase phase).key m = s.keys m i := by
      rw [keys, Call.key, Call.key, Call.withPhase_phase, hsame]
      rfl
    rw [keys_setPhase, hkey, Function.update_eq_self]
    exact h.filed m

/-- A call whose sender is gone returns. -/
theorem setPhase_returned (h : Sound s) {result : Except RemoteError (Answer σ)}
    (hi : (s.call i).phase.filed = true) (hgone : s.channel i ≠ .open)
    (hreturned : (∃ reply, s.RepliedBy i reply ∧ result = reply.result) ∨
      ∃ e : RemoteError, e.isLocal = true ∧ result = .error e) :
    Sound (s.setPhase i (.returned result)) where
  toCalm := by
    apply h.toCalm.setPhase
    · intro hidle
      rw [hidle] at hi
      cases hi
    · exact fun _ => rfl
    · intro result' hresult
      rw [← CallPhase.returned.inj hresult]
      exact hreturned
    · nofun
  filed m := by
    have hkey : ((s.call i).withPhase (.returned result)).key m = none := key_of_unfiled rfl m
    rw [keys_setPhase, hkey]
    by_cases hm : (s.call i).ask.map = m
    · exact (h.filed m).forget (hm ▸ hgone)
    · have hnone : s.keys m i = none := key_of_ne hm
      rw [← hnone, Function.update_eq_self]
      exact h.filed m

theorem addCall (h : Sound s) {c : Call σ} (nextId : UInt64) (hunfiled : c.phase.filed = false)
    (hreturned : ∀ result, c.phase = .returned result →
      ∃ e : RemoteError, e.isLocal = true ∧ result = .error e) :
    Sound (s.addCall nextId c) where
  toCalm := by
    apply h.toCalm.addCall nextId
    · intro hwaiting
      rw [hwaiting] at hunfiled
      cases hunfiled
    · exact hreturned
  filed m := by
    have hkeys : (s.addCall nextId c).keys m = s.keys m := by
      funext j
      rw [keys, keys]
      by_cases hj : j = s.nextCall
      · rw [hj, s.addCall_call, Call.key, Call.key, h.begun _ le_rfl, hunfiled]
        simp [CallPhase.filed]
      · rw [s.addCall_call_of_ne nextId c hj]
    rw [hkeys]
    exact h.filed m

/-- The entry of a call goes into its table. -/
theorem enter (h : Sound s) (hi : (s.call i).phase = .entering) :
    Sound ((s.setTable (s.call i).ask.map
      ((s.tables (s.call i).ask.map).insert (s.call i).id i)).setPhase i .entered) where
  toCalm := by
    have hentered : Calm (s.setTable (s.call i).ask.map
        ((s.tables (s.call i).ask.map).insert (s.call i).id i)) := by
      refine h.toCalm.retable rfl rfl (fun _ hmsg => hmsg) ?_ ?_
      · intro j m reply hj
        left
        by_cases hm : m = (s.call i).ask.map
        · rw [hm, setTable_tables] at hj
          by_cases hji : j = i
          · rw [hji, Oneshots.channel_insert_self] at hj
            cases hj
          · rw [Oneshots.channel_insert_of_ne _ _ hji] at hj
            split_ifs at hj
            rw [hm, hj]
        · rwa [s.setTable_tables_of_ne hm] at hj
      · intro j hclosed hj hopen
        apply h.watched j hclosed hj
        have hji : j ≠ i := by
          rintro rfl
          rw [hi] at hj
          cases hj
        by_cases hm : (s.call j).ask.map = (s.call i).ask.map
        · rw [hm, setTable_tables, Oneshots.channel_insert_of_ne _ _ hji] at hopen
          split_ifs at hopen
          rw [channel, hm, hopen]
        · rwa [s.setTable_tables_of_ne hm] at hopen
    apply hentered.setPhase
    · intro hidle
      cases hi.symm.trans hidle
    · exact fun _ => rfl
    · nofun
    · nofun
  filed m := by
    have hnone : s.keys m i = none := key_of_unfiled (by rw [hi]; rfl) m
    rw [keys_setPhase]
    by_cases hm : (s.call i).ask.map = m
    · have hnew : ((s.call i).withPhase .entered).key m = some (s.call i).id :=
        key_of_filed hm rfl
      have hinsert := (h.filed m).insert hnone (s.call i).id
      rw [← hnew] at hinsert
      subst hm
      have htable := s.setTable_tables (s.call i).ask.map
        ((s.tables (s.call i).ask.map).insert (s.call i).id i)
      exact htable.symm ▸ hinsert
    · have hnew : ((s.call i).withPhase .entered).key m = none := key_of_ne hm
      have hsame : Function.update (s.keys m) i none = s.keys m := by
        rw [← hnone, Function.update_eq_self]
      have htable := s.setTable_tables_of_ne (Ne.symm hm)
        ((s.tables (s.call i).ask.map).insert (s.call i).id i)
      have hfiled := h.filed m
      rw [← htable, ← hsame, ← hnew] at hfiled
      exact hfiled

/-- Some senders leave their table for good. -/
theorem settle (h : Sound s) {s' : RemoteClient σ ε} (hcall : s'.call = s.call)
    (hnext : s'.nextCall = s.nextCall) (hread : ∀ msg ∈ s.read, msg ∈ s'.read)
    {m : PendingMap} {pick : UInt64 → Option (Oneshot (Reply σ))}
    (htables : s'.tables = Function.update s.tables m ((s.tables m).settle pick))
    (hpick : ∀ k o, pick k = some o → o ≠ .open)
    (hsent : ∀ k reply, pick k = some (.sent reply) →
      ∃ msg ∈ s'.read, msg.reply? = some (m, k, reply))
    (hwatched : ∀ i, s'.closed = true → (s.call i).phase = .waiting →
      (s'.tables (s.call i).ask.map).channel i = .open →
      s'.reader.willDrain (s.call i).ask.map = true ∨
        s'.writer.willDrain (s.call i).ask.map = true) : Sound s' where
  toCalm := by
    apply h.toCalm.retable hcall hnext hread
    · intro j m' reply hj
      rw [htables] at hj
      by_cases hm : m' = m
      · rw [hm, Function.update_self] at hj
        rcases (s.tables m).channel_settle pick j with ⟨hsame, -⟩ | ⟨k, o, hk, ho, hchannel⟩
        · rw [hm]
          exact .inl (hsame.symm.trans hj)
        · right
          obtain ⟨hmap, hphase, hid⟩ := key_eq_some ((h.filed m).entry k j hk).1
          rw [← hchannel, hj] at ho
          obtain ⟨msg, hmsg, hreply⟩ := hsent k reply ho
          refine ⟨started_of_filed hphase, hmap.trans hm.symm, msg, hmsg, ?_⟩
          rw [hcall, hmap, hid]
          exact hreply
      · rw [Function.update_of_ne hm] at hj
        exact .inl hj
    · exact hwatched
  filed m' := by
    have hkeys : s'.keys m' = s.keys m' := by
      funext j
      rw [keys, keys, hcall]
    rw [hkeys, htables]
    by_cases hm : m' = m
    · rw [hm, Function.update_self]
      exact (h.filed m).settle hpick
    · rw [Function.update_of_ne hm]
      exact h.filed m'

/-- What is open behind a settlement was open before. -/
theorem open_of_settle (h : Sound s) {m m' : PendingMap}
    {pick : UInt64 → Option (Oneshot (Reply σ))}
    (hi : (Function.update s.tables m ((s.tables m).settle pick) m').channel i = .open) :
    (s.tables m').channel i = .open := by
  by_cases hm : m' = m
  · rw [hm, Function.update_self] at hi
    rcases (s.tables m).channel_settle pick i with ⟨hsame, -⟩ | ⟨k, o, hk, -, -⟩
    · rw [hm]
      exact hsame.symm.trans hi
    · rw [hm]
      exact ((h.filed m).entry k i hk).2
  · rwa [Function.update_of_ne hm] at hi

/-- Nothing but the tasks and the queue changes. -/
theorem congr (h : Sound s) {s' : RemoteClient σ ε} (hcall : s'.call = s.call)
    (hnext : s'.nextCall = s.nextCall) (htables : s'.tables = s.tables)
    (hread : ∀ msg ∈ s.read, msg ∈ s'.read) (hclosed : s'.closed = s.closed)
    (hdrain : ∀ m, s.reader.willDrain m = true ∨ s.writer.willDrain m = true →
      s'.reader.willDrain m = true ∨ s'.writer.willDrain m = true) : Sound s' where
  toCalm := by
    apply h.toCalm.retable hcall hnext hread
    · rw [htables]
      exact fun _ _ _ hi => .inl hi
    · rw [hclosed, htables]
      exact fun i hstays hi hopen => hdrain _ (h.watched i hstays hi hopen)
  filed m := by
    have hkeys : s'.keys m = s.keys m := by
      funext j
      rw [keys, keys, hcall]
    rw [hkeys, htables]
    exact h.filed m

/-- A call takes its entry out, and returns its error. -/
theorem withdraw (h : Sound s) {error : { e : RemoteError // e.isLocal = true }}
    (hi : (s.call i).phase = .withdrawing error) :
    Sound ((s.setTable (s.call i).ask.map
      ((s.tables (s.call i).ask.map).remove (s.call i).id)).setPhase i
        (.returned (.error error.1))) := by
  have hpick : ∀ k o, (if k = (s.call i).id then some Oneshot.dropped else none : Option
      (Oneshot (Reply σ))) = some o → o = .dropped := by
    intro k o ho
    split_ifs at ho
    exact (Option.some.inj ho).symm
  have hremoved : Sound (s.setTable (s.call i).ask.map
      ((s.tables (s.call i).ask.map).remove (s.call i).id)) := by
    refine h.settle rfl rfl (fun _ hmsg => hmsg) rfl ?_ ?_ ?_
    · intro k o ho
      rw [hpick k o ho]
      nofun
    · intro k reply hreply
      cases hpick k _ hreply
    · intro j hclosed hj hopen
      exact h.watched j hclosed hj (h.open_of_settle hopen)
  apply hremoved.setPhase_returned
  · exact congrArg CallPhase.filed hi
  · have hkey : s.keys (s.call i).ask.map i = some (s.call i).id :=
      key_of_filed rfl (by rw [hi]; rfl)
    intro hopen
    have hthere := (hremoved.filed (s.call i).ask.map).filed _ i hkey hopen
    rw [setTable_tables, Oneshots.remove, Oneshots.lookup_settle, if_pos rfl] at hthere
    cases hthere.2
  · exact .inr ⟨error.1, error.2, rfl⟩

/-- A message brings its call the reply. -/
theorem deliver (h : Sound s) {s' : RemoteClient σ ε} {msg : ServerMessage σ ε} {m : PendingMap}
    {id : UInt64} {reply : Reply σ} (hreply : msg.reply? = some (m, id, reply))
    (hcall : s'.call = s.call) (hnext : s'.nextCall = s.nextCall)
    (hread : s'.read = s.read ++ [msg])
    (htables : s'.tables = Function.update s.tables m ((s.tables m).resolve id reply))
    (hclosed : s'.closed = s.closed) (hreader : s'.reader = s.reader)
    (hwriter : s'.writer = s.writer) : Sound s' := by
  have hpick : ∀ k o, (if k = id then some (Oneshot.sent reply) else none) = some o →
      k = id ∧ o = .sent reply := by
    intro k o ho
    split_ifs at ho with hk
    exact ⟨hk, (Option.some.inj ho).symm⟩
  refine h.settle hcall hnext ?_ htables ?_ ?_ ?_
  · rw [hread]
    exact fun _ hmsg => List.mem_append_left _ hmsg
  · intro k o ho
    rw [(hpick k o ho).2]
    nofun
  · intro k reply' ho
    obtain ⟨rfl, hsame⟩ := hpick k _ ho
    rw [hread, Oneshot.sent.inj hsame]
    exact ⟨msg, by simp, hreply⟩
  · intro i hstays hi hopen
    rw [htables] at hopen
    rw [hclosed] at hstays
    rw [hreader, hwriter]
    exact h.watched i hstays hi (h.open_of_settle hopen)

/-- A task has drained a table, and goes on to drain what is left; `other` is the other task. -/
theorem drain (h : Sound s) {ending ending' other : Ending} {s' : RemoteClient σ ε}
    {m : PendingMap} (hcall : s'.call = s.call) (hnext : s'.nextCall = s.nextCall)
    (hread : s'.read = s.read) (hclosed : s'.closed = s.closed)
    (htables : s'.tables = Function.update s.tables m (s.tables m).drain)
    (hrest : ∀ m', m' ≠ m → ending.willDrain m' = true → ending'.willDrain m' = true)
    (hbefore : ∀ m, s.reader.willDrain m = true ∨ s.writer.willDrain m = true →
      ending.willDrain m = true ∨ other.willDrain m = true)
    (hafter : ∀ m, ending'.willDrain m = true ∨ other.willDrain m = true →
      s'.reader.willDrain m = true ∨ s'.writer.willDrain m = true) : Sound s' := by
  refine h.settle hcall hnext ?_ htables ?_ ?_ ?_
  · rw [hread]
    exact fun _ hmsg => hmsg
  · intro k o ho
    rw [← Option.some.inj ho]
    nofun
  · intro k reply ho
    cases Option.some.inj ho
  · intro i hstays hi hopen
    rw [htables] at hopen
    rw [hclosed] at hstays
    by_cases hm : (s.call i).ask.map = m
    · have hkey : s.keys m i = some (s.call i).id := key_of_filed hm (by rw [hi]; rfl)
      rw [hm, Function.update_self] at hopen
      exact absurd hopen ((h.filed m).channel_drain hkey)
    · have hwas := hbefore _ (h.watched i hstays hi (h.open_of_settle hopen))
      exact hafter _ (hwas.imp_left (hrest _ hm))

/-- A task behind its loop goes on. -/
theorem cleanUp (h : Sound s) {ending ending' other : Ending} {t s' : RemoteClient σ ε}
    (hstep : s.cleanUp ending = some (ending', t)) (hcall : s'.call = t.call)
    (hnext : s'.nextCall = t.nextCall) (hread : s'.read = t.read) (hclosed : s'.closed = t.closed)
    (htables : s'.tables = t.tables)
    (hbefore : ∀ m, s.reader.willDrain m = true ∨ s.writer.willDrain m = true →
      ending.willDrain m = true ∨ other.willDrain m = true)
    (hafter : ∀ m, ending'.willDrain m = true ∨ other.willDrain m = true →
      s'.reader.willDrain m = true ∨ s'.writer.willDrain m = true) : Sound s' := by
  cases ending with
  | running | done => cases hstep
  | broken =>
    obtain ⟨rfl, rfl⟩ := Prod.mk.inj (Option.some.inj hstep)
    exact {
      toCalm := by
        refine h.toCalm.retable hcall hnext ?_ ?_ ?_
        · rw [hread]
          exact fun _ hmsg => hmsg
        · rw [htables]
          exact fun _ _ _ hi => .inl hi
        · exact fun i _ _ _ => hafter _ (.inl rfl)
      filed := by
        intro m
        have hkeys : s'.keys m = s.keys m := by
          funext j
          rw [keys, keys, hcall]
        rw [hkeys, htables]
        exact h.filed m }
  | marked =>
    obtain ⟨rfl, rfl⟩ := Prod.mk.inj (Option.some.inj hstep)
    refine h.drain hcall hnext hread hclosed htables (fun m hm _ => ?_) hbefore hafter
    cases m with
    | pending => exact absurd rfl hm
    | pendingSnapshots => rfl
  | halfDrained =>
    obtain ⟨rfl, rfl⟩ := Prod.mk.inj (Option.some.inj hstep)
    refine h.drain hcall hnext hread hclosed htables (fun m hm hdrain => ?_) hbefore hafter
    cases m with
    | pending => cases hdrain
    | pendingSnapshots => exact absurd rfl hm

theorem cleanUp_tasks {ending ending' : Ending} {t : RemoteClient σ ε}
    (hstep : s.cleanUp ending = some (ending', t)) : t.reader = s.reader ∧ t.writer = s.writer := by
  cases ending with
  | running | done => cases hstep
  | broken | marked | halfDrained =>
    obtain ⟨-, rfl⟩ := Prod.mk.inj (Option.some.inj hstep)
    exact ⟨rfl, rfl⟩

theorem step (h : Sound s) (a : ClientAction σ ε) : Sound (s.step a) := by
  cases a with
  | begin ask =>
    simp only [RemoteClient.step]
    split
    · exact h.addCall _ rfl nofun
    · split_ifs
      · refine h.addCall _ rfl fun result hresult => ?_
        exact ⟨connectionClosed, rfl, (CallPhase.returned.inj hresult).symm⟩
      · exact h.addCall _ rfl nofun
  | check i =>
    simp only [RemoteClient.step]
    split
    · rename_i hi
      have hidle : (s.call i).phase ≠ .idle := by rw [hi]; nofun
      split_ifs
      · refine h.setPhase hidle (by rw [hi]; rfl) (fun _ => rfl) (fun result hresult => ?_) nofun
        exact ⟨connectionClosed, rfl, (CallPhase.returned.inj hresult).symm⟩
      · refine h.setPhase hidle (by rw [hi]; rfl) (fun hstarted => ?_) nofun nofun
        rw [hi] at hstarted
        cases hstarted
    · exact h
  | enter i =>
    simp only [RemoteClient.step]
    split
    · rename_i hi
      exact h.enter hi
    · exact h
  | send i =>
    simp only [RemoteClient.step]
    split
    · rename_i hi
      have hidle : (s.call i).phase ≠ .idle := by rw [hi]; nofun
      split_ifs
      · exact h.setPhase hidle (by rw [hi]; rfl) (fun _ => rfl) nofun nofun
      · have hqueued : Sound { s with
            queue := s.queue ++ [(s.call i).ask.request (s.call i).id] } :=
          h.congr rfl rfl rfl (fun _ hmsg => hmsg) rfl fun _ hdrain => hdrain
        exact hqueued.setPhase hidle (by rw [hi]; rfl) (fun _ => rfl) nofun nofun
    · exact h
  | recheck i =>
    simp only [RemoteClient.step]
    split
    · rename_i hi
      have hidle : (s.call i).phase ≠ .idle := by rw [hi]; nofun
      split_ifs with hclosed
      · exact h.setPhase hidle (by rw [hi]; rfl) (fun _ => rfl) nofun nofun
      · exact h.setPhase hidle (by rw [hi]; rfl) (fun _ => rfl) nofun
          fun _ => eq_false_of_ne_true hclosed
    · exact h
  | receive i =>
    simp only [RemoteClient.step]
    split
    · rename_i reply hi hsent
      apply h.setPhase_returned (by rw [hi]; rfl) (by rw [hsent]; nofun)
      exact .inl ⟨reply, (h.replies i _ reply hsent).2.2, rfl⟩
    · rename_i hi hdropped
      exact h.setPhase_returned (by rw [hi]; rfl) (by rw [hdropped]; nofun) (.inr ⟨_, rfl, rfl⟩)
    · exact h
  | expire i =>
    simp only [RemoteClient.step]
    split
    · rename_i hi _
      exact h.setPhase (by rw [hi]; nofun) (by rw [hi]; rfl) (fun _ => rfl) nofun nofun
    · exact h
  | withdraw i =>
    simp only [RemoteClient.step]
    split
    · rename_i hi
      exact h.withdraw hi
    · exact h
  | abort =>
    simp only [RemoteClient.step]
    split_ifs
    · exact h
    · exact h.congr rfl rfl rfl (fun _ hmsg => hmsg) rfl fun _ hdrain => hdrain
    · exact h.congr rfl rfl rfl (fun _ hmsg => hmsg) rfl fun _ hdrain => hdrain
  | read msg =>
    simp only [RemoteClient.step]
    split_ifs
    · cases msg with
      | response id result => exact h.deliver (m := .pending) rfl rfl rfl rfl rfl rfl rfl rfl
      | snapshot id snap =>
        by_cases hid : id = 0
        · simp only [ServerMessage.reply?, hid, ne_eq, not_true_eq_false, if_false]
          exact h.congr rfl rfl rfl (fun _ hmsg => List.mem_append_left _ hmsg) rfl
            fun _ hdrain => hdrain
        · have hreply : (ServerMessage.snapshot id snap : ServerMessage σ ε).reply? =
              some (.pendingSnapshots, id, .snapshot snap) := if_pos hid
          simp only [hreply]
          exact h.deliver hreply rfl rfl rfl rfl rfl rfl rfl
      | event event =>
        exact h.congr rfl rfl rfl (fun _ hmsg => List.mem_append_left _ hmsg) rfl
          fun _ hdrain => hdrain
    · exact h
  | endRead =>
    simp only [RemoteClient.step]
    split_ifs with hrunning
    · refine h.congr rfl rfl rfl (fun _ hmsg => hmsg) rfl fun m hdrain => ?_
      rw [hrunning] at hdrain
      exact hdrain
    · exact h
  | write ok =>
    simp only [RemoteClient.step]
    split
    · rename_i hrunning _
      split_ifs
      · exact h.congr rfl rfl rfl (fun _ hmsg => hmsg) rfl fun _ hdrain => hdrain
      · refine h.congr rfl rfl rfl (fun _ hmsg => hmsg) rfl fun m hdrain => ?_
        rw [hrunning] at hdrain
        exact hdrain
    · exact h
  | endReader =>
    simp only [RemoteClient.step]
    split
    · rename_i hstep
      refine h.cleanUp hstep rfl rfl rfl rfl rfl (fun _ hdrain => hdrain) fun m hdrain => ?_
      rwa [(cleanUp_tasks hstep).2]
    · exact h
  | endWriter =>
    simp only [RemoteClient.step]
    split
    · rename_i hstep
      refine h.cleanUp hstep rfl rfl rfl rfl rfl (fun _ hdrain => hdrain.symm) fun m hdrain => ?_
      rw [(cleanUp_tasks hstep).1]
      exact hdrain.symm
    · exact h

end Sound

/-- However the calls, the replies and the failures of the stream interleave, every channel and
every call gets its own reply or an error, and behind the end of the connection nobody waits for a
sender that stays in a table. -/
theorem replies_throughout (initial : σ) (as : List (ClientAction σ ε)) :
    Runs.Throughout step (fun s => s.RepliesOwn ∧ s.ReturnsOwn ∧ s.Watched)
      (connect initial) as := by
  have hstep : ∀ (s : RemoteClient σ ε) a, Sound s → Sound (s.step a) := fun _ a h => h.step a
  have hprop : ∀ s : RemoteClient σ ε, Sound s → s.RepliesOwn ∧ s.ReturnsOwn ∧ s.Watched := by
    intro s h
    refine ⟨fun i m reply hi => (h.replies i m reply hi).2, h.returns, ?_⟩
    intro i hclosed hi hopen
    have hkey : s.keys (s.call i).ask.map i = some (s.call i).id :=
      key_of_filed rfl (by rw [hi]; rfl)
    exact ⟨(h.filed _).filed _ i hkey hopen, h.watched i hclosed hi hopen⟩
  exact Runs.always hstep hprop (Sound.connect initial) as

end RemoteClient

end Guigu.Remote
