import Guigu.Acp.Jsonrpc
import Guigu.Library.Oneshots
import Guigu.Library.Runs

/-! Clients that are connected over server-sent events: their requests wait in one table, and a
watchdog for each connection cleans up behind it. -/
namespace Guigu.Acp

abbrev ClientId := String

structure SseEvent where
  event : String
  data : String

def SSE_CHANNEL_CAPACITY : ℕ := 256

/-- What a request fails with. -/
inductive RequestError where
  | acp (e : AcpError)
  /-- The i/o error `TimedOut`. -/
  | timedOut
  deriving DecidableEq

def requestOverflow : RequestError :=
  .acp (.jsonRpc "request id overflow: too many in-flight requests")

def clientDisconnected : RequestError := .acp (.jsonRpc "client disconnected")

def requestCancelled : RequestError := .acp (.jsonRpc "request cancelled")

/-- The errors that a request makes itself. -/
def localErrors : List RequestError :=
  [requestOverflow, clientDisconnected, requestCancelled, .timedOut]

def connectionClosed : AcpError := .jsonRpc "connection closed"

/-- Where a request of the agent stands. -/
inductive SsePhase where
  | idle
  /-- It waits for the table, to put its entry in. -/
  | entering
  /-- It waits for room in the channel of the client. -/
  | entered
  | waiting
  /-- It waits for the table, to take its entry out, and returns the error. -/
  | withdrawing (error : { e : RequestError // e ∈ localErrors })
  | returned (result : Except RequestError Json)

/-- The request has put its entry in and has not returned. -/
def SsePhase.filed : SsePhase → Bool
  | .entered | .waiting | .withdrawing _ => true
  | .idle | .entering | .returned _ => false

/-- There is no such request, or it has returned. -/
def SsePhase.over : SsePhase → Bool
  | .idle | .returned _ => true
  | .entering | .entered | .waiting | .withdrawing _ => false

structure SseRequest where
  client : ℕ
  key : ClientId × RequestId
  method : String
  params : Json
  phase : SsePhase

namespace SseRequest

def withPhase (c : SseRequest) (phase : SsePhase) : SseRequest := { c with phase := phase }

/-- The key that the request is filed under. -/
def filedKey (c : SseRequest) : Option (ClientId × RequestId) :=
  if c.phase.filed then some c.key else none

def message (c : SseRequest) : Json :=
  .obj [("jsonrpc", .str "2.0"), ("id", c.key.2.toValue), ("method", .str c.method),
    ("params", c.params)]

def sseEvent (c : SseRequest) : SseEvent := ⟨c.method, String.ofList c.message.render⟩

theorem filedKey_of_filed {c : SseRequest} (h : c.phase.filed = true) :
    c.filedKey = some c.key := if_pos h

theorem filedKey_of_unfiled {c : SseRequest} (h : c.phase.filed = false) : c.filedKey = none :=
  if_neg (Bool.eq_false_iff.mp h)

theorem filedKey_eq_some {c : SseRequest} {k : ClientId × RequestId} (h : c.filedKey = some k) :
    c.phase.filed = true ∧ c.key = k := by
  rw [filedKey] at h
  split_ifs at h with hfiled
  exact ⟨hfiled, Option.some.inj h⟩

end SseRequest

/-- Where the watchdog of a connection stands. -/
inductive Watchdog where
  | watching
  /-- The client is out of the registry; the table is cleaned next. -/
  | unregistered
  | done
  deriving DecidableEq

structure SseAcpClient where
  clientId : ClientId
  nextId : UInt64
  /-- The events between the agent and the stream. -/
  channel : List SseEvent
  /-- The stream still has the receiver. -/
  connected : Bool
  watchdog : Watchdog

structure SseTransport where
  nextClientId : UInt64
  clients : AList fun _ : ClientId => ℕ
  pending : Oneshots (ClientId × RequestId) (Except AcpError Json)
  client : ℕ → SseAcpClient
  nextClient : ℕ
  request : ℕ → SseRequest
  nextRequest : ℕ
  /-- The clients whose messages are or have been handled. -/
  handlers : List ℕ
  /-- The messages that have been posted, each under its client. -/
  posted : List (ClientId × InboundMessage)

inductive SseAction where
  /-- `GET /sse` -/
  | connect
  /-- `POST /message` -/
  | post (header : Option ClientId) (msg : InboundMessage)
  /-- A handler asks its client for something. -/
  | begin (client : ℕ) (method : String) (params : Json)
  | enter (request : ℕ)
  | send (request : ℕ)
  /-- The request sees what has become of its channel. -/
  | receive (request : ℕ)
  | expire (request : ℕ)
  | withdraw (request : ℕ)
  /-- A notification or a reply to the client. -/
  | push (client : ℕ) (event : SseEvent)
  /-- The stream takes an event out. -/
  | deliver (client : ℕ)
  | disconnect (client : ℕ)
  | watch (client : ℕ)

namespace SseTransport

def new : SseTransport where
  nextClientId := 1
  clients := ∅
  pending := .empty
  client _ := ⟨"", 1, [], false, .watching⟩
  nextClient := 0
  request _ := ⟨0, ("", .number 0), "", .null, .idle⟩
  nextRequest := 0
  handlers := []
  posted := []

def setPhase (s : SseTransport) (i : ℕ) (phase : SsePhase) : SseTransport :=
  { s with request := Function.update s.request i ((s.request i).withPhase phase) }

def setClient (s : SseTransport) (n : ℕ) (c : SseAcpClient) : SseTransport :=
  { s with client := Function.update s.client n c }

def addRequest (s : SseTransport) (c : SseRequest) : SseTransport :=
  { s with
    nextRequest := s.nextRequest + 1
    request := Function.update s.request s.nextRequest c }

def resolvePending (s : SseTransport) (clientId : ClientId) (id : RequestId)
    (result : Except AcpError Json) : SseTransport :=
  { s with pending := s.pending.resolve (clientId, id) result }

/-- What waits for the client is refused. -/
def closePending (s : SseTransport) (clientId : ClientId) : SseTransport :=
  { s with
    pending := s.pending.settle fun key =>
      if key.1 = clientId then some (.sent (.error connectionClosed)) else none }

def messageHandler (s : SseTransport) (clientId : ClientId) (msg : InboundMessage) :
    SseTransport :=
  match classifyInbound msg with
  | .ok (.response id result) => s.resolvePending clientId id result
  | .ok (.request _ _ _) | .ok (.notification _ _) =>
    match s.clients.lookup clientId with
    | some n => { s with handlers := s.handlers ++ [n] }
    | none => s
  | .error _ => s

/-- The event goes into the channel when the client is connected and there is room. -/
def trySend (c : SseAcpClient) (event : SseEvent) : Option SseAcpClient :=
  if c.connected ∧ c.channel.length < SSE_CHANNEL_CAPACITY then
    some { c with channel := c.channel ++ [event] }
  else none

/-- One step of some task; a step that is not possible leaves everything as it is. -/
def step (s : SseTransport) : SseAction → SseTransport
  | .connect =>
    let clientId := toString s.nextClientId
    { s with
      nextClientId := s.nextClientId + 1
      nextClient := s.nextClient + 1
      client := Function.update s.client s.nextClient ⟨clientId, 1, [], true, .watching⟩
      clients := s.clients.insert clientId s.nextClient }
  | .post header msg =>
    match header with
    | some clientId =>
      { s with posted := s.posted ++ [(clientId, msg)] }.messageHandler clientId msg
    | none => s
  | .begin n method params =>
    if n ∈ s.handlers then
      let c := s.client n
      let id := c.nextId.toNat
      (s.setClient n { c with nextId := c.nextId + 1 }).addRequest
        ⟨n, (c.clientId, .number (Int64.ofNat id)), method, params,
          if id < 2 ^ 63 then .entering else .returned (.error requestOverflow)⟩
    else s
  | .enter i =>
    match (s.request i).phase with
    | .entering => { s with pending := s.pending.insert (s.request i).key i }.setPhase i .entered
    | _ => s
  | .send i =>
    match (s.request i).phase with
    | .entered =>
      let n := (s.request i).client
      if (s.client n).connected then
        match trySend (s.client n) (s.request i).sseEvent with
        | some c => (s.setClient n c).setPhase i .waiting
        | none => s
      else s.setPhase i (.withdrawing ⟨clientDisconnected, by simp [localErrors]⟩)
    | _ => s
  | .receive i =>
    match (s.request i).phase, s.pending.channel i with
    | .waiting, .sent result => s.setPhase i (.returned (result.mapError .acp))
    | .waiting, .dropped => s.setPhase i (.returned (.error requestCancelled))
    | _, _ => s
  | .expire i =>
    match (s.request i).phase, s.pending.channel i with
    | .waiting, .open => s.setPhase i (.withdrawing ⟨.timedOut, by simp [localErrors]⟩)
    | _, _ => s
  | .withdraw i =>
    match (s.request i).phase with
    | .withdrawing error =>
      { s with pending := s.pending.remove (s.request i).key }.setPhase i (.returned (.error error))
    | _ => s
  | .push n event =>
    match trySend (s.client n) event with
    | some c => s.setClient n c
    | none => s
  | .deliver n => s.setClient n { s.client n with channel := (s.client n).channel.tail }
  | .disconnect n => s.setClient n { s.client n with connected := false, channel := [] }
  | .watch n =>
    let c := s.client n
    match c.watchdog with
    | .watching =>
      if n < s.nextClient ∧ ¬ c.connected then
        { s with clients := s.clients.erase c.clientId }.setClient n
          { c with watchdog := .unregistered }
      else s
    | .unregistered => (s.closePending c.clientId).setClient n { c with watchdog := .done }
    | .done => s

/-- The value comes from a message that was posted under the client of the request, with the
identifier of the request, or from the clean-up behind the client. -/
def ResolvedBy (s : SseTransport) (i : ℕ) (value : Except AcpError Json) : Prop :=
  (∃ msg, ((s.request i).key.1, msg) ∈ s.posted ∧
      classifyInbound msg = .ok (.response (s.request i).key.2 value)) ∨
    (∃ n, (s.client n).clientId = (s.request i).key.1 ∧ (s.client n).watchdog = .done) ∧
      value = .error connectionClosed

/-- No request is resolved for another client, and none with another identifier. -/
def Isolated (s : SseTransport) : Prop :=
  ∀ i value, s.pending.channel i = .sent value → s.ResolvedBy i value

def ReturnsOwn (s : SseTransport) : Prop :=
  ∀ i result, (s.request i).phase = .returned result →
    (∃ value, s.ResolvedBy i value ∧ result = value.mapError .acp) ∨
      ∃ e ∈ localErrors, result = .error e

/-- When the requests of a client have returned, the table has no entry of the client. -/
def NothingLeft (s : SseTransport) : Prop :=
  ∀ clientId, (∀ i, (s.request i).key.1 = clientId → (s.request i).phase.over = true) →
    ∀ id, s.pending.entries.lookup (clientId, id) = none

/-- Behind the clean-up no request of the client goes on waiting. -/
def Cleared (s : SseTransport) : Prop :=
  ∀ i, (s.client (s.request i).client).watchdog = .done → (s.request i).phase = .waiting →
    s.pending.channel i ≠ .open

/-- The keys under which the requests are filed. -/
def keys (s : SseTransport) : ℕ → Option (ClientId × RequestId) := fun i => (s.request i).filedKey

structure Sound (s : SseTransport) : Prop where
  filed : s.pending.Filed s.keys
  begun : ∀ i, s.nextRequest ≤ i → (s.request i).phase = .idle
  registered : ∀ clientId n, s.clients.lookup clientId = some n → n < s.nextClient
  handled : ∀ n ∈ s.handlers, n < s.nextClient
  owned : ∀ i, (s.request i).phase ≠ .idle → (s.request i).client < s.nextClient ∧
    (s.request i).key.1 = (s.client (s.request i).client).clientId
  watched : ∀ n, (s.client n).watchdog ≠ .watching →
    n < s.nextClient ∧ (s.client n).connected = false
  resolved : ∀ i value, s.pending.channel i = .sent value →
    (s.request i).phase ≠ .idle ∧ s.ResolvedBy i value
  returns : s.ReturnsOwn
  cleared : s.Cleared

variable {s : SseTransport} {i n : ℕ}

@[simp] theorem setPhase_self (s : SseTransport) (i : ℕ) (phase : SsePhase) :
    (s.setPhase i phase).request i = (s.request i).withPhase phase := Function.update_self ..

theorem setPhase_of_ne (s : SseTransport) {i j : ℕ} (hj : j ≠ i) (phase : SsePhase) :
    (s.setPhase i phase).request j = s.request j := Function.update_of_ne hj ..

@[simp] theorem setPhase_key (s : SseTransport) (i : ℕ) (phase : SsePhase) (j : ℕ) :
    ((s.setPhase i phase).request j).key = (s.request j).key := by
  by_cases hj : j = i
  · rw [hj, setPhase_self]
    rfl
  · rw [s.setPhase_of_ne hj]

@[simp] theorem setPhase_client (s : SseTransport) (i : ℕ) (phase : SsePhase) (j : ℕ) :
    ((s.setPhase i phase).request j).client = (s.request j).client := by
  by_cases hj : j = i
  · rw [hj, setPhase_self]
    rfl
  · rw [s.setPhase_of_ne hj]

theorem keys_setPhase (s : SseTransport) (i : ℕ) (phase : SsePhase) :
    (s.setPhase i phase).keys =
      Function.update s.keys i ((s.request i).withPhase phase).filedKey := by
  funext j
  by_cases hj : j = i
  · rw [hj, keys, setPhase_self, Function.update_self]
  · rw [keys, s.setPhase_of_ne hj, Function.update_of_ne hj, keys]

@[simp] theorem setPhase_resolvedBy (s : SseTransport) (i : ℕ) (phase : SsePhase) (j : ℕ)
    (value : Except AcpError Json) :
    (s.setPhase i phase).ResolvedBy j value ↔ s.ResolvedBy j value := by
  rw [ResolvedBy, setPhase_key]
  rfl

theorem addRequest_self (s : SseTransport) (c : SseRequest) :
    (s.addRequest c).request s.nextRequest = c := Function.update_self ..

theorem addRequest_of_ne (s : SseTransport) (c : SseRequest) {j : ℕ} (hj : j ≠ s.nextRequest) :
    (s.addRequest c).request j = s.request j := Function.update_of_ne hj ..

@[simp] theorem setClient_self (s : SseTransport) (n : ℕ) (c : SseAcpClient) :
    (s.setClient n c).client n = c := Function.update_self ..

theorem setClient_of_ne (s : SseTransport) {n m : ℕ} (hm : m ≠ n) (c : SseAcpClient) :
    (s.setClient n c).client m = s.client m := Function.update_of_ne hm ..

/-- What has resolved a request stays true of it. -/
theorem ResolvedBy.mono {s' : SseTransport} {value : Except AcpError Json}
    (h : s.ResolvedBy i value) (hkey : (s'.request i).key = (s.request i).key)
    (hposted : ∀ p ∈ s.posted, p ∈ s'.posted)
    (hdone : ∀ n, (s.client n).watchdog = .done →
      (s'.client n).watchdog = .done ∧ (s'.client n).clientId = (s.client n).clientId) :
    s'.ResolvedBy i value := by
  rw [ResolvedBy, hkey]
  rcases h with ⟨msg, hmsg, hclass⟩ | ⟨⟨n, hid, hn⟩, hvalue⟩
  · exact .inl ⟨msg, hposted _ hmsg, hclass⟩
  · exact .inr ⟨⟨n, (hdone n hn).2.trans hid, (hdone n hn).1⟩, hvalue⟩

namespace Sound

theorem new : Sound new where
  filed := by
    have hkeys : SseTransport.new.keys = fun _ => none := by
      funext i
      exact SseRequest.filedKey_of_unfiled rfl
    rw [hkeys]
    exact .empty
  begun _ _ := rfl
  registered _ _ h := by cases h
  handled _ h := by cases h
  owned _ h := absurd rfl h
  watched _ h := absurd rfl h
  resolved _ _ h := by cases h
  returns _ _ h := by cases h
  cleared _ h := by cases h

/-- A request goes on, and its entry may go into the table. -/
theorem advance (h : Sound s) {t : Oneshots (ClientId × RequestId) (Except AcpError Json)}
    {phase : SsePhase} (hi : (s.request i).phase ≠ .idle) (hphase : phase ≠ .idle)
    (hfiled : t.Filed (Function.update s.keys i ((s.request i).withPhase phase).filedKey))
    (hsent : ∀ j value, t.channel j = .sent value → s.pending.channel j = .sent value)
    (hopen : ∀ j, j ≠ i → t.channel j = .open → s.pending.channel j = .open)
    (hreturned : ∀ result, phase = .returned result →
      (∃ value, s.ResolvedBy i value ∧ result = value.mapError .acp) ∨
        ∃ e ∈ localErrors, result = .error e)
    (hwaiting : phase = .waiting → (s.client (s.request i).client).connected = true) :
    Sound ({ s with pending := t }.setPhase i phase) where
  filed := by
    rw [keys_setPhase]
    exact hfiled
  begun j hj := by
    have hji : j ≠ i := by
      rintro rfl
      exact hi (h.begun j hj)
    rw [setPhase_of_ne _ hji]
    exact h.begun j hj
  registered := h.registered
  handled := h.handled
  owned j hj := by
    rw [setPhase_client, setPhase_key]
    by_cases hji : j = i
    · exact hji ▸ h.owned i hi
    · rw [setPhase_of_ne _ hji] at hj
      exact h.owned j hj
  watched := h.watched
  resolved j value hj := by
    obtain ⟨hold, hresolved⟩ := h.resolved j value (hsent j value hj)
    rw [setPhase_resolvedBy]
    refine ⟨?_, hresolved⟩
    by_cases hji : j = i
    · rw [hji, setPhase_self]
      exact hphase
    · rwa [setPhase_of_ne _ hji]
  returns j result hj := by
    simp only [setPhase_resolvedBy]
    by_cases hji : j = i
    · rw [hji, setPhase_self] at hj
      rw [hji]
      exact hreturned result hj
    · rw [setPhase_of_ne _ hji] at hj
      exact h.returns j result hj
  cleared j hdone hj hwaits := by
    rw [setPhase_client] at hdone
    by_cases hji : j = i
    · rw [hji, setPhase_self] at hj
      subst hji
      have hended : (s.client (s.request j).client).watchdog = .done := hdone
      have hgone := (h.watched _ (by rw [hended]; nofun)).2
      exact Bool.false_ne_true (hgone.symm.trans (hwaiting hj))
    · rw [setPhase_of_ne _ hji] at hj
      exact h.cleared j hdone hj (hopen j hji hwaits)

/-- A request goes on under its key, or without one. -/
theorem setPhase (h : Sound s) {phase : SsePhase} (hi : (s.request i).phase ≠ .idle)
    (hphase : phase ≠ .idle) (hsame : phase.filed = (s.request i).phase.filed)
    (hreturned : ∀ result, phase ≠ .returned result)
    (hwaiting : phase = .waiting → (s.client (s.request i).client).connected = true) :
    Sound (s.setPhase i phase) := by
  refine h.advance hi hphase ?_ (fun _ _ hj => hj) (fun _ _ hj => hj)
    (fun result hresult => absurd hresult (hreturned result)) hwaiting
  have hkey : ((s.request i).withPhase phase).filedKey = s.keys i := by
    rw [keys, SseRequest.filedKey, SseRequest.filedKey]
    exact congrArg (fun filed : Bool => if filed = true then some (s.request i).key else none) hsame
  rw [hkey, Function.update_eq_self]
  exact h.filed

/-- A request whose sender is gone returns. -/
theorem setPhase_returned (h : Sound s) {result : Except RequestError Json}
    (hi : (s.request i).phase.filed = true) (hgone : s.pending.channel i ≠ .open)
    (hreturned : (∃ value, s.ResolvedBy i value ∧ result = value.mapError .acp) ∨
      ∃ e ∈ localErrors, result = .error e) : Sound (s.setPhase i (.returned result)) := by
  apply h.advance (t := s.pending)
  · intro hidle
    rw [hidle] at hi
    cases hi
  · nofun
  · rw [SseRequest.filedKey_of_unfiled rfl]
    exact h.filed.forget hgone
  · exact fun _ _ hj => hj
  · exact fun _ _ hj => hj
  · intro result' hresult
    rw [← SsePhase.returned.inj hresult]
    exact hreturned
  · nofun

/-- Nothing changes for the requests when the clients go on. -/
theorem congr (h : Sound s) {s' : SseTransport} (hpending : s'.pending = s.pending)
    (hrequest : s'.request = s.request) (hnext : s'.nextRequest = s.nextRequest)
    (hposted : ∀ p ∈ s.posted, p ∈ s'.posted) (hclients : s.nextClient ≤ s'.nextClient)
    (hregistered : ∀ clientId n, s'.clients.lookup clientId = some n → n < s'.nextClient)
    (hhandled : ∀ n ∈ s'.handlers, n < s'.nextClient)
    (hclient : ∀ n < s.nextClient, (s'.client n).clientId = (s.client n).clientId ∧
      ((s'.client n).watchdog = .done ↔ (s.client n).watchdog = .done))
    (hwatched : ∀ n, (s'.client n).watchdog ≠ .watching →
      n < s'.nextClient ∧ (s'.client n).connected = false) : Sound s' := by
  have hresolved : ∀ i value, s.ResolvedBy i value → s'.ResolvedBy i value := by
    intro i value hi
    refine hi.mono (by rw [hrequest]) hposted fun n hdone => ?_
    obtain ⟨hid, hiff⟩ := hclient n (h.watched n (by rw [hdone]; nofun)).1
    exact ⟨hiff.mpr hdone, hid⟩
  have hkeys : s'.keys = s.keys := by
    funext j
    rw [keys, keys, hrequest]
  constructor
  · rw [hpending, hkeys]
    exact h.filed
  · rw [hrequest, hnext]
    exact h.begun
  · exact hregistered
  · exact hhandled
  · intro i hi
    rw [hrequest] at hi ⊢
    obtain ⟨hn, hkey⟩ := h.owned i hi
    exact ⟨hn.trans_le hclients, hkey.trans (hclient _ hn).1.symm⟩
  · exact hwatched
  · intro i value hi
    rw [hpending] at hi
    rw [hrequest]
    exact (h.resolved i value hi).imp_right (hresolved i value)
  · intro i result hi
    rw [hrequest] at hi
    rcases h.returns i result hi with ⟨value, hvalue, hresult⟩ | hlocal
    · exact .inl ⟨value, hresolved i value hvalue, hresult⟩
    · exact .inr hlocal
  · intro i hdone hi hopen
    rw [hrequest] at hdone hi
    rw [hpending] at hopen
    have hidle : (s.request i).phase ≠ .idle := by rw [hi]; nofun
    exact h.cleared i ((hclient _ (h.owned i hidle).1).2.mp hdone) hi hopen

/-- A client goes on, and its watchdog does not come to an end. -/
theorem setClient (h : Sound s) {c : SseAcpClient} (hid : c.clientId = (s.client n).clientId)
    (hdone : c.watchdog = .done ↔ (s.client n).watchdog = .done)
    (hgone : c.watchdog ≠ .watching → n < s.nextClient ∧ c.connected = false) :
    Sound (s.setClient n c) := by
  refine h.congr rfl rfl rfl (fun _ hp => hp) le_rfl h.registered h.handled ?_ ?_
  · intro m _
    by_cases hm : m = n
    · rw [hm, setClient_self]
      exact ⟨hid, hdone⟩
    · rw [s.setClient_of_ne hm]
      exact ⟨rfl, Iff.rfl⟩
  · intro m hm
    by_cases hmn : m = n
    · rw [hmn, setClient_self] at hm ⊢
      exact hgone hm
    · rw [s.setClient_of_ne hmn] at hm ⊢
      exact h.watched m hm

/-- Some senders leave the table for good. -/
theorem settle (h : Sound s) {s' : SseTransport} (hrequest : s'.request = s.request)
    (hnext : s'.nextRequest = s.nextRequest) (hnextClient : s'.nextClient = s.nextClient)
    (hclients : s'.clients = s.clients) (hhandlers : s'.handlers = s.handlers)
    (hposted : s'.posted = s.posted)
    {pick : ClientId × RequestId → Option (Oneshot (Except AcpError Json))}
    (hpending : s'.pending = s.pending.settle pick)
    (hclient : ∀ n, (s'.client n).clientId = (s.client n).clientId ∧
      ((s.client n).watchdog = .done → (s'.client n).watchdog = .done))
    (hwatched : ∀ n, (s'.client n).watchdog ≠ .watching →
      n < s'.nextClient ∧ (s'.client n).connected = false)
    (hpick : ∀ k o, pick k = some o → o ≠ .open)
    (hsent : ∀ i value, pick (s.request i).key = some (.sent value) → s'.ResolvedBy i value)
    (hcleared : ∀ i, s.pending.channel i = .open →
      (s.client (s.request i).client).watchdog ≠ .done →
      (s'.client (s.request i).client).watchdog = .done → (s.request i).phase = .waiting →
      pick (s.request i).key ≠ none) : Sound s' := by
  have hresolved : ∀ i value, s.ResolvedBy i value → s'.ResolvedBy i value := by
    intro i value hi
    refine hi.mono (by rw [hrequest]) (fun p hp => hposted ▸ hp) fun n hdone => ?_
    exact ⟨(hclient n).2 hdone, (hclient n).1⟩
  have hkeys : s'.keys = s.keys := by
    funext j
    rw [keys, keys, hrequest]
  have hfiled := h.filed.settle hpick
  constructor
  · rw [hpending, hkeys]
    exact hfiled
  · rw [hrequest, hnext]
    exact h.begun
  · rw [hclients, hnextClient]
    exact h.registered
  · rw [hhandlers, hnextClient]
    exact h.handled
  · intro i hi
    rw [hrequest] at hi ⊢
    rw [hnextClient, (hclient _).1]
    exact h.owned i hi
  · exact hwatched
  · intro i value hi
    rw [hpending] at hi
    rw [hrequest]
    rcases s.pending.channel_settle pick i with ⟨hsame, -⟩ | ⟨k, o, hk, ho, hchannel⟩
    · exact (h.resolved i value (hsame.symm.trans hi)).imp_right (hresolved i value)
    · obtain ⟨hphase, hkey⟩ := SseRequest.filedKey_eq_some (h.filed.entry k i hk).1
      rw [← hchannel, hi, ← hkey] at ho
      refine ⟨fun hidle => ?_, hsent i value ho⟩
      rw [hidle] at hphase
      cases hphase
  · intro i result hi
    rw [hrequest] at hi
    rcases h.returns i result hi with ⟨value, hvalue, hresult⟩ | hlocal
    · exact .inl ⟨value, hresolved i value hvalue, hresult⟩
    · exact .inr hlocal
  · intro i hdone hi hopen
    rw [hrequest] at hdone hi
    rw [hpending] at hopen
    have hkey : s.keys i = some (s.request i).key :=
      SseRequest.filedKey_of_filed (by rw [hi]; rfl)
    obtain ⟨hthere, hnone⟩ := Oneshots.lookup_settle.mp (hfiled.filed _ i hkey hopen)
    have hwas := (h.filed.entry _ i hthere).2
    refine hcleared i hwas (fun hbefore => ?_) hdone hi hnone
    exact h.cleared i hbefore hi hwas

/-- The entry of a request goes into the table. -/
theorem enter (h : Sound s) (hi : (s.request i).phase = .entering) :
    Sound ({ s with pending := s.pending.insert (s.request i).key i }.setPhase i .entered) := by
  apply h.advance
  · rw [hi]
    nofun
  · nofun
  · have hnone : s.keys i = none := SseRequest.filedKey_of_unfiled (by rw [hi]; rfl)
    rw [SseRequest.filedKey_of_filed rfl]
    exact h.filed.insert hnone (s.request i).key
  · intro j value hj
    by_cases hji : j = i
    · rw [hji, Oneshots.channel_insert_self] at hj
      cases hj
    · rw [Oneshots.channel_insert_of_ne _ _ hji] at hj
      split_ifs at hj
      exact hj
  · intro j hji hj
    rw [Oneshots.channel_insert_of_ne _ _ hji] at hj
    split_ifs at hj
    exact hj
  · nofun
  · nofun

/-- A message brings its request the reply. -/
theorem resolvePending (h : Sound s) {clientId : ClientId} {id : RequestId}
    {result : Except AcpError Json} {msg : InboundMessage} (hmsg : (clientId, msg) ∈ s.posted)
    (hclass : classifyInbound msg = .ok (.response id result)) :
    Sound (s.resolvePending clientId id result) := by
  refine h.settle rfl rfl rfl rfl rfl rfl rfl (fun _ => ⟨rfl, fun hdone => hdone⟩) h.watched ?_ ?_
    fun _ _ hbefore hdone => absurd hdone hbefore
  · intro k o ho
    split_ifs at ho
    rw [← Option.some.inj ho]
    nofun
  · intro i value hi
    split_ifs at hi with hkey
    have hsame : ((s.resolvePending clientId id result).request i).key = (clientId, id) := hkey
    refine .inl ⟨msg, ?_, ?_⟩
    · rw [hsame]
      exact hmsg
    · rw [hsame, ← Oneshot.sent.inj (Option.some.inj hi)]
      exact hclass

/-- A request takes its entry out, and returns its error. -/
theorem withdraw (h : Sound s) {error : { e : RequestError // e ∈ localErrors }}
    (hi : (s.request i).phase = .withdrawing error) :
    Sound ({ s with pending := s.pending.remove (s.request i).key }.setPhase i
      (.returned (.error error))) := by
  have hremoved : Sound { s with pending := s.pending.remove (s.request i).key } := by
    refine h.settle rfl rfl rfl rfl rfl rfl rfl (fun _ => ⟨rfl, fun hdone => hdone⟩) h.watched ?_ ?_
      fun _ _ hbefore hdone => absurd hdone hbefore
    · intro k o ho
      split_ifs at ho
      rw [← Option.some.inj ho]
      nofun
    · intro j value hj
      split_ifs at hj
      cases Option.some.inj hj
  apply hremoved.setPhase_returned
  · exact congrArg SsePhase.filed hi
  · intro hopen
    have hkey : s.keys i = some (s.request i).key :=
      SseRequest.filedKey_of_filed (by rw [hi]; rfl)
    have hthere := hremoved.filed.filed _ i hkey hopen
    have hnone := (Oneshots.lookup_settle.mp hthere).2
    rw [if_pos rfl] at hnone
    cases hnone
  · exact .inr ⟨error.1, error.2, rfl⟩

/-- The watchdog cleans up behind its client. -/
theorem closePending (h : Sound s) (hn : (s.client n).watchdog = .unregistered) :
    Sound ((s.closePending (s.client n).clientId).setClient n
      { s.client n with watchdog := .done }) := by
  have hgone := h.watched n (by rw [hn]; nofun)
  refine h.settle rfl rfl rfl rfl rfl rfl rfl ?_ ?_ ?_ ?_ ?_
  · intro m
    by_cases hm : m = n
    · rw [hm, setClient_self]
      exact ⟨rfl, fun _ => rfl⟩
    · rw [setClient_of_ne _ hm]
      exact ⟨rfl, fun hdone => hdone⟩
  · intro m hm
    by_cases hmn : m = n
    · rw [hmn, setClient_self]
      exact hgone
    · rw [setClient_of_ne _ hmn] at hm ⊢
      exact h.watched m hm
  · intro k o ho
    split_ifs at ho
    rw [← Option.some.inj ho]
    nofun
  · intro i value hi
    split_ifs at hi with hkey
    refine .inr ⟨⟨n, ?_, ?_⟩, (Oneshot.sent.inj (Option.some.inj hi)).symm⟩
    · rw [setClient_self]
      exact hkey.symm
    · rw [setClient_self]
  · intro i hopen hbefore hdone hi hpick
    have hclient : (s.request i).client = n := by
      by_contra hne
      rw [setClient_of_ne _ hne] at hdone
      exact hbefore hdone
    have hkey := (h.owned i (by rw [hi]; nofun)).2
    rw [hclient] at hkey
    rw [if_pos hkey] at hpick
    cases hpick

/-- A new request, which has put no entry in. -/
theorem addRequest (h : Sound s) {c : SseRequest} (hclient : c.client < s.nextClient)
    (hkey : c.key.1 = (s.client c.client).clientId)
    (hphase : c.phase = .entering ∨ c.phase = .returned (.error requestOverflow)) :
    Sound (s.addRequest c) := by
  have hne : ∀ {j}, (s.request j).phase ≠ .idle → j ≠ s.nextRequest := by
    rintro j hj rfl
    exact hj (h.begun _ le_rfl)
  have hunfiled : c.phase.filed = false := by
    rcases hphase with hphase | hphase
    · rw [hphase]
      rfl
    · rw [hphase]
      rfl
  constructor
  · have hkeys : (s.addRequest c).keys = s.keys := by
      funext j
      by_cases hj : j = s.nextRequest
      · rw [hj, keys, keys, addRequest_self, SseRequest.filedKey_of_unfiled hunfiled,
          SseRequest.filedKey_of_unfiled]
        rw [h.begun _ le_rfl]
        rfl
      · rw [keys, keys, s.addRequest_of_ne c hj]
    rw [hkeys]
    exact h.filed
  · intro j hj
    rw [s.addRequest_of_ne c (Nat.ne_of_gt hj)]
    exact h.begun j (Nat.le_of_lt hj)
  · exact h.registered
  · exact h.handled
  · intro j hj
    by_cases hnew : j = s.nextRequest
    · rw [hnew, addRequest_self]
      exact ⟨hclient, hkey⟩
    · rw [s.addRequest_of_ne c hnew] at hj ⊢
      exact h.owned j hj
  · exact h.watched
  · intro j value hj
    obtain ⟨hidle, hresolved⟩ := h.resolved j value hj
    rw [ResolvedBy, s.addRequest_of_ne c (hne hidle)]
    exact ⟨hidle, hresolved⟩
  · intro j result hj
    by_cases hnew : j = s.nextRequest
    · rw [hnew, addRequest_self] at hj
      rcases hphase with hphase | hphase
      · cases hphase.symm.trans hj
      · refine .inr ⟨requestOverflow, by simp [localErrors], ?_⟩
        exact (SsePhase.returned.inj (hphase.symm.trans hj)).symm
    · rw [s.addRequest_of_ne c hnew] at hj
      simp only [ResolvedBy, s.addRequest_of_ne c hnew]
      exact h.returns j result hj
  · intro j hdone hj
    by_cases hnew : j = s.nextRequest
    · rw [hnew, addRequest_self] at hj
      rcases hphase with hphase | hphase
      · cases hphase.symm.trans hj
      · cases hphase.symm.trans hj
    · rw [s.addRequest_of_ne c hnew] at hdone hj
      exact h.cleared j hdone hj

theorem messageHandler (h : Sound s) {clientId : ClientId} {msg : InboundMessage}
    (hmsg : (clientId, msg) ∈ s.posted) : Sound (s.messageHandler clientId msg) := by
  have hhandle : Sound (match s.clients.lookup clientId with
      | some n => { s with handlers := s.handlers ++ [n] }
      | none => s) := by
    cases hlookup : s.clients.lookup clientId with
    | none => exact h
    | some n =>
      refine h.congr rfl rfl rfl (fun _ hp => hp) le_rfl h.registered ?_
        (fun _ _ => ⟨rfl, Iff.rfl⟩) h.watched
      intro m hm
      rcases List.mem_append.mp hm with hm | hm
      · exact h.handled m hm
      · rw [List.mem_singleton.mp hm]
        exact h.registered clientId n hlookup
  unfold SseTransport.messageHandler
  cases hclass : classifyInbound msg with
  | error _ => exact h
  | ok kind =>
    cases kind with
    | request id method params => exact hhandle
    | notification method params => exact hhandle
    | response id result => exact h.resolvePending hmsg hclass

theorem connect (h : Sound s) : Sound (s.step .connect) := by
  have hfresh : ∀ n, n ≠ s.nextClient → (s.step .connect).client n = s.client n :=
    fun n hn => Function.update_of_ne hn ..
  refine h.congr rfl rfl rfl (fun _ hp => hp) (Nat.le_succ _) ?_ ?_ ?_ ?_
  · intro clientId n hn
    by_cases hid : clientId = toString s.nextClientId
    · rw [hid, SseTransport.step, AList.lookup_insert] at hn
      rw [← Option.some.inj hn]
      exact Nat.lt_succ_self _
    · rw [SseTransport.step, AList.lookup_insert_ne hid] at hn
      exact Nat.lt_succ_of_lt (h.registered clientId n hn)
  · exact fun n hn => Nat.lt_succ_of_lt (h.handled n hn)
  · intro n hn
    rw [hfresh n hn.ne]
    exact ⟨rfl, Iff.rfl⟩
  · intro n hn
    by_cases hnew : n = s.nextClient
    · refine absurd ?_ hn
      have hconnected : (s.step .connect).client s.nextClient =
          ⟨toString s.nextClientId, 1, [], true, .watching⟩ := Function.update_self ..
      rw [hnew, hconnected]
    · rw [hfresh n hnew] at hn ⊢
      exact (h.watched n hn).imp_left Nat.lt_succ_of_lt

end Sound

theorem trySend_eq_some {c c' : SseAcpClient} {event : SseEvent} (h : trySend c event = some c') :
    c.connected = true ∧ c' = { c with channel := c.channel ++ [event] } := by
  rw [trySend] at h
  split_ifs at h with hroom
  exact ⟨hroom.1, (Option.some.inj h).symm⟩

namespace Sound

theorem step (h : Sound s) (a : SseAction) : Sound (s.step a) := by
  cases a with
  | connect => exact h.connect
  | post header msg =>
    cases header with
    | none => exact h
    | some clientId =>
      have hposted : Sound { s with posted := s.posted ++ [(clientId, msg)] } :=
        h.congr rfl rfl rfl (fun _ hp => List.mem_append_left _ hp) le_rfl h.registered h.handled
          (fun _ _ => ⟨rfl, Iff.rfl⟩) h.watched
      exact hposted.messageHandler (by simp)
  | begin n method params =>
    simp only [SseTransport.step]
    split_ifs with hn hid
    · have hcounted : Sound (s.setClient n { s.client n with nextId := (s.client n).nextId + 1 }) :=
        h.setClient rfl Iff.rfl (h.watched n)
      refine hcounted.addRequest (h.handled n hn) ?_ (.inl rfl)
      rw [setClient_self]
    · have hcounted : Sound (s.setClient n { s.client n with nextId := (s.client n).nextId + 1 }) :=
        h.setClient rfl Iff.rfl (h.watched n)
      refine hcounted.addRequest (h.handled n hn) ?_ (.inr rfl)
      rw [setClient_self]
    · exact h
  | enter i =>
    simp only [SseTransport.step]
    split
    · rename_i hi
      exact h.enter hi
    · exact h
  | send i =>
    simp only [SseTransport.step]
    split
    · rename_i hi
      have hidle : (s.request i).phase ≠ .idle := by rw [hi]; nofun
      split_ifs with hconnected
      · split
        · rename_i c hsend
          obtain ⟨-, rfl⟩ := trySend_eq_some hsend
          have hsent := h.setClient (n := (s.request i).client)
            (c := { s.client (s.request i).client with
              channel := (s.client (s.request i).client).channel ++ [(s.request i).sseEvent] })
            rfl Iff.rfl (h.watched _)
          refine hsent.setPhase hidle nofun ?_ nofun fun _ => ?_
          · exact (congrArg SsePhase.filed hi).symm
          · exact (congrArg SseAcpClient.connected (setClient_self ..)).trans hconnected
        · exact h
      · exact h.setPhase hidle nofun (by rw [hi]; rfl) nofun nofun
    · exact h
  | receive i =>
    simp only [SseTransport.step]
    split
    · rename_i result hi hsent
      apply h.setPhase_returned (by rw [hi]; rfl) (by rw [hsent]; nofun)
      exact .inl ⟨result, (h.resolved i result hsent).2, rfl⟩
    · rename_i hi hdropped
      apply h.setPhase_returned (by rw [hi]; rfl) (by rw [hdropped]; nofun)
      exact .inr ⟨requestCancelled, by simp [localErrors], rfl⟩
    · exact h
  | expire i =>
    simp only [SseTransport.step]
    split
    · rename_i hi _
      exact h.setPhase (by rw [hi]; nofun) nofun (by rw [hi]; rfl) nofun nofun
    · exact h
  | withdraw i =>
    simp only [SseTransport.step]
    split
    · rename_i hi
      exact h.withdraw hi
    · exact h
  | push n event =>
    simp only [SseTransport.step]
    split
    · rename_i c hsend
      obtain ⟨-, rfl⟩ := trySend_eq_some hsend
      exact h.setClient rfl Iff.rfl (h.watched n)
    · exact h
  | deliver n => exact h.setClient rfl Iff.rfl (h.watched n)
  | disconnect n =>
    exact h.setClient rfl Iff.rfl fun hwatchdog => ⟨(h.watched n hwatchdog).1, rfl⟩
  | watch n =>
    simp only [SseTransport.step]
    split
    · rename_i hn
      split_ifs with hgone
      · have hclosed : (s.client n).connected = false := Bool.eq_false_iff.mpr hgone.2
        have herased : Sound { s with clients := s.clients.erase (s.client n).clientId } := by
          refine h.congr rfl rfl rfl (fun _ hp => hp) le_rfl (fun clientId m hm => ?_) h.handled
            (fun _ _ => ⟨rfl, Iff.rfl⟩) h.watched
          by_cases hid : clientId = (s.client n).clientId
          · rw [hid, AList.lookup_erase] at hm
            cases hm
          · rw [AList.lookup_erase_ne hid] at hm
            exact h.registered clientId m hm
        refine herased.setClient rfl ?_ fun _ => ⟨hgone.1, hclosed⟩
        constructor
        · nofun
        · intro hdone
          cases hn.symm.trans hdone
      · exact h
    · rename_i hn
      exact h.closePending hn
    · exact h

end Sound

/-- However the requests, the posts, the timeouts and the disconnections interleave, a request gets
what was posted under its own client with its identifier, and the table keeps no entry of a client
whose requests have returned. -/
theorem clients_isolated_throughout (as : List SseAction) :
    Runs.Throughout step (fun s => s.Isolated ∧ s.ReturnsOwn ∧ s.NothingLeft ∧ s.Cleared)
      new as := by
  have hstep : ∀ (s : SseTransport) a, Sound s → Sound (s.step a) := fun _ a h => h.step a
  have hprop : ∀ s : SseTransport, Sound s →
      s.Isolated ∧ s.ReturnsOwn ∧ s.NothingLeft ∧ s.Cleared := by
    intro s h
    refine ⟨fun i value hi => (h.resolved i value hi).2, h.returns, ?_, h.cleared⟩
    intro clientId hover id
    rw [Option.eq_none_iff_forall_ne_some]
    intro i hi
    obtain ⟨hphase, hkey⟩ := SseRequest.filedKey_eq_some (h.filed.entry _ i hi).1
    have hover := hover i (congrArg Prod.fst hkey)
    cases hi' : (s.request i).phase with
    | idle | entering | returned _ =>
      rw [hi'] at hphase
      cases hphase
    | entered | waiting | withdrawing _ =>
      rw [hi'] at hover
      cases hover
  exact Runs.always hstep hprop Sound.new as

end SseTransport

end Guigu.Acp
