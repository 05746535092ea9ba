import Guigu.Remote.Server

/-! A client and a server at the two ends of a stream. -/
namespace Guigu.Remote

/-- The action takes something from the stream or puts something on it. -/
def ClientAction.onStream {σ ε : Type*} : ClientAction σ ε → Bool
  | .read _ | .write _ => true
  | .begin _ | .check _ | .enter _ | .send _ | .recheck _ | .receive _ | .expire _ | .withdraw _
  | .abort | .endRead | .endReader | .endWriter => false

def ServerMessage.snapshot? {σ ε : Type*} : ServerMessage σ ε → Option σ
  | .snapshot _ snap => some snap
  | .response _ _ | .event _ => none

def Call.request {σ : Type*} (c : Call σ) : RemoteRequest := c.ask.request c.id

/-- The stream carries the messages unchanged, as the codec does with messages that are intact and
fit. -/
structure RemoteSession (σ ε : Type*) where
  client : RemoteClient σ ε
  server : RemoteServer σ ε
  /-- What is on its way to the server. -/
  requests : List RemoteRequest
  /-- What is on its way to the client. -/
  messages : List (ServerMessage σ ε)
  /-- The requests that the calls have put into the queue of the client. -/
  asked : List RemoteRequest

inductive SessionAction (σ ε : Type*) where
  | client (a : ClientAction σ ε)
  | server (a : ServerAction σ ε)
  /-- What is written may arrive although the write fails. -/
  | clientWrite (ok arrives : Bool)
  | clientRead
  | serverWrite (ok arrives : Bool)
  | serverRead

namespace RemoteSession

variable {σ ε : Type*}

/-- Both ends have just been given the stream; the client shows a placeholder. -/
def connect (initial snapshot : σ) (events : Broadcast.Channel ε) : RemoteSession σ ε where
  client := .connect initial
  server := .serve snapshot events
  requests := []
  messages := []
  asked := []

def step (s : RemoteSession σ ε) : SessionAction σ ε → RemoteSession σ ε
  | .client a =>
    if a.onStream then s
    else
      let client := s.client.step a
      let queued := client.queue.drop s.client.queue.length
      { s with client := client, asked := s.asked ++ queued }
  | .server a => if a.onStream then s else { s with server := s.server.step a }
  | .clientWrite ok arrives =>
    match s.client.writer, s.client.queue with
    | .running, request :: _ =>
      { s with
        client := s.client.step (.write ok)
        requests := if ok || arrives then s.requests ++ [request] else s.requests }
    | _, _ => s
  | .clientRead =>
    match s.client.reader, s.messages with
    | .running, msg :: messages =>
      { s with client := s.client.step (.read msg), messages := messages }
    | _, _ => s
  | .serverWrite ok arrives =>
    match s.server.writer, s.server.queue with
    | .writing, msg :: _ =>
      { s with
        server := s.server.step (.write ok)
        messages := if ok || arrives then s.messages ++ [msg] else s.messages }
    | _, _ => s
  | .serverRead =>
    match s.server.serving, s.requests with
    | .reading, request :: requests =>
      { s with server := s.server.step (.read request), requests := requests }
    | _, _ => s

/-- The server gives the agent the requests of the calls, each once and in their order; the client
reads the replies in the same order, and a call that has returned returned what the agent made of
its own request, or an error of the client. -/
structure CallsServed (s : RemoteSession σ ε) : Prop where
  once : (s.asked.map RemoteRequest.id).Nodup
  handled : s.server.handled.map Prod.fst <+: s.asked
  replied : s.client.read.filterMap ServerMessage.reply? <+:
    s.server.handled.map fun h => (h.1.map, h.1.id, h.2)
  returned : ∀ i result, (s.client.call i).phase = .returned result →
    (∃ reply, ((s.client.call i).request, reply) ∈ s.server.handled ∧ result = reply.result) ∨
      ∃ e : RemoteError, e.isLocal = true ∧ result = .error e

/-- The client shows a placeholder until the baseline has come, and then the last snapshot that has
come. The events it hands out are events since the subscription, which began before the baseline was
taken, in their order, and without a gap unless the forwarder has been too slow for some. -/
structure Mirrors (initial : σ) (s : RemoteSession σ ε) : Prop where
  opening : ∀ msg rest, s.client.read = msg :: rest →
    ∃ b, s.server.baseline = some b ∧ msg = .snapshot 0 b.1
  baselineOnce : ∀ msg ∈ s.client.read.tail, ∀ snap, msg ≠ .snapshot 0 snap
  shown : s.client.snapshot = (s.client.read.filterMap ServerMessage.snapshot?).getLastD initial
  subscribed : ∀ b, s.server.baseline = some b → s.server.since ≤ b.2
  events : s.client.events.Sublist (s.server.events.sent.drop s.server.since)
  unlagged : s.server.missed = 0 → s.client.events <+: s.server.events.sent.drop s.server.since

end RemoteSession

/-- The call has drawn its identifier, and has not returned. -/
def CallPhase.numbered {σ : Type*} : CallPhase σ → Bool
  | .checking | .entering | .entered | .sent | .waiting | .withdrawing _ => true
  | .idle | .returned _ => false

/-- The request of the call is not in the queue yet. -/
def CallPhase.unasked {σ : Type*} : CallPhase σ → Bool
  | .checking | .entering | .entered => true
  | .idle | .sent | .waiting | .withdrawing _ | .returned _ => false

namespace RemoteClient

/-- While the identifiers last, no two calls have the same one, and what was asked was asked once,
by its call or as an abort. -/
structure Numbered {σ ε : Type*} (c : RemoteClient σ ε) (asked : List RemoteRequest) : Prop where
  pos : 0 < c.nextId.toNat
  fresh : ∀ i, c.nextCall ≤ i → (c.call i).id = 0 ∧ (c.call i).phase = .idle
  bounded : ∀ i, (c.call i).id.toNat < c.nextId.toNat
  distinct : ∀ i j, (c.call i).id ≠ 0 → (c.call i).id = (c.call j).id → i = j
  numbered : ∀ i, (c.call i).phase.numbered = true → (c.call i).id ≠ 0
  asked_bounded : ∀ r ∈ asked, r.id ≠ 0 ∧ r.id.toNat < c.nextId.toNat
  asked_own : ∀ r ∈ asked, ∀ i, (c.call i).id = r.id → r = (c.call i).request
  once : (asked.map RemoteRequest.id).Nodup
  unasked : ∀ i, (c.call i).phase.unasked = true → (c.call i).id ∉ asked.map RemoteRequest.id

theorem cleanUp_frame {σ ε : Type*} {c c' : RemoteClient σ ε} {ending ending' : Ending}
    (hstep : c.cleanUp ending = some (ending', c')) :
    c'.nextId = c.nextId ∧ c'.nextCall = c.nextCall ∧ c'.call = c.call ∧ c'.queue = c.queue := by
  cases ending with
  | running | done => cases hstep
  | broken | marked | halfDrained =>
    obtain ⟨-, rfl⟩ := Prod.mk.inj (Option.some.inj hstep)
    exact ⟨rfl, rfl, rfl, rfl⟩

namespace Numbered

variable {σ ε : Type*} {c : RemoteClient σ ε} {asked : List RemoteRequest}

theorem connect (initial : σ) : Numbered (connect initial : RemoteClient σ ε) [] where
  pos := show 0 < (1 : UInt64).toNat by decide
  fresh _ _ := ⟨rfl, rfl⟩
  bounded _ := show (0 : UInt64).toNat < (1 : UInt64).toNat by decide
  distinct _ _ h := absurd rfl h
  numbered _ h := by cases h
  asked_bounded _ h := by cases h
  asked_own _ h := by cases h
  once := List.nodup_nil
  unasked _ h := by cases h

theorem congr (h : Numbered c asked) {c' : RemoteClient σ ε} (hid : c'.nextId = c.nextId)
    (hnext : c'.nextCall = c.nextCall) (hcall : c'.call = c.call) : Numbered c' asked := by
  obtain ⟨hpos, hfresh, hbounded, hdistinct, hnumbered, hasked, hown, honce, hunasked⟩ := h
  constructor
  · rwa [hid]
  · rwa [hnext, hcall]
  · rwa [hid, hcall]
  · rwa [hcall]
  · rwa [hcall]
  · rwa [hid]
  · rwa [hcall]
  · exact honce
  · rwa [hcall]

/-- A call goes on; its request is asked, if it has not been. -/
theorem setPhase (h : Numbered c asked) {i : ℕ} {phase : CallPhase σ}
    (hi : (c.call i).phase.numbered = true)
    (hunasked : phase.unasked = true → (c.call i).phase.unasked = true) :
    Numbered (c.setPhase i phase) asked := by
  have hrequest : ∀ j, ((c.setPhase i phase).call j).request = (c.call j).request := by
    intro j
    rw [Call.request, setPhase_ask, setPhase_id]
    rfl
  constructor
  · exact h.pos
  · intro j hj
    have hji : j ≠ i := by
      rintro rfl
      rw [(h.fresh j hj).2] at hi
      cases hi
    rw [setPhase_id, c.setPhase_phase_of_ne hji]
    exact h.fresh j hj
  · intro j
    rw [setPhase_id]
    exact h.bounded j
  · intro j k
    rw [setPhase_id, setPhase_id]
    exact h.distinct j k
  · intro j hj
    rw [setPhase_id]
    by_cases hji : j = i
    · rw [hji]
      exact h.numbered i hi
    · rw [c.setPhase_phase_of_ne hji] at hj
      exact h.numbered j hj
  · exact h.asked_bounded
  · intro r hr j hj
    rw [setPhase_id] at hj
    rw [hrequest]
    exact h.asked_own r hr j hj
  · exact h.once
  · intro j hj
    rw [setPhase_id]
    by_cases hji : j = i
    · rw [hji, setPhase_phase] at hj
      rw [hji]
      exact h.unasked i (hunasked hj)
    · rw [c.setPhase_phase_of_ne hji] at hj
      exact h.unasked j hj

theorem toNat_succ (hroom : c.nextId.toNat + 1 < UInt64.size) :
    (c.nextId + 1).toNat = c.nextId.toNat + 1 := by
  rw [UInt64.toNat_add]
  exact Nat.mod_eq_of_lt hroom

/-- A new call draws the next identifier. -/
theorem addCall (h : Numbered c asked) (ask : Ask) {phase : CallPhase σ}
    (hroom : c.nextId.toNat + 1 < UInt64.size) :
    Numbered (c.addCall (c.nextId + 1) ⟨ask, c.nextId, phase⟩) asked := by
  have hnew := c.addCall_call (c.nextId + 1) ⟨ask, c.nextId, phase⟩
  have hold : ∀ j, j ≠ c.nextCall →
      (c.addCall (c.nextId + 1) ⟨ask, c.nextId, phase⟩).call j = c.call j :=
    fun j hj => c.addCall_call_of_ne _ _ hj
  have hid : (c.addCall (c.nextId + 1) ⟨ask, c.nextId, phase⟩).nextId.toNat =
      c.nextId.toNat + 1 := toNat_succ hroom
  have hne : c.nextId ≠ 0 := by
    intro hzero
    have hpos := h.pos
    rw [hzero] at hpos
    exact absurd hpos (by decide)
  have hbelow : ∀ j, (c.call j).id ≠ c.nextId := by
    intro j hj
    exact absurd (h.bounded j) (by rw [hj]; exact lt_irrefl _)
  constructor
  · rw [hid]
    exact Nat.succ_pos _
  · intro j hj
    have hlt : c.nextCall < j := hj
    rw [hold j hlt.ne']
    exact h.fresh j hlt.le
  · intro j
    rw [hid]
    by_cases hj : j = c.nextCall
    · rw [hj, hnew]
      exact Nat.lt_succ_self _
    · rw [hold j hj]
      exact (h.bounded j).trans (Nat.lt_succ_self _)
  · intro j k hj hjk
    by_cases hjn : j = c.nextCall
    · by_cases hkn : k = c.nextCall
      · rw [hjn, hkn]
      · rw [hjn, hnew, hold k hkn] at hjk
        exact absurd hjk.symm (hbelow k)
    · rw [hold j hjn] at hj hjk
      by_cases hkn : k = c.nextCall
      · rw [hkn, hnew] at hjk
        exact absurd hjk (hbelow j)
      · rw [hold k hkn] at hjk
        exact h.distinct j k hj hjk
  · intro j hj
    by_cases hjn : j = c.nextCall
    · rw [hjn, hnew]
      exact hne
    · rw [hold j hjn] at hj ⊢
      exact h.numbered j hj
  · intro r hr
    rw [hid]
    exact (h.asked_bounded r hr).imp_right (·.trans (Nat.lt_succ_self _))
  · intro r hr j hj
    by_cases hjn : j = c.nextCall
    · rw [hjn, hnew] at hj
      have hlt := (h.asked_bounded r hr).2
      rw [← hj] at hlt
      exact absurd hlt (lt_irrefl _)
    · rw [hold j hjn] at hj ⊢
      exact h.asked_own r hr j hj
  · exact h.once
  · intro j hj
    by_cases hjn : j = c.nextCall
    · rw [hjn, hnew]
      rintro hmem
      obtain ⟨r, hr, hrid⟩ := List.mem_map.mp hmem
      have hlt := (h.asked_bounded r hr).2
      rw [hrid] at hlt
      exact absurd hlt (lt_irrefl _)
    · rw [hold j hjn] at hj ⊢
      exact h.unasked j hj

/-- A call that returns at once has no identifier. -/
theorem addCall_returned (h : Numbered c asked) (ask : Ask)
    (result : Except RemoteError (Answer σ)) :
    Numbered (c.addCall c.nextId ⟨ask, 0, .returned result⟩) asked := by
  have hnew := c.addCall_call c.nextId ⟨ask, 0, .returned result⟩
  have hold : ∀ j, j ≠ c.nextCall →
      (c.addCall c.nextId ⟨ask, 0, .returned result⟩).call j = c.call j :=
    fun j hj => c.addCall_call_of_ne _ _ hj
  constructor
  · exact h.pos
  · intro j hj
    have hlt : c.nextCall < j := hj
    rw [hold j hlt.ne']
    exact h.fresh j hlt.le
  · intro j
    by_cases hj : j = c.nextCall
    · rw [hj, hnew]
      exact h.pos
    · rw [hold j hj]
      exact h.bounded j
  · intro j k hj hjk
    by_cases hjn : j = c.nextCall
    · rw [hjn, hnew] at hj
      exact absurd rfl hj
    · rw [hold j hjn] at hj hjk
      by_cases hkn : k = c.nextCall
      · rw [hkn, hnew] at hjk
        exact absurd hjk hj
      · rw [hold k hkn] at hjk
        exact h.distinct j k hj hjk
  · intro j hj
    by_cases hjn : j = c.nextCall
    · rw [hjn, hnew] at hj
      cases hj
    · rw [hold j hjn] at hj ⊢
      exact h.numbered j hj
  · exact h.asked_bounded
  · intro r hr j hj
    by_cases hjn : j = c.nextCall
    · rw [hjn, hnew] at hj
      exact absurd hj.symm (h.asked_bounded r hr).1
    · rw [hold j hjn] at hj ⊢
      exact h.asked_own r hr j hj
  · exact h.once
  · intro j hj
    by_cases hjn : j = c.nextCall
    · rw [hjn, hnew] at hj
      cases hj
    · rw [hold j hjn] at hj ⊢
      exact h.unasked j hj

/-- The request of a call goes into the queue. -/
theorem send (h : Numbered c asked) {i : ℕ} (hi : (c.call i).phase = .entered) :
    Numbered (c.setPhase i .sent) (asked ++ [(c.call i).request]) := by
  have hnumbered : (c.call i).phase.numbered = true := by rw [hi]; rfl
  have hunasked : (c.call i).id ∉ asked.map RemoteRequest.id :=
    h.unasked i (by rw [hi]; rfl)
  have hid : (c.call i).request.id = (c.call i).id := by
    rw [Call.request]
    cases (c.call i).ask <;> rfl
  have hsent : (CallPhase.sent : CallPhase σ).unasked = true →
      (c.call i).phase.unasked = true := nofun
  have hset := h.setPhase hnumbered hsent
  refine ⟨hset.pos, hset.fresh, hset.bounded, hset.distinct, hset.numbered, ?_, ?_, ?_, ?_⟩
  · intro r hr
    obtain hr | hr := List.mem_append.mp hr
    · exact h.asked_bounded r hr
    · rw [List.mem_singleton.mp hr, hid]
      exact ⟨h.numbered i hnumbered, h.bounded i⟩
  · intro r hr j hj
    obtain hr | hr := List.mem_append.mp hr
    · exact hset.asked_own r hr j hj
    · rw [List.mem_singleton.mp hr, hid, setPhase_id] at hj
      have hji := h.distinct i j (h.numbered i hnumbered) hj.symm
      rw [List.mem_singleton.mp hr, ← hji, Call.request, Call.request, setPhase_ask, setPhase_id]
  · rw [List.map_append, List.nodup_append]
    refine ⟨h.once, by simp, ?_⟩
    rintro a ha b hb rfl
    rw [List.map_singleton, List.mem_singleton, hid] at hb
    exact hunasked (hb ▸ ha)
  · intro j hj
    have hji : j ≠ i := by
      rintro rfl
      rw [setPhase_phase] at hj
      cases hj
    rw [setPhase_id]
    rw [c.setPhase_phase_of_ne hji] at hj
    rw [List.map_append, List.mem_append, not_or]
    refine ⟨h.unasked j hj, ?_⟩
    rw [List.map_singleton, List.mem_singleton, hid]
    intro heq
    apply hji
    refine h.distinct j i (h.numbered j ?_) heq
    cases hphase : (c.call j).phase with
    | checking | entering | entered => rfl
    | idle | sent | waiting | withdrawing _ | returned _ =>
      rw [hphase] at hj
      cases hj

/-- An abort draws an identifier and does not wait. -/
theorem draw (h : Numbered c asked) {c' : RemoteClient σ ε} (hid : c'.nextId = c.nextId + 1)
    (hnext : c'.nextCall = c.nextCall) (hcall : c'.call = c.call)
    (hroom : c.nextId.toNat + 1 < UInt64.size) : Numbered c' asked := by
  have hgrown : c'.nextId.toNat = c.nextId.toNat + 1 := by rw [hid, toNat_succ hroom]
  obtain ⟨hpos, hfresh, hbounded, hdistinct, hnumbered, hasked, hown, honce, hunasked⟩ := h
  constructor
  · omega
  · rwa [hnext, hcall]
  · intro i
    rw [hgrown, hcall]
    exact (hbounded i).trans (Nat.lt_succ_self _)
  · rwa [hcall]
  · rwa [hcall]
  · intro r hr
    rw [hgrown]
    exact (hasked r hr).imp_right (·.trans (Nat.lt_succ_self _))
  · rwa [hcall]
  · exact honce
  · rwa [hcall]

theorem abort (h : Numbered c asked) {c' : RemoteClient σ ε} (hid : c'.nextId = c.nextId + 1)
    (hnext : c'.nextCall = c.nextCall) (hcall : c'.call = c.call)
    (hroom : c.nextId.toNat + 1 < UInt64.size) :
    Numbered c' (asked ++ [.abort c.nextId]) := by
  have hdrawn := h.draw hid hnext hcall hroom
  have hgrown : c'.nextId.toNat = c.nextId.toNat + 1 := by rw [hid, toNat_succ hroom]
  have hnot : c.nextId ∉ asked.map RemoteRequest.id := by
    intro hmem
    obtain ⟨r, hr, hrid⟩ := List.mem_map.mp hmem
    have hlt := (h.asked_bounded r hr).2
    rw [hrid] at hlt
    exact absurd hlt (lt_irrefl _)
  have hbelow : ∀ j, (c'.call j).id ≠ c.nextId := by
    intro j hj
    have hlt := h.bounded j
    rw [← hcall, hj] at hlt
    exact absurd hlt (lt_irrefl _)
  refine ⟨hdrawn.pos, hdrawn.fresh, hdrawn.bounded, hdrawn.distinct, hdrawn.numbered, ?_, ?_, ?_,
    ?_⟩
  · intro r hr
    obtain hr | hr := List.mem_append.mp hr
    · exact hdrawn.asked_bounded r hr
    · rw [List.mem_singleton.mp hr, hgrown]
      refine ⟨?_, Nat.lt_succ_self _⟩
      intro hzero
      have hpos := h.pos
      rw [show c.nextId = 0 from hzero] at hpos
      exact absurd hpos (by decide)
  · intro r hr j hj
    obtain hr | hr := List.mem_append.mp hr
    · exact hdrawn.asked_own r hr j hj
    · rw [List.mem_singleton.mp hr] at hj
      exact absurd hj (hbelow j)
  · rw [List.map_append, List.nodup_append]
    refine ⟨h.once, by simp, ?_⟩
    rintro a ha b hb rfl
    have hsame : a = c.nextId := List.mem_singleton.mp hb
    exact hnot (hsame ▸ ha)
  · intro j hj
    rw [List.map_append, List.mem_append, not_or]
    refine ⟨hdrawn.unasked j hj, ?_⟩
    rw [List.map_singleton, List.mem_singleton]
    exact hbelow j

/-- The requests that an own action of the client puts into its queue are asked. -/
theorem step (h : Numbered c asked) {a : ClientAction σ ε} (ha : a.onStream = false)
    (hroom : c.nextId.toNat + 1 < UInt64.size) :
    ∃ queued, (c.step a).queue = c.queue ++ queued ∧ Numbered (c.step a) (asked ++ queued) := by
  have hquiet : ∀ {c' : RemoteClient σ ε}, c'.queue = c.queue → Numbered c' asked →
      ∃ queued, c'.queue = c.queue ++ queued ∧ Numbered c' (asked ++ queued) := by
    intro c' hqueue hnumbered
    exact ⟨[], by rw [hqueue, List.append_nil], by rwa [List.append_nil]⟩
  cases a with
  | read msg | write ok => cases ha
  | begin ask =>
    simp only [RemoteClient.step]
    split
    · exact hquiet rfl (h.addCall ask hroom)
    · split_ifs
      · exact hquiet rfl (h.addCall_returned ask _)
      · exact hquiet rfl (h.addCall ask hroom)
  | check i =>
    simp only [RemoteClient.step]
    split
    · rename_i hi
      have hnumbered : (c.call i).phase.numbered = true := by rw [hi]; rfl
      refine hquiet rfl (h.setPhase hnumbered fun _ => ?_)
      rw [hi]
      rfl
    · exact hquiet rfl h
  | enter i =>
    simp only [RemoteClient.step]
    split
    · rename_i hi
      have htabled : Numbered (c.setTable (c.call i).ask.map
          ((c.tables (c.call i).ask.map).insert (c.call i).id i)) asked := h.congr rfl rfl rfl
      have hnumbered : (c.call i).phase.numbered = true := by rw [hi]; rfl
      refine hquiet rfl (htabled.setPhase hnumbered fun _ => ?_)
      exact congrArg CallPhase.unasked hi
    · exact hquiet rfl h
  | send i =>
    simp only [RemoteClient.step]
    split
    · rename_i hi
      split_ifs
      · have hnumbered : (c.call i).phase.numbered = true := by rw [hi]; rfl
        exact hquiet rfl (h.setPhase hnumbered fun hun => absurd hun Bool.false_ne_true)
      · exact ⟨[(c.call i).request], rfl, (h.send hi).congr rfl rfl rfl⟩
    · exact hquiet rfl h
  | recheck i =>
    simp only [RemoteClient.step]
    split
    · rename_i hi
      have hnumbered : (c.call i).phase.numbered = true := by rw [hi]; rfl
      refine hquiet rfl (h.setPhase hnumbered ?_)
      split_ifs
      · exact fun hun => absurd hun Bool.false_ne_true
      · exact fun hun => absurd hun Bool.false_ne_true
    · exact hquiet rfl h
  | receive i =>
    simp only [RemoteClient.step]
    split
    · rename_i hi _
      have hnumbered : (c.call i).phase.numbered = true := by rw [hi]; rfl
      exact hquiet rfl (h.setPhase hnumbered fun hun => absurd hun Bool.false_ne_true)
    · rename_i hi _
      have hnumbered : (c.call i).phase.numbered = true := by rw [hi]; rfl
      exact hquiet rfl (h.setPhase hnumbered fun hun => absurd hun Bool.false_ne_true)
    · exact hquiet rfl h
  | expire i =>
    simp only [RemoteClient.step]
    split
    · rename_i hi _
      have hnumbered : (c.call i).phase.numbered = true := by rw [hi]; rfl
      exact hquiet rfl (h.setPhase hnumbered fun hun => absurd hun Bool.false_ne_true)
    · exact hquiet rfl h
  | withdraw i =>
    simp only [RemoteClient.step]
    split
    · rename_i hi
      have htabled : Numbered (c.setTable (c.call i).ask.map
          ((c.tables (c.call i).ask.map).remove (c.call i).id)) asked := h.congr rfl rfl rfl
      have hnumbered : (c.call i).phase.numbered = true := by rw [hi]; rfl
      exact hquiet rfl (htabled.setPhase hnumbered fun hun => absurd hun Bool.false_ne_true)
    · exact hquiet rfl h
  | abort =>
    simp only [RemoteClient.step]
    split_ifs
    · exact hquiet rfl h
    · exact hquiet rfl (h.draw rfl rfl rfl hroom)
    · exact ⟨[.abort c.nextId], rfl, h.abort rfl rfl rfl hroom⟩
  | endRead =>
    simp only [RemoteClient.step]
    split_ifs
    · exact hquiet rfl (h.congr rfl rfl rfl)
    · exact hquiet rfl h
  | endReader =>
    simp only [RemoteClient.step]
    split
    · rename_i hstep
      obtain ⟨hid, hnext, hcall, hqueue⟩ := cleanUp_frame hstep
      exact hquiet hqueue (h.congr hid hnext hcall)
    · exact hquiet rfl h
  | endWriter =>
    simp only [RemoteClient.step]
    split
    · rename_i hstep
      obtain ⟨hid, hnext, hcall, hqueue⟩ := cleanUp_frame hstep
      exact hquiet hqueue (h.congr hid hnext hcall)
    · exact hquiet rfl h

end Numbered

/-- What the client has read, and what it shows of it, does not change. -/
structure SameView {σ ε : Type*} (c c' : RemoteClient σ ε) : Prop where
  read : c'.read = c.read
  events : c'.events = c.events
  snapshot : c'.snapshot = c.snapshot
  writer : c.writer ≠ .running → c'.writer ≠ .running
  nextId : c'.nextId = c.nextId ∨ c'.nextId = c.nextId + 1

variable {σ ε : Type*} {c : RemoteClient σ ε}

theorem SameView.refl (c : RemoteClient σ ε) : SameView c c := ⟨rfl, rfl, rfl, id, .inl rfl⟩

theorem cleanUp_view {c' : RemoteClient σ ε} {ending ending' : Ending}
    (hstep : c.cleanUp ending = some (ending', c')) :
    ending' ≠ .running ∧ c'.read = c.read ∧ c'.events = c.events ∧ c'.snapshot = c.snapshot := by
  cases ending with
  | running | done => cases hstep
  | broken | marked | halfDrained =>
    obtain ⟨rfl, rfl⟩ := Prod.mk.inj (Option.some.inj hstep)
    exact ⟨nofun, rfl, rfl, rfl⟩

theorem sameView_step {a : ClientAction σ ε} (ha : a.onStream = false) : SameView c (c.step a) := by
  cases a with
  | read msg | write ok => cases ha
  | begin ask =>
    simp only [RemoteClient.step]
    split
    · exact ⟨rfl, rfl, rfl, id, .inr rfl⟩
    · split_ifs
      · exact ⟨rfl, rfl, rfl, id, .inl rfl⟩
      · exact ⟨rfl, rfl, rfl, id, .inr rfl⟩
  | check i | enter i | recheck i | withdraw i =>
    simp only [RemoteClient.step]
    split
    · exact ⟨rfl, rfl, rfl, id, .inl rfl⟩
    · exact .refl c
  | send i =>
    simp only [RemoteClient.step]
    split
    · split_ifs
      · exact ⟨rfl, rfl, rfl, id, .inl rfl⟩
      · exact ⟨rfl, rfl, rfl, id, .inl rfl⟩
    · exact .refl c
  | receive i =>
    simp only [RemoteClient.step]
    split
    · exact ⟨rfl, rfl, rfl, id, .inl rfl⟩
    · exact ⟨rfl, rfl, rfl, id, .inl rfl⟩
    · exact .refl c
  | expire i =>
    simp only [RemoteClient.step]
    split
    · exact ⟨rfl, rfl, rfl, id, .inl rfl⟩
    · exact .refl c
  | abort =>
    simp only [RemoteClient.step]
    split_ifs
    · exact .refl c
    · exact ⟨rfl, rfl, rfl, id, .inr rfl⟩
    · exact ⟨rfl, rfl, rfl, id, .inr rfl⟩
  | endRead =>
    simp only [RemoteClient.step]
    split_ifs
    · exact ⟨rfl, rfl, rfl, id, .inl rfl⟩
    · exact .refl c
  | endReader =>
    simp only [RemoteClient.step]
    split
    · rename_i hstep
      obtain ⟨-, hread, hevents, hsnapshot⟩ := cleanUp_view hstep
      obtain ⟨hid, -⟩ := cleanUp_frame hstep
      refine ⟨hread, hevents, hsnapshot, fun hwriter => ?_, .inl hid⟩
      rwa [(Sound.cleanUp_tasks hstep).2]
    · exact .refl c
  | endWriter =>
    simp only [RemoteClient.step]
    split
    · rename_i hstep
      obtain ⟨hending, hread, hevents, hsnapshot⟩ := cleanUp_view hstep
      obtain ⟨hid, -⟩ := cleanUp_frame hstep
      exact ⟨hread, hevents, hsnapshot, fun _ => hending, .inl hid⟩
    · exact .refl c

/-- What the client shows is what the messages have brought. -/
structure Shows {σ ε : Type*} (initial : σ) (c : RemoteClient σ ε) : Prop where
  events : c.events = c.read.filterMap ServerMessage.event?
  snapshot : c.snapshot = (c.read.filterMap ServerMessage.snapshot?).getLastD initial

theorem step_read (hreader : c.reader = .running) (msg : ServerMessage σ ε) :
    (c.step (.read msg)).read = c.read ++ [msg] ∧
      (c.step (.read msg)).events = c.events ++ msg.event?.toList ∧
      (c.step (.read msg)).snapshot = msg.snapshot?.getD c.snapshot ∧
      (c.step (.read msg)).queue = c.queue ∧ (c.step (.read msg)).writer = c.writer ∧
      (c.step (.read msg)).nextId = c.nextId ∧ (c.step (.read msg)).nextCall = c.nextCall ∧
      (c.step (.read msg)).call = c.call := by
  simp only [RemoteClient.step, hreader, if_true]
  cases msg with
  | event e => exact ⟨rfl, rfl, rfl, rfl, rfl, rfl, rfl, rfl⟩
  | response id result =>
    exact ⟨rfl, (List.append_nil _).symm, rfl, rfl, rfl, rfl, rfl, rfl⟩
  | snapshot id snap =>
    split
    · exact ⟨rfl, (List.append_nil _).symm, rfl, rfl, rfl, rfl, rfl, rfl⟩
    · exact ⟨rfl, (List.append_nil _).symm, rfl, rfl, rfl, rfl, rfl, rfl⟩

end RemoteClient

namespace RemoteSession

variable {σ ε : Type*} {s : RemoteSession σ ε} {initial : σ}

/-- Both ends are in order, and the stream keeps the order between them. -/
structure Sound {σ ε : Type*} (initial : σ) (s : RemoteSession σ ε) : Prop where
  client : RemoteClient.Sound s.client
  numbered : s.client.Numbered s.asked
  shows : s.client.Shows initial
  server : s.server.Orderly
  requests :
    Pipe.Conveys s.asked s.server.taken s.requests s.client.queue (s.client.writer ≠ .running)
  messages :
    Pipe.Conveys s.server.told s.client.read s.messages s.server.queue (s.server.writer ≠ .writing)

namespace Sound

theorem connect (initial snapshot : σ) (events : Broadcast.Channel ε) :
    Sound initial (connect initial snapshot events) where
  client := .connect initial
  numbered := .connect initial
  shows := ⟨rfl, rfl⟩
  server := .serve snapshot events
  requests := .empty
  messages := .empty

theorem client_step (h : Sound initial s) {a : ClientAction σ ε} (ha : a.onStream = false)
    (hroom : s.client.nextId.toNat + 1 < UInt64.size) :
    Sound initial { s with
      client := s.client.step a
      asked := s.asked ++ (s.client.step a).queue.drop s.client.queue.length } := by
  obtain ⟨queued, hqueue, hnumbered⟩ := h.numbered.step ha hroom
  obtain ⟨hread, hevents, hsnapshot, hwriter, -⟩ := RemoteClient.sameView_step (c := s.client) ha
  have hdrop : (s.client.step a).queue.drop s.client.queue.length = queued := by
    rw [hqueue, List.drop_left]
  rw [hdrop]
  refine ⟨h.client.step a, hnumbered, ⟨?_, ?_⟩, h.server, ?_, ?_⟩
  · rw [hevents, hread]
    exact h.shows.events
  · rw [hsnapshot, hread]
    exact h.shows.snapshot
  · rw [hqueue]
    exact (h.requests.append queued).mono hwriter
  · rw [hread]
    exact h.messages

theorem server_step (h : Sound initial s) {a : ServerAction σ ε} (ha : a.onStream = false) :
    Sound initial { s with server := s.server.step a } where
  client := h.client
  numbered := h.numbered
  shows := h.shows
  server := h.server.step a
  requests := by
    rw [RemoteServer.taken_step ha]
    exact h.requests
  messages := RemoteServer.conveys_step ha h.messages

theorem clientWrite (h : Sound initial s) (ok arrives : Bool) :
    Sound initial (s.step (.clientWrite ok arrives)) := by
  simp only [RemoteSession.step]
  split
  · rename_i request queue hwriter hqueue
    have hsound := h.client.step (.write ok)
    have hrequests := h.requests
    rw [hqueue] at hrequests
    have hwrites : ¬s.client.writer ≠ .running := fun hne => hne hwriter
    cases ok with
    | true =>
      have hstep : s.client.step (.write true) = { s.client with queue := queue } := by
        simp only [RemoteClient.step, hwriter, hqueue, if_true]
      rw [hstep] at hsound ⊢
      rw [Bool.true_or, if_pos rfl]
      exact ⟨hsound, h.numbered.congr rfl rfl rfl, ⟨h.shows.events, h.shows.snapshot⟩, h.server,
        hrequests.write hwrites, h.messages⟩
    | false =>
      have hstep : s.client.step (.write false) =
          { s.client with queue := queue, writer := .broken } := by
        simp only [RemoteClient.step, hwriter, hqueue, Bool.false_eq_true, if_false]
      rw [hstep] at hsound ⊢
      rw [Bool.false_or]
      refine ⟨hsound, h.numbered.congr rfl rfl rfl, ⟨h.shows.events, h.shows.snapshot⟩, h.server,
        ?_, h.messages⟩
      cases arrives with
      | true => exact (hrequests.write hwrites).mono fun hne => absurd hwriter hne
      | false => exact hrequests.lose fun heq => by cases heq
  · exact h

theorem serverWrite (h : Sound initial s) (ok arrives : Bool) :
    Sound initial (s.step (.serverWrite ok arrives)) := by
  simp only [RemoteSession.step]
  split
  · rename_i msg queue hwriter hqueue
    have horderly := h.server.step (.write ok)
    have hmessages := h.messages
    rw [hqueue] at hmessages
    have hwrites : ¬s.server.writer ≠ .writing := fun hne => hne hwriter
    cases ok with
    | true =>
      have hstep : s.server.step (.write true) = { s.server with queue := queue } := by
        simp only [RemoteServer.step, hwriter, hqueue, if_true]
      rw [hstep] at horderly ⊢
      rw [Bool.true_or, if_pos rfl]
      exact ⟨h.client, h.numbered, h.shows, horderly, h.requests, hmessages.write hwrites⟩
    | false =>
      have hstep : s.server.step (.write false) =
          { s.server with queue := queue, writer := .failed } := by
        simp only [RemoteServer.step, hwriter, hqueue, Bool.false_eq_true, if_false]
      rw [hstep] at horderly ⊢
      rw [Bool.false_or]
      refine ⟨h.client, h.numbered, h.shows, horderly, h.requests, ?_⟩
      cases arrives with
      | true => exact (hmessages.write hwrites).mono fun hne => absurd hwriter hne
      | false => exact hmessages.lose fun heq => by cases heq
  · exact h

theorem serverRead (h : Sound initial s) : Sound initial (s.step .serverRead) := by
  simp only [RemoteSession.step]
  split
  · rename_i request requests hserving hrequests
    have hstep : s.server.step (.read request) =
        { s.server with serving := .dispatching request } := by
      simp only [RemoteServer.step, hserving]
    have htaken := RemoteServer.taken_read hserving request
    refine ⟨h.client, h.numbered, h.shows, h.server.step (.read request), ?_, ?_⟩
    · rw [htaken]
      have hconveys := h.requests
      rw [hrequests] at hconveys
      exact hconveys.take
    · rw [hstep]
      exact h.messages
  · exact h

theorem clientRead (h : Sound initial s) : Sound initial (s.step .clientRead) := by
  simp only [RemoteSession.step]
  split
  · rename_i msg messages hreader hmessages
    obtain ⟨hread, hevents, hsnapshot, hqueue, hwriter, hid, hnext, hcall⟩ :=
      RemoteClient.step_read hreader msg
    refine ⟨h.client.step (.read msg), h.numbered.congr hid hnext hcall, ⟨?_, ?_⟩, h.server, ?_, ?_⟩
    · rw [hevents, hread, List.filterMap_append, h.shows.events]
      cases msg <;> rfl
    · rw [hsnapshot, hread, List.filterMap_append, h.shows.snapshot]
      cases msg with
      | snapshot id snap =>
        exact List.getLastD_concat.symm
      | response _ _ | event _ => exact congrArg (·.getLastD initial) (List.append_nil _).symm
    · rw [hqueue, hwriter]
      exact h.requests
    · rw [hread]
      have hconveys := h.messages
      rw [hmessages] at hconveys
      exact hconveys.take
  · exact h

theorem step (h : Sound initial s) (hroom : s.client.nextId.toNat + 1 < UInt64.size)
    (a : SessionAction σ ε) : Sound initial (s.step a) := by
  cases a with
  | client a =>
    simp only [RemoteSession.step]
    split_ifs with ha
    · exact h
    · exact h.client_step (eq_false_of_ne_true ha) hroom
  | server a =>
    simp only [RemoteSession.step]
    split_ifs with ha
    · exact h
    · exact h.server_step (eq_false_of_ne_true ha)
  | clientWrite ok arrives => exact h.clientWrite ok arrives
  | serverWrite ok arrives => exact h.serverWrite ok arrives
  | clientRead => exact h.clientRead
  | serverRead => exact h.serverRead

end Sound

/-- A step draws one identifier at most. -/
theorem nextId_step (hroom : s.client.nextId.toNat + 1 < UInt64.size) (a : SessionAction σ ε) :
    (s.step a).client.nextId.toNat ≤ s.client.nextId.toNat + 1 := by
  cases a with
  | client a =>
    simp only [RemoteSession.step]
    split_ifs with ha
    · exact Nat.le_succ _
    · have hview := RemoteClient.sameView_step (c := s.client) (eq_false_of_ne_true ha)
      obtain hid | hid := hview.nextId
      · rw [hid]
        exact Nat.le_succ _
      · rw [hid, RemoteClient.Numbered.toNat_succ hroom]
  | server a =>
    simp only [RemoteSession.step]
    split_ifs <;> exact Nat.le_succ _
  | clientWrite ok arrives =>
    simp only [RemoteSession.step]
    split
    · rename_i hwriter hqueue
      simp only [RemoteClient.step, hwriter, hqueue]
      split_ifs <;> exact Nat.le_succ _
    · exact Nat.le_succ _
  | clientRead =>
    simp only [RemoteSession.step]
    split
    · rename_i msg _ hreader _
      obtain ⟨-, -, -, -, -, hid, -⟩ := RemoteClient.step_read hreader msg
      rw [hid]
      exact Nat.le_succ _
    · exact Nat.le_succ _
  | serverWrite ok arrives | serverRead =>
    simp only [RemoteSession.step]
    split <;> exact Nat.le_succ _

namespace Sound

/-- The server has been given requests of the calls only. -/
theorem handled_prefix (h : Sound initial s) : s.server.handled.map Prod.fst <+: s.asked :=
  (List.prefix_append _ _).trans h.requests.taken_prefix

theorem mem_asked (h : Sound initial s) {request : RemoteRequest} {reply : Reply σ}
    (hmem : (request, reply) ∈ s.server.handled) : request ∈ s.asked :=
  h.handled_prefix.subset (List.mem_map_of_mem (f := Prod.fst) hmem)

/-- A reply that the server has told is found by the call of its request. -/
theorem reply?_message (h : Sound initial s) {request : RemoteRequest} {reply : Reply σ}
    (hmem : (request, reply) ∈ s.server.handled) :
    (reply.message ε request.id).reply? = some (request.map, request.id, reply) := by
  have hid := (h.numbered.asked_bounded request (h.mem_asked hmem)).1
  have hmap : reply.map = request.map := h.server.matched _ hmem
  cases reply with
  | command result =>
    rw [← hmap]
    rfl
  | snapshot snap =>
    rw [← hmap]
    exact if_pos hid

/-- What is told for the calls is told for them in the order of their requests. -/
theorem replied (h : Sound initial s) : s.client.read.filterMap ServerMessage.reply? <+:
    s.server.handled.map fun h => (h.1.map, h.1.id, h.2) := by
  have hreplies : ∀ msgs : List (ServerMessage σ ε),
      (msgs.filter ServerMessage.isReply).filterMap ServerMessage.reply? =
        msgs.filterMap ServerMessage.reply? := by
    intro msgs
    rw [List.filterMap_filter]
    refine List.filterMap_congr fun msg _ => ?_
    cases msg <;> rfl
  have hhandled : (s.server.handled.map fun h => h.2.message ε h.1.id).filterMap
      ServerMessage.reply? = s.server.handled.map fun h => (h.1.map, h.1.id, h.2) := by
    rw [List.filterMap_map, ← List.filterMap_eq_map]
    exact List.filterMap_congr fun handled hmem => h.reply?_message hmem
  have htold : s.server.told.filterMap ServerMessage.reply? =
      s.server.told.tail.filterMap ServerMessage.reply? := by
    cases hb : s.server.baseline with
    | none => rw [(h.server.unopened hb).1]; rfl
    | some b =>
      obtain ⟨rest, hrest⟩ := h.server.opening b hb
      rw [hrest]
      rfl
  have hread := h.messages.taken_prefix.filterMap ServerMessage.reply?
  rw [htold, ← hreplies s.server.told.tail] at hread
  rw [← hhandled]
  exact hread.trans (h.server.replies.filterMap _)

/-- A call gets what the agent made of its own request. -/
theorem handled_of_repliedBy (h : Sound initial s) {i : ℕ} {reply : Reply σ}
    (hreply : s.client.RepliedBy i reply) :
    ((s.client.call i).request, reply) ∈ s.server.handled := by
  obtain ⟨msg, hmsg, hreply⟩ := hreply
  have hmem : ((s.client.call i).ask.map, (s.client.call i).id, reply) ∈
      s.client.read.filterMap ServerMessage.reply? := List.mem_filterMap.mpr ⟨msg, hmsg, hreply⟩
  obtain ⟨⟨request, reply'⟩, hhandled, heq⟩ := List.mem_map.mp (h.replied.subset hmem)
  obtain ⟨-, heq⟩ := Prod.mk.inj heq
  obtain ⟨hid, rfl⟩ := Prod.mk.inj heq
  rw [← h.numbered.asked_own request (h.mem_asked hhandled) i hid.symm]
  exact hhandled

theorem callsServed (h : Sound initial s) : CallsServed s where
  once := h.numbered.once
  handled := h.handled_prefix
  replied := h.replied
  returned i result hi := by
    obtain ⟨reply, hreply, hresult⟩ | herror := h.client.returns i result hi
    · exact .inl ⟨reply, h.handled_of_repliedBy hreply, hresult⟩
    · exact .inr herror

/-- Behind the baseline comes no second one. -/
theorem baselineOnce (h : Sound initial s) :
    ∀ msg ∈ s.client.read.tail, ∀ snap, msg ≠ .snapshot 0 snap := by
  rintro msg hmsg snap rfl
  have htail : s.client.read.tail <+: s.server.told.tail := by
    obtain ⟨rest, hrest⟩ := h.messages.taken_prefix
    rw [← hrest]
    cases hread : s.client.read with
    | nil => exact List.nil_prefix
    | cons msg msgs => exact List.prefix_append _ _
  have hmem : .snapshot 0 snap ∈ s.server.told.tail.filter ServerMessage.isReply :=
    List.mem_filter.mpr ⟨htail.subset hmsg, rfl⟩
  obtain ⟨⟨request, reply⟩, hhandled, heq⟩ := List.mem_map.mp (h.server.replies.subset hmem)
  have hid := (h.numbered.asked_bounded request (h.mem_asked hhandled)).1
  cases reply with
  | command result => cases heq
  | snapshot snap' =>
    obtain ⟨hzero, -⟩ := ServerMessage.snapshot.inj heq
    exact hid hzero

theorem mirrors (h : Sound initial s) : Mirrors initial s where
  opening msg rest hread := by
    have htold := h.messages.taken_prefix
    cases hb : s.server.baseline with
    | none =>
      rw [hread, (h.server.unopened hb).1] at htold
      cases List.prefix_nil.mp htold
    | some b =>
      obtain ⟨others, hothers⟩ := h.server.opening b hb
      rw [hread, hothers, List.cons_prefix_cons] at htold
      exact ⟨b, rfl, htold.1⟩
  baselineOnce := h.baselineOnce
  shown := h.shows.snapshot
  subscribed b hb := (h.server.since_le b hb).1
  events := by
    rw [h.shows.events]
    exact (h.messages.taken_prefix.filterMap _).sublist.trans
      (h.server.events.trans ((List.take_sublist _ _).drop _))
  unlagged hmissed := by
    rw [h.shows.events]
    exact (h.messages.taken_prefix.filterMap _).trans
      ((h.server.unlagged hmissed).trans ((List.take_prefix _ _).drop _))

end Sound

/-- What holds in every sound state holds in every run that does not use up the identifiers. -/
theorem throughout_of_sound {prop : RemoteSession σ ε → Prop}
    (hprop : ∀ s, Sound initial s → prop s) (snapshot : σ) (events : Broadcast.Channel ε)
    {as : List (SessionAction σ ε)} (has : as.length + 2 ≤ UInt64.size) :
    Runs.Throughout step prop (connect initial snapshot events) as := by
  have hstep : ∀ (s : RemoteSession σ ε) a, Sound initial s →
      s.client.nextId.toNat < UInt64.size - 1 →
      Sound initial (step s a) ∧ (step s a).client.nextId.toNat ≤ s.client.nextId.toNat + 1 := by
    intro s a h hspent
    have hroom : s.client.nextId.toNat + 1 < UInt64.size := by omega
    exact ⟨h.step hroom a, nextId_step hroom a⟩
  refine Runs.within_budget hstep hprop (Sound.connect initial snapshot events) ?_
  have hone : (connect initial snapshot events : RemoteSession σ ε).client.nextId.toNat = 1 := rfl
  rw [hone]
  omega

/-- However the tasks of the two ends interleave and wherever the stream breaks, the agent is given
the requests of the calls in their order, each once, and every call gets the reply to its own. -/
theorem calls_served (initial snapshot : σ) (events : Broadcast.Channel ε)
    {as : List (SessionAction σ ε)} (has : as.length + 2 ≤ UInt64.size) :
    Runs.Throughout step CallsServed (connect initial snapshot events) as :=
  throughout_of_sound (fun _ h => h.callsServed) snapshot events has

/-- And what the client shows of the agent is what the agent was. -/
theorem client_mirrors (initial snapshot : σ) (events : Broadcast.Channel ε)
    {as : List (SessionAction σ ε)} (has : as.length + 2 ≤ UInt64.size) :
    Runs.Throughout step (Mirrors initial) (connect initial snapshot events) as :=
  throughout_of_sound (fun _ h => h.mirrors) snapshot events has

/-- A call from its beginning to its reply. -/
def oneCall : List (SessionAction Unit Unit) :=
  [.client (.begin .reset), .client (.check 0), .client (.enter 0), .client (.send 0),
    .client (.recheck 0), .clientWrite true true, .server .subscribe, .server .greet, .serverRead,
    .server (.emit ()), .server .forward, .server (.dispatch (.error "closed")),
    .serverWrite true true, .serverWrite true true, .serverWrite true true, .clientRead,
    .clientRead, .clientRead, .client (.receive 0)]

theorem calls_served_oneCall :
    Runs.Throughout step CallsServed (connect () () ⟨4, []⟩) oneCall ∧
      ((Runs.run step (connect () () ⟨4, []⟩) oneCall).client.call 0).phase =
        .returned (.error (.command "closed")) :=
  ⟨calls_served () () ⟨4, []⟩ (by decide), rfl⟩

theorem client_mirrors_oneCall :
    Runs.Throughout step (Mirrors ()) (connect () () ⟨4, []⟩) oneCall ∧
      (Runs.run step (connect () () ⟨4, []⟩) oneCall).client.events = [()] :=
  ⟨client_mirrors () () ⟨4, []⟩ (by decide), rfl⟩

end RemoteSession

end Guigu.Remote
