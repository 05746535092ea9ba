import Guigu.Acp.Jsonrpc
import Guigu.Library.Runs

/-! The requests of a connection to its client, and the teardown that ends the connection. -/
namespace Guigu.Acp

namespace PendingRequests

variable {ρ : Type*}

def insert (c : PendingRequests ρ) (id : RequestId) (tx : ρ) : PendingRequests ρ :=
  { c with pending := c.pending.insert id tx }

def remove (c : PendingRequests ρ) (id : RequestId) : PendingRequests ρ :=
  { c with pending := c.pending.erase id }

/-- Every request that waits gets an error. -/
def cancelAll (c : PendingRequests ρ) : PendingRequests ρ :=
  ⟨∅, c.answers ++ c.pending.entries.map fun e => (e.2, .error (.jsonRpc "connection closed"))⟩

/-- What the request has been told, if anything. -/
def answer? [DecidableEq ρ] (c : PendingRequests ρ) (tx : ρ) : Option (Except AcpError Json) :=
  (c.answers.find? fun a => a.1 = tx).map Prod.snd

def Answered (c : PendingRequests ρ) (tx : ρ) : Prop := ∃ r, (tx, r) ∈ c.answers

end PendingRequests

/-- Where a call of `request` stands. -/
inductive CallPhase where
  | idle
  /-- It waits for the table, to put its entry in. -/
  | entering
  /-- Its entry is in; the message is sent next. -/
  | entered
  /-- The message is sent; it waits for the reply. -/
  | waiting
  /-- The writer was closed; it waits for the table, to take its entry out. -/
  | refused
  | returned (result : Except AcpError Json)
  /-- Its task was aborted. -/
  | dropped
  deriving DecidableEq

/-- The lines of `teardown`: the first one that has not run. -/
inductive Teardown where
  | serving | cancelled | drained | aborted | joined | finished
  deriving DecidableEq, Repr

/-- `cancel_all` has run. -/
def Teardown.hasDrained : Teardown → Bool
  | .serving | .cancelled => false
  | .drained | .aborted | .joined | .finished => true

structure Connection where
  nextId : ℕ
  requests : PendingRequests ℕ
  call : ℕ → CallPhase
  /-- The call belongs to a handler task of the connection. -/
  handler : ℕ → Bool
  /-- The writer task has not dropped its end of the channel. -/
  writerOpen : Bool
  teardown : Teardown

/-- What a task does next. -/
inductive ConnectionAction where
  | request (handler : Bool)
  | enter (call : ℕ)
  | send (call : ℕ)
  | withdraw (call : ℕ)
  | take (call : ℕ)
  | drop (call : ℕ)
  | receive (msg : InboundMessage)
  | cancel
  | cancelAll
  | abortHandlers
  | joinHandlers
  | exitWriter
  | awaitWriter

/-- The identifier of a call in the table. -/
def requestKey (call : ℕ) : RequestId := .number (Int64.ofNat call)

namespace Connection

def start : Connection where
  nextId := 1
  requests := ⟨∅, []⟩
  call := fun _ => .idle
  handler := fun _ => false
  writerOpen := true
  teardown := .serving

def setCall (s : Connection) (i : ℕ) (phase : CallPhase) : Connection :=
  { s with call := Function.update s.call i phase }

@[simp] theorem setCall_call (s : Connection) (i : ℕ) (phase : CallPhase) :
    (s.setCall i phase).call i = phase := Function.update_self ..

theorem setCall_call_of_ne (s : Connection) {i j : ℕ} (h : j ≠ i) (phase : CallPhase) :
    (s.setCall i phase).call j = s.call j := Function.update_of_ne h ..

@[simp] theorem setCall_requests (s : Connection) (i : ℕ) (phase : CallPhase) :
    (s.setCall i phase).requests = s.requests := rfl

/-- A call that waits for the table or for its reply goes when its task is aborted; the tasks of
handlers are aborted by the teardown only. -/
def droppable (s : Connection) (i : ℕ) : Bool :=
  (decide (s.call i = .entering) || decide (s.call i = .waiting) ||
    decide (s.call i = .refused)) && (!s.handler i || decide (s.teardown = .aborted))

/-- The calls of handler tasks are over. -/
def handlersDone (s : Connection) : Bool :=
  (List.range s.nextId).all fun i => !s.handler i ||
    match s.call i with
    | .idle | .returned _ | .dropped => true
    | .entering | .entered | .waiting | .refused => false

/-- One step of some task; a step that is not possible leaves everything as it is. -/
def step (s : Connection) : ConnectionAction → Connection
  | .request handler =>
    if handler && (decide (s.teardown = .joined) || decide (s.teardown = .finished)) then s
    else
      let s' := { s with nextId := s.nextId + 1,
                         handler := Function.update s.handler s.nextId handler }
      if s.nextId < 2 ^ 63 then s'.setCall s.nextId .entering
      else s'.setCall s.nextId (.returned
        (.error (.jsonRpc "request id overflow: too many in-flight requests")))
  | .enter i =>
    if s.call i = .entering then
      { s with requests := s.requests.insert (requestKey i) i }.setCall i .entered
    else s
  | .send i =>
    if s.call i = .entered then s.setCall i (if s.writerOpen then .waiting else .refused) else s
  | .withdraw i =>
    if s.call i = .refused then
      { s with requests := s.requests.remove (requestKey i) }.setCall i
        (.returned (.error (.jsonRpc "writer closed")))
    else s
  | .take i =>
    if s.call i = .waiting then
      match s.requests.answer? i with
      | some result => s.setCall i (.returned result)
      | none => s
    else s
  | .drop i => if s.droppable i then s.setCall i .dropped else s
  | .receive msg =>
    if s.teardown = .serving then { s with requests := s.requests.receive msg } else s
  | .cancel => if s.teardown = .serving then { s with teardown := .cancelled } else s
  | .cancelAll =>
    if s.teardown = .cancelled then
      { s with requests := s.requests.cancelAll, teardown := .drained }
    else s
  | .abortHandlers => if s.teardown = .drained then { s with teardown := .aborted } else s
  | .joinHandlers =>
    if s.teardown = .aborted ∧ s.handlersDone then { s with teardown := .joined } else s
  | .exitWriter => { s with writerOpen := false }
  | .awaitWriter =>
    if s.teardown = .joined ∧ !s.writerOpen then { s with teardown := .finished } else s

/-- No call can go on by itself. -/
def Quiescent (s : Connection) : Prop :=
  ∀ i, s.call i ≠ .entering ∧ s.call i ≠ .entered ∧ s.call i ≠ .refused ∧
    (s.call i = .waiting → ¬ s.requests.Answered i)

/-- Every call has returned, or was dropped with its task, and no entry is left. -/
def Settled (s : Connection) : Prop :=
  (∀ i, s.call i = .idle ∨ s.call i = .dropped ∨ ∃ result, s.call i = .returned result) ∧
    ∀ k, s.requests.pending.lookup k = none

/-- Once `cancel_all` has run, no call with an entry in the table sends to an open writer, and none
is dropped. -/
def Meets (s : Connection) : ConnectionAction → Prop
  | .send i => s.call i = .entered → s.writerOpen = true → s.teardown.hasDrained = true →
      s.requests.pending.lookup (requestKey i) = none
  | .drop i => s.droppable i = true → s.teardown.hasDrained = true →
      s.requests.pending.lookup (requestKey i) = none
  | _ => True

end Connection

theorem requestKey_injective {i j : ℕ} (hi : i < 2 ^ 63) (hj : j < 2 ^ 63)
    (h : requestKey i = requestKey j) : i = j := by
  have hvalue := congrArg Int64.toInt (RequestId.number.inj h)
  rw [Int64.toInt_ofNat_of_lt hi, Int64.toInt_ofNat_of_lt hj] at hvalue
  exact Int.ofNat_inj.mp hvalue

namespace PendingRequests

variable {ρ : Type*}

/-- Some of the requests were answered, and left the table. -/
structure Settles (c c' : PendingRequests ρ) : Prop where
  kept : ∀ k tx, c'.pending.lookup k = some tx → c.pending.lookup k = some tx
  answered : ∀ tx, c'.Answered tx ↔
    c.Answered tx ∨ ∃ k, c.pending.lookup k = some tx ∧ c'.pending.lookup k = none

theorem Settles.refl (c : PendingRequests ρ) : Settles c c where
  kept _ _ h := h
  answered tx := by
    refine ⟨.inl, ?_⟩
    rintro (h | ⟨k, hk, hnone⟩)
    · exact h
    · rw [hk] at hnone
      cases hnone

theorem settles_resolvePending (c : PendingRequests ρ) (id : RequestId)
    (result : Except AcpError Json) : Settles c (c.resolvePending id result) := by
  unfold resolvePending
  cases hlookup : c.pending.lookup id with
  | none => exact .refl c
  | some tx =>
    have hgone : (c.pending.erase id).lookup id = none := AList.lookup_erase id c.pending
    constructor
    · intro k tx' hk
      by_cases hid : k = id
      · rw [hid, hgone] at hk
        cases hk
      · rwa [AList.lookup_erase_ne hid] at hk
    · intro tx'
      simp only [Answered, List.mem_append, List.mem_singleton, Prod.mk.injEq]
      constructor
      · rintro ⟨r, h | ⟨rfl, rfl⟩⟩
        · exact .inl ⟨r, h⟩
        · exact .inr ⟨id, hlookup, hgone⟩
      · rintro (⟨r, h⟩ | ⟨k, hk, hnone⟩)
        · exact ⟨r, .inl h⟩
        · by_cases hid : k = id
          · rw [hid, hlookup] at hk
            exact ⟨result, .inr ⟨(Option.some.inj hk).symm, rfl⟩⟩
          · rw [AList.lookup_erase_ne hid, hk] at hnone
            cases hnone

theorem settles_receive (c : PendingRequests ρ) (msg : InboundMessage) :
    Settles c (c.receive msg) := by
  unfold receive
  cases classifyInbound msg with
  | error e => exact .refl c
  | ok kind =>
    cases kind with
    | response id result => exact c.settles_resolvePending id result
    | request | notification => exact .refl c

theorem settles_cancelAll (c : PendingRequests ρ) : Settles c c.cancelAll where
  kept k tx h := by
    rw [cancelAll, AList.lookup_empty] at h
    cases h
  answered tx := by
    simp only [Answered, cancelAll, List.mem_append, List.mem_map, Prod.mk.injEq,
      AList.lookup_empty, and_true]
    constructor
    · rintro ⟨r, h | ⟨e, he, rfl, -⟩⟩
      · exact .inl ⟨r, h⟩
      · exact .inr ⟨e.1, AList.mem_lookup_iff.mpr he⟩
    · rintro (⟨r, h⟩ | ⟨k, hk⟩)
      · exact ⟨r, .inl h⟩
      · exact ⟨_, .inr ⟨⟨k, tx⟩, AList.mem_lookup_iff.mp hk, rfl, rfl⟩⟩

theorem answer?_isSome [DecidableEq ρ] {c : PendingRequests ρ} {tx : ρ} :
    (c.answer? tx).isSome ↔ c.Answered tx := by
  simp [answer?, Answered]

end PendingRequests

/-- The call is between its identifier and its end. -/
def CallPhase.running : CallPhase → Bool
  | .entering | .entered | .waiting | .refused => true
  | .idle | .returned _ | .dropped => false

/-- The call may have an entry in the table. -/
def CallPhase.holds : CallPhase → Bool
  | .entered | .waiting | .refused | .dropped => true
  | .idle | .entering | .returned _ => false

namespace Connection

theorem droppable_running {s : Connection} {i : ℕ} (h : s.droppable i = true) :
    (s.call i).running = true := by
  simp only [droppable, Bool.and_eq_true, Bool.or_eq_true, decide_eq_true_eq] at h
  rcases h.1 with (hi | hi) | hi
  · rw [hi]; rfl
  · rw [hi]; rfl
  · rw [hi]; rfl

/-- What a step comes to. -/
inductive Moves (s : Connection) : ConnectionAction → Connection → Prop
  | blocked (a : ConnectionAction) : Moves s a s
  | begun (handler : Bool) {phase : CallPhase}
    (hphase : (phase = .entering ∧ s.nextId < 2 ^ 63) ∨ ∃ result, phase = .returned result) :
    Moves s (.request handler)
      ({ s with nextId := s.nextId + 1,
                handler := Function.update s.handler s.nextId handler }.setCall s.nextId phase)
  | entered {i : ℕ} (hi : s.call i = .entering) :
    Moves s (.enter i)
      ({ s with requests := s.requests.insert (requestKey i) i }.setCall i .entered)
  | sent {i : ℕ} (hi : s.call i = .entered) (hopen : s.writerOpen = true) :
    Moves s (.send i) (s.setCall i .waiting)
  | refused {i : ℕ} (hi : s.call i = .entered) (hclosed : s.writerOpen = false) :
    Moves s (.send i) (s.setCall i .refused)
  | withdrawn {i : ℕ} (hi : s.call i = .refused) (result : Except AcpError Json) :
    Moves s (.withdraw i)
      ({ s with requests := s.requests.remove (requestKey i) }.setCall i (.returned result))
  | taken {i : ℕ} (hi : s.call i = .waiting) (hanswered : s.requests.Answered i)
    (result : Except AcpError Json) : Moves s (.take i) (s.setCall i (.returned result))
  | dropped {i : ℕ} (hdrop : s.droppable i = true) : Moves s (.drop i) (s.setCall i .dropped)
  | received (msg : InboundMessage) (hserving : s.teardown = .serving) :
    Moves s (.receive msg) { s with requests := s.requests.receive msg }
  | cancelled (hserving : s.teardown = .serving) : Moves s .cancel { s with teardown := .cancelled }
  | drained (hcancelled : s.teardown = .cancelled) :
    Moves s .cancelAll { s with requests := s.requests.cancelAll, teardown := .drained }
  | ended (a : ConnectionAction) {teardown : Teardown} (hbefore : s.teardown.hasDrained = true)
    (hbehind : teardown.hasDrained = true) : Moves s a { s with teardown := teardown }
  | exited : Moves s .exitWriter { s with writerOpen := false }

theorem step_moves (s : Connection) (a : ConnectionAction) : Moves s a (s.step a) := by
  cases a with
  | request handler =>
    simp only [step]
    split_ifs with hover hsmall
    · exact .blocked _
    · exact .begun handler (.inl ⟨rfl, hsmall⟩)
    · exact .begun handler (.inr ⟨_, rfl⟩)
  | enter i =>
    simp only [step]
    split_ifs with hi
    · exact .entered hi
    · exact .blocked _
  | send i =>
    simp only [step]
    split_ifs with hi hopen
    · exact .sent hi hopen
    · exact .refused hi (eq_false_of_ne_true hopen)
    · exact .blocked _
  | withdraw i =>
    simp only [step]
    split_ifs with hi
    · exact .withdrawn hi _
    · exact .blocked _
  | take i =>
    simp only [step]
    split_ifs with hi
    · cases hanswer : s.requests.answer? i with
      | none => exact .blocked _
      | some result =>
        have hanswered : s.requests.Answered i :=
          PendingRequests.answer?_isSome.mp (by rw [hanswer]; rfl)
        exact .taken hi hanswered result
    · exact .blocked _
  | drop i =>
    simp only [step]
    split_ifs with hdrop
    · exact .dropped hdrop
    · exact .blocked _
  | receive msg =>
    simp only [step]
    split_ifs with hserving
    · exact .received msg hserving
    · exact .blocked _
  | cancel =>
    simp only [step]
    split_ifs with hserving
    · exact .cancelled hserving
    · exact .blocked _
  | cancelAll =>
    simp only [step]
    split_ifs with hcancelled
    · exact .drained hcancelled
    · exact .blocked _
  | abortHandlers =>
    simp only [step]
    split_ifs with hwas
    · exact .ended _ (by rw [hwas]; rfl) rfl
    · exact .blocked _
  | joinHandlers | awaitWriter =>
    simp only [step]
    split_ifs with hwas
    · exact .ended _ (by rw [hwas.1]; rfl) rfl
    · exact .blocked _
  | exitWriter => exact .exited

/-- Every entry belongs to a call that waits for it, or has given it up. -/
structure Sound (s : Connection) : Prop where
  begun : ∀ i, s.nextId ≤ i → s.call i = .idle
  small : ∀ i, (s.call i).running = true → i < 2 ^ 63
  fresh : ∀ i, s.call i = .idle ∨ s.call i = .entering → ¬ s.requests.Answered i
  table : ∀ k i, s.requests.pending.lookup k = some i →
    k = requestKey i ∧ i < 2 ^ 63 ∧ (s.call i).holds = true ∧ ¬ s.requests.Answered i
  waits : ∀ i, s.call i = .entered ∨ s.call i = .waiting →
    s.requests.Answered i ∨ s.requests.pending.lookup (requestKey i) = some i

namespace Sound

variable {s : Connection}

theorem start : Sound start where
  begun _ _ := rfl
  small _ h := by cases h
  fresh _ _ := by
    rintro ⟨r, hr⟩
    cases hr
  table k i h := by cases h
  waits i h := by
    rcases h with h | h
    · cases h
    · cases h

/-- Nothing but the calls and the table matters. -/
theorem congr {s' : Connection} (h : Sound s) (hid : s.nextId ≤ s'.nextId)
    (hcall : s'.call = s.call) (hrequests : s'.requests = s.requests) : Sound s' where
  begun i hi := by
    rw [hcall]
    exact h.begun i (hid.trans hi)
  small i := by
    rw [hcall]
    exact h.small i
  fresh i := by
    rw [hcall, hrequests]
    exact h.fresh i
  table k i := by
    rw [hcall, hrequests]
    exact h.table k i
  waits i := by
    rw [hcall, hrequests]
    exact h.waits i

/-- A call may go on within its rights. -/
theorem setCall (h : Sound s) {i : ℕ} {phase : CallPhase} (hbegun : i < s.nextId)
    (hsmall : phase.running = true → i < 2 ^ 63)
    (hfresh : phase = .idle ∨ phase = .entering → ¬ s.requests.Answered i)
    (hholds : s.requests.pending.lookup (requestKey i) = some i → phase.holds = true)
    (hwaits : phase = .entered ∨ phase = .waiting →
      s.requests.Answered i ∨ s.requests.pending.lookup (requestKey i) = some i) :
    Sound (s.setCall i phase) where
  begun j hj := by
    have hne : j ≠ i := by
      rintro rfl
      exact absurd hbegun (not_lt.mpr hj)
    rw [setCall_call_of_ne s hne]
    exact h.begun j hj
  small j hj := by
    by_cases hji : j = i
    · subst hji
      rw [setCall_call] at hj
      exact hsmall hj
    · rw [setCall_call_of_ne s hji] at hj
      exact h.small j hj
  fresh j hj := by
    by_cases hji : j = i
    · subst hji
      rw [setCall_call] at hj
      exact hfresh hj
    · rw [setCall_call_of_ne s hji] at hj
      exact h.fresh j hj
  table k j hk := by
    obtain ⟨rfl, hsmallj, hholdsj, hanswered⟩ := h.table k j hk
    refine ⟨rfl, hsmallj, ?_, hanswered⟩
    by_cases hji : j = i
    · subst hji
      rw [setCall_call]
      exact hholds hk
    · rwa [setCall_call_of_ne s hji]
  waits j hj := by
    by_cases hji : j = i
    · subst hji
      rw [setCall_call] at hj
      exact hwaits hj
    · rw [setCall_call_of_ne s hji] at hj
      exact h.waits j hj

/-- An answer takes its entry along. -/
theorem settle {c : PendingRequests ℕ} (h : Sound s) (hc : s.requests.Settles c) :
    Sound { s with requests := c } where
  begun := h.begun
  small := h.small
  fresh i hi hanswered := by
    rcases (hc.answered i).mp hanswered with hbefore | ⟨k, hk, -⟩
    · exact h.fresh i hi hbefore
    · have hholds := (h.table k i hk).2.2.1
      rcases hi with hi | hi
      · rw [hi] at hholds
        cases hholds
      · rw [hi] at hholds
        cases hholds
  table k i hk := by
    obtain ⟨rfl, hsmall, hholds, hanswered⟩ := h.table k i (hc.kept k i hk)
    refine ⟨rfl, hsmall, hholds, ?_⟩
    intro hnow
    rcases (hc.answered i).mp hnow with hbefore | ⟨k, hk', hnone⟩
    · exact hanswered hbefore
    · rw [(h.table k i hk').1, hk] at hnone
      cases hnone
  waits i hi := by
    rcases h.waits i hi with hanswered | hk
    · exact .inl ((hc.answered i).mpr (.inl hanswered))
    · cases hnow : c.pending.lookup (requestKey i) with
      | none => exact .inl ((hc.answered i).mpr (.inr ⟨_, hk, hnow⟩))
      | some j =>
        have hj := hc.kept _ _ hnow
        rw [hk] at hj
        exact .inr hj.symm

/-- A call puts its entry in. -/
theorem enter (h : Sound s) {i : ℕ} (hi : s.call i = .entering) :
    Sound ({ s with requests := s.requests.insert (requestKey i) i }.setCall i .entered) where
  begun j hj := by
    have hne : j ≠ i := by
      rintro rfl
      have hidle := h.begun j hj
      rw [hi] at hidle
      cases hidle
    exact (setCall_call_of_ne _ hne _).trans (h.begun j hj)
  small j hj := by
    by_cases hji : j = i
    · subst hji
      exact h.small j (by rw [hi]; rfl)
    · rw [setCall_call_of_ne _ hji] at hj
      exact h.small j hj
  fresh j hj := by
    by_cases hji : j = i
    · subst hji
      rw [setCall_call] at hj
      rcases hj with hj | hj
      · cases hj
      · cases hj
    · rw [setCall_call_of_ne _ hji] at hj
      exact h.fresh j hj
  table k j hk := by
    by_cases hki : k = requestKey i
    · subst hki
      obtain rfl := Option.some.inj ((AList.lookup_insert s.requests.pending).symm.trans hk)
      refine ⟨rfl, h.small i (by rw [hi]; rfl), ?_, h.fresh i (.inr hi)⟩
      rw [setCall_call]
      rfl
    · have hold := (AList.lookup_insert_ne hki).symm.trans hk
      obtain ⟨rfl, hsmall, hholds, hanswered⟩ := h.table k j hold
      refine ⟨rfl, hsmall, ?_, hanswered⟩
      have hji : j ≠ i := by
        rintro rfl
        exact hki rfl
      rwa [setCall_call_of_ne _ hji]
  waits j hj := by
    by_cases hji : j = i
    · subst hji
      exact .inr (AList.lookup_insert s.requests.pending)
    · rw [setCall_call_of_ne _ hji] at hj
      have hsmall : j < 2 ^ 63 := by
        apply h.small
        rcases hj with hj | hj <;> exact hj ▸ rfl
      have hne : requestKey j ≠ requestKey i := by
        intro hkey
        exact hji (requestKey_injective hsmall (h.small i (by rw [hi]; rfl)) hkey)
      rcases h.waits j hj with hanswered | hk
      · exact .inl hanswered
      · exact .inr ((AList.lookup_insert_ne hne).trans hk)

/-- A call that was refused takes its entry out again. -/
theorem withdraw (h : Sound s) {i : ℕ} (hi : s.call i = .refused)
    (result : Except AcpError Json) :
    Sound ({ s with requests := s.requests.remove (requestKey i) }.setCall i
      (.returned result)) := by
  have hsmall : i < 2 ^ 63 := h.small i (by rw [hi]; rfl)
  have hbegun : i < s.nextId := by
    by_contra hle
    have hidle := h.begun i (not_lt.mp hle)
    rw [hi] at hidle
    cases hidle
  have hlookup (j : ℕ) (hj : j < 2 ^ 63) (hne : j ≠ i) :
      (s.requests.remove (requestKey i)).pending.lookup (requestKey j) =
        s.requests.pending.lookup (requestKey j) :=
    AList.lookup_erase_ne fun hkey => hne (requestKey_injective hj hsmall hkey)
  have hgone : (s.requests.remove (requestKey i)).pending.lookup (requestKey i) = none :=
    AList.lookup_erase _ _
  have hremoved : Sound { s with requests := s.requests.remove (requestKey i) } := by
    refine ⟨h.begun, h.small, h.fresh, ?_, ?_⟩
    · intro k j hk
      by_cases hki : k = requestKey i
      · rw [hki] at hk
        exact absurd (hgone.symm.trans hk) (by simp)
      · exact h.table k j ((AList.lookup_erase_ne hki).symm.trans hk)
    · intro j hj
      have hji : j ≠ i := by
        rintro rfl
        rcases hj with hj | hj
        · rw [hi] at hj
          cases hj
        · rw [hi] at hj
          cases hj
      have hsmallj : j < 2 ^ 63 := by
        apply h.small
        rcases hj with hj | hj <;> exact hj ▸ rfl
      rcases h.waits j hj with hanswered | hk
      · exact .inl hanswered
      · exact .inr ((hlookup j hsmallj hji).trans hk)
  apply hremoved.setCall hbegun
  · intro hrunning
    cases hrunning
  · rintro (hphase | hphase)
    · cases hphase
    · cases hphase
  · intro hk
    exact absurd (hgone.symm.trans hk) (by simp)
  · rintro (hphase | hphase)
    · cases hphase
    · cases hphase

theorem lt_nextId (h : Sound s) {i : ℕ} (hi : (s.call i).running = true) : i < s.nextId := by
  by_contra hle
  rw [h.begun i (not_lt.mp hle)] at hi
  cases hi

theorem moves {s' : Connection} {a : ConnectionAction} (h : Sound s) (hmoves : Moves s a s') :
    Sound s' := by
  cases hmoves with
  | blocked => exact h
  | begun handler hphase =>
    have hbase : Sound { s with nextId := s.nextId + 1,
                                handler := Function.update s.handler s.nextId handler } :=
      h.congr (Nat.le_succ _) rfl rfl
    have hidle := h.begun s.nextId le_rfl
    have hnone : s.requests.pending.lookup (requestKey s.nextId) ≠ some s.nextId := by
      intro hk
      have hholds := (h.table _ _ hk).2.2.1
      rw [hidle] at hholds
      cases hholds
    apply hbase.setCall (Nat.lt_succ_self s.nextId)
    · rcases hphase with ⟨-, hsmall⟩ | ⟨result, rfl⟩
      · exact fun _ => hsmall
      · simp [CallPhase.running]
    · exact fun _ => h.fresh _ (.inl hidle)
    · exact fun hk => absurd hk hnone
    · rcases hphase with ⟨rfl, -⟩ | ⟨result, rfl⟩ <;> simp
  | entered hi => exact h.enter hi
  | @sent i hi =>
    have hrunning : (s.call i).running = true := by
      rw [hi]
      rfl
    exact h.setCall (h.lt_nextId hrunning) (fun _ => h.small i hrunning) (by simp) (fun _ => rfl)
      (fun _ => h.waits i (.inl hi))
  | @refused i hi =>
    have hrunning : (s.call i).running = true := by
      rw [hi]
      rfl
    exact h.setCall (h.lt_nextId hrunning) (fun _ => h.small i hrunning) (by simp) (fun _ => rfl)
      (by simp)
  | withdrawn hi result => exact h.withdraw hi result
  | @taken i hi hanswered =>
    apply h.setCall (h.lt_nextId (by rw [hi]; rfl))
    · simp [CallPhase.running]
    · simp
    · exact fun hk => absurd hanswered (h.table _ _ hk).2.2.2
    · simp
  | dropped hdrop =>
    exact h.setCall (h.lt_nextId (droppable_running hdrop)) (by simp [CallPhase.running]) (by simp)
      (fun _ => rfl) (by simp)
  | received msg => exact h.settle (s.requests.settles_receive msg)
  | drained => exact (h.settle s.requests.settles_cancelAll).congr le_rfl rfl rfl
  | cancelled | ended | exited => exact h.congr le_rfl rfl rfl

theorem step (h : Sound s) (a : ConnectionAction) : Sound (s.step a) := h.moves (s.step_moves a)

end Sound

/-- Behind `cancel_all` every entry belongs to a call that will take it out again. -/
structure Safe (s : Connection) : Prop extends Sound s where
  left : s.teardown.hasDrained = true → ∀ k i, s.requests.pending.lookup k = some i →
    s.call i = .entered ∨ s.call i = .refused

/-- An entry that nobody will take out any more. -/
def Stuck (s : Connection) : Prop :=
  s.teardown.hasDrained = true ∧ ∃ i, s.requests.pending.lookup (requestKey i) = some i ∧
    (s.call i = .waiting ∨ s.call i = .dropped)

/-- The entry under the identifier of a call is its own. -/
theorem Sound.own {s : Connection} (h : Sound s) {i : ℕ} (hi : i < 2 ^ 63)
    (hk : s.requests.pending.lookup (requestKey i) ≠ none) :
    s.requests.pending.lookup (requestKey i) = some i := by
  obtain ⟨j, hj⟩ := Option.ne_none_iff_exists'.mp hk
  obtain ⟨hkey, hsmall, -⟩ := h.table _ _ hj
  obtain rfl := requestKey_injective hi hsmall hkey
  exact hj

/-- A call without an entry may go anywhere; one with an entry goes on to take it out. -/
theorem Safe.setCall {s : Connection} (h : Safe s) {i : ℕ} {phase : CallPhase}
    (hsound : Sound (s.setCall i phase))
    (hphase : s.teardown.hasDrained = true → s.requests.pending.lookup (requestKey i) = some i →
      phase = .entered ∨ phase = .refused) : Safe (s.setCall i phase) where
  toSound := hsound
  left hdrained k j hk := by
    by_cases hji : j = i
    · subst hji
      obtain ⟨rfl, -⟩ := h.table k j hk
      rw [setCall_call]
      exact hphase hdrained hk
    · rw [setCall_call_of_ne s hji]
      exact h.left hdrained k j hk

theorem Safe.moves {s s' : Connection} {a : ConnectionAction} (h : Safe s) (hmeets : s.Meets a)
    (hmoves : Moves s a s') : Safe s' := by
  have hsound := h.toSound.moves hmoves
  cases hmoves with
  | blocked => exact h
  | begun handler =>
    have hbase : Safe { s with nextId := s.nextId + 1,
                               handler := Function.update s.handler s.nextId handler } :=
      ⟨h.congr (Nat.le_succ _) rfl rfl, h.left⟩
    apply hbase.setCall hsound
    intro _ hk
    have hholds := (h.table _ _ hk).2.2.1
    rw [h.begun s.nextId le_rfl] at hholds
    cases hholds
  | @entered i hi =>
    refine ⟨hsound, fun hdrained k j hk => ?_⟩
    by_cases hji : j = i
    · subst hji
      exact .inl (setCall_call _ _ _)
    · rw [setCall_call_of_ne _ hji]
      have hki : k ≠ requestKey i := by
        rintro rfl
        exact hji (Option.some.inj
          ((AList.lookup_insert s.requests.pending).symm.trans hk)).symm
      exact h.left hdrained k j ((AList.lookup_insert_ne hki).symm.trans hk)
  | sent hi hopen =>
    apply h.setCall hsound
    intro hdrained hk
    rw [hmeets hi hopen hdrained] at hk
    cases hk
  | refused => exact h.setCall hsound fun _ _ => .inr rfl
  | @withdrawn i hi =>
    refine ⟨hsound, fun hdrained k j hk => ?_⟩
    have hki : k ≠ requestKey i := by
      rintro rfl
      rw [setCall_requests] at hk
      exact absurd ((AList.lookup_erase _ _).symm.trans hk) (by simp)
    have hold := (AList.lookup_erase_ne hki).symm.trans hk
    have hji : j ≠ i := by
      rintro rfl
      exact hki (h.table k j hold).1
    rw [setCall_call_of_ne _ hji]
    exact h.left hdrained k j hold
  | taken hi hanswered =>
    apply h.setCall hsound
    intro _ hk
    exact absurd hanswered (h.table _ _ hk).2.2.2
  | dropped hdrop =>
    apply h.setCall hsound
    intro hdrained hk
    rw [hmeets hdrop hdrained] at hk
    cases hk
  | received msg hserving =>
    refine ⟨hsound, fun hdrained => ?_⟩
    rw [hserving] at hdrained
    cases hdrained
  | cancelled => exact ⟨hsound, fun hdrained => by cases hdrained⟩
  | drained =>
    refine ⟨hsound, fun _ k j hk => ?_⟩
    cases hk
  | ended _ hbefore => exact ⟨hsound, fun _ => h.left hbefore⟩
  | exited => exact ⟨hsound, h.left⟩

/-- A step against the condition leaves an entry behind. -/
theorem Sound.stuck_of_not_meets {s : Connection} (h : Sound s) {a : ConnectionAction}
    (hmeets : ¬ s.Meets a) : Stuck (s.step a) := by
  cases a with
  | send i =>
    simp only [Meets, Classical.not_imp] at hmeets
    obtain ⟨hi, hopen, hdrained, hk⟩ := hmeets
    simp only [Connection.step, if_pos hi, if_pos hopen]
    exact ⟨hdrained, i, h.own (h.small i (by rw [hi]; rfl)) hk, .inl (setCall_call s i _)⟩
  | drop i =>
    simp only [Meets, Classical.not_imp] at hmeets
    obtain ⟨hdrop, hdrained, hk⟩ := hmeets
    simp only [Connection.step, if_pos hdrop]
    exact ⟨hdrained, i, h.own (h.small i (droppable_running hdrop)) hk,
      .inr (setCall_call s i _)⟩
  | request | enter | withdraw | take | receive | cancel | cancelAll | abortHandlers
    | joinHandlers | exitWriter | awaitWriter => exact absurd trivial hmeets

/-- Another call that moves leaves the entry where it is. -/
theorem Stuck.setCall {s : Connection} {c : PendingRequests ℕ} {i j : ℕ} {phase : CallPhase}
    (hdrained : s.teardown.hasDrained = true) (hji : j ≠ i)
    (hk : c.pending.lookup (requestKey j) = some j)
    (hphase : s.call j = .waiting ∨ s.call j = .dropped) :
    Stuck ({ s with requests := c }.setCall i phase) := by
  refine ⟨hdrained, j, hk, ?_⟩
  rwa [setCall_call_of_ne _ hji]

/-- Nobody takes the entry out. -/
theorem Stuck.moves {s s' : Connection} {a : ConnectionAction} (h : Stuck s) (hs : Sound s)
    (hmoves : Moves s a s') : Stuck s' := by
  obtain ⟨hdrained, j, hk, hphase⟩ := h
  obtain ⟨-, hsmall, -, hanswered⟩ := hs.table _ _ hk
  have hne {i : ℕ} {phase : CallPhase} (hi : s.call i = phase) (hw : phase ≠ .waiting)
      (hd : phase ≠ .dropped) : j ≠ i := by
    rintro rfl
    rcases hphase with hj | hj
    · exact hw (hi.symm.trans hj)
    · exact hd (hi.symm.trans hj)
  have hkey {i : ℕ} (hi : (s.call i).running = true) (hji : j ≠ i) : requestKey j ≠ requestKey i :=
    fun hkey => hji (requestKey_injective hsmall (hs.small i hi) hkey)
  cases hmoves with
  | blocked => exact ⟨hdrained, j, hk, hphase⟩
  | begun handler =>
    have hji := hne (hs.begun s.nextId le_rfl) (by simp) (by simp)
    exact Stuck.setCall (s := { s with nextId := s.nextId + 1, handler := _ }) hdrained hji hk
      hphase
  | @entered i hi =>
    have hji := hne hi (by simp) (by simp)
    have hold : (s.requests.insert (requestKey i) i).pending.lookup (requestKey j) = some j :=
      (AList.lookup_insert_ne (hkey (by rw [hi]; rfl) hji)).trans hk
    exact Stuck.setCall hdrained hji hold hphase
  | sent hi | refused hi => exact Stuck.setCall hdrained (hne hi (by simp) (by simp)) hk hphase
  | @withdrawn i hi =>
    have hji := hne hi (by simp) (by simp)
    have hold : (s.requests.remove (requestKey i)).pending.lookup (requestKey j) = some j :=
      (AList.lookup_erase_ne (hkey (by rw [hi]; rfl) hji)).trans hk
    exact Stuck.setCall hdrained hji hold hphase
  | taken hi htaken =>
    have hji := fun hji : j = _ => hanswered (hji ▸ htaken)
    exact Stuck.setCall hdrained hji hk hphase
  | @dropped i hdrop =>
    by_cases hji : j = i
    · subst hji
      exact ⟨hdrained, j, hk, .inr (setCall_call s j _)⟩
    · exact Stuck.setCall hdrained hji hk hphase
  | received _ hno | cancelled hno | drained hno =>
    rw [hno] at hdrained
    cases hdrained
  | ended _ _ hbehind => exact ⟨hbehind, j, hk, hphase⟩
  | exited => exact ⟨hdrained, j, hk, hphase⟩

theorem Sound.run {s : Connection} (h : Sound s) (as : List ConnectionAction) :
    Sound (Runs.run Connection.step s as) := by
  induction as generalizing s with
  | nil => exact h
  | cons a as ih => exact ih (h.step a)

theorem Stuck.run {s : Connection} (h : Stuck s) (hs : Sound s) (as : List ConnectionAction) :
    Stuck (Runs.run Connection.step s as) := by
  induction as generalizing s with
  | nil => exact h
  | cons a as ih => exact ih (h.moves hs (s.step_moves a)) (hs.step a)

theorem Sound.stuck_of_not_along {s : Connection} (h : Sound s) {as : List ConnectionAction}
    (halong : ¬ Runs.Along Connection.step Meets s as) : Stuck (Runs.run Connection.step s as) := by
  induction as generalizing s with
  | nil => exact absurd trivial halong
  | cons a as ih =>
    by_cases hmeets : s.Meets a
    · exact ih (h.step a) fun hrest => halong ⟨hmeets, hrest⟩
    · exact (h.stuck_of_not_meets hmeets).run (h.step a) as

theorem Safe.settled {s : Connection} (h : Safe s) (hfinished : s.teardown = .finished)
    (hquiescent : s.Quiescent) : s.Settled := by
  have hempty : ∀ k, s.requests.pending.lookup k = none := by
    intro k
    by_contra hk
    obtain ⟨i, hi⟩ := Option.ne_none_iff_exists'.mp hk
    obtain ⟨-, hentered, hrefused, -⟩ := hquiescent i
    exact (h.left (by rw [hfinished]; rfl) k i hi).elim hentered hrefused
  refine ⟨fun i => ?_, hempty⟩
  obtain ⟨hentering, hentered, hrefused, hwaiting⟩ := hquiescent i
  cases hi : s.call i with
  | idle => exact .inl rfl
  | dropped => exact .inr (.inl rfl)
  | returned result => exact .inr (.inr ⟨result, rfl⟩)
  | entering => exact absurd hi hentering
  | entered => exact absurd hi hentered
  | refused => exact absurd hi hrefused
  | waiting =>
    rcases h.waits i (.inr hi) with hanswered | hk
    · exact absurd hanswered (hwaiting hi)
    · rw [hempty] at hk
      cases hk

/-- When the teardown has finished and no call can go on, every call has returned or went with its
task, and the table is empty, exactly if behind `cancel_all` no call with an entry in the table sent
to an open writer or was dropped. -/
theorem requestsSettle_iff {as : List ConnectionAction}
    (hfinished : (Runs.run step start as).teardown = .finished)
    (hquiescent : (Runs.run step start as).Quiescent) :
    (Runs.run step start as).Settled ↔ Runs.Along step Meets start as := by
  constructor
  · intro hsettled
    by_contra halong
    obtain ⟨-, i, hk, -⟩ := Sound.start.stuck_of_not_along halong
    rw [hsettled.2] at hk
    cases hk
  · intro halong
    have hsafe : Safe start := ⟨.start, fun hdrained => by cases hdrained⟩
    exact (Runs.invariant (fun s a hs hmeets => hs.moves hmeets (s.step_moves a)) hsafe
      halong).settled hfinished
      hquiescent

/-- Calls that were not begun cannot go on. -/
theorem Sound.quiescent {s : Connection} (h : Sound s)
    (hbegun : ∀ i < s.nextId, s.call i ≠ .entering ∧ s.call i ≠ .entered ∧ s.call i ≠ .refused ∧
      (s.call i = .waiting → s.requests.answer? i = none)) : s.Quiescent := by
  intro i
  by_cases hi : i < s.nextId
  · obtain ⟨hentering, hentered, hrefused, hwaiting⟩ := hbegun i hi
    refine ⟨hentering, hentered, hrefused, fun hwaits hanswered => ?_⟩
    have hsome := PendingRequests.answer?_isSome.mpr hanswered
    rw [hwaiting hwaits] at hsome
    cases hsome
  · rw [h.begun i (not_lt.mp hi)]
    simp

/-- A call that waits when the connection ends is told so. -/
theorem requestsSettle_toldRequest :
    (Runs.run step start [.request false, .enter 1, .send 1, .cancel, .cancelAll, .take 1,
      .abortHandlers, .joinHandlers, .exitWriter, .awaitWriter]).Settled ↔
    Runs.Along step Meets start [.request false, .enter 1, .send 1, .cancel, .cancelAll, .take 1,
      .abortHandlers, .joinHandlers, .exitWriter, .awaitWriter] :=
  requestsSettle_iff (by decide +kernel) ((Sound.start.run _).quiescent (by decide +kernel))

/-- A call that puts its entry in behind `cancel_all` finds the writer open, and waits. -/
theorem lateRequest_waits : ¬ ∀ as : List ConnectionAction,
    (Runs.run step start as).teardown = .finished → (Runs.run step start as).Quiescent →
      (Runs.run step start as).Settled := by
  intro h
  have hsettled := h [.request false, .cancel, .cancelAll, .enter 1, .send 1, .abortHandlers,
    .joinHandlers, .exitWriter, .awaitWriter] (by decide +kernel)
    ((Sound.start.run _).quiescent (by decide +kernel))
  have hnone := hsettled.2 (requestKey 1)
  revert hnone
  decide +kernel

end Connection

end Guigu.Acp
