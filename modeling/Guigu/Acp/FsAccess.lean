import Guigu.Acp.FsTool

/-! Every file access through the client has its permission: the mode of the session wanted none, or
the client has allowed it in a reply of its own. -/
namespace Guigu.Acp

/-! ### The calls of the connection -/

/-- The message of the call has been handed to the writer, or never will be. -/
def CallPhase.past : CallPhase → Bool
  | .waiting | .refused | .returned _ | .dropped => true
  | .idle | .entering | .entered => false

namespace Connection

variable {s : Connection} {a : ConnectionAction} {c : ℕ}

/-- How one call goes on. -/
inductive CallMove (s : Connection) : ConnectionAction → ℕ → CallPhase → Prop
  | entering (handler : Bool) : CallMove s (.request handler) s.nextId .entering
  | overflow (handler : Bool) (e : AcpError) :
    CallMove s (.request handler) s.nextId (.returned (.error e))
  | entered {i : ℕ} (hi : s.call i = .entering) : CallMove s (.enter i) i .entered
  | sent {i : ℕ} (hi : s.call i = .entered) (hopen : s.writerOpen = true) :
    CallMove s (.send i) i .waiting
  | refused {i : ℕ} (hi : s.call i = .entered) : CallMove s (.send i) i .refused
  | withdrawn {i : ℕ} (hi : s.call i = .refused) (e : AcpError) :
    CallMove s (.withdraw i) i (.returned (.error e))
  | taken {i : ℕ} (hi : s.call i = .waiting) {result : Except AcpError Json}
    (hanswer : (i, result) ∈ s.requests.answers) : CallMove s (.take i) i (.returned result)
  | dropped {i : ℕ} (hi : (s.call i).running = true) : CallMove s (.drop i) i .dropped

/-- A step leaves the calls alone, or one of them goes on. -/
theorem step_call (s : Connection) (a : ConnectionAction) : (s.step a).call = s.call ∨
    ∃ i phase, CallMove s a i phase ∧ (s.step a).call = Function.update s.call i phase := by
  cases a with
  | request handler =>
    simp only [step]
    split_ifs
    · exact .inl rfl
    · exact .inr ⟨_, _, .entering handler, rfl⟩
    · exact .inr ⟨_, _, .overflow handler _, rfl⟩
  | enter i =>
    simp only [step]
    split_ifs with hi
    · exact .inr ⟨i, _, .entered hi, rfl⟩
    · exact .inl rfl
  | send i =>
    simp only [step]
    split_ifs with hi hopen
    · exact .inr ⟨i, _, .sent hi hopen, rfl⟩
    · exact .inr ⟨i, _, .refused hi, rfl⟩
    · exact .inl rfl
  | withdraw i =>
    simp only [step]
    split_ifs with hi
    · exact .inr ⟨i, _, .withdrawn hi _, rfl⟩
    · exact .inl rfl
  | take i =>
    simp only [step]
    split_ifs with hi
    · cases hanswer : s.requests.answer? i with
      | none => exact .inl rfl
      | some result =>
        obtain ⟨⟨call, result⟩, hfind, rfl⟩ := Option.map_eq_some_iff.mp hanswer
        have hcall := List.find?_some hfind
        rw [decide_eq_true_eq] at hcall
        exact .inr ⟨_, _, .taken hi (hcall ▸ List.mem_of_find?_eq_some hfind), rfl⟩
    · exact .inl rfl
  | drop i =>
    simp only [step]
    split_ifs with hdrop
    · exact .inr ⟨i, _, .dropped (droppable_running hdrop), rfl⟩
    · exact .inl rfl
  | receive | cancel | cancelAll | abortHandlers | joinHandlers | awaitWriter =>
    simp only [step]
    split_ifs <;> exact .inl rfl
  | exitWriter => exact .inl rfl

/-- What has been handed out stays, and what a reply adds carries the identifier of its call. -/
theorem Sound.step_answers (h : Sound s) (a : ConnectionAction) :
    s.requests.answers ⊆ (s.step a).requests.answers ∧
      ∀ value, (c, .ok value) ∈ (s.step a).requests.answers →
        (c, .ok value) ∈ s.requests.answers ∨ ∃ msg, a = .receive msg ∧ s.teardown = .serving ∧
          classifyInbound msg = .ok (.response (requestKey c) (.ok value)) := by
  have hsame : ∀ s' : Connection, s'.requests.answers = s.requests.answers →
      s.requests.answers ⊆ s'.requests.answers ∧
        ∀ value, (c, .ok value) ∈ s'.requests.answers →
          (c, .ok value) ∈ s.requests.answers ∨ ∃ msg, a = .receive msg ∧ s.teardown = .serving ∧
            classifyInbound msg = .ok (.response (requestKey c) (.ok value)) := by
    intro s' heq
    rw [heq]
    exact ⟨List.Subset.refl _, fun value hc => .inl hc⟩
  have hmoves := s.step_moves a
  generalize s.step a = s' at hmoves ⊢
  cases hmoves with
  | received msg hserving =>
    simp only [PendingRequests.receive]
    split
    next id result hmsg =>
      rw [(s.requests.resolvePending_spec id result).1]
      refine ⟨List.subset_append_left _ _, fun value hc => ?_⟩
      rw [List.mem_append, List.mem_map] at hc
      rcases hc with hc | ⟨i, hi, heq⟩
      · exact .inl hc
      · rw [Option.mem_toList] at hi
        obtain ⟨rfl, rfl⟩ := Prod.mk.inj heq
        rw [(h.table id i hi).1] at hmsg
        exact .inr ⟨msg, rfl, hserving, hmsg⟩
    · exact hsame s rfl
    · exact hsame s rfl
  | drained =>
    refine ⟨List.subset_append_left _ _, fun value hc => .inl ?_⟩
    simpa only [PendingRequests.cancelAll, List.mem_append, List.mem_map, Prod.mk.injEq,
      reduceCtorEq, and_false, exists_false, or_false] using hc
  | _ => exact hsame _ rfl

/-- A call that has returned stays as it is. -/
theorem Sound.returned_step (h : Sound s) {result : Except AcpError Json}
    (hc : s.call c = .returned result) : (s.step a).call c = .returned result := by
  rcases s.step_call a with heq | ⟨i, phase, hmove, heq⟩
  · rw [heq, hc]
  · have hne : c ≠ i := by
      rintro rfl
      cases hmove with
      | entering | overflow =>
        rw [h.begun _ le_rfl] at hc
        cases hc
      | entered hi | sent hi | refused hi | withdrawn hi | taken hi =>
        rw [hi] at hc
        cases hc
      | dropped hi =>
        rw [hc] at hi
        cases hi
    rw [heq, Function.update_of_ne hne, hc]

/-- A call that waits returns what was handed out to it. -/
theorem returned_of_step {value : Json} (hc : (s.step a).call c = .returned (.ok value)) :
    s.call c = .returned (.ok value) ∨
      s.call c = .waiting ∧ (c, .ok value) ∈ s.requests.answers := by
  rcases s.step_call a with heq | ⟨i, phase, hmove, heq⟩
  · rw [heq] at hc
    exact .inl hc
  · rw [heq] at hc
    by_cases hci : c = i
    · subst hci
      rw [Function.update_self] at hc
      subst hc
      cases hmove with
      | taken hi hanswer => exact .inr ⟨hi, hanswer⟩
    · rw [Function.update_of_ne hci] at hc
      exact .inl hc

/-- A call waits because it did, or because its message has just been handed to the writer. -/
theorem waiting_of_step (hc : (s.step a).call c = .waiting) :
    s.call c = .waiting ∨ a = .send c ∧ s.call c = .entered ∧ s.writerOpen = true := by
  rcases s.step_call a with heq | ⟨i, phase, hmove, heq⟩
  · rw [heq] at hc
    exact .inl hc
  · rw [heq] at hc
    by_cases hci : c = i
    · subst hci
      rw [Function.update_self] at hc
      subst hc
      cases hmove with
      | sent hi hopen => exact .inr ⟨rfl, hi, hopen⟩
    · rw [Function.update_of_ne hci] at hc
      exact .inl hc

theorem request_nextId (s : Connection) : (s.step (.request false)).nextId = s.nextId + 1 := by
  simp only [step, Bool.false_and, Bool.false_eq_true, ↓reduceIte]
  split_ifs <;> rfl

/-- A call whose message has been handed to the writer does not come back to it. -/
theorem Sound.past_step (h : Sound s) (hc : (s.call c).past = true) :
    ((s.step a).call c).past = true := by
  rcases s.step_call a with heq | ⟨i, phase, hmove, heq⟩
  · rw [heq, hc]
  · rw [heq]
    by_cases hci : c = i
    · subst hci
      rw [Function.update_self]
      cases hmove with
      | entering =>
        rw [h.begun _ le_rfl] at hc
        cases hc
      | entered hi =>
        rw [hi] at hc
        cases hc
      | _ => rfl
    · rw [Function.update_of_ne hci, hc]

end Connection

/-! ### Permissions -/

/-- The mode of a session behind the changes. -/
def modeOf (changes : List (String × PermissionMode)) (sessionId : String) : PermissionMode :=
  changes.foldl (fun mode c => if c.1 = sessionId then c.2 else mode) .default

theorem modeOf_append (changes : List (String × PermissionMode)) (id id' : String)
    (mode : PermissionMode) :
    modeOf (changes ++ [(id, mode)]) id' = if id = id' then mode else modeOf changes id' := by
  rw [modeOf, List.foldl_append]
  rfl

/-- The permission that an execution has been given. -/
def FsPhase.grant? : FsPhase → Option Grant
  | .permitted grant | .operating grant _ | .ended (some (grant, _)) _ => some grant
  | .judging | .mustAsk | .asking _ | .ended none _ => none

/-- The access that an execution makes or has made. -/
def FsPhase.access? : FsPhase → Option (Grant × ℕ)
  | .operating grant call => some (grant, call)
  | .ended access _ => access
  | .judging | .mustAsk | .asking _ | .permitted _ => none

theorem FsPhase.grant?_of_access? {phase : FsPhase} {g : Grant} {call : ℕ}
    (h : phase.access? = some (g, call)) : phase.grant? = some g := by
  cases phase with
  | operating g' call' =>
    obtain ⟨rfl, -⟩ := Prod.mk.inj (Option.some.inj h)
    rfl
  | ended access result =>
    obtain rfl : access = some (g, call) := h
    rfl
  | _ => cases h

/-- Nothing but an allowing reply permits. -/
theorem FsExecution.judged_grant {call : ℕ} {result : Except AcpError Json} {g : Grant}
    (h : (judged call result).grant? = some g) : g = .asked call ∧ ∃ value, result = .ok value ∧
      (PermissionOutcome.fromValue value).allowed = true := by
  cases result with
  | error e => cases h
  | ok value =>
    simp only [judged] at h
    split_ifs at h with hallowed
    · exact ⟨(Option.some.inj h).symm, value, rfl, hallowed⟩
    · cases h

theorem FsExecution.judged_ne_asking (call : ℕ) (result : Except AcpError Json) (c : ℕ) :
    judged call result ≠ .asking c := by
  cases result with
  | error e => exact FsPhase.noConfusion
  | ok value =>
    simp only [judged]
    split_ifs
    · exact FsPhase.noConfusion
    · exact FsPhase.noConfusion

namespace FsSystem

/-- The permission of an execution: its session was in a mode that wants none after so many of the
changes, since the execution began, or the client has allowed it in the reply to its own request. -/
def Granted (s : FsSystem) (i : ℕ) (t : FsExecution) : Grant → Prop
  | .free n => t.begun ≤ n ∧ n ≤ s.changes.length ∧
      (modeOf (s.changes.take n) t.sessionId).requiresPermission = false
  | .asked call => s.purpose call = some (i, .permission) ∧
      ∃ value, s.connection.call call = .returned (.ok value) ∧
        (PermissionOutcome.fromValue value).allowed = true

structure Sound (s : FsSystem) : Prop where
  connection : s.connection.Sound
  modes : ∀ id, s.modes id = modeOf s.changes id
  fresh : ∀ i, s.nextExecution ≤ i → s.execution i = none
  begun : ∀ i t, s.execution i = some t → t.begun ≤ s.changes.length
  unasked : ∀ c, s.connection.nextId ≤ c → s.purpose c = none
  owner : ∀ c i p, s.purpose c = some (i, p) → ∃ t, s.execution i = some t
  asking : ∀ i t c, s.execution i = some t → t.phase = .asking c →
    s.purpose c = some (i, .permission)
  granted : ∀ i t g, s.execution i = some t → t.phase.grant? = some g → s.Granted i t g
  accesses : ∀ c i, s.purpose c = some (i, .access) →
    ∃ t g, s.execution i = some t ∧ t.phase.access? = some (g, c)
  answers : ∀ c value, (c, .ok value) ∈ s.connection.requests.answers →
    ∃ msg ∈ s.received, classifyInbound msg = .ok (.response (requestKey c) (.ok value))
  returned : ∀ c value, s.connection.call c = .returned (.ok value) →
    (c, .ok value) ∈ s.connection.requests.answers
  told : ∀ c m, (s.connection.call c = .waiting ∨
    ∃ value, s.connection.call c = .returned (.ok value)) → s.message? c = some m →
    (c, m) ∈ s.sent
  sent : ∀ e ∈ s.sent, s.message? e.1 = some e.2 ∧ (s.connection.call e.1).past = true
  once : (s.sent.map Prod.fst).Nodup

/-- A permission stays while the system goes on. -/
theorem Granted.mono {s s' : FsSystem} {i : ℕ} {t t' : FsExecution} {g : Grant}
    (h : s.Granted i t g) (hbegun : t'.begun = t.begun) (hsession : t'.sessionId = t.sessionId)
    (hchanges : s.changes <+: s'.changes)
    (hpurpose : ∀ c x, s.purpose c = some x → s'.purpose c = some x)
    (hreturned : ∀ c r, s.connection.call c = .returned r → s'.connection.call c = .returned r) :
    s'.Granted i t' g := by
  cases g with
  | free n =>
    obtain ⟨hfirst, hlast, hmode⟩ := h
    obtain ⟨more, hmore⟩ := hchanges
    refine ⟨hbegun ▸ hfirst, ?_, ?_⟩
    · rw [← hmore, List.length_append]
      omega
    · rw [hsession, ← hmore, List.take_append_of_le_length hlast, hmode]
  | asked call =>
    obtain ⟨hcall, value, hvalue, hallowed⟩ := h
    exact ⟨hpurpose _ _ hcall, value, hreturned _ _ hvalue, hallowed⟩

/-- What a request says does not depend on where its execution stands. -/
theorem message?_setPhase {s : FsSystem} {i : ℕ} {t : FsExecution} (hi : s.execution i = some t)
    (phase : FsPhase) (c : ℕ) : (s.setPhase i t phase).message? c = s.message? c := by
  unfold message?
  show (s.purpose c).bind _ = _
  cases s.purpose c with
  | none => rfl
  | some owner =>
    obtain ⟨j, p⟩ := owner
    show ((s.setPhase i t phase).execution j).bind _ = (s.execution j).bind _
    by_cases hji : j = i
    · subst hji
      rw [setPhase_execution, hi]
      rfl
    · rw [setPhase_execution_of_ne s hji]

namespace Sound

variable {s : FsSystem}

theorem start : Sound start where
  connection := .start
  modes _ := rfl
  fresh _ _ := rfl
  begun _ _ h := by cases h
  unasked _ _ := rfl
  owner _ _ _ h := by cases h
  asking _ _ _ h := by cases h
  granted _ _ _ h := by cases h
  accesses _ _ h := by cases h
  answers _ _ h := by cases h
  returned _ _ h := by cases h
  told _ _ _ h := by cases h
  sent := List.forall_mem_nil _
  once := List.nodup_nil

/-- An execution goes on where its requests and its permission allow it. -/
theorem setPhase (h : Sound s) {i : ℕ} {t : FsExecution} (hi : s.execution i = some t)
    {phase : FsPhase}
    (hasking : ∀ c, phase = .asking c → s.purpose c = some (i, .permission))
    (hgrant : ∀ g, phase.grant? = some g → s.Granted i t g)
    (haccess : ∀ a, t.phase.access? = some a → phase.access? = some a) :
    Sound (s.setPhase i t phase) := by
  have hself := s.setPhase_execution i t phase
  have hother : ∀ j, j ≠ i → (s.setPhase i t phase).execution j = s.execution j :=
    fun j hj => s.setPhase_execution_of_ne hj t phase
  have hkept : ∀ j u g, s.Granted j u g → (s.setPhase i t phase).Granted j u g :=
    fun j u g hg => hg.mono rfl rfl (List.prefix_refl _) (fun _ _ hc => hc) fun _ _ hc => hc
  constructor
  · exact h.connection
  · exact h.modes
  · intro j hj
    have hne : j ≠ i := by
      rintro rfl
      rw [h.fresh j hj] at hi
      cases hi
    rw [hother j hne]
    exact h.fresh j hj
  · intro j u hu
    by_cases hji : j = i
    · subst hji
      rw [hself] at hu
      obtain rfl := Option.some.inj hu
      exact h.begun j t hi
    · rw [hother j hji] at hu
      exact h.begun j u hu
  · exact h.unasked
  · intro c j p hc
    by_cases hji : j = i
    · subst hji
      exact ⟨_, hself⟩
    · rw [hother j hji]
      exact h.owner c j p hc
  · intro j u c hu hphase
    by_cases hji : j = i
    · subst hji
      rw [hself] at hu
      obtain rfl := Option.some.inj hu
      exact hasking c hphase
    · rw [hother j hji] at hu
      exact h.asking j u c hu hphase
  · intro j u g hu hg
    by_cases hji : j = i
    · subst hji
      rw [hself] at hu
      obtain rfl := Option.some.inj hu
      exact (hgrant g hg).mono rfl rfl (List.prefix_refl _) (fun _ _ hc => hc) fun _ _ hc => hc
    · rw [hother j hji] at hu
      exact hkept j u g (h.granted j u g hu hg)
  · intro c j hc
    obtain ⟨u, g, hu, hg⟩ := h.accesses c j hc
    by_cases hji : j = i
    · subst hji
      rw [hi] at hu
      obtain rfl := Option.some.inj hu
      exact ⟨_, g, hself, haccess _ hg⟩
    · exact ⟨u, g, (hother j hji).trans hu, hg⟩
  · exact h.answers
  · exact h.returned
  · intro c m hc hm
    rw [message?_setPhase hi] at hm
    exact h.told c m hc hm
  · intro e he
    rw [message?_setPhase hi]
    exact h.sent e he
  · exact h.once

/-- A new execution has no request and no permission. -/
theorem begin (h : Sound s) (sessionId toolCallId : String) (args : FsArgs) {phase : FsPhase}
    (hasking : ∀ c, phase ≠ .asking c) (hgrant : phase.grant? = none) :
    Sound (s.begin sessionId toolCallId args phase) := by
  have hnone := h.fresh s.nextExecution le_rfl
  have hself : (s.begin sessionId toolCallId args phase).execution s.nextExecution =
      some ⟨sessionId, toolCallId, args, s.changes.length, phase⟩ := Function.update_self ..
  have hother : ∀ j, j ≠ s.nextExecution →
      (s.begin sessionId toolCallId args phase).execution j = s.execution j :=
    fun j hj => Function.update_of_ne hj ..
  have hne : ∀ j t, s.execution j = some t → j ≠ s.nextExecution := by
    rintro j t hj rfl
    rw [hnone] at hj
    cases hj
  have hmessage : ∀ c, (s.begin sessionId toolCallId args phase).message? c = s.message? c := by
    intro c
    unfold message?
    show (s.purpose c).bind _ = _
    cases hc : s.purpose c with
    | none => rfl
    | some owner =>
      obtain ⟨j, p⟩ := owner
      obtain ⟨t, ht⟩ := h.owner c j p hc
      show ((s.begin sessionId toolCallId args phase).execution j).bind _ =
        (s.execution j).bind _
      rw [hother j (hne j t ht)]
  constructor
  · exact h.connection
  · exact h.modes
  · intro j hj
    rw [hother j (Nat.ne_of_gt hj)]
    exact h.fresh j (Nat.le_of_succ_le hj)
  · intro j u hu
    by_cases hj : j = s.nextExecution
    · subst hj
      rw [hself] at hu
      obtain rfl := Option.some.inj hu
      exact le_rfl
    · rw [hother j hj] at hu
      exact h.begun j u hu
  · exact h.unasked
  · intro c j p hc
    obtain ⟨t, ht⟩ := h.owner c j p hc
    exact ⟨t, (hother j (hne j t ht)).trans ht⟩
  · intro j u c hu hphase
    by_cases hj : j = s.nextExecution
    · subst hj
      rw [hself] at hu
      obtain rfl := Option.some.inj hu
      exact absurd hphase (hasking c)
    · rw [hother j hj] at hu
      exact h.asking j u c hu hphase
  · intro j u g hu hg
    by_cases hj : j = s.nextExecution
    · subst hj
      rw [hself] at hu
      obtain rfl := Option.some.inj hu
      rw [hgrant] at hg
      cases hg
    · rw [hother j hj] at hu
      exact (h.granted j u g hu hg).mono rfl rfl (List.prefix_refl _) (fun _ _ hc => hc)
        fun _ _ hc => hc
  · intro c j hc
    obtain ⟨u, g, hu, hg⟩ := h.accesses c j hc
    exact ⟨u, g, (hother j (hne j u hu)).trans hu, hg⟩
  · exact h.answers
  · exact h.returned
  · intro c m hc hm
    rw [hmessage] at hm
    exact h.told c m hc hm
  · intro e he
    rw [hmessage]
    exact h.sent e he
  · exact h.once

/-- What becomes of the calls when the connection takes a step that hands nothing to the writer. -/
theorem told_step {a : ConnectionAction} {c : ℕ} (ha : a ≠ .send c)
    (hc : (s.connection.step a).call c = .waiting ∨
      ∃ value, (s.connection.step a).call c = .returned (.ok value)) :
    s.connection.call c = .waiting ∨ ∃ value, s.connection.call c = .returned (.ok value) := by
  rcases hc with hc | ⟨value, hc⟩
  · rcases Connection.waiting_of_step hc with hold | ⟨hsend, -⟩
    · exact .inl hold
    · exact absurd hsend ha
  · rcases Connection.returned_of_step hc with hold | ⟨hold, -⟩
    · exact .inr ⟨value, hold⟩
    · exact .inl hold

theorem returned_step (h : Sound s) {a : ConnectionAction} {c : ℕ} {value : Json}
    (hc : (s.connection.step a).call c = .returned (.ok value)) :
    (c, .ok value) ∈ (s.connection.step a).requests.answers := by
  obtain ⟨hkept, -⟩ := h.connection.step_answers (c := c) a
  rcases Connection.returned_of_step hc with hold | ⟨-, hanswer⟩
  · exact hkept (h.returned c value hold)
  · exact hkept hanswer

/-- A request of an execution begins. -/
theorem request (h : Sound s) {i : ℕ} {t : FsExecution} (hi : s.execution i = some t)
    {p : Purpose}
    (haccess : p = .access → ∃ g, t.phase.access? = some (g, s.connection.nextId)) :
    Sound (s.request i p) := by
  have hold : ∀ c, c ≠ s.connection.nextId → (s.request i p).purpose c = s.purpose c :=
    fun c hc => Function.update_of_ne hc ..
  have hnew : (s.request i p).purpose s.connection.nextId = some (i, p) :=
    Function.update_self ..
  have hpurpose : ∀ c x, s.purpose c = some x → (s.request i p).purpose c = some x := by
    intro c x hc
    have hne : c ≠ s.connection.nextId := by
      rintro rfl
      rw [h.unasked _ le_rfl] at hc
      cases hc
    exact (hold c hne).trans hc
  have hmessage : ∀ c, c ≠ s.connection.nextId → (s.request i p).message? c = s.message? c := by
    intro c hc
    unfold message?
    rw [hold c hc]
    rfl
  have hidle := h.connection.begun s.connection.nextId le_rfl
  constructor
  · exact h.connection.step (.request false)
  · exact h.modes
  · exact h.fresh
  · exact h.begun
  · intro c hc
    have hnext : s.connection.nextId + 1 ≤ c := s.connection.request_nextId ▸ hc
    rw [hold c (Nat.ne_of_gt hnext)]
    exact h.unasked c (Nat.le_of_succ_le hnext)
  · intro c j p' hc
    by_cases hcn : c = s.connection.nextId
    · rw [hcn, hnew] at hc
      obtain ⟨rfl, -⟩ := Prod.mk.inj (Option.some.inj hc)
      exact ⟨t, hi⟩
    · rw [hold c hcn] at hc
      exact h.owner c j p' hc
  · exact fun j u c hu hphase => hpurpose _ _ (h.asking j u c hu hphase)
  · intro j u g hu hg
    exact (h.granted j u g hu hg).mono rfl rfl (List.prefix_refl _) hpurpose
      fun c r hc => h.connection.returned_step hc
  · intro c j hc
    by_cases hcn : c = s.connection.nextId
    · rw [hcn, hnew] at hc
      obtain ⟨rfl, rfl⟩ := Prod.mk.inj (Option.some.inj hc)
      obtain ⟨g, hg⟩ := haccess rfl
      exact ⟨t, g, hi, hcn ▸ hg⟩
    · rw [hold c hcn] at hc
      exact h.accesses c j hc
  · intro c value hc
    rcases (h.connection.step_answers (.request false)).2 value hc with hanswer | ⟨_, ha, -⟩
    · exact h.answers c value hanswer
    · cases ha
  · exact fun c value hc => h.returned_step hc
  · intro c m hc hm
    have hbefore := told_step (by simp) hc
    have hne : c ≠ s.connection.nextId := by
      rintro rfl
      rw [hidle] at hbefore
      simp at hbefore
    rw [hmessage c hne] at hm
    exact h.told c m hbefore hm
  · intro e he
    obtain ⟨hm, hpast⟩ := h.sent e he
    have hne : e.1 ≠ s.connection.nextId := by
      intro heq
      rw [heq, hidle] at hpast
      cases hpast
    rw [hmessage e.1 hne]
    exact ⟨hm, h.connection.past_step hpast⟩
  · exact h.once

/-- What the writer is handed is the message of a call that waits from then on. -/
theorem mem_handed {a : ConnectionAction} {e : ℕ × String × Json} (he : e ∈ s.handed a) :
    a = .send e.1 ∧ s.connection.call e.1 = .entered ∧ s.message? e.1 = some e.2 ∧
      (s.connection.step a).call e.1 = .waiting := by
  cases a with
  | send call =>
    simp only [handed] at he
    split_ifs at he with hentered
    · obtain ⟨m, hm, rfl⟩ := List.mem_map.mp he
      refine ⟨rfl, hentered.1, Option.mem_toList.mp hm, ?_⟩
      simp only [Connection.step, hentered.1, hentered.2, ↓reduceIte, Connection.setCall_call]
    · cases he
  | _ => cases he

theorem handed_of_send {c : ℕ} {m : String × Json} (hc : s.connection.call c = .entered)
    (hopen : s.connection.writerOpen = true) (hm : s.message? c = some m) :
    s.handed (.send c) = [(c, m)] := by
  simp only [handed, hc, hopen, hm, and_self, ↓reduceIte, Option.toList_some, List.map_cons,
    List.map_nil]

theorem handed_once (s : FsSystem) (a : ConnectionAction) : ((s.handed a).map Prod.fst).Nodup := by
  cases a with
  | send call =>
    simp only [handed]
    split_ifs
    · cases s.message? call <;> simp
    · exact List.nodup_nil
  | _ => exact List.nodup_nil

/-- The connection takes a step of its own; what is handed to the writer is handed to it once, and
a reply is read while the connection serves. -/
theorem advance (h : Sound s) (a : ConnectionAction)
    (ha : (s.connection.step a).nextId = s.connection.nextId) :
    Sound { s with connection := s.connection.step a
                   sent := s.sent ++ s.handed a
                   received := s.received ++ s.heard a } := by
  constructor
  · exact h.connection.step a
  · exact h.modes
  · exact h.fresh
  · exact h.begun
  · intro c hc
    exact h.unasked c (ha ▸ hc)
  · exact h.owner
  · exact h.asking
  · intro j u g hu hg
    exact (h.granted j u g hu hg).mono rfl rfl (List.prefix_refl _) (fun _ _ hc => hc)
      fun c r hc => h.connection.returned_step hc
  · exact h.accesses
  · intro c value hc
    rcases (h.connection.step_answers a).2 value hc with hanswer | ⟨msg, rfl, hserving, hmsg⟩
    · obtain ⟨msg, hmem, hmsg⟩ := h.answers c value hanswer
      exact ⟨msg, List.mem_append_left _ hmem, hmsg⟩
    · refine ⟨msg, List.mem_append_right _ ?_, hmsg⟩
      simp only [heard, hserving, ↓reduceIte, List.mem_singleton]
  · exact fun c value hc => h.returned_step hc
  · intro c m hc hm
    by_cases hsend : a = .send c
    · subst hsend
      by_cases hbefore : s.connection.call c = .waiting ∨
          ∃ value, s.connection.call c = .returned (.ok value)
      · exact List.mem_append_left _ (h.told c m hbefore hm)
      · refine List.mem_append_right _ ?_
        rcases hc with hc | ⟨value, hc⟩
        · rcases Connection.waiting_of_step hc with hold | ⟨-, hentered, hopen⟩
          · exact absurd (.inl hold) hbefore
          · rw [handed_of_send hentered hopen hm]
            exact List.mem_singleton_self _
        · rcases Connection.returned_of_step hc with hold | ⟨hold, -⟩
          · exact absurd (.inr ⟨value, hold⟩) hbefore
          · exact absurd (.inl hold) hbefore
    · exact List.mem_append_left _ (h.told c m (told_step hsend hc) hm)
  · intro e he
    rcases List.mem_append.mp he with he | he
    · obtain ⟨hm, hpast⟩ := h.sent e he
      exact ⟨hm, h.connection.past_step hpast⟩
    · obtain ⟨-, -, hm, hwaiting⟩ := mem_handed he
      exact ⟨hm, by rw [hwaiting]; rfl⟩
  · rw [List.map_append]
    refine List.Nodup.append h.once (handed_once s a) ?_
    intro c hc hc'
    obtain ⟨e, he, rfl⟩ := List.mem_map.mp hc
    obtain ⟨e', he', heq⟩ := List.mem_map.mp hc'
    obtain ⟨-, hentered, -⟩ := mem_handed he'
    have hpast := (h.sent e he).2
    rw [← heq, hentered] at hpast
    cases hpast

theorem stepConnection (h : Sound s) (a : ConnectionAction) : Sound (s.stepConnection a) := by
  have hnext : (∀ handler, a ≠ .request handler) →
      (s.connection.step a).nextId = s.connection.nextId := by
    intro ha
    have hmoves := s.connection.step_moves a
    generalize s.connection.step a = c at hmoves ⊢
    cases hmoves with
    | begun handler => exact absurd rfl (ha handler)
    | _ => rfl
  cases a with
  | request => exact h
  | _ => exact h.advance _ (hnext (by simp))

/-- A session is set to a mode. -/
theorem setMode (h : Sound s) (id : String) (mode : PermissionMode) :
    Sound { s with modes := Function.update s.modes id mode
                   changes := s.changes ++ [(id, mode)] } := by
  have hlength : s.changes.length ≤ (s.changes ++ [(id, mode)]).length := by
    rw [List.length_append]
    exact Nat.le_add_right _ _
  constructor
  · exact h.connection
  · intro id'
    rw [modeOf_append]
    by_cases hid : id = id'
    · subst hid
      rw [if_pos rfl]
      exact Function.update_self ..
    · rw [if_neg hid, ← h.modes id']
      exact Function.update_of_ne (Ne.symm hid) ..
  · exact h.fresh
  · exact fun i t hi => (h.begun i t hi).trans hlength
  · exact h.unasked
  · exact h.owner
  · exact h.asking
  · intro j u g hu hg
    exact (h.granted j u g hu hg).mono rfl rfl (List.prefix_append _ _) (fun _ _ hc => hc)
      fun _ _ hc => hc
  · exact h.accesses
  · exact h.answers
  · exact h.returned
  · exact h.told
  · exact h.sent
  · exact h.once

/-- Every step keeps the permissions and the accesses together. -/
theorem step (h : Sound s) (a : FsAction) : Sound (s.step a) := by
  cases a with
  | setMode sessions params =>
    simp only [FsSystem.step, handleSetMode]
    split
    next s' hset =>
      split at hset
      · cases hset
      · split at hset
        · cases hset
        · split_ifs at hset
          obtain rfl := Except.ok.inj hset
          exact h.setMode _ _
    · exact h
  | execute sessionId toolCallId args cancelled argumentsError =>
    simp only [FsSystem.step]
    split_ifs
    · exact h.begin _ _ _ (by simp) rfl
    · split
      · exact h.begin _ _ _ (by simp) rfl
      · exact h.begin _ _ _ (by simp) rfl
  | readMode i =>
    simp only [FsSystem.step]
    split
    next t hi =>
      split
      next hphase =>
        split_ifs with hmode
        · exact h.setPhase hi (by simp) (by simp [FsPhase.grant?])
            (by simp [hphase, FsPhase.access?])
        · refine h.setPhase hi (by simp) ?_ (by simp [hphase, FsPhase.access?])
          rintro g hg
          obtain rfl := Option.some.inj hg
          refine ⟨h.begun i t hi, le_rfl, ?_⟩
          rw [List.take_length, ← h.modes]
          exact eq_false_of_ne_true hmode
      · exact h
    · exact h
  | ask i =>
    simp only [FsSystem.step]
    split
    next t hi =>
      split
      next hphase =>
        refine (h.request hi (p := .permission) (by simp)).setPhase hi ?_ (by simp [FsPhase.grant?])
          (by simp [hphase, FsPhase.access?])
        intro c hc
        obtain rfl := FsPhase.asking.inj hc
        exact Function.update_self ..
      · exact h
    · exact h
  | judge i =>
    simp only [FsSystem.step]
    split
    next t hi =>
      split
      next call hphase =>
        split
        next result hresult =>
          refine h.setPhase hi ?_ ?_ (by simp [hphase, FsPhase.access?])
          · intro c hc
            exact absurd hc (FsExecution.judged_ne_asking call result c)
          · intro g hg
            obtain ⟨rfl, value, rfl, hallowed⟩ := FsExecution.judged_grant hg
            exact ⟨h.asking i t call hi hphase, value, hresult, hallowed⟩
        · exact h
      · exact h
    · exact h
  | operate i =>
    simp only [FsSystem.step]
    split
    next t hi =>
      split
      next grant hphase =>
        have hgranted := h.granted i t grant hi (by rw [hphase]; rfl)
        split
        · have hset : Sound (s.setPhase i t (.operating grant s.connection.nextId)) := by
            refine h.setPhase hi (by simp) ?_ (by simp [hphase, FsPhase.access?])
            intro g hg
            obtain rfl := Option.some.inj hg
            exact hgranted
          exact hset.request (s.setPhase_execution i t _) fun _ => ⟨grant, rfl⟩
        · exact h.setPhase hi (by simp) (by simp [FsPhase.grant?])
            (by simp [hphase, FsPhase.access?])
      · exact h
    · exact h
  | finish i =>
    simp only [FsSystem.step]
    split
    next t hi =>
      split
      next grant call hphase =>
        split
        · refine h.setPhase hi (by simp) ?_ (by simp [hphase, FsPhase.access?])
          intro g hg
          obtain rfl := Option.some.inj hg
          exact h.granted i t grant hi (by rw [hphase]; rfl)
        · exact h
      · exact h
    · exact h
  | connection a => exact h.stepConnection a

end Sound

/-- The message lets the client touch one of its files. -/
def FileAccess (m : String × Json) : Prop :=
  m.1 = "fs/read_text_file" ∨ m.1 = "fs/write_text_file"

/-- What the access of an execution rests on: the mode its session was in at some moment of the
execution wants no permission, or the request for its permission was handed to the writer and the
client has allowed it in a reply to this request. -/
def Permitted (s : FsSystem) (i : ℕ) (t : FsExecution) : Prop :=
  (∃ n, t.begun ≤ n ∧ n ≤ s.changes.length ∧
    (modeOf (s.changes.take n) t.sessionId).requiresPermission = false) ∨
  ∃ call value, s.purpose call = some (i, .permission) ∧
    (call, "session/request_permission", t.permissionParams) ∈ s.sent ∧
    s.connection.call call = .returned (.ok value) ∧
    (∃ msg ∈ s.received, classifyInbound msg = .ok (.response (requestKey call) (.ok value))) ∧
    (PermissionOutcome.fromValue value).allowed = true

/-- Every access that was handed to the writer is the only one of its execution, says what the
arguments of the execution ask for, and is permitted. -/
def Guarded (s : FsSystem) : Prop :=
  (s.sent.map Prod.fst).Nodup ∧
  ∀ e ∈ s.sent, FileAccess e.2 → ∃ i t, s.purpose e.1 = some (i, .access) ∧
    s.execution i = some t ∧ t.operation = .ok e.2 ∧ Permitted s i t ∧
    ∀ e' ∈ s.sent, s.purpose e'.1 = some (i, .access) → e' = e

theorem Sound.permitted (h : Sound s) {i : ℕ} {t : FsExecution} {g : Grant}
    (hi : s.execution i = some t) (hg : s.Granted i t g) : Permitted s i t := by
  cases g with
  | free n => exact .inl ⟨n, hg⟩
  | asked call =>
    obtain ⟨hcall, value, hreturned, hallowed⟩ := hg
    refine .inr ⟨call, value, hcall, ?_, hreturned, ?_, hallowed⟩
    · refine h.told call _ (.inr ⟨value, hreturned⟩) ?_
      rw [message?, hcall, Option.bind_some, hi]
      rfl
    · exact h.answers call value (h.returned call value hreturned)

theorem Sound.guarded (h : Sound s) : Guarded s := by
  refine ⟨h.once, fun e he haccess => ?_⟩
  obtain ⟨hm, -⟩ := h.sent e he
  obtain ⟨⟨i, p⟩, hpurpose, hm⟩ := Option.bind_eq_some_iff.mp hm
  obtain ⟨t, hi, hm⟩ := Option.bind_eq_some_iff.mp hm
  cases p with
  | permission =>
    have hname : "session/request_permission" = e.2.1 :=
      congrArg Prod.fst (Option.some.inj hm)
    rcases haccess with haccess | haccess
    · rw [haccess] at hname
      exact absurd hname (by decide)
    · rw [haccess] at hname
      exact absurd hname (by decide)
  | access =>
    obtain ⟨t', g, hi', hg⟩ := h.accesses _ i hpurpose
    obtain rfl := Option.some.inj (hi.symm.trans hi')
    have hgranted := h.granted i t g hi (FsPhase.grant?_of_access? hg)
    refine ⟨i, t, hpurpose, hi, ?_, h.permitted hi hgranted, ?_⟩
    · cases hoperation : t.operation with
      | error text =>
        simp only [FsExecution.message?, hoperation, Except.toOption] at hm
        cases hm
      | ok m =>
        simp only [FsExecution.message?, hoperation, Except.toOption] at hm
        rw [Option.some.inj hm]
    · intro e' he' hpurpose'
      obtain ⟨t', g', hi', hg'⟩ := h.accesses _ i hpurpose'
      obtain rfl := Option.some.inj (hi.symm.trans hi')
      have hcall : e'.1 = e.1 := (Prod.mk.inj (Option.some.inj (hg'.symm.trans hg))).2
      have hmessage := (h.sent e' he').1
      rw [hcall, (h.sent e he).1] at hmessage
      exact Prod.ext hcall (Option.some.inj hmessage).symm

/-- However executions, replies, changes of modes and the end of the connection interleave, no file
is accessed through the client without a permission, and none twice on one permission. -/
theorem accesses_guarded (as : List FsAction) : Runs.Throughout step Guarded start as := by
  have hstep : ∀ (s : FsSystem) a, Sound s → Sound (s.step a) := fun _ a h => h.step a
  exact Runs.always hstep (fun _ h => h.guarded) Sound.start as

/-- A write in a session in its first mode, which the client allows. -/
example :
    let outcome := .obj [("outcome", .obj [("optionId", .str "allow_once"),
      ("outcome", .str "selected")])]
    let args := .obj [("operation", .str "write"), ("path", .str "/f"), ("content", .str "x")]
    (Runs.run step start [.execute "s" "t" args false "", .readMode 0, .ask 0,
      .connection (.enter 1), .connection (.send 1),
      .connection (.receive ⟨some "2.0", some (requestKey 1).toValue, none, none, some outcome,
        none⟩),
      .connection (.take 1), .judge 0, .operate 0, .connection (.enter 2),
      .connection (.send 2)]).sent.map (fun e => (e.1, e.2.1)) =
        [(1, "session/request_permission"), (2, "fs/write_text_file")] := by
  decide +kernel

end FsSystem

end Guigu.Acp
