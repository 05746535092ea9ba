import Guigu.Acp.Prompts
import Guigu.Library.Runs

/-! When the prompts of a session answer: what a prompt has read and what it can still read is what
its own run has sent. -/
namespace Guigu.Acp

open Broadcast

theorem lastTurnStop_append (last : Option StopReason) (es fs : List AgentEvent) :
    lastTurnStop last (es ++ fs) = lastTurnStop (lastTurnStop last es) fs := List.foldl_append

theorem lastTurnStop_of_silent {es : List AgentEvent} (h : ∀ e ∈ es, turnStop? e = none)
    (last : Option StopReason) : lastTurnStop last es = last := by
  induction es generalizing last with
  | nil => rfl
  | cons e es ih =>
    obtain ⟨he, hes⟩ := List.forall_mem_cons.mp h
    have hone : lastTurnStop last (e :: es) = lastTurnStop ((turnStop? e).or last) es := rfl
    rw [hone, he, ih hes]
    rfl

/-- Where no end of a run is lost, what is lost lies in front of the first one. -/
theorem split_lost {lost rest before after : List AgentEvent} {messages : List Message}
    (hlost : ∀ e ∈ lost, isAgentEnd e = false)
    (h : lost ++ rest = before ++ .agentEnd messages :: after) :
    ∃ before', before = lost ++ before' ∧ rest = before' ++ .agentEnd messages :: after := by
  induction lost generalizing before with
  | nil => exact ⟨before, rfl, h⟩
  | cons e lost ih =>
    obtain ⟨he, hes⟩ := List.forall_mem_cons.mp hlost
    cases before with
    | nil =>
      obtain ⟨rfl, -⟩ := List.cons.inj h
      cases he
    | cons e' before =>
      obtain ⟨rfl, htail⟩ := List.cons.inj h
      obtain ⟨before', rfl, hrest⟩ := ih hes htail
      exact ⟨before', rfl, hrest⟩

namespace PromptLane

/-- The events that the prompt can still read. -/
def unread (s : PromptLane) (c : ℕ) : List AgentEvent := s.events.unread (s.call c).next

/-- The prompts that are in the hands of the runtime: that of the run, then those that wait. -/
def owned (s : PromptLane) : List ℕ :=
  (s.run.bind LaneRun.call).toList ++ (s.queue ++ s.rx).filterMap SentCommand.call

/-- What a prompt can tell from what it has read and can still read: in front of its run or in it,
there is no end to read; behind it, the end of its run is the first one to read. -/
def Expects (ended : Option StopReason) (run : Option LaneRun) (c : ℕ) (last : Option StopReason)
    (unread : List AgentEvent) : Prop :=
  match ended with
  | none =>
    (∀ e ∈ unread, isAgentEnd e = false) ∧
      (run = none → lastTurnStop last unread = none) ∧
      ∀ r, run = some r → r.call = some c → lastTurnStop last unread = lastTurnStop none r.events
  | some stop =>
    ∃ before messages after, unread = before ++ .agentEnd messages :: after ∧
      (∀ e ∈ before, isAgentEnd e = false) ∧
      finalStop (lastTurnStop last before) messages = stop

def Awaits (s : PromptLane) (c : ℕ) : Prop :=
  Expects (s.ended c) s.run c (s.call c).lastTurnStop (s.unread c)

/-- What undisturbed steps keep. -/
structure Sound (s : PromptLane) : Prop where
  capacity : 0 < s.events.capacity
  rounds : s.run = none → Round s.pending
  runs : ∀ run, s.run = some run → RunRest s.pending
  begun : ∀ c, s.nextCall ≤ c → (s.call c).phase = .idle ∧ (s.call c).prompted = false
  reach : ∀ c, (s.call c).phase.listens = true → (s.call c).next ≤ s.events.sent.length
  nodup : s.owned.Nodup
  waiting : ∀ c ∈ s.owned, (s.call c).prompted = true ∧ s.ended c = none
  ended : ∀ c stop, s.ended c = some stop → (s.call c).prompted = true
  prompted : ∀ c, (s.call c).prompted = true →
    (s.call c).phase = .consuming ∨ ∃ result, (s.call c).phase = .returned result
  awaits : ∀ c, (s.call c).phase.listens = true → s.Awaits c
  answers : s.Answers

variable {s : PromptLane} {c : ℕ}

@[simp] theorem setCall_self (s : PromptLane) (c : ℕ) (call : PromptCall) :
    (s.setCall c call).call c = call := Function.update_self ..

theorem send_call (s : PromptLane) (cmd : SentCommand) : (s.send cmd).call = s.call := by
  unfold send
  split_ifs
  · rfl
  · rfl

/-- What a prompt awaits depends on the run and the events, and on itself. -/
theorem Awaits.congr {s' : PromptLane} (h : s.Awaits c) (hended : s'.ended c = s.ended c)
    (hrun : s'.run = s.run) (hlast : (s'.call c).lastTurnStop = (s.call c).lastTurnStop)
    (hunread : s'.unread c = s.unread c) : s'.Awaits c := by
  unfold Awaits at h ⊢
  rwa [hended, hrun, hlast, hunread]

namespace Sound

theorem start {capacity : ℕ} (hcapacity : 0 < capacity) (transcript : List Message) :
    Sound (start capacity transcript) where
  capacity := hcapacity
  rounds _ := .over
  runs _ h := by cases h
  begun _ _ := ⟨rfl, rfl⟩
  reach _ h := by cases h
  nodup := List.nodup_nil
  waiting _ h := absurd h List.not_mem_nil
  ended _ _ h := by cases h
  prompted _ h := by cases h
  awaits _ h := by cases h
  answers _ h := by cases h

theorem lt_of_called (h : Sound s) (hc : (s.call c).phase ≠ .idle) : c < s.nextCall :=
  Nat.lt_of_not_le fun hle => hc (h.begun c hle).1

/-- One prompt changes. -/
theorem update (h : Sound s) {n : ℕ} (hn : s.nextCall ≤ n) (hc : c < n) {call : PromptCall}
    (hkept : (s.call c).prompted = true → call.prompted = true)
    (hreach : call.phase.listens = true → call.next ≤ s.events.sent.length)
    (hprompted : call.prompted = true →
      call.phase = .consuming ∨ ∃ result, call.phase = .returned result)
    (hawaits : call.phase.listens = true →
      Expects (s.ended c) s.run c call.lastTurnStop (s.events.unread call.next))
    (hanswers : call.prompted = true → ∀ result, call.phase = .returned result →
      ∃ stop, s.ended c = some stop ∧ ∀ answer, result = .ok answer →
        answer = acpStopReason stop) :
    Sound { s with call := Function.update s.call c call, nextCall := n } := by
  have hself : Function.update s.call c call c = call := Function.update_self ..
  have hother : ∀ d, d ≠ c → Function.update s.call c call d = s.call d :=
    fun d hd => Function.update_of_ne hd ..
  have hstays : ∀ d, (s.call d).prompted = true →
      (Function.update s.call c call d).prompted = true := by
    intro d hd
    by_cases hdc : d = c
    · rw [hdc, hself]
      exact hkept (hdc ▸ hd)
    · rwa [hother d hdc]
  refine ⟨h.capacity, h.rounds, h.runs, ?_, ?_, h.nodup, ?_, ?_, ?_, ?_, ?_⟩
  · intro d hd
    show (Function.update s.call c call d).phase = .idle ∧
      (Function.update s.call c call d).prompted = false
    have hdc : d ≠ c := fun heq => absurd (heq ▸ hd) (Nat.not_le.mpr hc)
    rw [hother d hdc]
    exact h.begun d (hn.trans hd)
  · intro d hd
    show (Function.update s.call c call d).next ≤ _
    change (Function.update s.call c call d).phase.listens = true at hd
    by_cases hdc : d = c
    · rw [hdc, hself] at hd ⊢
      exact hreach hd
    · rw [hother d hdc] at hd ⊢
      exact h.reach d hd
  · intro d hd
    obtain ⟨hprompted', hended⟩ := h.waiting d hd
    exact ⟨hstays d hprompted', hended⟩
  · exact fun d stop hd => hstays d (h.ended d stop hd)
  · intro d hd
    show (Function.update s.call c call d).phase = .consuming ∨
      ∃ result, (Function.update s.call c call d).phase = .returned result
    change (Function.update s.call c call d).prompted = true at hd
    by_cases hdc : d = c
    · rw [hdc, hself] at hd ⊢
      exact hprompted hd
    · rw [hother d hdc] at hd ⊢
      exact h.prompted d hd
  · intro d hd
    change (Function.update s.call c call d).phase.listens = true at hd
    by_cases hdc : d = c
    · rw [hdc, hself] at hd
      rw [hdc]
      show Expects (s.ended c) s.run c (Function.update s.call c call c).lastTurnStop
        (s.events.unread (Function.update s.call c call c).next)
      rw [hself]
      exact hawaits hd
    · rw [hother d hdc] at hd
      have hsame := hother d hdc
      refine (h.awaits d hd).congr rfl rfl (congrArg PromptCall.lastTurnStop hsame) ?_
      exact congrArg (fun call => s.events.unread call.next) hsame
  · intro d hd result hresult
    change (Function.update s.call c call d).prompted = true at hd
    change (Function.update s.call c call d).phase = .returned result at hresult
    by_cases hdc : d = c
    · rw [hdc, hself] at hd hresult
      rw [hdc]
      exact hanswers hd result hresult
    · rw [hother d hdc] at hd hresult
      exact h.answers d hd result hresult

/-- A prompt that has not sent its messages goes on or returns. -/
theorem setPhase (h : Sound s) {phase : PromptPhase} (hcalled : (s.call c).phase ≠ .idle)
    (hunsent : (s.call c).prompted = false) (hphase : phase.listens = false) :
    Sound (s.setPhase c phase) := by
  have hnot : ∀ {p : Prop}, (s.call c).prompted = true → p :=
    fun hi => absurd hi (Bool.eq_false_iff.mp hunsent)
  have hquiet : ∀ {p : Prop}, phase.listens = true → p :=
    fun hi => absurd hi (Bool.eq_false_iff.mp hphase)
  exact h.update le_rfl (h.lt_of_called hcalled) id hquiet hnot hquiet hnot

/-- The runtime goes on. -/
theorem runtime (h : Sound s) {s' : PromptLane} (hcall : s'.call = s.call)
    (hnextCall : s'.nextCall = s.nextCall) (hcapacity : s'.events.capacity = s.events.capacity)
    (hsent : s.events.sent.length ≤ s'.events.sent.length)
    (hrounds : s'.run = none → Round s'.pending)
    (hruns : ∀ run, s'.run = some run → RunRest s'.pending)
    (howned : s'.owned.Sublist s.owned)
    (hended : ∀ c, s'.ended c = s.ended c ∨ c ∈ s.owned ∧ c ∉ s'.owned)
    (hawaits : ∀ c, (s.call c).phase.listens = true → s.Awaits c → s'.Awaits c) : Sound s' := by
  have hkept : ∀ {c stop}, s.ended c = some stop → s'.ended c = some stop := by
    intro c stop hc
    rcases hended c with hsame | ⟨hmem, -⟩
    · exact hsame.trans hc
    · cases (h.waiting c hmem).2.symm.trans hc
  refine ⟨hcapacity ▸ h.capacity, hrounds, hruns, ?_, ?_, howned.nodup h.nodup, ?_, ?_, ?_, ?_, ?_⟩
  · intro c hc
    rw [hcall]
    exact h.begun c (hnextCall ▸ hc)
  · intro c hc
    rw [hcall] at hc ⊢
    exact (h.reach c hc).trans hsent
  · intro c hc
    obtain ⟨hprompted, hnone⟩ := h.waiting c (howned.subset hc)
    rw [hcall]
    refine ⟨hprompted, ?_⟩
    rcases hended c with hsame | ⟨-, hgone⟩
    · exact hsame.trans hnone
    · exact absurd hc hgone
  · intro c stop hc
    rw [hcall]
    rcases hended c with hsame | ⟨hmem, -⟩
    · exact h.ended c stop (hsame.symm.trans hc)
    · exact (h.waiting c hmem).1
  · rw [hcall]
    exact h.prompted
  · intro c hc
    rw [hcall] at hc
    exact hawaits c hc (h.awaits c hc)
  · intro c hc result hresult
    rw [hcall] at hc hresult
    obtain ⟨stop, hstop, hanswer⟩ := h.answers c hc result hresult
    exact ⟨stop, hkept hstop, hanswer⟩

/-- A command enters the channel; a prompt has one command there at most. -/
theorem send (h : Sound s) {cmd : SentCommand}
    (hcall : ∀ c ∈ cmd.call, c ∉ s.owned ∧ (s.call c).prompted = true ∧ s.ended c = none) :
    Sound (s.send cmd) := by
  unfold PromptLane.send
  split_ifs
  · exact h
  · have howned : owned { s with rx := s.rx ++ [cmd] } = s.owned ++ cmd.call.toList := by
      unfold owned
      rw [← List.append_assoc, List.filterMap_append, ← List.append_assoc]
      rfl
    refine ⟨h.capacity, h.rounds, h.runs, h.begun, h.reach, ?_, ?_, h.ended, h.prompted,
      fun c hc => (h.awaits c hc).congr rfl rfl rfl rfl, h.answers⟩
    · rw [howned, List.nodup_append]
      refine ⟨h.nodup, ?_, ?_⟩
      · cases cmd.call <;> simp
      · rintro c hc _ hd rfl
        exact (hcall c (Option.mem_toList.mp hd)).1 hc
    · intro c hc
      rw [howned, List.mem_append, Option.mem_toList] at hc
      rcases hc with hc | hc
      · exact h.waiting c hc
      · exact (hcall c hc).2

theorem close (h : Sound s) : Sound { s with closed := s.closed || s.exited } :=
  ⟨h.capacity, h.rounds, h.runs, h.begun, h.reach, h.nodup, h.waiting, h.ended, h.prompted,
    fun c hc => (h.awaits c hc).congr rfl rfl rfl rfl, h.answers⟩

theorem round (h : Sound s) (rt : AgentRuntime) (a : AgentAction) (hpending : s.pending = []) :
    Sound { s with
      agent := s.agent.step rt a
      pending := s.agent.ctx.since (s.agent.step rt a).ctx } := by
  obtain ⟨effects, htrace, hround⟩ := s.agent.step_round rt a
  have hidle : ∀ run, s.run = some run → False := by
    intro run hrun
    obtain ⟨inner, messages, -, hrest⟩ := h.runs run hrun
    rw [hpending] at hrest
    exact List.append_ne_nil_of_right_ne_nil inner (List.cons_ne_nil _ _) hrest.symm
  refine h.runtime rfl rfl rfl le_rfl (fun _ => ?_) (fun run hrun => (hidle run hrun).elim)
    (List.Sublist.refl _) (fun _ => .inl rfl) fun c _ hc => hc.congr rfl rfl rfl rfl
  show Round (s.agent.ctx.since (s.agent.step rt a).ctx)
  rw [RunContext.since_eq htrace]
  exact hround

/-- A step of the round that no prompt hears of. -/
theorem skip (h : Sound s) {rest : List Effect} (hrounds : s.run = none → Round rest)
    (hruns : ∀ run, s.run = some run → RunRest rest) {rx queue : List SentCommand}
    (howned : ((queue ++ rx).filterMap SentCommand.call).Sublist
      ((s.queue ++ s.rx).filterMap SentCommand.call)) :
    Sound { s with pending := rest, rx := rx, queue := queue } :=
  h.runtime rfl rfl rfl le_rfl hrounds hruns (howned.append_left _) (fun _ => .inl rfl)
    fun _ _ hc => hc.congr rfl rfl rfl rfl

/-- The effects that are left once the first has happened. -/
theorem rest_of_inRun (h : Sound s) {e : Effect} {rest : List Effect}
    (hpending : s.pending = e :: rest) (he : e.inRun = true) :
    (s.run = none → (∃ cmd, e = .drained cmd) ∧ Round rest) ∧
      ∀ run, s.run = some run → RunRest rest := by
  constructor
  · intro hrun
    have hround := h.rounds hrun
    rw [hpending] at hround
    cases hround with
    | taken => cases he
    | received hbehind => exact ⟨⟨_, rfl⟩, .taken hbehind⟩
  · intro run hrun
    obtain ⟨inner, messages, hin, hrest⟩ := h.runs run hrun
    rw [hpending] at hrest
    cases inner with
    | nil =>
      obtain ⟨rfl, -⟩ := List.cons.inj hrest
      cases he
    | cons e' inner =>
      obtain ⟨-, hrest⟩ := List.cons.inj hrest
      exact ⟨inner, messages, (List.forall_mem_cons.mp hin).2, hrest⟩

/-- A command is taken up between runs only. -/
theorem behind_of_processing (h : Sound s) {cmd : AgentCommand} {rest : List Effect}
    (hpending : s.pending = .processing cmd :: rest) : s.run = none ∧ Behind cmd rest := by
  cases hrun : s.run with
  | none =>
    have hround := h.rounds hrun
    rw [hpending] at hround
    cases hround with
    | taken hbehind => exact ⟨rfl, hbehind⟩
  | some run =>
    obtain ⟨inner, messages, hin, hrest⟩ := h.runs run hrun
    rw [hpending] at hrest
    cases inner with
    | nil => cases (List.cons.inj hrest).1
    | cons e inner =>
      obtain ⟨rfl, -⟩ := List.cons.inj hrest
      cases (List.forall_mem_cons.mp hin).1

/-- What waits at the front of the queue is what the run is of. -/
theorem owned_process (hrun : s.run = none) (cmd : AgentCommand) (rest : List Effect) :
    ({ s with pending := rest }.process cmd).owned.Sublist s.owned := by
  have howned : s.owned = (s.queue ++ s.rx).filterMap SentCommand.call := by
    rw [owned, hrun]
    rfl
  have hqueue : ({ s with pending := rest }.process cmd).queue =
      if cmd = .reset then [] else if cmd.isDeferred then s.queue.tail else s.queue := rfl
  have hnext : ({ s with pending := rest }.process cmd).run =
      if cmd.initial?.isSome then
        some ⟨(if cmd.isDeferred then s.queue.head? else none).bind SentCommand.call, []⟩
      else none := rfl
  have hrx : ({ s with pending := rest }.process cmd).rx = s.rx := rfl
  rw [howned, owned, hqueue, hnext, hrx]
  cases hinitial : cmd.initial?.isSome with
  | false =>
    refine (List.Sublist.append_right ?_ s.rx).filterMap _
    split_ifs
    · exact List.nil_sublist _
    · exact List.tail_sublist _
    · exact List.Sublist.refl _
  | true =>
    have hreset : cmd ≠ .reset := by
      rintro rfl
      cases hinitial
    rw [if_neg hreset, if_pos rfl]
    cases cmd.isDeferred with
    | false => exact List.Sublist.refl _
    | true =>
      cases s.queue with
      | nil => exact List.Sublist.refl _
      | cons sent queue =>
        rw [if_pos rfl, if_pos rfl, List.tail_cons, List.cons_append, List.filterMap_cons]
        show (sent.call.toList ++ _).Sublist _
        cases sent.call with
        | none => exact List.Sublist.refl _
        | some c => exact List.Sublist.refl _

theorem process (h : Sound s) {cmd : AgentCommand} {rest : List Effect}
    (hpending : s.pending = .processing cmd :: rest) :
    Sound ({ s with pending := rest }.process cmd) := by
  obtain ⟨hrun, hbehind⟩ := h.behind_of_processing hpending
  have howned := owned_process hrun cmd rest
  unfold Behind at hbehind
  cases hinitial : cmd.initial?.isSome with
  | false =>
    rw [hinitial] at hbehind
    have hnone : ({ s with pending := rest }.process cmd).run = none := by
      simp only [PromptLane.process, hinitial]
      rfl
    refine h.runtime rfl rfl rfl le_rfl (fun _ => ?_) ?_ howned (fun _ => .inl rfl) ?_
    · show Round rest
      rw [hbehind]
      exact .over
    · intro run hsome
      cases hnone.symm.trans hsome
    · exact fun c _ hc => hc.congr rfl (hnone.trans hrun.symm) rfl rfl
  | true =>
    rw [hinitial] at hbehind
    obtain ⟨taken, hsome⟩ : ∃ taken,
        ({ s with pending := rest }.process cmd).run = some ⟨taken, []⟩ := by
      simp only [PromptLane.process, hinitial]
      exact ⟨_, rfl⟩
    refine h.runtime rfl rfl rfl le_rfl ?_ (fun _ _ => hbehind) howned (fun _ => .inl rfl) ?_
    · intro hnone
      cases hsome.symm.trans hnone
    · intro c _ hc
      -- no turn has told the prompt anything yet, and no turn of its run has begun
      unfold Awaits at hc ⊢
      rw [hsome]
      rw [hrun] at hc
      show Expects (s.ended c) _ c (s.call c).lastTurnStop (s.unread c)
      cases hended : s.ended c with
      | some stop =>
        rw [hended] at hc
        exact hc
      | none =>
        rw [hended] at hc
        obtain ⟨hends, hidle, -⟩ := hc
        refine ⟨hends, nofun, fun run hrun' _ => ?_⟩
        rw [← Option.some.inj hrun']
        exact hidle rfl

/-- Events are sent by runs only. -/
theorem run_of_event (h : Sound s) {e : AgentEvent} {rest : List Effect}
    (hpending : s.pending = .event e :: rest) : ∃ run, s.run = some run := by
  cases hrun : s.run with
  | some run => exact ⟨run, rfl⟩
  | none =>
    have hround := h.rounds hrun
    rw [hpending] at hround
    cases hround

/-- Behind its end nothing of a run is left. -/
theorem rest_of_agentEnd (h : Sound s) {messages : List Message} {rest : List Effect}
    (hpending : s.pending = .event (.agentEnd messages) :: rest) : rest = [] := by
  obtain ⟨run, hrun⟩ := h.run_of_event hpending
  obtain ⟨inner, messages', hin, hrest⟩ := h.runs run hrun
  rw [hpending] at hrest
  cases inner with
  | nil => exact (List.cons.inj hrest).2
  | cons e inner =>
    obtain ⟨rfl, -⟩ := List.cons.inj hrest
    cases (List.forall_mem_cons.mp hin).1

/-- What the prompt can read behind an event, when it follows its own run: nothing is lost that
tells it anything. -/
theorem unread_sendEvent (h : Sound s) (hc : (s.call c).phase.listens = true) {e : AgentEvent}
    (hfollows : s.Follows c e) :
    ∃ lost, (∀ x ∈ lost, turnStop? x = none) ∧ (∀ x ∈ lost, isAgentEnd x = false) ∧
      s.unread c ++ [e] = lost ++ (s.events.send e).unread (s.call c).next := by
  refine ⟨(s.events.overwritten? (s.call c).next).toList, fun x hx => ?_, fun x hx => ?_,
    Channel.unread_send h.capacity (h.reach c hc) e⟩
  · exact (hfollows.2 x (Option.mem_toList.mp hx)).1
  · exact (hfollows.2 x (Option.mem_toList.mp hx)).2

/-- Behind its own run a prompt keeps the end of the run in sight. -/
theorem awaits_end {unread unread' lost : List AgentEvent} {e : AgentEvent}
    {last : Option StopReason} {stop : StopReason} (hstops : ∀ x ∈ lost, turnStop? x = none)
    (hends : ∀ x ∈ lost, isAgentEnd x = false) (hunread : unread ++ [e] = lost ++ unread')
    (h : ∃ before messages after, unread = before ++ .agentEnd messages :: after ∧
      (∀ e ∈ before, isAgentEnd e = false) ∧
      finalStop (lastTurnStop last before) messages = stop) :
    ∃ before messages after, unread' = before ++ .agentEnd messages :: after ∧
      (∀ e ∈ before, isAgentEnd e = false) ∧
      finalStop (lastTurnStop last before) messages = stop := by
  obtain ⟨before, messages, after, rfl, hbefore, hstop⟩ := h
  have hsplit : lost ++ unread' = before ++ .agentEnd messages :: (after ++ [e]) := by
    rw [← hunread, List.append_assoc]
    rfl
  obtain ⟨before', rfl, hrest⟩ := split_lost hends hsplit
  refine ⟨before', messages, _, hrest, (List.forall_mem_append.mp hbefore).2, ?_⟩
  rwa [lastTurnStop_append, lastTurnStop_of_silent hstops] at hstop

/-- A run under way sends an event. -/
theorem sendEvent_running (h : Sound s) {e : AgentEvent} {rest : List Effect} {run : LaneRun}
    (hpending : s.pending = .event e :: rest) (hrun : s.run = some run)
    (hend : isAgentEnd e = false)
    (hfollows : ∀ c, (s.call c).phase.listens = true → s.Follows c e) :
    Sound { s with
      pending := rest
      events := s.events.send e
      run := some { run with events := run.events ++ [e] } } := by
  have hin : (Effect.event e).inRun = true := by
    cases e with
    | agentEnd messages => cases hend
    | _ => rfl
  refine h.runtime rfl rfl rfl (s.events.length_le_send _) nofun (fun _ _ => ?_) ?_
    (fun _ => .inl rfl) ?_
  · exact (h.rest_of_inRun hpending hin).2 run hrun
  · unfold owned
    rw [hrun]
    exact List.Sublist.refl _
  · intro c hc hawaits
    obtain ⟨lost, hstops, hends, hunread⟩ := h.unread_sendEvent hc (hfollows c hc)
    unfold Awaits at hawaits ⊢
    rw [hrun] at hawaits
    show Expects (s.ended c) (some { run with events := run.events ++ [e] }) c
      (s.call c).lastTurnStop ((s.events.send e).unread (s.call c).next)
    cases hended : s.ended c with
    | some stop =>
      rw [hended] at hawaits
      exact awaits_end hstops hends hunread hawaits
    | none =>
      rw [hended] at hawaits
      obtain ⟨hfree, -, hown⟩ := hawaits
      refine ⟨fun x hx => ?_, nofun, ?_⟩
      · have hmem : x ∈ s.unread c ++ [e] := by
          rw [hunread]
          exact List.mem_append_right _ hx
        rcases List.mem_append.mp hmem with hx | hx
        · exact hfree x hx
        · rw [List.mem_singleton.mp hx]
          exact hend
      · intro run' hrun' hcall
        obtain rfl := Option.some.inj hrun'
        have htold := congrArg (lastTurnStop (s.call c).lastTurnStop) hunread
        rw [lastTurnStop_append, lastTurnStop_append, lastTurnStop_of_silent hstops,
          hown run rfl hcall, ← lastTurnStop_append] at htold
        exact htold.symm

/-- A run ends; no prompt listens in front of its own run but the one that the run is of. -/
theorem sendEvent_end (h : Sound s) {messages : List Message} {rest : List Effect} {run : LaneRun}
    (hpending : s.pending = .event (.agentEnd messages) :: rest) (hrun : s.run = some run)
    (hfollows : ∀ c, (s.call c).phase.listens = true → s.Follows c (.agentEnd messages))
    {ended : ℕ → Option StopReason}
    (hown : ∀ c, run.call = some c →
      ended c = some (finalStop (lastTurnStop none run.events) messages))
    (hother : ∀ c, run.call ≠ some c → ended c = s.ended c) :
    Sound { s with
      pending := rest
      events := s.events.send (.agentEnd messages)
      run := none
      ended := ended } := by
  have howned : s.owned =
      run.call.toList ++ (s.queue ++ s.rx).filterMap SentCommand.call := by
    unfold owned
    rw [hrun]
    rfl
  have hnodup := h.nodup
  rw [howned] at hnodup
  refine h.runtime rfl rfl rfl (s.events.length_le_send _) (fun _ => ?_) nofun ?_ (fun c => ?_) ?_
  · show Round rest
    rw [h.rest_of_agentEnd hpending]
    exact .over
  · rw [howned]
    exact List.sublist_append_right _ _
  · by_cases hc : run.call = some c
    · rw [hc] at howned hnodup
      refine .inr ⟨?_, (List.nodup_cons.mp hnodup).1⟩
      rw [howned]
      exact List.mem_cons_self
    · exact .inl (hother c hc)
  · intro c hc hawaits
    obtain ⟨lost, hstops, hends, hunread⟩ := h.unread_sendEvent hc (hfollows c hc)
    unfold Awaits at hawaits ⊢
    rw [hrun] at hawaits
    show Expects (ended c) none c (s.call c).lastTurnStop
      ((s.events.send (.agentEnd messages)).unread (s.call c).next)
    cases hended : s.ended c with
    | some stop =>
      have hnot : run.call ≠ some c := by
        intro hcall
        have hmem : c ∈ s.owned := by
          rw [howned, hcall]
          exact List.mem_cons_self
        cases (h.waiting c hmem).2.symm.trans hended
      rw [hother c hnot, hended]
      rw [hended] at hawaits
      exact awaits_end hstops hends hunread hawaits
    | none =>
      rw [hended] at hawaits
      obtain ⟨hfree, -, htold⟩ := hawaits
      have hcall : run.call = some c := by
        have hfollowed := (hfollows c hc).1 rfl hended
        rwa [hrun] at hfollowed
      rw [hown c hcall]
      have hlost : lost ++ (s.events.send (.agentEnd messages)).unread (s.call c).next =
          s.unread c ++ .agentEnd messages :: [] := hunread.symm
      obtain ⟨before, hbefore, hrest⟩ := split_lost hends hlost
      refine ⟨before, messages, [], hrest, fun x hx => hfree x ?_, ?_⟩
      · rw [hbefore]
        exact List.mem_append_right _ hx
      · have hsame := htold run rfl hcall
        rw [hbefore, lastTurnStop_append, lastTurnStop_of_silent hstops] at hsame
        rw [← hsame]

theorem sendEvent (h : Sound s) {e : AgentEvent} {rest : List Effect}
    (hpending : s.pending = .event e :: rest)
    (hfollows : ∀ c, (s.call c).phase.listens = true → s.Follows c e) :
    Sound ({ s with pending := rest }.sendEvent e) := by
  obtain ⟨run, hrun⟩ := h.run_of_event hpending
  unfold PromptLane.sendEvent
  simp only [hrun]
  cases e with
  | agentEnd messages =>
    cases hcall : run.call with
    | none =>
      refine h.sendEvent_end hpending hrun hfollows (fun c hc => ?_) fun _ _ => rfl
      cases hcall.symm.trans hc
    | some c =>
      refine h.sendEvent_end hpending hrun hfollows (fun d hd => ?_) fun d hd => ?_
      · obtain rfl := Option.some.inj (hcall.symm.trans hd)
        exact Function.update_self ..
      · refine Function.update_of_ne ?_ ..
        rintro rfl
        exact hd hcall
  | _ => exact h.sendEvent_running hpending hrun rfl hfollows

/-- The next effect of the round happens. -/
theorem advance (h : Sound s) (hundisturbed : s.Undisturbed .advance) : Sound s.advance := by
  have hfollows : ∀ {e rest}, s.pending = .event e :: rest → ∀ c,
      (s.call c).phase.listens = true → s.Follows c e := by
    intro e rest hpending c hc
    have hcalled : (s.call c).phase ≠ .idle := by
      intro hidle
      rw [hidle] at hc
      cases hc
    refine hundisturbed c (h.lt_of_called hcalled) hc e ?_
    simp only [nextEvent?, hpending, Option.mem_def]
  have hskip : ∀ {e rest}, s.pending = e :: rest → e.inRun = true →
      (∀ cmd, e ≠ .drained cmd) → Sound { s with pending := rest } := by
    intro e rest hpending hin hnot
    obtain ⟨hidle, hruns⟩ := h.rest_of_inRun hpending hin
    refine h.skip (fun hrun => ?_) hruns (List.Sublist.refl _)
    obtain ⟨⟨cmd, hcmd⟩, -⟩ := hidle hrun
    exact absurd hcmd (hnot cmd)
  unfold PromptLane.advance
  split
  · exact h
  · rename_i cmd rest hpending
    split
    · exact h
    · rename_i sent rx hrx
      by_cases hcmd : sent.command = cmd
      · rw [if_pos hcmd]
        obtain ⟨hidle, hruns⟩ := h.rest_of_inRun hpending rfl
        refine h.skip (fun hrun => (hidle hrun).2) hruns ?_
        rw [hrx]
        split_ifs
        · rw [List.append_assoc]
          exact List.Sublist.refl _
        · exact ((List.sublist_cons_self sent rx).append_left s.queue).filterMap _
      · rw [if_neg hcmd]
        exact h
  · rename_i cmd rest hpending
    exact h.process hpending
  · rename_i e rest hpending
    exact h.sendEvent hpending (hfollows hpending)
  · rename_i e rest hdrained hprocessing hevent hpending
    refine hskip hpending ?_ hdrained
    cases e with
    | processing cmd => exact absurd rfl (hprocessing cmd)
    | event e => exact absurd rfl (hevent e)
    | _ => rfl

/-- A prompt reads an event that its client can be told of. -/
theorem consume (h : Sound s) (hc : (s.call c).phase = .consuming) {e : AgentEvent}
    (hreach : (s.call c).next + 1 ≤ s.events.sent.length)
    (hunread : s.unread c = e :: s.events.unread ((s.call c).next + 1)) :
    Sound (s.consume c e) := by
  have hawaits := h.awaits c (by rw [hc]; rfl)
  unfold Awaits at hawaits
  rw [hunread] at hawaits
  refine h.update le_rfl (h.lt_of_called (by rw [hc]; nofun)) id (fun _ => hreach) (fun _ => ?_)
    (fun hgoes => ?_) fun _ result hresult => ?_
  · cases e with
    | agentEnd messages => exact .inr ⟨_, rfl⟩
    | _ => exact .inl rfl
  · have hend : isAgentEnd e = false := by
      cases e with
      | agentEnd messages => cases hgoes
      | _ => rfl
    cases hended : s.ended c with
    | none =>
      rw [hended] at hawaits
      exact ⟨(List.forall_mem_cons.mp hawaits.1).2, hawaits.2⟩
    | some stop =>
      rw [hended] at hawaits
      obtain ⟨before, messages, after, hsplit, hbefore, hstop⟩ := hawaits
      cases before with
      | nil =>
        obtain ⟨rfl, -⟩ := List.cons.inj hsplit
        cases hend
      | cons e' before =>
        obtain ⟨rfl, hrest⟩ := List.cons.inj hsplit
        exact ⟨before, messages, after, hrest, (List.forall_mem_cons.mp hbefore).2, hstop⟩
  · obtain ⟨messages, rfl⟩ : ∃ messages, e = .agentEnd messages := by
      cases e with
      | agentEnd messages => exact ⟨messages, rfl⟩
      | _ => cases hresult
    -- the end that the prompt reads is that of its own run
    cases hended : s.ended c with
    | none =>
      rw [hended] at hawaits
      cases (List.forall_mem_cons.mp hawaits.1).1
    | some stop =>
      rw [hended] at hawaits
      obtain ⟨before, messages', after, hsplit, hbefore, hstop⟩ := hawaits
      cases before with
      | cons e' before =>
        obtain ⟨rfl, -⟩ := List.cons.inj hsplit
        cases (List.forall_mem_cons.mp hbefore).1
      | nil =>
        obtain ⟨hsame, -⟩ := List.cons.inj hsplit
        obtain rfl := AgentEvent.agentEnd.inj hsame
        refine ⟨stop, rfl, fun answer hanswer => ?_⟩
        rw [← hstop]
        exact (Except.ok.inj ((PromptPhase.returned.inj hresult).trans hanswer)).symm

theorem recv (h : Sound s) (hc : (s.call c).phase = .consuming) {fault : Option AcpError}
    (hstays : s.givesUp c fault = false) : Sound (s.recv c fault) := by
  have hlistens : (s.call c).phase.listens = true := by
    rw [hc]
    rfl
  unfold givesUp at hstays
  unfold PromptLane.recv
  rcases s.events.recv_cases (s.call c).next with
    ⟨e, hrecv, hreach, hunread⟩ | ⟨missed, hrecv, hunread⟩ | hrecv
  · rw [hrecv] at hstays ⊢
    simp only [Option.isSome_eq_false_iff, Option.isNone_iff_eq_none] at hstays
    simp only [hstays]
    exact h.consume hc hreach hunread
  · rw [hrecv]
    refine h.update le_rfl (h.lt_of_called (by rw [hc]; nofun)) id
      (fun _ => Channel.oldest_le) (fun _ => .inl hc) (fun _ => ?_) fun _ result hresult => ?_
    · rw [← hunread]
      exact h.awaits c hlistens
    · cases hc.symm.trans hresult
  · rw [hrecv] at hstays ⊢
    simp only at hstays ⊢
    rw [hstays]
    exact h

/-- The messages of a prompt enter the channel. -/
theorem prompt (h : Sound s) {messages : List Message}
    (hc : (s.call c).phase = .subscribed messages) :
    Sound ((s.send ⟨.prompt messages, some c⟩).setCall c
      { s.call c with phase := .consuming, prompted := true }) := by
  have hlistens : (s.call c).phase.listens = true := by
    rw [hc]
    rfl
  have hunsent : (s.call c).prompted = false := by
    refine Bool.eq_false_iff.mpr fun hprompted => ?_
    rcases h.prompted c hprompted with hphase | ⟨result, hphase⟩
    · cases hc.symm.trans hphase
    · cases hc.symm.trans hphase
  have hcalled : (s.call c).phase ≠ .idle := by
    rw [hc]
    nofun
  have hgoes : Sound (s.setCall c { s.call c with phase := .consuming, prompted := true }) :=
    h.update le_rfl (h.lt_of_called hcalled) (fun _ => rfl) (fun _ => h.reach c hlistens)
      (fun _ => .inl rfl) (fun _ => h.awaits c hlistens) nofun
  have hsent : Sound ((s.setCall c { s.call c with phase := .consuming, prompted := true }).send
      ⟨.prompt messages, some c⟩) := by
    refine hgoes.send fun d hd => ?_
    obtain rfl := Option.some.inj hd
    refine ⟨fun hmem => ?_, by rw [setCall_self], ?_⟩
    · exact absurd (h.waiting c hmem).1 (Bool.eq_false_iff.mp hunsent)
    · cases hended : s.ended c with
      | none => exact hended
      | some stop => exact absurd (h.ended c stop hended) (Bool.eq_false_iff.mp hunsent)
  have hsame : (s.send ⟨.prompt messages, some c⟩).setCall c
      { s.call c with phase := .consuming, prompted := true } =
      (s.setCall c { s.call c with phase := .consuming, prompted := true }).send
        ⟨.prompt messages, some c⟩ := by
    unfold PromptLane.send
    cases hexited : s.exited with
    | true =>
      have hexited' : (s.setCall c { s.call c with
        phase := .consuming, prompted := true }).exited = true := hexited
      rw [hexited']
      rfl
    | false =>
      have hexited' : (s.setCall c { s.call c with
        phase := .consuming, prompted := true }).exited = false := hexited
      rw [hexited']
      rfl
  rw [hsame]
  exact hsent

/-- A step that disturbs no prompt keeps them all on their way. -/
theorem step (h : Sound s) (rt : AgentRuntime) {a : PromptAction} (ha : s.Undisturbed a) :
    Sound (s.step rt a) := by
  have hunsent : ∀ {c phase}, (s.call c).phase = phase → phase ≠ .consuming →
      (∀ result, phase ≠ .returned result) → (s.call c).prompted = false := by
    intro c phase hc hconsuming hreturned
    refine Bool.eq_false_iff.mpr fun hprompted => ?_
    rcases h.prompted c hprompted with hphase | ⟨result, hphase⟩
    · exact hconsuming (hc.symm.trans hphase)
    · exact hreturned result (hc.symm.trans hphase)
  cases a with
  | request params =>
    refine h.update (Nat.le_succ _) (Nat.lt_succ_self _) (fun hprompted => ?_) (fun hlistens => ?_)
      nofun (fun hlistens => ?_) nofun
    · cases (h.begun _ le_rfl).2.symm.trans hprompted
    · split at hlistens <;> cases hlistens
    · split at hlistens <;> cases hlistens
  | ensure c fault =>
    simp only [PromptLane.step]
    split
    · rename_i messages hc
      have hfree := hunsent hc nofun nofun
      split
      · exact h.setPhase (by rw [hc]; nofun) hfree rfl
      · exact h.setPhase (by rw [hc]; nofun) hfree rfl
    · exact h
  | subscribe c found =>
    simp only [PromptLane.step]
    split
    · rename_i messages hc
      have hfree := hunsent hc nofun nofun
      have hnot : ∀ {p : Prop}, (s.call c).prompted = true → p :=
        fun hi => absurd hi (Bool.eq_false_iff.mp hfree)
      split_ifs
      · refine h.update le_rfl (h.lt_of_called (by rw [hc]; nofun)) id (fun _ => le_rfl) hnot
          (fun _ => ?_) hnot
        have hunread : s.events.unread s.events.sent.length = [] :=
          List.drop_eq_nil_of_le (le_max_left _ _)
        show Expects (s.ended c) s.run c none (s.events.unread s.events.sent.length)
        rw [hunread]
        cases hended : s.ended c with
        | some stop => exact hnot (h.ended c stop hended)
        | none =>
          refine ⟨List.forall_mem_nil _, fun _ => rfl, fun run hrun hcall => hnot ?_⟩
          refine (h.waiting c ?_).1
          unfold owned
          rw [hrun, Option.bind_some, hcall]
          exact List.mem_cons_self
      · exact h.setPhase (by rw [hc]; nofun) hfree rfl
    · exact h
  | prompt c fault =>
    simp only [PromptLane.step]
    split
    · rename_i messages hc
      have hfree := hunsent hc nofun nofun
      split
      · exact h.setPhase (by rw [hc]; nofun) hfree rfl
      · split_ifs
        · exact h.setPhase (by rw [hc]; nofun) hfree rfl
        · exact h.prompt hc
    · exact h
  | recv c fault =>
    simp only [PromptLane.step]
    split
    · rename_i hc
      exact h.recv hc (ha hc)
    · exact h
  | abort c enters =>
    simp only [PromptLane.step]
    split
    · rename_i e hc
      have hfree := hunsent hc nofun nofun
      split_ifs
      · have hsent : Sound (s.send ⟨.abort, none⟩) := h.send nofun
        refine hsent.setPhase ?_ ?_ rfl
        · rw [send_call, hc]
          nofun
        · rwa [send_call]
      · exact h.setPhase (by rw [hc]; nofun) hfree rfl
    · exact h
  | command cmd => exact h.send nofun
  | round a =>
    simp only [PromptLane.step]
    split_ifs with hpending
    · exact h.round rt a (List.isEmpty_iff.mp hpending)
    · exact h
  | advance => exact h.advance ha
  | close => exact h.close

end Sound

/-- The commands that wait are those of the queue of the runtime, in the same order, as far as its
round has come. -/
structure Lined (s : PromptLane) : Prop where
  agent : s.agent.ctx.Lined
  waiting : ∃ done, s.agent.ctx.trace = done ++ s.pending ∧
    s.queue.map SentCommand.command = waitingBehind done ∧ TakesFront done s.pending

namespace Lined

theorem congr (h : Lined s) {s' : PromptLane} (hagent : s'.agent = s.agent)
    (hpending : s'.pending = s.pending) (hqueue : s'.queue = s.queue) : Lined s' := by
  refine ⟨hagent ▸ h.agent, ?_⟩
  rw [hagent, hpending, hqueue]
  exact h.waiting

theorem send (h : Lined s) (cmd : SentCommand) : Lined (s.send cmd) := by
  unfold PromptLane.send
  split_ifs
  · exact h
  · exact h.congr rfl rfl rfl

theorem setCall (h : Lined s) (c : ℕ) (call : PromptCall) : Lined (s.setCall c call) :=
  h.congr rfl rfl rfl

theorem setPhase (h : Lined s) (c : ℕ) (phase : PromptPhase) : Lined (s.setPhase c phase) :=
  h.setCall c _

/-- An effect happens, and the queue follows it. -/
theorem happens (h : Lined s) {e : Effect} {rest : List Effect} (hpending : s.pending = e :: rest)
    {s' : PromptLane} (hagent : s'.agent = s.agent) (hrest : s'.pending = rest)
    (hqueue : s'.queue.map SentCommand.command = waitOn (s.queue.map SentCommand.command) e) :
    Lined s' := by
  obtain ⟨done, htrace, hwaiting, hfront⟩ := h.waiting
  rw [hpending] at htrace hfront
  refine ⟨hagent ▸ h.agent, done ++ [e], ?_, ?_, ?_⟩
  · rw [hagent, hrest, htrace, List.append_assoc]
    rfl
  · rw [hqueue, hwaiting, waitingBehind_snoc]
  · rw [hrest]
    exact hfront.next

/-- The queue is that of the runtime when a round begins. -/
theorem between (h : Lined s) (hpending : s.pending = []) :
    s.queue.map SentCommand.command = s.agent.ctx.queue.filter AgentCommand.isDeferred := by
  obtain ⟨done, htrace, hwaiting, -⟩ := h.waiting
  rw [hpending, List.append_nil] at htrace
  rw [hwaiting, ← htrace]
  exact h.agent.symm

theorem round (h : Lined s) (rt : AgentRuntime) (a : AgentAction) (hpending : s.pending = []) :
    Lined { s with
      agent := s.agent.step rt a
      pending := s.agent.ctx.since (s.agent.step rt a).ctx } := by
  obtain ⟨effects, htrace, -⟩ := s.agent.step_round rt a
  refine ⟨AgentState.step_lined h.agent a, s.agent.ctx.trace, ?_, ?_, ?_⟩
  · show (s.agent.step rt a).ctx.trace = _ ++ s.agent.ctx.since (s.agent.step rt a).ctx
    rw [RunContext.since_eq htrace]
    exact htrace
  · exact (h.between hpending).trans h.agent
  · exact AgentState.step_takesFront h.agent a

theorem sendEvent (h : Lined s) {e : AgentEvent} {rest : List Effect}
    (hpending : s.pending = .event e :: rest) :
    Lined ({ s with pending := rest }.sendEvent e) := by
  unfold PromptLane.sendEvent
  split
  · exact h.happens hpending rfl rfl rfl
  · split
    · exact h.happens hpending rfl rfl rfl
    · exact h.happens hpending rfl rfl rfl

theorem process (h : Lined s) {cmd : AgentCommand} {rest : List Effect}
    (hpending : s.pending = .processing cmd :: rest) :
    Lined ({ s with pending := rest }.process cmd) := by
  refine h.happens hpending rfl rfl ?_
  simp only [PromptLane.process, waitOn]
  split_ifs
  · rfl
  · exact List.map_tail
  · rfl

theorem advance (h : Lined s) : Lined s.advance := by
  unfold PromptLane.advance
  split
  · exact h
  · rename_i cmd rest hpending
    split
    · exact h
    · rename_i sent rx hrx
      by_cases hcmd : sent.command = cmd
      · rw [if_pos hcmd]
        refine h.happens hpending rfl rfl ?_
        simp only [waitOn]
        split_ifs
        · rw [List.map_append, List.map_singleton, hcmd]
        · rfl
      · rw [if_neg hcmd]
        exact h
  · rename_i cmd rest hpending
    exact h.process hpending
  · rename_i e rest hpending
    exact h.sendEvent hpending
  · rename_i e rest hdrained hprocessing hevent hpending
    refine h.happens hpending rfl rfl ?_
    cases e with
    | drained cmd => exact absurd rfl (hdrained cmd)
    | processing cmd => exact absurd rfl (hprocessing cmd)
    | _ => rfl

theorem recv (h : Lined s) (c : ℕ) (fault : Option AcpError) : Lined (s.recv c fault) := by
  unfold PromptLane.recv
  split
  · split
    · exact h.setPhase c _
    · exact h.setCall c _
  · exact h.setCall c _
  · split_ifs
    · exact h.setPhase c _
    · exact h

theorem step (h : Lined s) (rt : AgentRuntime) (a : PromptAction) : Lined (s.step rt a) := by
  cases a with
  | request params => exact h.congr rfl rfl rfl
  | ensure c fault =>
    simp only [PromptLane.step]
    split
    · split
      · exact h.setPhase c _
      · exact h.setPhase c _
    · exact h
  | subscribe c found =>
    simp only [PromptLane.step]
    split
    · split_ifs
      · exact h.setCall c _
      · exact h.setPhase c _
    · exact h
  | prompt c fault =>
    simp only [PromptLane.step]
    split
    · split
      · exact h.setPhase c _
      · split_ifs
        · exact h.setPhase c _
        · exact (h.send _).setCall c _
    · exact h
  | recv c fault =>
    simp only [PromptLane.step]
    split
    · exact h.recv c fault
    · exact h
  | abort c enters =>
    simp only [PromptLane.step]
    split
    · split_ifs
      · exact (h.send _).setPhase c _
      · exact h.setPhase c _
    · exact h
  | command cmd => exact h.send _
  | round a =>
    simp only [PromptLane.step]
    split_ifs with hpending
    · exact h.round rt a (List.isEmpty_iff.mp hpending)
    · exact h
  | advance => exact h.advance
  | close => exact h.congr rfl rfl rfl

/-- What the runtime takes up next has waited at the front of the queue. -/
theorem taken (h : Lined s) {cmd : AgentCommand} {rest : List Effect}
    (hpending : s.pending = .processing cmd :: rest) (hdeferred : cmd.isDeferred = true) :
    ∃ sent, s.queue.head? = some sent ∧ sent.command = cmd := by
  obtain ⟨done, -, hwaiting, hfront⟩ := h.waiting
  have hhead := hfront [] cmd rest hpending hdeferred
  rw [List.append_nil, ← hwaiting, List.head?_map] at hhead
  exact Option.map_eq_some_iff.mp hhead

end Lined

/-- A run that begins is that of the prompt whose command the runtime has taken up. -/
def TakesFirst (s : PromptLane) : Prop :=
  ∀ cmd rest, s.pending = .processing cmd :: rest → cmd.isDeferred = true →
    ∃ sent, s.queue.head? = some sent ∧ sent.command = cmd

/-- However prompts and other commands interleave, the run of a prompt is found by its place in the
queue of the runtime. -/
theorem takesFirst_throughout (rt : AgentRuntime) (capacity : ℕ) (transcript : List Message)
    (as : List PromptAction) :
    Runs.Throughout (step rt) TakesFirst (start capacity transcript) as := by
  have hstart : Lined (start capacity transcript) := by
    refine ⟨rfl, [], rfl, rfl, fun before cmd rest heffects => ?_⟩
    exact absurd heffects.symm (List.append_ne_nil_of_right_ne_nil before (List.cons_ne_nil _ _))
  exact Runs.always (fun s a (hs : Lined s) => hs.step rt a)
    (fun s hs cmd rest hpending hdeferred => hs.taken hpending hdeferred) hstart as

end PromptLane

end Guigu.Acp
