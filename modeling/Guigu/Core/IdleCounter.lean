import Guigu.Core.AgentRuns

/-! The counter that tells when an agent is idle: commands sent against commands processed. -/
namespace Guigu

/-- A counted command that has left the channel has been processed or waits; who waits for the
agent to be idle leaves no returned call behind; an agent at rest has processed what was sent. -/
structure AgentSystem.Balanced (s : AgentSystem) : Prop where
  processed : s.agent.processed + s.agent.ctx.queue.length = (counted s.drained).length
  idle : s.waitForIdle = true → s.agent.ctx.queue = [] ∧
    ∀ call ∈ s.calls.drop s.drained.length, call.command.isCounted = true → call.returned = false
  settled : s.channel = [] → s.agent.ctx.queue = [] → s.agent.processed = s.counter

/-- What has left the channel has been counted by its call. -/
def AgentSystem.CountedFirst (s : AgentSystem) : Prop :=
  ∀ call ∈ s.calls.take s.drained.length, call.returned = true

instance (s : AgentSystem) : Decidable s.CountedFirst :=
  inferInstanceAs (Decidable (∀ call ∈ _, _))

/-- The end of the turn takes in messages of one kind only. -/
def takesOneKind (calls : Bool) (queue arrived : List AgentCommand) : Bool :=
  calls || arrived.any AgentCommand.cuts || (steers (queue ++ arrived)).isEmpty ||
    (followUps (queue ++ arrived)).isEmpty

/-- No `Abort` and no `Shutdown` is received between two runs, and the end of a turn neither drops
nor counts twice. -/
def Demand.counts : Demand where
  takes _ cmd := !cmd.cuts
  start _ _ := true
  turn rt s env := env.aborts rt s ||
    keepsAll (env.callsTools rt s) (env.waiting rt s) env.arrived &&
      takesOneKind (env.callsTools rt s) (env.waiting rt s) env.arrived

/-- The agent counts what it takes up, and takes up only what its sender has counted. -/
def AgentSystem.Counts (rt : AgentRuntime) (s : AgentSystem) (a : SystemAction) : Prop :=
  Demand.counts.MetBySystem rt s a ∧ (s.step rt a).CountedFirst

instance (rt : AgentRuntime) (s : AgentSystem) (a : SystemAction) : Decidable (s.Counts rt a) :=
  inferInstanceAs (Decidable (_ ∧ _))

theorem Boundary.consumed_eq {queue arrived drained taken queue' : List AgentCommand}
    {calls : Bool} {consumed : ℕ} (h : Boundary queue arrived calls drained taken queue' consumed)
    (hkind : takesOneKind calls queue arrived = true) : consumed = taken.length := by
  cases h with
  | skipped => rfl
  | cut => rfl
  | steered hcut hsteer =>
    rw [boundarySteers_eq] at hsteer
    have hsteers : steers (queue ++ arrived) ≠ [] := by
      unfold steers at hsteer ⊢
      rw [List.filterMap_append]
      intro hnil
      rw [List.append_eq_nil_iff] at hnil
      rw [hnil.1, hnil.2] at hsteer
      exact hsteer rfl
    have hfollow : followUps (queue ++ arrived) = [] := by
      have hnone : (steers (queue ++ arrived)).isEmpty = false := by
        rw [Bool.eq_false_iff]
        exact fun hempty => hsteers (List.isEmpty_iff.mp hempty)
      unfold takesOneKind at hkind
      rw [hcut, hnone, Bool.or_false, Bool.false_or, Bool.false_or, List.isEmpty_iff] at hkind
      exact hkind
    unfold followUps at hfollow
    rw [List.filterMap_append, List.append_eq_nil_iff] at hfollow
    rw [boundaryFollowUps_eq, followUps, followUps, hfollow.1, hfollow.2, List.length_map]
    rfl
  | followed => rw [List.length_map]
  | toolCut => rfl
  | toolDone => rfl

/-- The count of an agent against what it has drained. -/
def Counted (ctx : RunContext) (n : ℕ) : Prop :=
  n + ctx.queue.length = (counted (drainedOf ctx.trace)).length

theorem Counted.of_next {ctx ctx' : RunContext} {cmd : AgentCommand} {n : ℕ} (h : Counted ctx n)
    (hnext : Next ctx cmd ctx') (hcmd : cmd.cuts = false) : Counted ctx' (n + 1) := by
  unfold Counted at h ⊢
  cases hnext with
  | dequeued hqueue =>
    rw [hqueue, List.length_cons] at h
    simp only
    omega
  | received hqueue =>
    have hcounted : counted [cmd] = [cmd] := by
      unfold counted
      rw [List.filter_cons_of_pos]
      · rfl
      · unfold AgentCommand.isCounted
        rw [hcmd]
        rfl
    have hdrained : drainedOf (ctx.record [.drained cmd]).trace = drainedOf ctx.trace ++ [cmd] :=
      drainedOf_append _ _
    rw [hdrained, counted_append, hcounted, List.length_append]
    rw [hqueue] at h
    show n + 1 + ctx.queue.length = _
    rw [hqueue]
    simp only [List.length_nil, List.length_cons] at h ⊢
    omega

theorem counts_keeps (rt : AgentRuntime) : Demand.counts.Keeps rt Counted where
  start := by
    intro ctx ctx' cmd initial n arrivals h hnext hinitial htakes hstart
    have hcmd : cmd.cuts = false := by simpa [Demand.counts] using htakes
    have hnow := h.of_next hnext hcmd
    obtain ⟨hqueue, hbooked, -⟩ := startLoop_books (ctx'.record [.processing cmd]) initial arrivals
    unfold Counted at hnow ⊢
    have hdrained := drainedOf_of_booked hbooked
    rw [drainedOf_booked, drainedOf_initialEffects] at hdrained
    have hbefore : drainedOf (ctx'.record [.processing cmd]).trace = drainedOf ctx'.trace :=
      (drainedOf_append _ _).trans (List.append_nil _)
    have hlen := (flatMap_requeued_perm (initialDrains initial arrivals)).length_eq
    rw [hqueue, hdrained, hbefore, counted_append, List.length_append, List.length_append]
    show n + 1 + (ctx'.queue.length + _) = _
    omega
  turn := by
    intro s env n h hturn
    have hlen := (flatMap_requeued_perm (env.drains rt.loopConfig s.ctx.tokens)).length_eq
    unfold Counted at h ⊢
    cases (turnStep_books env : TurnBooks rt env s (turnStep rt s env)) with
    | kept hqueue hconsumed hbooked =>
      rw [hqueue, hconsumed, ← drainedOf_booked, hbooked, drainedOf_booked]
      exact h
    | cut habort hqueue hconsumed hbooked =>
      have hdrained := drainedOf_of_booked hbooked
      rw [drainedOf_drained] at hdrained
      rw [hqueue, hconsumed, hdrained]
      simp only [counted_append, List.length_append, TurnEnv.waiting] at hlen ⊢
      omega
    | moved habort hbound hconsumed hbooked =>
      simp only [Demand.counts, habort, Bool.false_or, Bool.and_eq_true] at hturn
      obtain ⟨hkeeps, hkind⟩ := hturn
      have hperm := (hbound.perm hkeeps).length_eq
      have htaken := hbound.consumed_eq hkind
      have hdrained := drainedOf_of_booked hbooked
      simp only [drainedOf_append, drainedOf_drained, drainedOf_taken, List.append_nil] at hdrained
      rw [hdrained, hconsumed]
      simp only [counted_append, List.length_append, TurnEnv.waiting] at hperm hlen ⊢
      omega
  close := by
    intro ctx n h
    unfold Counted at h ⊢
    have hdrained : drainedOf (ctx.send (.agentEnd ctx.transcript)).trace = drainedOf ctx.trace :=
      (drainedOf_append _ _).trans (List.append_nil _)
    rw [hdrained]
    exact h
  reset := by
    intro ctx ctx' n h hnext htakes
    have hnow := h.of_next hnext rfl
    unfold Counted at hnow ⊢
    have hdrained : drainedOf (ctx'.record [.processing .reset]).reset.trace =
        drainedOf ctx'.trace := (drainedOf_append _ _).trans (List.append_nil _)
    rw [hdrained]
    show n + (1 + ctx'.queue.length) + 0 = _
    omega
  skip := by
    intro ctx ctx' cmd n h hnext hcuts htakes
    have hno : cmd.cuts = false := by simpa [Demand.counts] using htakes
    exact absurd (hno.symm.trans hcuts) (by simp)

/-- The calls that have counted their command. -/
def settledCalls (calls : List Call) : ℕ :=
  calls.countP fun call => call.returned && call.command.isCounted

namespace AgentSystem

/-- Between the clients and the counter: only a counted command keeps its call waiting. -/
structure Ledger (s : AgentSystem) : Prop where
  counter : s.counter = settledCalls s.calls
  waits : ∀ call ∈ s.calls, call.returned = false → call.command.isCounted = true

theorem Ledger.step {rt : AgentRuntime} {s : AgentSystem} (h : s.Ledger) (a : SystemAction) :
    (s.step rt a).Ledger := by
  unfold AgentSystem.step
  cases a with
  | send cmd =>
    simp only
    split_ifs
    · exact h
    · constructor
      · show s.counter = settledCalls (s.calls ++ [⟨cmd, !cmd.isCounted⟩])
        rw [h.counter, settledCalls, settledCalls, List.countP_append]
        cases hcmd : cmd.isCounted <;> simp [hcmd]
      · refine List.forall_mem_append.mpr ⟨h.waits, List.forall_mem_singleton.mpr ?_⟩
        simp
  | count call =>
    simp only
    split
    next cmd hcall =>
      obtain ⟨hlt, hget⟩ := List.getElem?_eq_some_iff.mp hcall
      have hcounted := h.waits _ (List.mem_of_getElem? hcall) rfl
      constructor
      · show s.counter + 1 = settledCalls (s.calls.set call ⟨cmd, true⟩)
        rw [settledCalls, List.countP_set hlt, hget, h.counter, settledCalls]
        simp only at hcounted
        simp [hcounted]
      · intro c hc
        rcases List.mem_or_eq_of_mem_set hc with hc | rfl
        · exact h.waits c hc
        · intro hno
          cases hno
    · exact h
  | runtime a =>
    simp only
    split_ifs
    · exact ⟨h.counter, h.waits⟩
    · exact h

theorem countP_drained {s : AgentSystem} (hsent : s.drained <+: s.sent) (hfirst : s.CountedFirst) :
    settledCalls (s.calls.take s.drained.length) = (counted s.drained).length := by
  have hmap : (s.calls.take s.drained.length).map Call.command = s.drained := by
    rw [List.map_take]
    exact (List.prefix_iff_eq_take.mp hsent).symm
  have hcount : settledCalls (s.calls.take s.drained.length) =
      ((s.calls.take s.drained.length).map Call.command).countP AgentCommand.isCounted := by
    rw [List.countP_map]
    apply List.countP_congr
    intro call hcall
    rw [hfirst call hcall, Bool.true_and]
    rfl
  rw [hcount, hmap, counted, ← List.countP_eq_length_filter]

/-- The count is right when the ledgers of the agent and of the clients are. -/
theorem balanced_of_ledgers {s : AgentSystem} (h : Counted s.agent.ctx s.agent.processed)
    (hsent : s.drained <+: s.sent) (hfirst : s.CountedFirst) (hledger : s.Ledger) :
    s.Balanced := by
  have hsplit : s.counter = (counted s.drained).length +
      settledCalls (s.calls.drop s.drained.length) := by
    rw [hledger.counter, ← countP_drained hsent hfirst, settledCalls, settledCalls, settledCalls,
      ← List.countP_append, List.take_append_drop]
  have hprocessed : s.agent.processed + s.agent.ctx.queue.length = (counted s.drained).length := h
  refine ⟨h, ?_, ?_⟩
  · intro hidle
    have hle : s.counter ≤ s.agent.processed := by
      unfold waitForIdle at hidle
      exact of_decide_eq_true hidle
    constructor
    · apply List.eq_nil_of_length_eq_zero
      omega
    · intro call hcall hcounted
      have hzero : settledCalls (s.calls.drop s.drained.length) = 0 := by omega
      have hno := List.countP_eq_zero.mp hzero call hcall
      rw [hcounted, Bool.and_true] at hno
      exact Bool.eq_false_of_not_eq_true hno
  · intro hchannel hqueue
    have hnil : s.calls.drop s.drained.length = [] := by
      have hmap : (s.calls.drop s.drained.length).map Call.command = [] := by
        rw [List.map_drop]
        exact hchannel
      exact List.map_eq_nil_iff.mp hmap
    rw [hnil] at hsplit
    rw [hqueue] at hprocessed
    show s.agent.processed = s.counter
    rw [hsplit, ← hprocessed]
    rfl

/-- The counter is right in every run in which no `Abort` comes between two runs, the end of a turn
drops and doubles nothing, and commands are counted before they are taken up. -/
theorem balanced_throughout {rt : AgentRuntime} {transcript : List Message}
    {as : List SystemAction}
    (h : Runs.Along (AgentSystem.step rt) (Counts rt) (.start transcript) as) :
    Runs.Throughout (AgentSystem.step rt) Balanced (.start transcript) as := by
  let inBooks : AgentSystem → Prop := fun s =>
    (Counted s.agent.ctx s.agent.processed ∧ s.drained <+: s.sent) ∧ s.CountedFirst ∧ s.Ledger
  have hstep : ∀ s a, inBooks s → Counts rt s a → inBooks (s.step rt a) := by
    rintro s a ⟨hagent, -, hledger⟩ ⟨hmet, hfirst⟩
    exact ⟨(counts_keeps rt).system_step hagent hmet, hfirst, hledger.step a⟩
  have hbalanced : ∀ s, inBooks s → Balanced s := by
    rintro s ⟨⟨hcounted, hsent⟩, hfirst, hledger⟩
    exact balanced_of_ledgers hcounted hsent hfirst hledger
  have hstart : inBooks (.start transcript) :=
    ⟨⟨rfl, List.nil_prefix⟩, List.forall_mem_nil _, rfl, List.forall_mem_nil _⟩
  exact Runs.throughout hstep hbalanced hstart h

/-- A follow-up enters the run of a prompt. -/
theorem balanced_followedPrompt : Runs.Throughout (AgentSystem.step .plain) Balanced (.start [])
    [.send (.prompt [helloMessage]), .count 0, .send (.followUp helloMessage), .count 1,
      .runtime (.receive (.prompt [helloMessage]) ⟨[[]],
        [{ TurnEnv.streaming [.done helloAnswer] with arrived := [.followUp helloMessage] },
          .streaming [.done helloAnswer]]⟩)] :=
  balanced_throughout (by decide +kernel)

/-- An `Abort` that no run is there for counts as processed, and stands in for the next command. -/
theorem idleAbort_unbalanced : ¬ Balanced (Runs.run (AgentSystem.step .plain) (.start [])
    [.send .abort, .runtime (.receive .abort .silent), .send .continue_, .count 1]) := by
  intro h
  have hcall := (h.idle (by decide +kernel)).2 ⟨.continue_, true⟩ (by decide +kernel) rfl
  cases hcall

end AgentSystem

end Guigu
