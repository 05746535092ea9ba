import Guigu.Core.Runtime.LoopTurns

/-! Where a run leaves the commands it drains: in the queue, or taken into the transcript. -/
namespace Guigu

/-- The effects that tell where commands and their messages go. -/
def Effect.isBooked : Effect → Bool
  | .drained _ | .processing _ | .initial _ | .taken _ => true
  | _ => false

def booked (effects : List Effect) : List Effect := effects.filter Effect.isBooked

@[simp] theorem booked_append (es fs : List Effect) : booked (es ++ fs) = booked es ++ booked fs :=
  List.filter_append ..

/-- What reads only booked effects does not see the others. -/
theorem filterMap_booked {α : Type} {f : Effect → Option α}
    (hf : ∀ e, e.isBooked = false → f e = none) (effects : List Effect) :
    (booked effects).filterMap f = effects.filterMap f := by
  induction effects with
  | nil => rfl
  | cons e es ih =>
    cases he : e.isBooked with
    | true =>
      rw [booked, List.filter_cons_of_pos he, List.filterMap_cons, List.filterMap_cons]
      change (booked es).filterMap f = es.filterMap f at ih
      unfold booked at ih
      rw [ih]
    | false =>
      rw [booked, List.filter_cons_of_neg (by simp [he]), List.filterMap_cons, hf e he]
      exact ih

theorem drainedOf_booked (effects : List Effect) :
    drainedOf (booked effects) = drainedOf effects := by
  apply filterMap_booked
  intro e he
  unfold drained?
  split
  · cases he
  · rfl

theorem drainedOf_of_booked {es fs gs : List Effect} (h : booked es = booked fs ++ gs) :
    drainedOf es = drainedOf fs ++ drainedOf gs := by
  rw [← drainedOf_booked es, h, drainedOf_append, drainedOf_booked]

@[simp] theorem booked_drained (cmds : List AgentCommand) :
    booked (cmds.map .drained) = cmds.map .drained := by
  apply List.filter_eq_self.mpr
  intro e he
  obtain ⟨cmd, -, rfl⟩ := List.mem_map.mp he
  rfl

@[simp] theorem booked_taken (cmds : List AgentCommand) :
    booked (cmds.map .taken) = cmds.map .taken := by
  apply List.filter_eq_self.mpr
  intro e he
  obtain ⟨cmd, -, rfl⟩ := List.mem_map.mp he
  rfl

@[simp] theorem booked_event (e : AgentEvent) (es : List Effect) :
    booked (.event e :: es) = booked es := rfl

@[simp] theorem booked_request (transcript : List Message) (request : ProviderRequest)
    (es : List Effect) : booked (.request transcript request :: es) = booked es := rfl

@[simp] theorem booked_said (ms : List Message) : booked (said ms) = [] := by
  induction ms with
  | nil => rfl
  | cons m ms ih => exact ih

/-- A stream books only what it drains. -/
theorem Quiet.booked_eq {effects : List Effect} (h : Quiet effects) :
    booked effects = (drainedOf effects).map .drained := by
  induction effects with
  | nil => rfl
  | cons e es ih =>
    obtain ⟨he, hes⟩ := List.forall_mem_cons.mp h
    have hrest := ih hes
    cases e with
    | drained cmd => exact congrArg (Effect.drained cmd :: ·) hrest
    | event | streamed => exact hrest
    | request | processing | initial | taken | executed => cases he

theorem OfTools.booked_eq {effects : List Effect} (h : OfTools effects) : booked effects = [] := by
  apply List.filter_eq_nil_iff.mpr
  intro e he
  have htools := h e he
  unfold Effect.isBooked
  split
  · cases htools
  · cases htools
  · cases htools
  · cases htools
  · exact Bool.false_ne_true

def LoopStep.consumed : LoopStep → ℕ
  | .break_ _ => 0
  | .continue_ n => n

/-- The messages that come with commands. -/
def messagesOf (cmds : List AgentCommand) : List Message := cmds.flatMap AgentCommand.messages

@[simp] theorem messagesOf_append (as bs : List AgentCommand) :
    messagesOf (as ++ bs) = messagesOf as ++ messagesOf bs := List.flatMap_append

theorem messagesOf_cons (cmd : AgentCommand) (cmds : List AgentCommand) :
    messagesOf (cmd :: cmds) = cmd.messages ++ messagesOf cmds := List.flatMap_cons

@[simp] theorem messagesOf_steer (ms : List Message) :
    messagesOf (ms.map .steer) = ms := by
  induction ms with
  | nil => rfl
  | cons m ms ih => exact congrArg (m :: ·) ih

@[simp] theorem messagesOf_followUp (ms : List Message) :
    messagesOf (ms.map .followUp) = ms := by
  induction ms with
  | nil => rfl
  | cons m ms ih => exact congrArg (m :: ·) ih

/-- What the end of a turn does to the commands: those it drains, those it takes, the queue it
leaves and the count it reports. The flag tells that the answer has calls. -/
inductive Boundary (queue arrived : List AgentCommand) :
    Bool → List AgentCommand → List AgentCommand → List AgentCommand → ℕ → Prop
  | skipped {calls : Bool} : Boundary queue arrived calls [] [] queue 0
  | cut (hcut : arrived.any AgentCommand.cuts = true) :
    Boundary queue arrived false arrived [] (boundaryRest queue arrived) 0
  | steered (hcut : arrived.any AgentCommand.cuts = false)
    (hsteer : boundarySteers queue arrived ≠ []) :
    Boundary queue arrived false arrived ((boundarySteers queue arrived).map .steer)
      (boundaryRest queue arrived ++ (boundaryFollowUps queue arrived).map .followUp)
      ((boundarySteers queue arrived).length + (boundaryFollowUps queue arrived).length)
  | followed (hcut : arrived.any AgentCommand.cuts = false)
    (hsteer : boundarySteers queue arrived = []) :
    Boundary queue arrived false arrived ((boundaryFollowUps queue arrived).map .followUp)
      (boundaryRest queue arrived) (boundaryFollowUps queue arrived).length
  | toolCut (hcut : arrived.any AgentCommand.cuts = true) :
    Boundary queue arrived true arrived [] (drainedQueue queue arrived) 0
  | toolDone (hcut : arrived.any AgentCommand.cuts = false) :
    Boundary queue arrived true arrived [] (queue ++ requeued arrived) 0

theorem TurnFinish.boundary {rt : AgentRuntime} {env : TurnEnv} {turn : TurnResult}
    {shutdown : Bool} {queue queue' : List AgentCommand} {injected : List Message}
    {behind : List Effect} {step : LoopStep}
    (h : TurnFinish rt env turn shutdown queue injected behind queue' step) :
    ∃ drained taken, Boundary queue env.arrived (!turn.toolCalls.isEmpty) drained taken queue'
        step.consumed ∧
      booked behind = drained.map .drained ++ taken.map .taken ∧
      (messagesOf taken).Sublist injected := by
  cases h with
  | aborted => exact ⟨[], [], .skipped, rfl, List.nil_sublist _⟩
  | cut _ hcalls hcut =>
    rw [hcalls]
    exact ⟨_, [], .cut hcut, by simp, List.nil_sublist _⟩
  | steered _ hcalls hcut hsteer =>
    rw [hcalls]
    refine ⟨_, _, .steered hcut hsteer, ?_, by simp⟩
    rw [booked_event, booked_append, booked_append, booked_drained, booked_taken, booked_said,
      List.append_nil]
  | followed _ hcalls hcut hsteer =>
    rw [hcalls]
    refine ⟨_, _, .followed hcut hsteer, ?_, by simp⟩
    rw [booked_event, booked_append, booked_append, booked_drained, booked_taken, booked_said,
      List.append_nil]
  | ended _ hcalls hcut hsteer hfollow =>
    rw [hcalls]
    have h := Boundary.followed hcut hsteer
    rw [hfollow] at h
    exact ⟨_, [], h, by simp, List.nil_sublist _⟩
  | stopped => exact ⟨[], [], .skipped, rfl, List.nil_sublist _⟩
  | toolCut _ hcalls _ hcut =>
    have hcalls' : (!turn.toolCalls.isEmpty) = true := by simpa using hcalls
    rw [hcalls']
    exact ⟨_, [], .toolCut hcut, by simp, List.nil_sublist _⟩
  | toolDone _ hcalls _ hcut =>
    have hcalls' : (!turn.toolCalls.isEmpty) = true := by simpa using hcalls
    rw [hcalls']
    exact ⟨_, [], .toolDone hcut, by simp, List.nil_sublist _⟩

/-- Commands by kind: what cannot enter a run, steering messages, follow-ups. -/
theorem perm_kinds (cmds : List AgentCommand) :
    cmds.Perm ((cmds.filter fun cmd => !cmd.isPending) ++
      ((steers cmds).map .steer ++ (followUps cmds).map .followUp)) := by
  induction cmds with
  | nil => exact .nil
  | cons cmd cmds ih =>
    cases cmd with
    | steer m => exact (ih.cons _).trans List.perm_middle.symm
    | followUp m =>
      refine (ih.cons _).trans ?_
      rw [← List.append_assoc]
      refine List.perm_middle.symm.trans ?_
      rw [List.append_assoc]
      rfl
    | prompt | continue_ | abort | reset | shutdown => exact ih.cons _

/-- The commands of a drain that do not cut the run. -/
def counted (cmds : List AgentCommand) : List AgentCommand := cmds.filter AgentCommand.isCounted

@[simp] theorem counted_append (as bs : List AgentCommand) :
    counted (as ++ bs) = counted as ++ counted bs := List.filter_append ..

theorem filter_counted (arrived : List AgentCommand) :
    ((counted arrived).filter fun cmd => !cmd.isPending) =
      arrived.filter AgentCommand.isDeferred := by
  unfold counted
  rw [List.filter_filter]
  apply List.filter_congr
  intro cmd _
  cases cmd <;> rfl

theorem steers_counted (arrived : List AgentCommand) :
    steers (counted arrived) = steers arrived := by
  unfold counted steers
  rw [List.filterMap_filter]
  apply List.filterMap_congr
  intro cmd _
  cases cmd <;> rfl

theorem followUps_counted (arrived : List AgentCommand) :
    followUps (counted arrived) = followUps arrived := by
  unfold counted followUps
  rw [List.filterMap_filter]
  apply List.filterMap_congr
  intro cmd _
  cases cmd <;> rfl

/-- The commands of a drain by kind. -/
theorem perm_counted (arrived : List AgentCommand) :
    (counted arrived).Perm (arrived.filter AgentCommand.isDeferred ++
      ((steers arrived).map .steer ++ (followUps arrived).map .followUp)) := by
  have h := perm_kinds (counted arrived)
  rwa [filter_counted, steers_counted, followUps_counted] at h

theorem requeued_perm (arrived : List AgentCommand) :
    (requeued arrived).Perm (counted arrived) := by
  unfold requeued
  rw [List.append_assoc]
  exact (perm_counted arrived).symm

theorem flatMap_requeued_perm (drains : List (List AgentCommand)) :
    (drains.flatMap requeued).Perm (counted drains.flatten) := by
  induction drains with
  | nil => exact .nil
  | cons arrived drains ih =>
    rw [List.flatMap_cons, List.flatten_cons, counted_append]
    exact (requeued_perm arrived).append ih

theorem pending_isDeferred (arrived : List AgentCommand) :
    steers (arrived.filter AgentCommand.isDeferred) = [] ∧
      followUps (arrived.filter AgentCommand.isDeferred) = [] := by
  unfold steers followUps
  rw [List.filterMap_filter, List.filterMap_filter, List.filterMap_eq_nil_iff,
    List.filterMap_eq_nil_iff]
  constructor
  · intro cmd _
    cases cmd <;> rfl
  · intro cmd _
    cases cmd <;> rfl

theorem boundarySteers_eq (queue arrived : List AgentCommand) :
    boundarySteers queue arrived = steers arrived ++ steers queue := by
  unfold boundarySteers drainedQueue
  rw [steers, steers, steers, List.filterMap_append]
  exact congrArg _ (by rw [← steers, ← steers, (pending_isDeferred arrived).1, List.append_nil])

theorem boundaryFollowUps_eq (queue arrived : List AgentCommand) :
    boundaryFollowUps queue arrived = followUps arrived ++ followUps queue := by
  unfold boundaryFollowUps drainedQueue
  rw [followUps, followUps, followUps, List.filterMap_append]
  exact congrArg _ (by rw [← followUps, ← followUps, (pending_isDeferred arrived).2,
    List.append_nil])

/-- The queue in front of a boundary, and what is drained there, by kind. -/
theorem boundary_perm (queue arrived : List AgentCommand) :
    (boundaryRest queue arrived ++ ((boundarySteers queue arrived).map AgentCommand.steer ++
      (boundaryFollowUps queue arrived).map AgentCommand.followUp)).Perm
      (queue ++ counted arrived) := by
  have hqueue := perm_kinds (drainedQueue queue arrived)
  have harrived := perm_counted arrived
  rw [List.perm_iff_count] at hqueue harrived ⊢
  intro cmd
  have h₁ := hqueue cmd
  have h₂ := harrived cmd
  simp only [boundaryRest, boundarySteers, boundaryFollowUps, drainedQueue, List.map_append,
    List.count_append] at h₁ h₂ ⊢
  omega

/-- Nothing that could enter the run is in sight when a drain at the end of a turn cuts it. -/
def keepsAll (calls : Bool) (queue arrived : List AgentCommand) : Bool :=
  !arrived.any AgentCommand.cuts ||
    (if calls then arrived else queue ++ arrived).all fun cmd => !cmd.isPending

theorem steers_of_all {cmds : List AgentCommand} (h : (cmds.all fun cmd => !cmd.isPending) = true) :
    steers cmds = [] ∧ followUps cmds = [] := by
  rw [List.all_eq_true] at h
  constructor
  · apply List.filterMap_eq_nil_iff.mpr
    intro cmd hcmd
    have hno := h cmd hcmd
    cases cmd <;> first | rfl | cases hno
  · apply List.filterMap_eq_nil_iff.mpr
    intro cmd hcmd
    have hno := h cmd hcmd
    cases cmd <;> first | rfl | cases hno

/-- Commands stay in the queue or are taken in, unless a cut comes upon pending ones. -/
theorem Boundary.perm {queue arrived drained taken queue' : List AgentCommand} {calls : Bool}
    {consumed : ℕ} (h : Boundary queue arrived calls drained taken queue' consumed)
    (hkeeps : keepsAll calls queue arrived = true) :
    (queue' ++ taken).Perm (queue ++ counted drained) := by
  have hbound := boundary_perm queue arrived
  unfold keepsAll at hkeeps
  cases h with
  | skipped => exact .refl _
  | cut hcut =>
    rw [hcut] at hkeeps
    simp only [Bool.not_true, Bool.false_or, Bool.false_eq_true, ↓reduceIte, List.all_append,
      Bool.and_eq_true] at hkeeps
    obtain ⟨hs, hf⟩ := steers_of_all hkeeps.1
    obtain ⟨hs', hf'⟩ := steers_of_all hkeeps.2
    rwa [boundarySteers_eq, boundaryFollowUps_eq, hs, hf, hs', hf'] at hbound
  | steered =>
    rw [List.append_assoc]
    exact (List.perm_append_comm.append_left _).trans hbound
  | followed _ hsteer =>
    rwa [hsteer] at hbound
  | toolCut hcut =>
    rw [hcut] at hkeeps
    simp only [Bool.not_true, Bool.false_or, ↓reduceIte] at hkeeps
    obtain ⟨hs, hf⟩ := steers_of_all hkeeps
    have h := perm_counted arrived
    rw [hs, hf, List.map_nil, List.map_nil, List.append_nil, List.append_nil] at h
    rw [List.append_nil]
    exact h.symm.append_left queue
  | toolDone =>
    rw [List.append_nil]
    exact (requeued_perm arrived).append_left queue

namespace TurnEnv

/-- The answer of the turn calls tools. -/
def callsTools (env : TurnEnv) (rt : AgentRuntime) (s : LoopState) : Bool :=
  env.established rt.loopConfig s.ctx.tokens && !(env.answer rt).toolCalls.isEmpty

/-- The stream of the turn is cut. -/
def aborts (env : TurnEnv) (rt : AgentRuntime) (s : LoopState) : Bool :=
  env.established rt.loopConfig s.ctx.tokens && (env.answer rt).aborted

/-- What waits in the queue when the answer of the turn is complete. -/
def waiting (env : TurnEnv) (rt : AgentRuntime) (s : LoopState) : List AgentCommand :=
  s.ctx.queue ++ (env.drains rt.loopConfig s.ctx.tokens).flatMap requeued

end TurnEnv

/-- What a turn does to the commands: nothing, or it drains behind the events of its stream and,
if that is not cut, at its end. -/
inductive TurnBooks (rt : AgentRuntime) (env : TurnEnv) (s s' : LoopState) : Prop
  | kept (hqueue : s'.ctx.queue = s.ctx.queue) (hconsumed : s'.consumed = s.consumed)
    (hbooked : booked s'.ctx.trace = booked s.ctx.trace)
    (hpushed : s.ctx.transcript.Sublist s'.ctx.transcript)
  | cut (habort : env.aborts rt s = true) (hqueue : s'.ctx.queue = env.waiting rt s)
    (hconsumed : s'.consumed = s.consumed)
    (hbooked : booked s'.ctx.trace = booked s.ctx.trace ++
      (env.drains rt.loopConfig s.ctx.tokens).flatten.map .drained)
    (hpushed : env.commit? rt s.ctx.transcript = none →
      s.ctx.transcript.Sublist s'.ctx.transcript)
  | moved {drained taken : List AgentCommand} {consumed : ℕ}
    (habort : env.aborts rt s = false)
    (hbound : Boundary (env.waiting rt s) env.arrived (env.callsTools rt s) drained taken
      s'.ctx.queue consumed)
    (hconsumed : s'.consumed = s.consumed + consumed)
    (hbooked : booked s'.ctx.trace = booked s.ctx.trace ++
      ((env.drains rt.loopConfig s.ctx.tokens).flatten.map .drained ++
        (drained.map .drained ++ taken.map .taken)))
    (hpushed : env.commit? rt s.ctx.transcript = none →
      ∃ pushed, s'.ctx.transcript = s.ctx.transcript ++ pushed ∧
        (messagesOf taken).Sublist pushed)

theorem StreamOutcome.booked_eq {rt : AgentRuntime} {env : TurnEnv} {tokens : Tokens}
    {turn : TurnResult} {stream : List Effect} (h : StreamOutcome rt env tokens turn stream) :
    booked stream = (env.drains rt.loopConfig tokens).flatten.map .drained ∧
      (!turn.toolCalls.isEmpty) =
        (env.established rt.loopConfig tokens && !(env.answer rt).toolCalls.isEmpty) := by
  unfold TurnEnv.drains
  cases h with
  | failed hno hcalls =>
    rw [hno, hcalls]
    exact ⟨rfl, rfl⟩
  | answered hset hquiet hlast hdrained =>
    rw [hset, booked_append, hquiet.booked_eq, hdrained]
    exact ⟨List.append_nil _, rfl⟩

theorem StreamOutcome.aborted_of_aborts {rt : AgentRuntime} {env : TurnEnv} {s : LoopState}
    {turn : TurnResult} {stream : List Effect}
    (h : StreamOutcome rt env s.ctx.tokens turn stream) (habort : env.aborts rt s = true) :
    turn.aborted = true := by
  unfold TurnEnv.aborts at habort
  rw [Bool.and_eq_true] at habort
  cases h with
  | failed hno => exact absurd (hno.symm.trans habort.1) (by simp)
  | answered => exact habort.2

theorem TurnFinish.booked_of_aborted {rt : AgentRuntime} {env : TurnEnv} {turn : TurnResult}
    {shutdown : Bool} {queue queue' : List AgentCommand} {injected : List Message}
    {behind : List Effect} {step : LoopStep}
    (h : TurnFinish rt env turn shutdown queue injected behind queue' step)
    (habort : turn.aborted = true) : booked behind = [] := by
  cases h with
  | aborted => rfl
  | cut hno | steered hno | followed hno | ended hno | stopped hno | toolCut hno
  | toolDone hno => exact absurd (hno.symm.trans habort) (by simp)

theorem turnStep_books {rt : AgentRuntime} {s : LoopState} (env : TurnEnv) :
    TurnBooks rt env s (turnStep rt s env) := by
  cases hs : s.finished with
  | true =>
    rw [turnStep_finished env hs]
    exact .kept rfl rfl rfl (List.Sublist.refl _)
  | false =>
    rcases turnStep_cases env hs with ⟨-, hnext, hadds, hqueue⟩ | ⟨-, base, turn, injected, before,
      stream, behind, step, h⟩
    · refine .kept hqueue (by rw [hnext]) ?_ ?_
      · rw [hadds.trace, booked_append]
        exact List.append_nil _
      · rw [hadds.transcript]
        exact List.sublist_append_left _ _
    · obtain ⟨drained, taken, hbound, hbehind, htaken⟩ := h.finish.boundary
      obtain ⟨hstream, hcalls⟩ := h.outcome.booked_eq
      obtain ⟨request, htrace⟩ := h.trace
      have hbefore : booked before = [] := by
        cases h.prepared <;> rfl
      have hbase : env.commit? rt s.ctx.transcript = none → base = s.ctx.transcript := by
        intro hnone
        cases h.prepared with
        | kept => rfl
        | committed hcommit => exact absurd (hcommit.symm.trans hnone) (by simp)
      have hbooked : booked (turnStep rt s env).ctx.trace = booked s.ctx.trace ++
          ((env.drains rt.loopConfig s.ctx.tokens).flatten.map .drained ++
            (drained.map .drained ++ taken.map .taken)) := by
        rw [htrace]
        simp [hbefore, hstream, (toolWork_ofTools rt env turn).booked_eq, hbehind]
      cases habort : env.aborts rt s with
      | true =>
        have hturn := h.outcome.aborted_of_aborts habort
        obtain ⟨hqueue, hstep⟩ := h.finish.of_aborted hturn
        refine .cut habort hqueue ?_ ?_ ?_
        · rw [h.next, hstep]
          rfl
        · rw [hbooked, ← hbehind, h.finish.booked_of_aborted hturn, List.append_nil]
        · intro hnone
          rw [h.transcript, hbase hnone]
          exact List.sublist_append_left _ _
      | false =>
        rw [hcalls] at hbound
        refine .moved habort hbound ?_ hbooked ?_
        · rw [h.next]
          cases step <;> rfl
        · intro hnone
          refine ⟨_, by rw [h.transcript, hbase hnone], ?_⟩
          exact htaken.trans ((List.sublist_append_right _ _).trans (List.sublist_cons_self _ _))

/-- What a run does to the commands in front of its first turn. -/
theorem startLoop_books (ctx : RunContext) (initial : List Message)
    (arrivals : List (List AgentCommand)) :
    (startLoop ctx initial arrivals).ctx.queue =
        ctx.queue ++ (initialDrains initial arrivals).flatMap requeued ∧
      booked (startLoop ctx initial arrivals).ctx.trace =
        booked ctx.trace ++ booked (initialEffects initial arrivals) ∧
      (startLoop ctx initial arrivals).ctx.transcript =
        ctx.transcript ++ appendedInitial initial arrivals := by
  have hadds := ctx.adds_startLoop initial arrivals
  obtain ⟨-, hqueue, -⟩ := RunContext.appendInitialMessages_eq
    { ctx with tokens := { ctx.tokens with signal := false } } initial arrivals
  refine ⟨hqueue, ?_, hadds.transcript⟩
  rw [hadds.trace, booked_append, booked_append]
  exact congrArg _ (List.append_nil _)

end Guigu
