import Guigu.Core.Runtime.Loop

/-! What one turn of the loop does: how its request is prepared, how its stream ends, and what
follows the answer. -/
namespace Guigu

namespace TurnEnv

/-- The answer of a stream that can be set up. -/
def answer (env : TurnEnv) (rt : AgentRuntime) : TurnResult :=
  let message := env.streamed.finalize rt.loopConfig.model.id
  ⟨message, extractToolCalls message, env.streamed.aborted⟩

/-- What is drained while the stream of the turn is consumed. -/
def drains (env : TurnEnv) (config : LoopConfig) (tokens : Tokens) : List (List AgentCommand) :=
  if env.established config tokens then TurnAccumulator.empty.drains env.stream else []

/-- What the calls of an answer lead to; an aborted answer is not followed up. -/
def toolWork (env : TurnEnv) (rt : AgentRuntime) (turn : TurnResult) :
    List Effect × List ToolResultMessage :=
  if turn.aborted || turn.toolCalls.isEmpty then ([], [])
  else executeToolCalls rt env turn.toolCalls turn.assistantMessage.stopReason

/-- The plan of the request over a transcript. -/
def plan (env : TurnEnv) (rt : AgentRuntime) (transcript : List Message) :
    Except CompactionError PreparedContext :=
  if rt.loopConfig.compactor then planContext transcript rt.loopConfig.compaction env.compacted
  else .ok ⟨transcript, none⟩

/-- The compaction in front of the request is cancelled. -/
def cancelsCompaction (env : TurnEnv) (rt : AgentRuntime) (transcript : List Message) : Bool :=
  match env.plan rt transcript with
  | .error .cancelled => true
  | _ => false

/-- What the turn commits in front of its request. -/
def commit? (env : TurnEnv) (rt : AgentRuntime) (transcript : List Message) :
    Option CompactionCommit :=
  (env.plan rt transcript).toOption.bind PreparedContext.commit

/-- Only a summary of the compactor is committed. -/
theorem compacted_of_commit {env : TurnEnv} {rt : AgentRuntime} {transcript : List Message}
    {commit : CompactionCommit} (h : env.commit? rt transcript = some commit) :
    env.compacted = .ok commit.summary := by
  unfold commit? plan at h
  cases hcompactor : rt.loopConfig.compactor with
  | false =>
    rw [hcompactor] at h
    cases h
  | true =>
    rw [hcompactor] at h
    simp only [↓reduceIte] at h
    cases hplan : planContext transcript rt.loopConfig.compaction env.compacted with
    | error e =>
      rw [hplan] at h
      cases h
    | ok prepared =>
      rw [hplan] at h
      exact (planContext_commit hplan h).2.1

theorem commit?_cut (rt : AgentRuntime) (transcript : List Message) :
    TurnEnv.cut.commit? rt transcript = none := by
  cases hcommit : TurnEnv.cut.commit? rt transcript with
  | none => rfl
  | some commit => exact absurd (compacted_of_commit hcommit) (by simp [TurnEnv.cut])

end TurnEnv

/-- The transcript a request is built from, and the effects of its preparation. -/
inductive Prepared (rt : AgentRuntime) (env : TurnEnv) (transcript : List Message) :
    List Message → List Effect → Prop
  | kept (hcommit : env.commit? rt transcript = none) :
    Prepared rt env transcript transcript []
  | committed {commit : CompactionCommit} {m : Message}
    (hcommit : env.commit? rt transcript = some commit)
    (hm : transcript[commit.keepFrom]? = some m) (huser : m.isUser = true) :
    Prepared rt env transcript (summaryMessage commit.summary :: transcript.drop commit.keepFrom)
      [.event (.messageEnd (summaryMessage commit.summary))]

/-- How the stream of a turn ends, with the effects on the way. -/
inductive StreamOutcome (rt : AgentRuntime) (env : TurnEnv) (tokens : Tokens) :
    TurnResult → List Effect → Prop
  | failed {turn : TurnResult} (h : env.established rt.loopConfig tokens = false)
    (hcalls : turn.toolCalls = []) (hcontent : turn.assistantMessage.content = []) :
    StreamOutcome rt env tokens turn []
  | answered {effects : List Effect} (h : env.established rt.loopConfig tokens = true)
    (hquiet : Quiet effects)
    (hlast : ∀ m, lastStreamed effects = some (.done m) ↔ env.streamed.finalMessage = some m)
    (hdrained : drainedOf effects = (TurnAccumulator.empty.drains env.stream).flatten) :
    StreamOutcome rt env tokens (env.answer rt)
      (effects ++ [.event (.messageEnd (.assistant (env.answer rt).assistantMessage))])

section Boundary
variable (queue arrived : List AgentCommand)

/-- The queue behind a drain at the boundary between two turns. -/
def drainedQueue : List AgentCommand := queue ++ arrived.filter AgentCommand.isDeferred

/-- The steering messages at the boundary, those of the channel in front. -/
def boundarySteers : List Message := steers arrived ++ steers (drainedQueue queue arrived)

def boundaryFollowUps : List Message :=
  followUps arrived ++ followUps (drainedQueue queue arrived)

/-- What waits on behind the boundary. -/
def boundaryRest : List AgentCommand :=
  (drainedQueue queue arrived).filter fun cmd => !cmd.isPending

end Boundary

/-- What follows an answer: the messages that enter the transcript behind it and behind its
results, the effects, the queue that is left and the step of the loop. -/
inductive TurnFinish (rt : AgentRuntime) (env : TurnEnv) (turn : TurnResult) (shutdown : Bool)
    (queue : List AgentCommand) :
    List Message → List Effect → List AgentCommand → LoopStep → Prop
  | aborted (habort : turn.aborted = true) :
    TurnFinish rt env turn shutdown queue [] [.event (.turnEnd turn.assistantMessage [])] queue
      (.break_ shutdown)
  | cut (habort : turn.aborted = false) (hcalls : turn.toolCalls = [])
    (hcut : env.arrived.any AgentCommand.cuts = true) :
    TurnFinish rt env turn shutdown queue []
      (.event (.turnEnd turn.assistantMessage []) :: env.arrived.map .drained)
      (boundaryRest queue env.arrived) (.break_ (env.arrived.any AgentCommand.isShutdown))
  | steered (habort : turn.aborted = false) (hcalls : turn.toolCalls = [])
    (hcut : env.arrived.any AgentCommand.cuts = false)
    (hsteer : boundarySteers queue env.arrived ≠ []) :
    TurnFinish rt env turn shutdown queue (boundarySteers queue env.arrived)
      (.event (.turnEnd turn.assistantMessage []) :: (env.arrived.map .drained ++
        (((boundarySteers queue env.arrived).map .steer).map .taken ++
          said (boundarySteers queue env.arrived))))
      (boundaryRest queue env.arrived ++ (boundaryFollowUps queue env.arrived).map .followUp)
      (.continue_ ((boundarySteers queue env.arrived).length +
        (boundaryFollowUps queue env.arrived).length))
  | followed (habort : turn.aborted = false) (hcalls : turn.toolCalls = [])
    (hcut : env.arrived.any AgentCommand.cuts = false)
    (hsteer : boundarySteers queue env.arrived = [])
    (hfollow : boundaryFollowUps queue env.arrived ≠ []) :
    TurnFinish rt env turn shutdown queue (boundaryFollowUps queue env.arrived)
      (.event (.turnEnd turn.assistantMessage []) :: (env.arrived.map .drained ++
        (((boundaryFollowUps queue env.arrived).map .followUp).map .taken ++
          said (boundaryFollowUps queue env.arrived))))
      (boundaryRest queue env.arrived)
      (.continue_ (boundaryFollowUps queue env.arrived).length)
  | ended (habort : turn.aborted = false) (hcalls : turn.toolCalls = [])
    (hcut : env.arrived.any AgentCommand.cuts = false)
    (hsteer : boundarySteers queue env.arrived = [])
    (hfollow : boundaryFollowUps queue env.arrived = []) :
    TurnFinish rt env turn shutdown queue []
      (.event (.turnEnd turn.assistantMessage []) :: env.arrived.map .drained)
      (boundaryRest queue env.arrived) (.break_ false)
  | stopped (habort : turn.aborted = false) (hcalls : turn.toolCalls ≠ [])
    (hstop : env.shouldStop rt.loopConfig = true) :
    TurnFinish rt env turn shutdown queue []
      [.event (.turnEnd turn.assistantMessage (env.toolWork rt turn).2)] queue (.break_ false)
  | toolCut (habort : turn.aborted = false) (hcalls : turn.toolCalls ≠ [])
    (hstop : env.shouldStop rt.loopConfig = false)
    (hcut : env.arrived.any AgentCommand.cuts = true) :
    TurnFinish rt env turn shutdown queue (env.injection rt.loopConfig)
      (.event (.turnEnd turn.assistantMessage (env.toolWork rt turn).2) ::
        (said (env.injection rt.loopConfig) ++ env.arrived.map .drained))
      (drainedQueue queue env.arrived) (.break_ (env.arrived.any AgentCommand.isShutdown))
  | toolDone (habort : turn.aborted = false) (hcalls : turn.toolCalls ≠ [])
    (hstop : env.shouldStop rt.loopConfig = false)
    (hcut : env.arrived.any AgentCommand.cuts = false) :
    TurnFinish rt env turn shutdown queue (env.injection rt.loopConfig)
      (.event (.turnEnd turn.assistantMessage (env.toolWork rt turn).2) ::
        (said (env.injection rt.loopConfig) ++ env.arrived.map .drained))
      (queue ++ requeued env.arrived) (.continue_ 0)

/-- A turn from its request to its end. -/
structure TurnTaken (rt : AgentRuntime) (env : TurnEnv) (s s' : LoopState)
    (base : List Message) (turn : TurnResult) (injected : List Message)
    (before stream behind : List Effect) (step : LoopStep) : Prop where
  prepared : Prepared rt env s.ctx.transcript base before
  outcome : StreamOutcome rt env s.ctx.tokens turn stream
  finish : TurnFinish rt env turn s.shutdown
    (s.ctx.queue ++ (env.drains rt.loopConfig s.ctx.tokens).flatMap requeued) injected behind
    s'.ctx.queue step
  next : s' = s.after s'.ctx step
  transcript : s'.ctx.transcript =
    base ++ .assistant turn.assistantMessage ::
      ((env.toolWork rt turn).2.map .toolResult ++ injected)
  trace : ∃ request, s'.ctx.trace = s.ctx.trace ++ .event .turnStart :: (before ++
    .request base request :: (stream ++ ((env.toolWork rt turn).1 ++ behind)))

namespace RunContext

theorem prepareRequestMessages_cases (rt : AgentRuntime) (ctx : RunContext) (env : TurnEnv) :
    (env.cancelsCompaction rt ctx.transcript = true ∧
        (ctx.prepareRequestMessages rt env).1 = none ∧
        Adds ctx (ctx.prepareRequestMessages rt env).2 [] [] ∧
        (ctx.prepareRequestMessages rt env).2.queue = ctx.queue) ∨
      (env.cancelsCompaction rt ctx.transcript = false ∧
        ∃ messages base before, (ctx.prepareRequestMessages rt env).1 = some messages ∧
          Prepared rt env ctx.transcript base before ∧
          (ctx.prepareRequestMessages rt env).2.transcript = base ∧
          (ctx.prepareRequestMessages rt env).2.trace = ctx.trace ++ before ∧
          (ctx.prepareRequestMessages rt env).2.queue = ctx.queue ∧
          (ctx.prepareRequestMessages rt env).2.tokens = ctx.tokens) := by
  unfold prepareRequestMessages TurnEnv.cancelsCompaction
  have hplan : env.plan rt ctx.transcript = if rt.loopConfig.compactor then
      planContext ctx.transcript rt.loopConfig.compaction env.compacted
      else .ok ⟨ctx.transcript, none⟩ := rfl
  cases hcompactor : rt.loopConfig.compactor with
  | false =>
    rw [hcompactor] at hplan
    have hnone : env.commit? rt ctx.transcript = none := by
      unfold TurnEnv.commit?
      rw [hplan]
      rfl
    refine .inr ⟨by rw [hplan]; rfl, _, _, _, rfl, .kept hnone, rfl, ?_, rfl, rfl⟩
    exact (List.append_nil _).symm
  | true =>
    rw [hcompactor] at hplan
    simp only [↓reduceIte] at hplan ⊢
    cases hresult : planContext ctx.transcript rt.loopConfig.compaction env.compacted with
    | error e =>
      rw [hresult] at hplan
      have hnone : env.commit? rt ctx.transcript = none := by
        unfold TurnEnv.commit?
        rw [hplan]
        rfl
      rw [hplan]
      cases e with
      | cancelled =>
        exact .inl ⟨rfl, rfl, ⟨(List.append_nil _).symm, (List.append_nil _).symm⟩, rfl⟩
      | provider _ | emptyInput | emptySummary =>
        exact .inr ⟨rfl, _, _, _, rfl, .kept hnone, rfl, (List.append_nil _).symm, rfl, rfl⟩
    | ok prepared =>
      rw [hresult] at hplan
      have hcommit : env.commit? rt ctx.transcript = prepared.commit := by
        unfold TurnEnv.commit?
        rw [hplan]
        rfl
      rw [hplan]
      refine .inr ⟨rfl, ?_⟩
      cases hsome : prepared.commit with
      | none =>
        rw [hsome] at hcommit
        simp only [hsome]
        exact ⟨_, _, _, rfl, .kept hcommit, rfl, (List.append_nil _).symm, trivial, trivial⟩
      | some commit =>
        rw [hsome] at hcommit
        simp only [hsome]
        obtain ⟨⟨m, hm, huser⟩, -, -⟩ := planContext_commit hresult hsome
        exact ⟨_, _, _, rfl, .committed hcommit hm huser, rfl, rfl, rfl, rfl⟩

theorem streamTurn_outcome (rt : AgentRuntime) (ctx : RunContext) (env : TurnEnv) :
    ∃ effects, StreamOutcome rt env ctx.tokens (streamTurn rt ctx env).1 effects ∧
      Adds ctx (streamTurn rt ctx env).2 [] effects ∧
      (streamTurn rt ctx env).2.queue =
        ctx.queue ++ (env.drains rt.loopConfig ctx.tokens).flatMap requeued := by
  unfold TurnEnv.drains
  cases h : env.established rt.loopConfig ctx.tokens with
  | false =>
    obtain ⟨hcalls, hcontent, hadds, hqueue⟩ := streamTurn_failed h
    exact ⟨[], .failed h hcalls hcontent, hadds, by simpa using hqueue⟩
  | true =>
    obtain ⟨heq, ctx', effects, hcons, hctx⟩ := streamTurn_established h
    rw [heq, hctx]
    exact ⟨_, .answered h hcons.quiet hcons.last hcons.drained,
      hcons.adds.trans (adds_send ctx' _), hcons.queue⟩

end RunContext

theorem RunContext.adds_pushAssistantMessage (ctx : RunContext) (turn : TurnResult) :
    Adds ctx (ctx.pushAssistantMessage turn) [.assistant turn.assistantMessage] [] :=
  (adds_push ctx _).trans (adds_updateSnapshot _ false none [] _)

theorem adds_pushToolResults (ctx : RunContext) (results : List ToolResultMessage) :
    RunContext.Adds ctx (pushToolResults ctx results) (results.map .toolResult) [] :=
  ⟨rfl, (List.append_nil _).symm⟩

theorem RunContext.collectPending_eq (ctx : RunContext) (arrived : List AgentCommand) :
    (ctx.collectPending arrived).1 =
        ⟨arrived.any AgentCommand.isAbort, arrived.any AgentCommand.isShutdown,
          boundarySteers ctx.queue arrived, boundaryFollowUps ctx.queue arrived⟩ ∧
      (ctx.collectPending arrived).2.queue = boundaryRest ctx.queue arrived := by
  unfold collectPending
  simp only [drainCommands_fst, queue_drainCommands]
  exact ⟨rfl, rfl⟩

theorem any_cuts (arrived : List AgentCommand) :
    (arrived.any AgentCommand.isAbort || arrived.any AgentCommand.isShutdown) =
      arrived.any AgentCommand.cuts := by
  have h := (RunContext.start []).drainCommands_cuts arrived
  rwa [RunContext.drainCommands_fst] at h

theorem noToolStep_finish (rt : AgentRuntime) (ctx : RunContext) {turn : TurnResult}
    (env : TurnEnv) (shutdown : Bool) (habort : turn.aborted = false)
    (hcalls : turn.toolCalls = []) :
    ∃ injected behind,
      TurnFinish rt env turn shutdown ctx.queue injected behind
        (noToolStep ctx turn.assistantMessage env).2.queue
        (noToolStep ctx turn.assistantMessage env).1 ∧
      RunContext.Adds ctx (noToolStep ctx turn.assistantMessage env).2 injected behind := by
  have hdrain := (RunContext.adds_send ctx (.turnEnd turn.assistantMessage [])).trans
    ((ctx.send (.turnEnd turn.assistantMessage [])).adds_collectPending env.arrived)
  obtain ⟨hfound, hrest⟩ :=
    (ctx.send (.turnEnd turn.assistantMessage [])).collectPending_eq env.arrived
  have hqueue : (ctx.send (.turnEnd turn.assistantMessage [])).queue = ctx.queue := rfl
  rw [hqueue] at hfound hrest
  unfold noToolStep
  generalize (ctx.send (.turnEnd turn.assistantMessage [])).collectPending env.arrived = d
    at hdrain hfound hrest
  simp only [hfound, any_cuts]
  cases hcut : env.arrived.any AgentCommand.cuts with
  | true =>
    simp only [↓reduceIte]
    rw [hrest]
    exact ⟨[], _, .cut habort hcalls hcut, hdrain⟩
  | false =>
    simp only [Bool.false_eq_true, ↓reduceIte]
    cases hsteer : (boundarySteers ctx.queue env.arrived).isEmpty with
    | false =>
      have hne : boundarySteers ctx.queue env.arrived ≠ [] := by
        simpa using hsteer
      simp only [Bool.not_false, ↓reduceIte]
      have hput : RunContext.Adds d.2 { d.2 with
          queue := d.2.queue ++ (boundaryFollowUps ctx.queue env.arrived).map .followUp } [] [] :=
        ⟨(List.append_nil _).symm, (List.append_nil _).symm⟩
      have hsaid := ((hdrain.trans hput).trans (RunContext.adds_record _
        ((boundarySteers ctx.queue env.arrived).map fun m => .taken (.steer m)))).trans
        (RunContext.adds_appendUserMessages _ (boundarySteers ctx.queue env.arrived))
      rw [RunContext.queue_appendUserMessages]
      simp only [RunContext.record, hrest] at hsaid ⊢
      refine ⟨_, _, .steered habort hcalls hcut hne, ?_⟩
      simpa [List.map_map, Function.comp_def] using hsaid
    | true =>
      have hnil : boundarySteers ctx.queue env.arrived = [] := by
        simpa using hsteer
      simp only [Bool.not_true, Bool.false_eq_true, ↓reduceIte]
      cases hfollow : (boundaryFollowUps ctx.queue env.arrived).isEmpty with
      | false =>
        have hne : boundaryFollowUps ctx.queue env.arrived ≠ [] := by
          simpa using hfollow
        simp only [Bool.not_false, ↓reduceIte]
        have hsaid := (hdrain.trans (RunContext.adds_record _
          ((boundaryFollowUps ctx.queue env.arrived).map fun m => .taken (.followUp m)))).trans
          (RunContext.adds_appendUserMessages _ (boundaryFollowUps ctx.queue env.arrived))
        rw [RunContext.queue_appendUserMessages, hnil, List.length_nil, Nat.zero_add]
        simp only [RunContext.record, hrest] at hsaid ⊢
        refine ⟨_, _, .followed habort hcalls hcut hnil hne, ?_⟩
        simpa [List.map_map, Function.comp_def] using hsaid
      | true =>
        have hnone : boundaryFollowUps ctx.queue env.arrived = [] := by
          simpa using hfollow
        simp only [Bool.not_true, Bool.false_eq_true, ↓reduceIte]
        rw [hrest]
        exact ⟨[], _, .ended habort hcalls hcut hnil hnone, hdrain⟩

theorem toolStep_finish (rt : AgentRuntime) (ctx : RunContext) {turn : TurnResult}
    (env : TurnEnv) (shutdown : Bool) (habort : turn.aborted = false)
    (hcalls : turn.toolCalls ≠ []) :
    ∃ injected behind,
      TurnFinish rt env turn shutdown ctx.queue injected behind (toolStep rt ctx turn env).2.queue
        (toolStep rt ctx turn env).1 ∧
      RunContext.Adds ctx (toolStep rt ctx turn env).2
        ((env.toolWork rt turn).2.map .toolResult ++ injected)
        ((env.toolWork rt turn).1 ++ behind) := by
  have hwork : env.toolWork rt turn =
      executeToolCalls rt env turn.toolCalls turn.assistantMessage.stopReason := by
    unfold TurnEnv.toolWork
    simp [habort, hcalls]
  unfold toolStep
  rw [← hwork]
  simp only
  have hpush := ((RunContext.adds_record ctx (env.toolWork rt turn).1).trans
    (adds_pushToolResults (ctx.record (env.toolWork rt turn).1) (env.toolWork rt turn).2)).trans
    (RunContext.adds_send _ (.turnEnd turn.assistantMessage (env.toolWork rt turn).2))
  simp only [List.nil_append, List.append_nil] at hpush
  have hqueue : ((pushToolResults (ctx.record (env.toolWork rt turn).1)
      (env.toolWork rt turn).2).send
      (.turnEnd turn.assistantMessage (env.toolWork rt turn).2)).queue = ctx.queue := rfl
  generalize (pushToolResults (ctx.record (env.toolWork rt turn).1) (env.toolWork rt turn).2).send
    (.turnEnd turn.assistantMessage (env.toolWork rt turn).2) = ctx₁ at hpush hqueue
  have hdrain := (ctx₁.adds_appendUserMessages (env.injection rt.loopConfig)).trans
    (RunContext.adds_drainCommands _ env.arrived)
  have hleft := (ctx₁.appendUserMessages (env.injection rt.loopConfig)).queue_requeue env.arrived
  have hrest := (ctx₁.appendUserMessages (env.injection rt.loopConfig)).queue_drainCommands
    env.arrived
  have hcuts := (ctx₁.appendUserMessages (env.injection rt.loopConfig)).drainCommands_cuts
    env.arrived
  have hfound := (ctx₁.appendUserMessages (env.injection rt.loopConfig)).drainCommands_fst
    env.arrived
  rw [RunContext.queue_appendUserMessages, hqueue] at hleft hrest
  generalize (ctx₁.appendUserMessages (env.injection rt.loopConfig)).drainCommands env.arrived = d
    at hdrain hleft hrest hcuts hfound
  rw [hcuts]
  cases hstop : env.shouldStop rt.loopConfig with
  | true =>
    simp only [↓reduceIte]
    rw [hqueue]
    exact ⟨[], _, .stopped habort hcalls hstop, by simpa using hpush⟩
  | false =>
    simp only [Bool.false_eq_true, ↓reduceIte]
    cases hcut : env.arrived.any AgentCommand.cuts with
    | true =>
      simp only [↓reduceIte]
      rw [hrest, hfound]
      refine ⟨_, _, .toolCut habort hcalls hstop hcut, ?_⟩
      simpa only [List.append_assoc, List.nil_append, List.append_nil, List.cons_append] using
        hpush.trans hdrain
    | false =>
      simp only [Bool.false_eq_true, ↓reduceIte]
      rw [hleft]
      refine ⟨_, _, .toolDone habort hcalls hstop hcut, ?_⟩
      simpa only [List.append_assoc, List.nil_append, List.append_nil, List.cons_append] using
        (hpush.trans hdrain).trans (RunContext.adds_requeue d.2 d.1)

theorem finishTurn_finish (rt : AgentRuntime) (s : LoopState) (ctx : RunContext)
    (turn : TurnResult) (env : TurnEnv) :
    ∃ injected behind step,
      TurnFinish rt env turn s.shutdown ctx.queue injected behind
        (s.finishTurn rt ctx turn env).ctx.queue step ∧
      s.finishTurn rt ctx turn env = s.after (s.finishTurn rt ctx turn env).ctx step ∧
      RunContext.Adds ctx (s.finishTurn rt ctx turn env).ctx
        ((env.toolWork rt turn).2.map .toolResult ++ injected)
        ((env.toolWork rt turn).1 ++ behind) := by
  have hafter (ctx : RunContext) (step : LoopStep) : (s.after ctx step).ctx = ctx := by
    cases step <;> rfl
  unfold LoopState.finishTurn
  cases habort : turn.aborted with
  | true =>
    have hwork : env.toolWork rt turn = ([], []) := by
      unfold TurnEnv.toolWork
      rw [habort]
      rfl
    simp only [↓reduceIte, hafter, hwork]
    exact ⟨[], _, _, .aborted habort, rfl, RunContext.adds_send ctx _⟩
  | false =>
    simp only [Bool.false_eq_true, ↓reduceIte, hafter]
    cases hcalls : turn.toolCalls.isEmpty with
    | true =>
      have hnil : turn.toolCalls = [] := by simpa using hcalls
      have hwork : env.toolWork rt turn = ([], []) := by
        unfold TurnEnv.toolWork
        simp [hnil]
      simp only [↓reduceIte, hwork]
      obtain ⟨injected, behind, hfinish, hadds⟩ :=
        noToolStep_finish rt ctx env s.shutdown habort hnil
      exact ⟨injected, behind, _, hfinish, rfl, hadds⟩
    | false =>
      have hne : turn.toolCalls ≠ [] := by simpa using hcalls
      simp only [Bool.false_eq_true, ↓reduceIte]
      obtain ⟨injected, behind, hfinish, hadds⟩ :=
        toolStep_finish rt ctx env s.shutdown habort hne
      exact ⟨injected, behind, _, hfinish, rfl, hadds⟩

/-- A turn of a loop that has not ended: the compaction is cancelled, or the turn is taken. -/
theorem turnStep_cases {rt : AgentRuntime} {s : LoopState} (env : TurnEnv)
    (hs : s.finished = false) :
    (env.cancelsCompaction rt s.ctx.transcript = true ∧
        (turnStep rt s env) = { s with ctx := (turnStep rt s env).ctx, finished := true } ∧
        RunContext.Adds s.ctx (turnStep rt s env).ctx []
          [.event .turnStart, .event (.turnEnd RunContext.abortedMessage [])] ∧
        (turnStep rt s env).ctx.queue = s.ctx.queue) ∨
      (env.cancelsCompaction rt s.ctx.transcript = false ∧
        ∃ base turn injected before stream behind step,
          TurnTaken rt env s (turnStep rt s env) base turn injected before stream behind step) := by
  unfold turnStep
  rw [hs]
  simp only [Bool.false_eq_true, ↓reduceIte]
  rcases RunContext.prepareRequestMessages_cases rt (s.ctx.send .turnStart) env with
    ⟨hcancel, hnone, hadds, hqueue⟩ | ⟨hcancel, messages, base, before, hsome, hprepared, hbase,
      hbefore, hqueue, htokens⟩
  · refine .inl ⟨hcancel, ?_⟩
    generalize (s.ctx.send .turnStart).prepareRequestMessages rt env = r at hnone hadds hqueue
    obtain ⟨messages, ctx⟩ := r
    cases hnone
    exact ⟨rfl, ((RunContext.adds_send s.ctx .turnStart).trans hadds).trans
      (RunContext.adds_send ctx _), hqueue⟩
  · refine .inr ⟨hcancel, ?_⟩
    generalize (s.ctx.send .turnStart).prepareRequestMessages rt env = r
      at hsome hbase hbefore hqueue htokens
    obtain ⟨some_messages, ctx⟩ := r
    cases hsome
    simp only at hbase hbefore hqueue htokens ⊢
    obtain ⟨stream, houtcome, hstream, hleft⟩ := RunContext.streamTurn_outcome rt
      (ctx.record [.request ctx.transcript (buildRequest rt messages)]) env
    obtain ⟨injected, behind, step, hfinish, hnext, hadds⟩ := finishTurn_finish rt s
      (answerTurn rt ctx messages env).2 (answerTurn rt ctx messages env).1 env
    have hanswer : RunContext.Adds ctx (answerTurn rt ctx messages env).2 _ _ :=
      ((ctx.adds_record [.request ctx.transcript (buildRequest rt messages)]).trans
        hstream).trans (RunContext.adds_pushAssistantMessage _ (answerTurn rt ctx messages env).1)
    have hturn := hanswer.trans hadds
    have htokens' : (ctx.record [.request ctx.transcript (buildRequest rt messages)]).tokens =
        s.ctx.tokens := htokens
    rw [htokens'] at houtcome hleft
    have hqueue' : (answerTurn rt ctx messages env).2.queue =
        s.ctx.queue ++ (env.drains rt.loopConfig s.ctx.tokens).flatMap requeued := by
      have hctx : ctx.queue = s.ctx.queue := hqueue
      rw [← hctx]
      exact hleft
    rw [hqueue'] at hfinish
    refine ⟨base, (answerTurn rt ctx messages env).1, injected, before, stream, behind, step,
      hprepared, houtcome, hfinish, hnext, ?_, ⟨buildRequest rt messages, ?_⟩⟩
    · rw [hturn.transcript, hbase]
      simp [answerTurn]
    · rw [hturn.trace, hbefore, hbase]
      simp [answerTurn, RunContext.send, RunContext.record]

section Start

/-- The messages a run starts with, up to the one behind which it is cut. -/
def appendedInitial : List Message → List (List AgentCommand) → List Message
  | [], _ => []
  | m :: ms, arrivals =>
    m :: if (arrivals.headD []).any AgentCommand.cuts then []
      else appendedInitial ms arrivals.tail

/-- What is drained behind the messages a run starts with. -/
def initialDrains : List Message → List (List AgentCommand) → List (List AgentCommand)
  | [], _ => []
  | _ :: ms, arrivals =>
    arrivals.headD [] :: if (arrivals.headD []).any AgentCommand.cuts then []
      else initialDrains ms arrivals.tail

def initialEffects : List Message → List (List AgentCommand) → List Effect
  | [], _ => []
  | m :: ms, arrivals =>
    .initial m :: (said [m] ++ ((arrivals.headD []).map .drained ++
      if (arrivals.headD []).any AgentCommand.cuts then []
      else initialEffects ms arrivals.tail))

theorem drainedOf_initial (m : Message) (es : List Effect) :
    drainedOf (.initial m :: es) = drainedOf es := rfl

theorem drainedOf_initialEffects (initial : List Message) (arrivals : List (List AgentCommand)) :
    drainedOf (initialEffects initial arrivals) = (initialDrains initial arrivals).flatten := by
  induction initial generalizing arrivals with
  | nil => rfl
  | cons m ms ih =>
    unfold initialEffects initialDrains
    rw [drainedOf_initial, drainedOf_append, drainedOf_append, drainedOf_said, drainedOf_drained,
      List.nil_append, List.flatten_cons]
    split_ifs
    · rfl
    · rw [ih]

theorem any_isShutdown_of_not_cuts {arrived : List AgentCommand}
    (h : arrived.any AgentCommand.cuts = false) :
    arrived.any AgentCommand.isShutdown = false := by
  rw [← any_cuts, Bool.or_eq_false_iff] at h
  exact h.2

theorem RunContext.appendInitialMessages_eq (ctx : RunContext) (initial : List Message)
    (arrivals : List (List AgentCommand)) :
    Adds ctx (ctx.appendInitialMessages initial arrivals).2 (appendedInitial initial arrivals)
        (initialEffects initial arrivals) ∧
      (ctx.appendInitialMessages initial arrivals).2.queue =
        ctx.queue ++ (initialDrains initial arrivals).flatMap requeued ∧
      (ctx.appendInitialMessages initial arrivals).1 =
        (initialDrains initial arrivals).any fun arrived =>
          arrived.any AgentCommand.isShutdown := by
  induction initial generalizing ctx arrivals with
  | nil => exact ⟨.refl ctx, (List.append_nil _).symm, rfl⟩
  | cons m ms ih =>
    have hfirst := (((adds_record ctx [.initial m]).trans
      (adds_appendUserMessages (ctx.record [.initial m]) [m])).trans
      (adds_drainCommands ((ctx.record [.initial m]).appendUserMessage m)
        (arrivals.headD []))).trans
      (adds_requeue _ (((ctx.record [.initial m]).appendUserMessage m).drainCommands
        (arrivals.headD [])).1)
    have hqueue := ((ctx.record [.initial m]).appendUserMessage m).queue_requeue
      (arrivals.headD [])
    have hctx : ((ctx.record [.initial m]).appendUserMessage m).queue = ctx.queue := rfl
    have hcuts := ((ctx.record [.initial m]).appendUserMessage m).drainCommands_cuts
      (arrivals.headD [])
    have hfound := ((ctx.record [.initial m]).appendUserMessage m).drainCommands_fst
      (arrivals.headD [])
    rw [hctx] at hqueue
    unfold appendInitialMessages appendedInitial initialEffects initialDrains
    simp only
    generalize arrivals.headD [] = arrived at hfirst hqueue hcuts hfound ⊢
    generalize ((ctx.record [.initial m]).appendUserMessage m).drainCommands arrived = d
      at hfirst hqueue hcuts hfound ⊢
    simp only [List.nil_append, List.append_nil, List.cons_append] at hfirst
    rw [hcuts]
    cases hcut : arrived.any AgentCommand.cuts with
    | true =>
      simp only [↓reduceIte, List.append_nil, List.flatMap_cons, List.flatMap_nil, List.any_cons,
        List.any_nil, Bool.or_false]
      exact ⟨hfirst, hqueue, by rw [hfound]⟩
    | false =>
      simp only [Bool.false_eq_true, ↓reduceIte, List.flatMap_cons, List.any_cons]
      obtain ⟨hadds, hrest, hshut⟩ := ih (d.2.requeue d.1) arrivals.tail
      refine ⟨?_, ?_, ?_⟩
      · simpa only [List.append_assoc, List.cons_append, List.nil_append] using hfirst.trans hadds
      · rw [hrest, hqueue, List.append_assoc]
      · rw [hshut, any_isShutdown_of_not_cuts hcut, Bool.false_or]

end Start

/-- Effects that announce messages, and neither build a request, handle a stream event, start a
turn nor start a tool. -/
structure Announces (effects : List Effect) (messages : List Message) : Prop where
  ends : messageEnds effects = messages
  requests : requested effects = []
  streams : effects.filterMap streamed? = []
  starts : ∀ e ∈ effects, e.starts = false

namespace Announces

theorem nil : Announces [] [] := ⟨rfl, rfl, rfl, List.forall_mem_nil _⟩

theorem append {es fs : List Effect} {ms ns : List Message} (h : Announces es ms)
    (h' : Announces fs ns) : Announces (es ++ fs) (ms ++ ns) := by
  constructor
  · rw [messageEnds_append, h.ends, h'.ends]
  · rw [requested_append, h.requests, h'.requests, List.append_nil]
  · rw [List.filterMap_append, h.streams, h'.streams, List.append_nil]
  · exact List.forall_mem_append.mpr ⟨h.starts, h'.starts⟩

theorem event {e : AgentEvent} (hend : messageEnd? (.event e) = none)
    (hstart : (Effect.event e).starts = false) : Announces [.event e] [] := by
  refine ⟨?_, rfl, rfl, List.forall_mem_singleton.mpr hstart⟩
  rw [messageEnds, List.filterMap_cons, hend]
  rfl

theorem turnEnd (m : AssistantMessage) (results : List ToolResultMessage) :
    Announces [.event (.turnEnd m results)] [] := .event rfl rfl

theorem drained (arrived : List AgentCommand) : Announces (arrived.map .drained) [] := by
  induction arrived with
  | nil => exact nil
  | cons cmd arrived ih =>
    have hfirst : Announces [.drained cmd] [] := ⟨rfl, rfl, rfl, by simp [Effect.starts]⟩
    exact hfirst.append ih

theorem taken (cmds : List AgentCommand) : Announces (cmds.map .taken) [] := by
  induction cmds with
  | nil => exact nil
  | cons cmd cmds ih =>
    have hfirst : Announces [.taken cmd] [] := ⟨rfl, rfl, rfl, by simp [Effect.starts]⟩
    exact hfirst.append ih

theorem said (ms : List Message) : Announces (said ms) ms := by
  induction ms with
  | nil => exact nil
  | cons m ms ih =>
    have hfirst : Announces [.event (.messageStart m), .event (.messageEnd m)] [m] :=
      ⟨rfl, rfl, rfl, by simp [Effect.starts]⟩
    exact hfirst.append ih

theorem initialEffects (initial : List Message) (arrivals : List (List AgentCommand)) :
    Announces (initialEffects initial arrivals) (appendedInitial initial arrivals) := by
  induction initial generalizing arrivals with
  | nil => exact nil
  | cons m ms ih =>
    have hfirst : Announces [.initial m] [] := ⟨rfl, rfl, rfl, by simp [Effect.starts]⟩
    have hhead := (hfirst.append (said [m])).append (drained (arrivals.headD []))
    unfold Guigu.initialEffects appendedInitial
    split_ifs
    · simpa using hhead
    · simpa using hhead.append (ih arrivals.tail)

theorem executions_eq {effects : List Effect} {messages : List Message}
    (h : Announces effects messages) : executions effects = [] := by
  apply List.filterMap_eq_nil_iff.mpr
  intro e he
  have hstart := h.starts e he
  unfold executed?
  split
  · cases hstart
  · rfl

end Announces

theorem TurnFinish.announces {rt : AgentRuntime} {env : TurnEnv} {turn : TurnResult}
    {shutdown : Bool} {queue queue' : List AgentCommand} {injected : List Message}
    {behind : List Effect} {step : LoopStep}
    (h : TurnFinish rt env turn shutdown queue injected behind queue' step) :
    Announces behind injected := by
  cases h with
  | aborted => exact .turnEnd _ _
  | cut => exact (Announces.turnEnd _ _).append (.drained _)
  | steered =>
    exact (Announces.turnEnd _ _).append
      ((Announces.drained _).append ((Announces.taken _).append (.said _)))
  | followed =>
    exact (Announces.turnEnd _ _).append
      ((Announces.drained _).append ((Announces.taken _).append (.said _)))
  | ended => exact (Announces.turnEnd _ _).append (.drained _)
  | stopped => exact .turnEnd _ _
  | toolCut =>
    simpa using (Announces.turnEnd turn.assistantMessage (env.toolWork rt turn).2).append
      ((Announces.said (env.injection rt.loopConfig)).append (.drained env.arrived))
  | toolDone =>
    simpa using (Announces.turnEnd turn.assistantMessage (env.toolWork rt turn).2).append
      ((Announces.said (env.injection rt.loopConfig)).append (.drained env.arrived))

theorem toolWork_ofTools (rt : AgentRuntime) (env : TurnEnv) (turn : TurnResult) :
    OfTools (env.toolWork rt turn).1 := by
  unfold TurnEnv.toolWork
  split_ifs
  · exact List.forall_mem_nil _
  · exact executeToolCalls_ofTools rt env turn.toolCalls turn.assistantMessage.stopReason

theorem TurnFinish.of_aborted {rt : AgentRuntime} {env : TurnEnv} {turn : TurnResult}
    {shutdown : Bool} {queue queue' : List AgentCommand} {injected : List Message}
    {behind : List Effect} {step : LoopStep}
    (h : TurnFinish rt env turn shutdown queue injected behind queue' step)
    (habort : turn.aborted = true) : queue' = queue ∧ step = .break_ shutdown := by
  cases h with
  | aborted => exact ⟨rfl, rfl⟩
  | cut hno | steered hno | followed hno | ended hno | stopped hno | toolCut hno
  | toolDone hno => exact absurd (hno.symm.trans habort) (by simp)

theorem turnStep_finished {rt : AgentRuntime} {s : LoopState} (env : TurnEnv)
    (hs : s.finished = true) : turnStep rt s env = s := by
  unfold turnStep
  rw [if_pos hs]

/-- The last turn of a run ends it. -/
theorem turnStep_cut (rt : AgentRuntime) (s : LoopState) :
    (turnStep rt s .cut).finished = true := by
  cases hs : s.finished with
  | true => rwa [turnStep_finished .cut hs]
  | false =>
    rcases turnStep_cases .cut hs with ⟨-, hnext, -⟩ | ⟨-, base, turn, injected, before, stream,
      behind, step, h⟩
    · rw [hnext]
    · have hestablished : TurnEnv.cut.established rt.loopConfig s.ctx.tokens = true := rfl
      have habort : turn.aborted = true := by
        cases h.outcome with
        | failed hf => exact absurd (hf.symm.trans hestablished) (by simp)
        | answered => rfl
      rw [h.next, (h.finish.of_aborted habort).2]
      rfl

theorem RunContext.adds_startLoop (ctx : RunContext) (initial : List Message)
    (arrivals : List (List AgentCommand)) :
    Adds ctx (startLoop ctx initial arrivals).ctx (appendedInitial initial arrivals)
      (initialEffects initial arrivals ++ [.event .agentStart]) := by
  obtain ⟨hinitial, -, -⟩ := appendInitialMessages_eq
    { ctx with tokens := { ctx.tokens with signal := false } } initial arrivals
  have hstart := Adds.trans (a := ctx) ⟨hinitial.transcript, hinitial.trace⟩
    (adds_send _ .agentStart)
  rwa [List.append_nil] at hstart

theorem announces_startLoop (initial : List Message) (arrivals : List (List AgentCommand)) :
    Announces (initialEffects initial arrivals ++ [.event .agentStart])
      (appendedInitial initial arrivals) := by
  have h := (Announces.initialEffects initial arrivals).append
    (.event (e := .agentStart) rfl rfl)
  rwa [List.append_nil] at h

/-- What a run has done since it began. -/
def RunContext.since (ctx ctx' : RunContext) : List Effect := ctx'.trace.drop ctx.trace.length

theorem RunContext.since_eq {ctx ctx' : RunContext} {effects : List Effect}
    (h : ctx'.trace = ctx.trace ++ effects) : ctx.since ctx' = effects := by
  unfold since
  rw [h, List.drop_left]

/-- A run in terms of its turns. -/
theorem runAgentLoop_trace (rt : AgentRuntime) (ctx : RunContext) (initial : List Message)
    (env : RunEnv) {effects : List Effect}
    (h : (loopRun rt ctx initial env).ctx.trace =
      (startLoop ctx initial env.arrivals).ctx.trace ++ effects) :
    (runAgentLoop rt ctx initial env).2.trace = ctx.trace ++
      ((initialEffects initial env.arrivals ++ [.event .agentStart]) ++ (effects ++
        [.event (.agentEnd (loopRun rt ctx initial env).ctx.transcript)])) := by
  show (loopRun rt ctx initial env).ctx.trace ++ _ = _
  rw [h, (RunContext.adds_startLoop ctx initial env.arrivals).trace]
  simp only [List.append_assoc]

end Guigu
