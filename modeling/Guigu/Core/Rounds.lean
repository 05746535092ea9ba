import Guigu.Core.AgentRuns

/-! One round of an agent: the command it takes up, and the run of the command to its end. -/
namespace Guigu

/-- Within a run no command is taken up from the queue, and the end is not announced. -/
def Effect.inRun : Effect → Bool
  | .processing _ | .event (.agentEnd _) => false
  | _ => true

def InRun (effects : List Effect) : Prop := ∀ e ∈ effects, e.inRun = true

/-- What is left of a run: it ends with its `AgentEnd`. -/
def RunRest (effects : List Effect) : Prop :=
  ∃ inner messages, InRun inner ∧ effects = inner ++ [.event (.agentEnd messages)]

/-- What follows a command that is taken up: its run, if it has one. -/
def Behind (cmd : AgentCommand) (effects : List Effect) : Prop :=
  if cmd.initial?.isSome then RunRest effects else effects = []

/-- What is left of a round in front of its run. -/
inductive Round : List Effect → Prop
  | over : Round []
  | taken {cmd : AgentCommand} {rest : List Effect} (h : Behind cmd rest) :
    Round (.processing cmd :: rest)
  | received {cmd : AgentCommand} {rest : List Effect} (h : Behind cmd rest) :
    Round (.drained cmd :: .processing cmd :: rest)

namespace InRun

theorem nil : InRun [] := List.forall_mem_nil _

theorem cons {e : Effect} {es : List Effect} (he : e.inRun = true) (h : InRun es) :
    InRun (e :: es) := List.forall_mem_cons.mpr ⟨he, h⟩

theorem append {es fs : List Effect} (h : InRun es) (h' : InRun fs) : InRun (es ++ fs) :=
  List.forall_mem_append.mpr ⟨h, h'⟩

theorem drained (cmds : List AgentCommand) : InRun (cmds.map .drained) := by
  intro e he
  obtain ⟨cmd, -, rfl⟩ := List.mem_map.mp he
  rfl

theorem taken (cmds : List AgentCommand) : InRun (cmds.map .taken) := by
  intro e he
  obtain ⟨cmd, -, rfl⟩ := List.mem_map.mp he
  rfl

theorem said (ms : List Message) : InRun (said ms) := by
  induction ms with
  | nil => exact nil
  | cons m ms ih => exact cons rfl (cons rfl ih)

theorem of_quiet {es : List Effect} (h : Quiet es) : InRun es := by
  intro e he
  have hquiet := h e he
  unfold Effect.isQuiet at hquiet
  split at hquiet
  · rfl
  · rfl
  · rfl
  · rfl
  · cases hquiet

theorem of_ofTools {es : List Effect} (h : OfTools es) : InRun es := by
  intro e he
  have htools := h e he
  unfold Effect.ofTools at htools
  split at htools
  · rfl
  · rfl
  · rfl
  · rfl
  · cases htools

theorem initialEffects (initial : List Message) (arrivals : List (List AgentCommand)) :
    InRun (initialEffects initial arrivals) := by
  induction initial generalizing arrivals with
  | nil => exact nil
  | cons m ms ih =>
    unfold Guigu.initialEffects
    refine cons rfl ((said [m]).append ((drained _).append ?_))
    split_ifs
    · exact nil
    · exact ih arrivals.tail

end InRun

theorem TurnFinish.inRun {rt : AgentRuntime} {env : TurnEnv} {turn : TurnResult} {shutdown : Bool}
    {queue queue' : List AgentCommand} {injected : List Message} {behind : List Effect}
    {step : LoopStep} (h : TurnFinish rt env turn shutdown queue injected behind queue' step) :
    InRun behind := by
  cases h with
  | aborted | stopped => exact .cons rfl .nil
  | cut | ended => exact .cons rfl (.drained _)
  | steered | followed =>
    exact .cons rfl ((InRun.drained _).append ((InRun.taken _).append (.said _)))
  | toolCut | toolDone => exact .cons rfl ((InRun.said _).append (.drained _))

theorem turnStep_inRun (rt : AgentRuntime) (s : LoopState) (env : TurnEnv) :
    ∃ effects, (turnStep rt s env).ctx.trace = s.ctx.trace ++ effects ∧ InRun effects := by
  cases hs : s.finished with
  | true =>
    rw [turnStep_finished env hs]
    exact ⟨[], (List.append_nil _).symm, .nil⟩
  | false =>
    rcases turnStep_cases env hs with ⟨-, -, hadds, -⟩ | ⟨-, base, turn, injected, before, stream,
      behind, step, h⟩
    · exact ⟨_, hadds.trace, .cons rfl (.cons rfl .nil)⟩
    · obtain ⟨request, htrace⟩ := h.trace
      have hbefore : InRun before := by
        cases h.prepared with
        | kept => exact .nil
        | committed => exact .cons rfl .nil
      have hstream : InRun stream := by
        cases h.outcome with
        | failed => exact .nil
        | answered _ hquiet => exact (InRun.of_quiet hquiet).append (.cons rfl .nil)
      exact ⟨_, htrace, .cons rfl (hbefore.append (.cons rfl (hstream.append
        ((InRun.of_ofTools (toolWork_ofTools rt env turn)).append h.finish.inRun))))⟩

theorem turns_inRun (rt : AgentRuntime) (s : LoopState) (envs : List TurnEnv) :
    ∃ effects, (Runs.run (turnStep rt) s envs).ctx.trace = s.ctx.trace ++ effects ∧
      InRun effects := by
  induction envs generalizing s with
  | nil => exact ⟨[], (List.append_nil _).symm, .nil⟩
  | cons env envs ih =>
    obtain ⟨es, hstep, hes⟩ := turnStep_inRun rt s env
    obtain ⟨fs, hrest, hfs⟩ := ih (turnStep rt s env)
    refine ⟨es ++ fs, ?_, hes.append hfs⟩
    rw [Runs.run_cons, hrest, hstep, List.append_assoc]

/-- A run announces its end once, and last. -/
theorem runAgentLoop_rest (rt : AgentRuntime) (ctx : RunContext) (initial : List Message)
    (env : RunEnv) :
    ∃ effects, (runAgentLoop rt ctx initial env).2.trace = ctx.trace ++ effects ∧
      RunRest effects := by
  obtain ⟨turns, hturns, hin⟩ :=
    turns_inRun rt (startLoop ctx initial env.arrivals) (env.turns ++ [.cut])
  refine ⟨_, runAgentLoop_trace rt ctx initial env hturns, ?_⟩
  refine ⟨(initialEffects initial env.arrivals ++ [.event .agentStart]) ++ turns,
    (loopRun rt ctx initial env).ctx.transcript, ?_, (List.append_assoc ..).symm⟩
  exact ((InRun.initialEffects initial env.arrivals).append (.cons rfl .nil)).append hin

theorem processCommand_behind (rt : AgentRuntime) (ctx : RunContext) (cmd : AgentCommand)
    (env : RunEnv) :
    ∃ effects, (processCommand rt ctx cmd env).2.trace = ctx.trace ++ effects ∧
      Behind cmd effects := by
  cases cmd with
  | prompt ms => exact runAgentLoop_rest rt ctx ms env
  | continue_ => exact runAgentLoop_rest rt ctx [] env
  | steer m | followUp m => exact runAgentLoop_rest rt ctx [m] env
  | abort | reset | shutdown => exact ⟨[], (List.append_nil _).symm, rfl⟩

/-- A step does nothing, or takes up a command and runs it to its end. -/
theorem AgentState.step_trace (rt : AgentRuntime) (s : AgentState) (a : AgentAction) :
    (s.step rt a).ctx.trace = s.ctx.trace ∨
      ∃ cmd ctx rest, Next s.ctx cmd ctx ∧ Behind cmd rest ∧
        (s.step rt a).ctx.trace = ctx.trace ++ .processing cmd :: rest := by
  unfold AgentState.step
  cases hnext : s.next? a with
  | none => exact .inl rfl
  | some next =>
    obtain ⟨cmd, ctx⟩ := next
    obtain ⟨rest, hrest, hbehind⟩ :=
      processCommand_behind rt (ctx.record [.processing cmd]) cmd a.env
    refine .inr ⟨cmd, ctx, rest, AgentState.next_of_next? hnext, hbehind, ?_⟩
    show (processCommand rt (ctx.record [.processing cmd]) cmd a.env).2.trace = _
    rw [hrest]
    exact List.append_assoc ..

/-- Whatever comes up, an agent takes its rounds one by one. -/
theorem AgentState.step_round (rt : AgentRuntime) (s : AgentState) (a : AgentAction) :
    ∃ effects, (s.step rt a).ctx.trace = s.ctx.trace ++ effects ∧ Round effects := by
  rcases s.step_trace rt a with hsame | ⟨cmd, ctx, rest, hnext, hbehind, htrace⟩
  · exact ⟨[], hsame.trans (List.append_nil _).symm, .over⟩
  · cases hnext with
    | dequeued => exact ⟨_, htrace, .taken hbehind⟩
    | received => exact ⟨_, htrace.trans (List.append_assoc ..), .received hbehind⟩

/-! ### Commands that wait for the end of a run -/

/-- The waiting commands behind an effect. -/
def waitOn (queue : List AgentCommand) : Effect → List AgentCommand
  | .drained cmd => if cmd.isDeferred then queue ++ [cmd] else queue
  | .processing cmd =>
    if cmd = .reset then [] else if cmd.isDeferred then queue.tail else queue
  | _ => queue

/-- The commands that wait behind effects. -/
def waitingBehind (effects : List Effect) : List AgentCommand := effects.foldl waitOn []

theorem foldl_waitOn_booked (queue : List AgentCommand) (effects : List Effect) :
    (booked effects).foldl waitOn queue = effects.foldl waitOn queue := by
  induction effects generalizing queue with
  | nil => rfl
  | cons e es ih =>
    cases e with
    | drained cmd | processing cmd | initial m | taken cmd => exact ih _
    | event | request | streamed | executed => exact ih queue

theorem waitingBehind_of_booked {es fs gs : List Effect} (h : booked es = booked fs ++ gs) :
    waitingBehind es = gs.foldl waitOn (waitingBehind fs) := by
  unfold waitingBehind
  rw [← foldl_waitOn_booked [] es, h, List.foldl_append, foldl_waitOn_booked]

theorem foldl_waitOn_drained (queue cmds : List AgentCommand) :
    (cmds.map Effect.drained).foldl waitOn queue =
      queue ++ cmds.filter AgentCommand.isDeferred := by
  induction cmds generalizing queue with
  | nil => exact (List.append_nil _).symm
  | cons cmd cmds ih =>
    have hone : waitOn queue (.drained cmd) =
        if cmd.isDeferred then queue ++ [cmd] else queue := rfl
    rw [List.map_cons, List.foldl_cons, ih, hone, List.filter_cons]
    split_ifs
    · exact List.append_assoc ..
    · rfl

theorem foldl_waitOn_taken (queue cmds : List AgentCommand) :
    (cmds.map Effect.taken).foldl waitOn queue = queue := by
  induction cmds with
  | nil => rfl
  | cons cmd cmds ih => exact ih

theorem foldl_waitOn_initialEffects (queue : List AgentCommand) (initial : List Message)
    (arrivals : List (List AgentCommand)) :
    (initialEffects initial arrivals).foldl waitOn queue =
      queue ++ (initialDrains initial arrivals).flatten.filter AgentCommand.isDeferred := by
  induction initial generalizing queue arrivals with
  | nil => exact (List.append_nil _).symm
  | cons m ms ih =>
    unfold initialEffects initialDrains
    rw [List.foldl_cons, List.foldl_append, List.foldl_append, foldl_waitOn_drained,
      List.flatten_cons, List.filter_append, ← List.append_assoc]
    split_ifs
    · exact (List.append_nil _).symm
    · exact ih _ arrivals.tail

/-- Steering messages and follow-ups do not wait for the end of a run. -/
theorem filter_deferred_pending (ms ns : List Message) :
    (ms.map AgentCommand.steer).filter AgentCommand.isDeferred = [] ∧
      (ns.map AgentCommand.followUp).filter AgentCommand.isDeferred = [] := by
  constructor
  · rw [List.filter_eq_nil_iff]
    intro cmd hcmd
    obtain ⟨m, -, rfl⟩ := List.mem_map.mp hcmd
    exact Bool.false_ne_true
  · rw [List.filter_eq_nil_iff]
    intro cmd hcmd
    obtain ⟨m, -, rfl⟩ := List.mem_map.mp hcmd
    exact Bool.false_ne_true

theorem filter_deferred_idem (cmds : List AgentCommand) :
    (cmds.filter AgentCommand.isDeferred).filter AgentCommand.isDeferred =
      cmds.filter AgentCommand.isDeferred := by
  rw [List.filter_filter]
  exact List.filter_congr fun cmd _ => Bool.and_self _

theorem filter_deferred_requeued (arrived : List AgentCommand) :
    (requeued arrived).filter AgentCommand.isDeferred =
      arrived.filter AgentCommand.isDeferred := by
  obtain ⟨hsteers, hfollowUps⟩ := filter_deferred_pending (steers arrived) (followUps arrived)
  unfold requeued
  rw [List.filter_append, List.filter_append, hsteers, hfollowUps, filter_deferred_idem,
    List.append_nil, List.append_nil]

theorem filter_deferred_drainedQueue (queue arrived : List AgentCommand) :
    (drainedQueue queue arrived).filter AgentCommand.isDeferred =
      queue.filter AgentCommand.isDeferred ++ arrived.filter AgentCommand.isDeferred := by
  unfold drainedQueue
  rw [List.filter_append, filter_deferred_idem]

theorem filter_deferred_boundaryRest (queue arrived : List AgentCommand) :
    (boundaryRest queue arrived).filter AgentCommand.isDeferred =
      queue.filter AgentCommand.isDeferred ++ arrived.filter AgentCommand.isDeferred := by
  rw [← filter_deferred_drainedQueue, boundaryRest, List.filter_filter]
  apply List.filter_congr
  intro cmd _
  cases cmd <;> rfl

theorem filter_deferred_flatMap_requeued (drains : List (List AgentCommand)) :
    (drains.flatMap requeued).filter AgentCommand.isDeferred =
      drains.flatten.filter AgentCommand.isDeferred := by
  induction drains with
  | nil => rfl
  | cons arrived drains ih =>
    rw [List.flatMap_cons, List.flatten_cons, List.filter_append, List.filter_append, ih,
      filter_deferred_requeued]

/-- The end of a turn leaves what waits for the end of the run where it is. -/
theorem Boundary.deferred {queue arrived drained taken queue' : List AgentCommand} {calls : Bool}
    {consumed : ℕ} (h : Boundary queue arrived calls drained taken queue' consumed) :
    queue'.filter AgentCommand.isDeferred =
      queue.filter AgentCommand.isDeferred ++ drained.filter AgentCommand.isDeferred := by
  cases h with
  | skipped => exact (List.append_nil _).symm
  | cut | followed => exact filter_deferred_boundaryRest queue arrived
  | steered =>
    rw [List.filter_append, filter_deferred_boundaryRest,
      (filter_deferred_pending [] (boundaryFollowUps queue arrived)).2, List.append_nil]
  | toolCut => exact filter_deferred_drainedQueue queue arrived
  | toolDone => rw [List.filter_append, filter_deferred_requeued]

/-- The queue holds what waits, in order, among steering messages and follow-ups. -/
def RunContext.Lined (ctx : RunContext) : Prop :=
  ctx.queue.filter AgentCommand.isDeferred = waitingBehind ctx.trace

theorem waitingBehind_snoc (effects : List Effect) (e : Effect) :
    waitingBehind (effects ++ [e]) = waitOn (waitingBehind effects) e := List.foldl_append ..

theorem Next.lined {ctx ctx' : RunContext} {cmd : AgentCommand} (h : Next ctx cmd ctx')
    (hlined : ctx.Lined) (hreset : cmd ≠ .reset) : (ctx'.record [.processing cmd]).Lined := by
  have htake : ∀ queue : List AgentCommand, waitOn queue (.processing cmd) =
      if cmd.isDeferred then queue.tail else queue := fun queue => if_neg hreset
  cases h with
  | @dequeued queue hqueue =>
    show queue.filter AgentCommand.isDeferred = waitingBehind (ctx.trace ++ [.processing cmd])
    rw [waitingBehind_snoc, ← hlined, hqueue, htake, List.filter_cons]
    split_ifs
    · rfl
    · rfl
  | received hqueue =>
    show ctx.queue.filter AgentCommand.isDeferred =
      waitingBehind (ctx.trace ++ [.drained cmd] ++ [.processing cmd])
    have hnone : waitingBehind ctx.trace = [] := by
      rw [← hlined, hqueue]
      rfl
    have hdrain : waitOn [] (.drained cmd) = if cmd.isDeferred then [cmd] else [] := rfl
    rw [waitingBehind_snoc, waitingBehind_snoc, hnone, hdrain, htake, hqueue]
    split_ifs
    · rfl
    · rfl

/-- Nothing is asked of a run. -/
def Demand.nothing : Demand := ⟨fun _ _ => true, fun _ _ => true, fun _ _ _ => true⟩

theorem lined_keeps (rt : AgentRuntime) :
    Demand.nothing.Keeps rt fun ctx _ => ctx.Lined where
  start := by
    intro ctx ctx' cmd initial n arrivals hlined hnext hinitial _ _
    have hreset : cmd ≠ .reset := by
      rintro rfl
      cases hinitial
    obtain ⟨hqueue, hbooked, -⟩ := startLoop_books (ctx'.record [.processing cmd]) initial arrivals
    show (startLoop _ initial arrivals).ctx.queue.filter _ = _
    rw [hqueue, List.filter_append, filter_deferred_flatMap_requeued, hnext.lined hlined hreset,
      waitingBehind_of_booked hbooked, foldl_waitOn_booked, foldl_waitOn_initialEffects]
  turn := by
    intro s env n hlined _
    show (turnStep rt s env).ctx.queue.filter _ = _
    cases (turnStep_books env : TurnBooks rt env s (turnStep rt s env)) with
    | kept hqueue hconsumed hbooked =>
      have hsame : booked (turnStep rt s env).ctx.trace = booked s.ctx.trace ++ [] := by
        rw [hbooked, List.append_nil]
      rw [hqueue, waitingBehind_of_booked hsame, hlined]
      rfl
    | cut habort hqueue hconsumed hbooked =>
      rw [hqueue, waitingBehind_of_booked hbooked, foldl_waitOn_drained, ← hlined,
        TurnEnv.waiting, List.filter_append, filter_deferred_flatMap_requeued]
    | moved habort hbound hconsumed hbooked =>
      rw [hbound.deferred, waitingBehind_of_booked hbooked, List.foldl_append, List.foldl_append,
        foldl_waitOn_drained, foldl_waitOn_drained, foldl_waitOn_taken, ← hlined,
        TurnEnv.waiting, List.filter_append, filter_deferred_flatMap_requeued]
  close := by
    intro ctx n hlined
    have hbooked : booked (ctx.send (.agentEnd ctx.transcript)).trace = booked ctx.trace ++ [] :=
      booked_append _ _
    show ctx.queue.filter _ = _
    rw [waitingBehind_of_booked hbooked, hlined]
    rfl
  reset := by
    intro ctx ctx' n _ _ _
    show [] = waitingBehind (ctx'.trace ++ [.processing .reset])
    rw [waitingBehind_snoc]
    rfl
  skip := by
    intro ctx ctx' cmd n hlined hnext hcuts _
    refine hnext.lined hlined ?_
    rintro rfl
    cases hcuts

/-- The queue of an agent holds what its drains have left for the time behind the run. -/
theorem AgentState.step_lined {rt : AgentRuntime} {s : AgentState} (h : s.ctx.Lined)
    (a : AgentAction) : (s.step rt a).ctx.Lined := by
  refine (lined_keeps rt).step h fun next _ => ⟨rfl, fun initial _ => ⟨rfl, ?_⟩⟩
  exact Runs.along_of_forall fun env _ s => Bool.or_true _

/-- A waiting command is taken up from the front. -/
def TakesFront (behind effects : List Effect) : Prop :=
  ∀ before cmd rest, effects = before ++ .processing cmd :: rest → cmd.isDeferred = true →
    (waitingBehind (behind ++ before)).head? = some cmd

theorem TakesFront.next {behind effects : List Effect} {e : Effect}
    (h : TakesFront behind (e :: effects)) : TakesFront (behind ++ [e]) effects := by
  intro before cmd rest heffects hdeferred
  rw [List.append_assoc]
  exact h (e :: before) cmd rest (congrArg (e :: ·) heffects) hdeferred

theorem TakesFront.cons {behind effects : List Effect} {e : Effect}
    (he : ∀ cmd, e ≠ .processing cmd) (h : TakesFront (behind ++ [e]) effects) :
    TakesFront behind (e :: effects) := by
  intro before cmd rest heffects hdeferred
  cases before with
  | nil => exact absurd (List.cons.inj heffects).1 (he cmd)
  | cons e' before =>
    obtain ⟨rfl, hrest⟩ := List.cons.inj heffects
    rw [List.append_cons]
    exact h before cmd rest hrest hdeferred

/-- Behind a command that is taken up there is no other in its round. -/
theorem Behind.processing_free {cmd cmd' : AgentCommand} {before rest effects : List Effect}
    (h : Behind cmd effects) : effects ≠ before ++ .processing cmd' :: rest := by
  rintro rfl
  have hmem : Effect.processing cmd' ∈ before ++ .processing cmd' :: rest :=
    List.mem_append_right _ List.mem_cons_self
  unfold Behind at h
  split_ifs at h
  · obtain ⟨inner, messages, hin, hrest⟩ := h
    rw [hrest] at hmem
    rcases List.mem_append.mp hmem with hmem | hmem
    · cases hin _ hmem
    · cases List.mem_singleton.mp hmem
  · exact List.append_ne_nil_of_right_ne_nil before (List.cons_ne_nil _ _) h

theorem takesFront_of_behind {behind rest : List Effect} {cmd : AgentCommand}
    (h : Behind cmd rest)
    (hfront : cmd.isDeferred = true → (waitingBehind behind).head? = some cmd) :
    TakesFront behind (.processing cmd :: rest) := by
  intro before cmd' rest' heffects hdeferred
  cases before with
  | nil =>
    obtain ⟨hsame, -⟩ := List.cons.inj heffects
    obtain rfl := Effect.processing.inj hsame
    rw [List.append_nil]
    exact hfront hdeferred
  | cons e before => exact absurd (List.cons.inj heffects).2 h.processing_free

/-- A round takes up the front of what waits. -/
theorem AgentState.step_takesFront {rt : AgentRuntime} {s : AgentState} (h : s.ctx.Lined)
    (a : AgentAction) : TakesFront s.ctx.trace (s.ctx.since (s.step rt a).ctx) := by
  rcases s.step_trace rt a with hsame | ⟨cmd, ctx, rest, hnext, hbehind, htrace⟩
  · rw [RunContext.since_eq (hsame.trans (List.append_nil _).symm)]
    exact fun before cmd rest heffects =>
      absurd heffects.symm (List.append_ne_nil_of_right_ne_nil before (List.cons_ne_nil _ _))
  · cases hnext with
    | @dequeued queue hqueue =>
      have hsince : (s.step rt a).ctx.trace = s.ctx.trace ++ .processing cmd :: rest := htrace
      rw [RunContext.since_eq hsince]
      refine takesFront_of_behind hbehind fun hdeferred => ?_
      rw [← h, hqueue, List.filter_cons_of_pos hdeferred, List.head?_cons]
    | received hqueue =>
      rw [RunContext.since_eq (htrace.trans (List.append_assoc ..))]
      refine .cons nofun (takesFront_of_behind hbehind fun hdeferred => ?_)
      have hnone : waitingBehind s.ctx.trace = [] := by
        rw [← h, hqueue]
        rfl
      rw [waitingBehind_snoc, hnone]
      exact congrArg List.head? (if_pos hdeferred)

end Guigu
