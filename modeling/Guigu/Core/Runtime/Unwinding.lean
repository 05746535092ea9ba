import Guigu.Core.Rounds
import Guigu.Core.Runtime.Backoff
import Guigu.Core.Runtime.Bracketing

/-! Runs that a panic cuts off: a wait between two attempts that is no duration, or anything else
that a turn calls. The task of the agent unwinds, and nothing is sent behind it. -/
namespace Guigu

/-- A turn with its surroundings. Where something that it calls panics, `panic` is the number of
its effects in front. -/
structure GuardedTurn where
  env : TurnEnv
  panic : Option ℕ

/-- The loop of a run, until a panic. -/
structure GuardedLoop where
  loop : LoopState
  panicked : Bool

/-- The waits of the set-up are durations. -/
def WaitsInRange (config : LoopConfig) (delays : RetryDelays) (tokens : Tokens)
    (attempts : List Attempt) : Prop :=
  ∀ i e cut, (waitedFailures config tokens 0 attempts)[i]? = some (e, cut) → delays.InRange i

namespace LoopState

/-- The turn behind its request; a cancelled compaction leaves none. -/
def requested (rt : AgentRuntime) (s : LoopState) (env : TurnEnv) : Option RunContext :=
  match (s.ctx.send .turnStart).prepareRequestMessages rt env with
  | (none, _) => none
  | (some messages, ctx) => some (ctx.record [.request ctx.transcript (buildRequest rt messages)])

/-- Where a wait of the set-up panics. -/
def waitPanic? (rt : AgentRuntime) (delays : RetryDelays) (s : LoopState) (env : TurnEnv) :
    Option RunContext :=
  (s.requested rt env).filter fun ctx =>
    (timedRun rt.loopConfig delays ctx.tokens env.attempts).result.isNone

end LoopState

namespace GuardedLoop

/-- What has been sent stays sent. -/
def unwind (g : GuardedLoop) (effects : List Effect) : GuardedLoop :=
  ⟨{ g.loop with ctx := g.loop.ctx.record effects }, true⟩

/-- One round of the loop; nothing comes behind a panic. -/
def step (rt : AgentRuntime) (delays : RetryDelays) (g : GuardedLoop) (t : GuardedTurn) :
    GuardedLoop :=
  if g.panicked || g.loop.finished then g
  else
    match t.panic, g.loop.waitPanic? rt delays t.env with
    | none, none => ⟨turnStep rt g.loop t.env, false⟩
    | none, some ctx => g.unwind (g.loop.ctx.since ctx)
    | some n, none => g.unwind ((g.loop.ctx.since (turnStep rt g.loop t.env).ctx).take n)
    | some n, some ctx => g.unwind ((g.loop.ctx.since ctx).take n)

/-- The turn commits no compaction, and nothing in it panics. -/
def Orderly (rt : AgentRuntime) (delays : RetryDelays) (g : GuardedLoop) (t : GuardedTurn) :
    Prop :=
  g.loop.finished = true ∨
    (t.env.commit? rt g.loop.ctx.transcript = none ∧ t.panic = none ∧
      (t.env.cancelsCompaction rt g.loop.ctx.transcript = false →
        WaitsInRange rt.loopConfig delays g.loop.ctx.tokens t.env.attempts))

def start (ctx : RunContext) (initial : List Message) (arrivals : List (List AgentCommand)) :
    GuardedLoop := ⟨startLoop ctx initial arrivals, false⟩

end GuardedLoop

/-- The turns of a guarded run, to its end. -/
def guardedTurns (turns : List GuardedTurn) : List GuardedTurn := turns ++ [⟨.cut, none⟩]

/-- `run_agent_loop` with its panics: only a run that returns announces its end. -/
def guardedAgentLoop (rt : AgentRuntime) (delays : RetryDelays) (ctx : RunContext)
    (initial : List Message) (arrivals : List (List AgentCommand)) (turns : List GuardedTurn) :
    RunContext :=
  let g := Runs.run (GuardedLoop.step rt delays) (.start ctx initial arrivals) (guardedTurns turns)
  if g.panicked then g.loop.ctx else g.loop.ctx.send (.agentEnd g.loop.ctx.transcript)

/-! ### Without `AgentEnd` -/

namespace AgentView

/-- Only the end of the run leads to the end. -/
theorem step_phase {v v' : AgentView} {e : AgentEvent} (he : (Effect.event e).inRun = true)
    (h : v.step e = some v') (hv : v.phase ≠ .ended) : v'.phase ≠ .ended := by
  cases e with
  | agentEnd => cases he
  | agentStart | turnStart | turnEnd =>
    simp only [step] at h
    split_ifs at h
    cases h
    intro hend
    cases hend
  | messageStart | messageUpdate | messageEnd | toolExecutionStart | toolExecutionUpdate
  | toolExecutionEnd =>
    simp only [step] at h
    split_ifs at h
    cases h
    exact hv

theorem follow_phase {effects : List Effect} (heffects : InRun effects) {v v' : AgentView}
    (h : follow (some v) (eventsOf effects) = some v') (hv : v.phase ≠ .ended) :
    v'.phase ≠ .ended := by
  induction effects generalizing v with
  | nil =>
    cases h
    exact hv
  | cons e effects ih =>
    have hrest : InRun effects := (List.forall_mem_cons.mp heffects).2
    cases e with
    | event e =>
      have he : (Effect.event e).inRun = true := (List.forall_mem_cons.mp heffects).1
      have hcons : follow (some v) (e :: eventsOf effects) = some v' := h
      rw [follow_cons, Option.bind_some] at hcons
      cases hstep : v.step e with
      | none =>
        rw [hstep, follow_none] at hcons
        cases hcons
      | some w =>
        rw [hstep] at hcons
        exact ih hrest hcons (step_phase he hstep hv)
    | _ => exact ih hrest h hv

end AgentView

theorem InRun.not_wellBracketed {effects : List Effect} (h : InRun effects) :
    ¬ WellBracketed (eventsOf effects) :=
  fun hfollow => AgentView.follow_phase h hfollow nofun rfl

theorem InRun.take {effects : List Effect} (h : InRun effects) (n : ℕ) :
    InRun (effects.take n) := fun e he => h e (List.mem_of_mem_take he)

/-! ### Turns -/

namespace LoopState

/-- A turn gets to its request unless its compaction is cancelled. -/
theorem requested_cases (rt : AgentRuntime) (s : LoopState) (env : TurnEnv) :
    (env.cancelsCompaction rt s.ctx.transcript = true ∧ s.requested rt env = none) ∨
      (env.cancelsCompaction rt s.ctx.transcript = false ∧
        ∃ ctx effects, s.requested rt env = some ctx ∧ ctx.trace = s.ctx.trace ++ effects ∧
          InRun effects ∧ ctx.tokens = s.ctx.tokens) := by
  unfold requested
  rcases RunContext.prepareRequestMessages_cases rt (s.ctx.send .turnStart) env with
    ⟨hcancel, hnone, -⟩ |
    ⟨hcancel, messages, base, before, hsome, hprepared, -, hbefore, -, htokens⟩
  · generalize (s.ctx.send .turnStart).prepareRequestMessages rt env = r at hnone
    obtain ⟨messages, ctx⟩ := r
    cases hnone
    exact .inl ⟨hcancel, rfl⟩
  · generalize (s.ctx.send .turnStart).prepareRequestMessages rt env = r at hsome hbefore htokens
    obtain ⟨some_messages, ctx⟩ := r
    cases hsome
    refine .inr ⟨hcancel, _, .event .turnStart :: (before ++
      [.request ctx.transcript (buildRequest rt messages)]), rfl, ?_, ?_, htokens⟩
    · show ctx.trace ++ _ = _
      rw [hbefore]
      show s.ctx.trace ++ [.event .turnStart] ++ before ++ _ = _
      simp only [List.append_assoc, List.cons_append, List.nil_append]
    · refine .cons rfl (InRun.append ?_ (.cons rfl .nil))
      cases hprepared with
      | kept => exact .nil
      | committed => exact .cons rfl .nil

theorem waitPanic?_eq_none_iff (rt : AgentRuntime) (delays : RetryDelays) (s : LoopState)
    (env : TurnEnv) :
    s.waitPanic? rt delays env = none ↔ (env.cancelsCompaction rt s.ctx.transcript = false →
      WaitsInRange rt.loopConfig delays s.ctx.tokens env.attempts) := by
  unfold waitPanic?
  rcases s.requested_cases rt env with ⟨hcancel, hnone⟩ | ⟨hcancel, ctx, effects, hsome, -, -,
    htokens⟩
  · rw [hnone, hcancel]
    exact iff_of_true rfl nofun
  · rw [hsome, hcancel, ← htokens, WaitsInRange,
      ← timedRun_returns_iff rt.loopConfig delays ctx.tokens env.attempts]
    simp [Option.filter, Option.ne_none_iff_isSome]

/-- What is sent in front of a panic is part of a run. -/
theorem waitPanic?_inRun {rt : AgentRuntime} {delays : RetryDelays} {s : LoopState}
    {env : TurnEnv} {ctx : RunContext} (h : s.waitPanic? rt delays env = some ctx) :
    InRun (s.ctx.since ctx) := by
  obtain ⟨hrequested, -⟩ := Option.filter_eq_some_iff.mp h
  rcases s.requested_cases rt env with ⟨-, hnone⟩ | ⟨-, ctx', effects, hsome, htrace, heffects, -⟩
  · rw [hnone] at hrequested
    cases hrequested
  · obtain rfl := Option.some.inj (hsome.symm.trans hrequested)
    rwa [RunContext.since_eq htrace]

end LoopState

namespace GuardedLoop

variable {rt : AgentRuntime} {delays : RetryDelays} {g : GuardedLoop}

/-- A round is that of the loop, or it panics, and then its turn is not orderly. -/
theorem step_cases (hg : g.panicked = false) (t : GuardedTurn) :
    (step rt delays g t = ⟨turnStep rt g.loop t.env, false⟩ ∧
        (Orderly rt delays g t ↔ keepsTranscript rt g.loop t.env)) ∨
      (¬ Orderly rt delays g t ∧ ∃ effects, step rt delays g t = g.unwind effects ∧
        InRun effects) := by
  obtain ⟨s, panicked⟩ := g
  cases hg
  unfold step Orderly keepsTranscript
  cases hs : s.finished with
  | true =>
    left
    rw [turnStep_finished t.env hs]
    simp
  | false =>
    have hturn : InRun (s.ctx.since (turnStep rt s t.env).ctx) := by
      obtain ⟨effects, htrace, heffects⟩ := turnStep_inRun rt s t.env
      rwa [RunContext.since_eq htrace]
    simp only [Bool.or_self, Bool.false_eq_true, ↓reduceIte, ← s.waitPanic?_eq_none_iff rt delays,
      false_or, Bool.false_or, Option.isNone_iff_eq_none]
    cases hpanic : t.panic with
    | some n =>
      right
      refine ⟨nofun, ?_⟩
      cases hwait : s.waitPanic? rt delays t.env with
      | none => exact ⟨_, rfl, hturn.take n⟩
      | some ctx => exact ⟨_, rfl, (LoopState.waitPanic?_inRun hwait).take n⟩
    | none =>
      cases hwait : s.waitPanic? rt delays t.env with
      | none => exact .inl ⟨rfl, by simp⟩
      | some ctx => exact .inr ⟨nofun, _, rfl, LoopState.waitPanic?_inRun hwait⟩

theorem run_panicked (hg : g.panicked = true) (turns : List GuardedTurn) :
    Runs.run (step rt delays) g turns = g := by
  induction turns with
  | nil => rfl
  | cons t turns ih =>
    have hstep : step rt delays g t = g := by
      unfold step
      rw [hg]
      rfl
    rw [Runs.run_cons, hstep, ih]

/-- The turns of a run are those of the loop, or one of them panics. -/
theorem run_cases (hg : g.panicked = false) (turns : List GuardedTurn) :
    ((Runs.run (step rt delays) g turns) =
          ⟨Runs.run (turnStep rt) g.loop (turns.map GuardedTurn.env), false⟩ ∧
        (Runs.Along (step rt delays) (Orderly rt delays) g turns ↔
          Runs.Along (turnStep rt) (keepsTranscript rt) g.loop (turns.map GuardedTurn.env))) ∨
      (¬ Runs.Along (step rt delays) (Orderly rt delays) g turns ∧
        (Runs.run (step rt delays) g turns).panicked = true ∧
        ∃ effects, (Runs.run (step rt delays) g turns).loop.ctx.trace =
          g.loop.ctx.trace ++ effects ∧ InRun effects) := by
  induction turns generalizing g with
  | nil =>
    obtain ⟨s, panicked⟩ := g
    cases hg
    exact .inl ⟨rfl, Iff.rfl⟩
  | cons t turns ih =>
    rw [Runs.run_cons]
    rcases @step_cases rt delays g hg t with ⟨hstep, horderly⟩ |
      ⟨horderly, effects, hstep, heffects⟩
    · obtain ⟨es, htrace, hes⟩ := turnStep_inRun rt g.loop t.env
      rcases ih (g := step rt delays g t) (by rw [hstep]) with ⟨hrun, hrest⟩ |
        ⟨hrest, hpanicked, fs, hfs, hin⟩
      · left
        rw [hstep] at hrun hrest
        refine ⟨by rw [hstep]; exact hrun, ?_⟩
        show _ ∧ Runs.Along (step rt delays) _ (step rt delays g t) turns ↔ _
        rw [hstep]
        exact and_congr horderly hrest
      · right
        refine ⟨fun hall => hrest hall.2, hpanicked, es ++ fs, ?_, hes.append hin⟩
        rw [hfs, hstep, ← List.append_assoc, ← htrace]
    · right
      refine ⟨fun hall => horderly hall.1, ?_, effects, ?_, heffects⟩
      · rw [hstep, run_panicked rfl]
        rfl
      · rw [hstep, run_panicked rfl]
        rfl

end GuardedLoop

/-- The events of a run are well bracketed if and only if no turn of it commits a compaction, and
nothing in a turn panics. -/
theorem guardedAgentLoop_wellBracketed_iff (rt : AgentRuntime) (delays : RetryDelays)
    (ctx : RunContext) (initial : List Message) (arrivals : List (List AgentCommand))
    (turns : List GuardedTurn) :
    WellBracketed (eventsOf (ctx.since (guardedAgentLoop rt delays ctx initial arrivals turns))) ↔
      Runs.Along (GuardedLoop.step rt delays) (GuardedLoop.Orderly rt delays)
        (.start ctx initial arrivals) (guardedTurns turns) := by
  rcases @GuardedLoop.run_cases rt delays (.start ctx initial arrivals) rfl
    (guardedTurns turns) with ⟨hrun, horderly⟩ |
    ⟨horderly, hpanicked, effects, htrace, heffects⟩
  · -- a run that returns is a run of the loop
    have hloop : guardedAgentLoop rt delays ctx initial arrivals turns =
        (runAgentLoop rt ctx initial ⟨arrivals, turns.map GuardedTurn.env⟩).2 := by
      unfold guardedAgentLoop runAgentLoop loopRun
      simp only [hrun, Bool.false_eq_true, ↓reduceIte]
      simp only [guardedTurns, List.map_append, List.map_cons, List.map_nil]
      rfl
    rw [hloop, runAgentLoop_wellBracketed_iff, horderly, guardedTurns, List.map_append]
    rfl
  · have hend : guardedAgentLoop rt delays ctx initial arrivals turns =
        (Runs.run (GuardedLoop.step rt delays) (.start ctx initial arrivals)
          (guardedTurns turns)).loop.ctx := by
      unfold guardedAgentLoop
      simp only [hpanicked, ↓reduceIte]
    have hsince : ctx.since (guardedAgentLoop rt delays ctx initial arrivals turns) =
        (initialEffects initial arrivals ++ [.event .agentStart]) ++ effects := by
      apply RunContext.since_eq
      rw [hend, htrace]
      show (startLoop ctx initial arrivals).ctx.trace ++ effects = _
      rw [(RunContext.adds_startLoop ctx initial arrivals).trace, List.append_assoc]
    rw [hsince]
    refine iff_of_false (InRun.not_wellBracketed ?_) horderly
    exact ((InRun.initialEffects initial arrivals).append (.cons rfl .nil)).append heffects

/-- With the usual delays and 66 retries a provider that cannot be reached leaves a run in the
middle of its first turn. -/
example :
    let rt := { AgentRuntime.plain with
      loopConfig := { LoopConfig.default with maxRetries := 66 } }
    let env := { TurnEnv.cut with
      attempts := List.replicate 66 ⟨.failed (.network "refused"), false, false⟩ }
    let ctx := RunContext.start []
    eventsOf (ctx.since (guardedAgentLoop rt .default ctx [helloMessage] [] [⟨env, none⟩])) =
      [.messageStart helloMessage, .messageEnd helloMessage, .agentStart, .turnStart] := by
  decide +kernel

/-- A run that compacts what came before it. -/
def compactingRun : List Effect :=
  let rt := { AgentRuntime.plain with
    loopConfig := { LoopConfig.default with compactor := true, compaction := ⟨0, 1, 0, 0⟩ } }
  let ctx := RunContext.start [helloMessage, .assistant helloAnswer]
  let env := { TurnEnv.streaming [.done helloAnswer] with compacted := .ok "summary" }
  ctx.since (guardedAgentLoop rt .default ctx [helloMessage] [] [⟨env, none⟩])

/-- The end of the summary is announced in a turn in which no message has started. -/
theorem compactingRun_unbracketed :
    ¬ WellBracketed (eventsOf compactingRun) ∧
      AgentView.follow (some (.plain .outside)) ((eventsOf compactingRun).take 4) =
        some (.plain .turn) ∧
      (eventsOf compactingRun)[4]? = some (.messageEnd (summaryMessage "summary")) := by
  decide +kernel

end Guigu
