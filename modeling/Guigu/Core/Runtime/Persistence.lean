import Guigu.Core.Runtime.LoopTurns

/-! What a run hands to the persistence bridge: the bridge writes the messages of the `MessageEnd`
events, and the transcript holds what the run has pushed. -/
namespace Guigu

/-- The messages announced between two moments of a run are those pushed between them. -/
def Persisted (ctx ctx' : RunContext) : Prop :=
  messageEnds (ctx.since ctx') = ctx'.transcript.drop ctx.transcript.length

instance (ctx ctx' : RunContext) : Decidable (Persisted ctx ctx') :=
  inferInstanceAs (Decidable (_ = _))

/-- The turn commits no compaction. -/
def TurnEnv.Uncommitted (rt : AgentRuntime) (s : LoopState) (env : TurnEnv) : Prop :=
  s.finished = true ∨ env.commit? rt s.ctx.transcript = none

/-- The compaction is cancelled, or the stream can be set up and its answer is aborted or has no
calls. -/
def TurnEnv.persists (rt : AgentRuntime) (s : LoopState) (env : TurnEnv) : Bool :=
  s.finished || env.cancelsCompaction rt s.ctx.transcript ||
    (env.established rt.loopConfig s.ctx.tokens &&
      ((env.answer rt).aborted || (env.answer rt).toolCalls.isEmpty))

instance (rt : AgentRuntime) (s : LoopState) (env : TurnEnv) :
    Decidable (TurnEnv.Uncommitted rt s env) := inferInstanceAs (Decidable (_ ∨ _))

theorem persisted_iff {ctx ctx' : RunContext} {pushed : List Message} {effects : List Effect}
    (h : RunContext.Adds ctx ctx' pushed effects) :
    Persisted ctx ctx' ↔ messageEnds effects = pushed := by
  unfold Persisted
  rw [RunContext.since_eq h.trace, h.transcript, List.drop_left]

theorem length_toolWork (rt : AgentRuntime) (env : TurnEnv) (turn : TurnResult) :
    (env.toolWork rt turn).2.length =
      if turn.aborted || turn.toolCalls.isEmpty then 0 else turn.toolCalls.length := by
  unfold TurnEnv.toolWork
  split_ifs
  · rfl
  · have h := congrArg List.length
      (executeToolCalls_results rt env turn.toolCalls turn.assistantMessage.stopReason)
    rwa [List.length_map, List.length_map] at h

/-- A turn announces what it pushes, or less when it has calls or no stream. -/
theorem turnStep_ends {rt : AgentRuntime} {s : LoopState} {env : TurnEnv}
    (hs : s.finished = false) (hnone : env.commit? rt s.ctx.transcript = none) :
    ∃ pushed effects, RunContext.Adds s.ctx (turnStep rt s env).ctx pushed effects ∧
      (messageEnds effects).length ≤ pushed.length ∧
      (messageEnds effects = pushed ↔ env.persists rt s = true) := by
  unfold TurnEnv.persists
  rw [hs, Bool.false_or]
  rcases turnStep_cases env hs with ⟨hcancel, -, hadds, -⟩ | ⟨hcancel, base, turn, injected, before,
    stream, behind, step, h⟩
  · rw [hcancel]
    exact ⟨[], _, hadds, le_refl _, by simp [messageEnds, messageEnd?]⟩
  · rw [hcancel, Bool.false_or]
    obtain ⟨request, htrace⟩ := h.trace
    have hkept : base = s.ctx.transcript ∧ before = [] := by
      cases h.prepared with
      | kept => exact ⟨rfl, rfl⟩
      | committed hcommit =>
        rw [hnone] at hcommit
        cases hcommit
    obtain ⟨rfl, rfl⟩ := hkept
    refine ⟨_, _, ⟨h.transcript, htrace⟩, ?_⟩
    have htools := (toolWork_ofTools rt env turn).messageEnds_eq
    have hbehind := h.finish.announces.ends
    have hlength := length_toolWork rt env turn
    have hends : messageEnds (.event .turnStart :: ([] ++ .request s.ctx.transcript request ::
        (stream ++ ((env.toolWork rt turn).1 ++ behind)))) = messageEnds stream ++ injected := by
      show messageEnds (stream ++ _) = _
      rw [messageEnds_append, messageEnds_append, htools, hbehind, List.nil_append]
    rw [hends]
    cases h.outcome with
    | failed hno =>
      rw [hno]
      -- the answer of a failed set-up enters the transcript without an event
      have hlt : (messageEnds [] ++ injected).length < (Message.assistant turn.assistantMessage ::
          ((env.toolWork rt turn).2.map .toolResult ++ injected)).length := by
        simp only [messageEnds, List.filterMap_nil, List.nil_append, List.length_cons,
          List.length_append, List.length_map]
        omega
      refine ⟨hlt.le, ?_⟩
      simp only [Bool.false_and, Bool.false_eq_true, iff_false]
      intro heq
      rw [heq] at hlt
      exact lt_irrefl _ hlt
    | answered hyes hquiet =>
      rw [hyes, Bool.true_and]
      rw [messageEnds_append, hquiet.messageEnds_eq]
      have hanswer : [] ++ messageEnds [.event (.messageEnd
          (.assistant (env.answer rt).assistantMessage))] =
          [Message.assistant (env.answer rt).assistantMessage] := rfl
      rw [hanswer]
      by_cases hfew : ((env.answer rt).aborted || (env.answer rt).toolCalls.isEmpty) = true
      · rw [if_pos hfew] at hlength
        rw [List.eq_nil_of_length_eq_zero hlength, hfew]
        exact ⟨le_refl _, by simp⟩
      · rw [if_neg hfew] at hlength
        have hpos : 0 < (env.toolWork rt (env.answer rt)).2.length := by
          rw [hlength, List.length_pos_iff]
          intro hnil
          rw [hnil] at hfew
          simp at hfew
        -- results enter the transcript without an event
        have hlt : ([Message.assistant (env.answer rt).assistantMessage] ++ injected).length <
            (Message.assistant (env.answer rt).assistantMessage ::
              ((env.toolWork rt (env.answer rt)).2.map .toolResult ++ injected)).length := by
          simp only [List.length_cons, List.length_append, List.length_map, List.length_nil]
          omega
        refine ⟨hlt.le, ?_⟩
        simp only [hfew, Bool.false_eq_true, iff_false]
        intro heq
        rw [heq] at hlt
        exact lt_irrefl _ hlt

theorem turns_ends {rt : AgentRuntime} {s : LoopState} {envs : List TurnEnv}
    (hnone : Runs.Along (turnStep rt) (TurnEnv.Uncommitted rt) s envs) :
    ∃ pushed effects, RunContext.Adds s.ctx (Runs.run (turnStep rt) s envs).ctx pushed effects ∧
      (messageEnds effects).length ≤ pushed.length ∧
      (messageEnds effects = pushed ↔
        Runs.Along (turnStep rt) (fun s env => env.persists rt s = true) s envs) := by
  induction envs generalizing s with
  | nil => exact ⟨[], [], .refl s.ctx, le_refl _, by simp [Runs.Along, messageEnds]⟩
  | cons env envs ih =>
    obtain ⟨hfirst, hrest⟩ := hnone
    obtain ⟨pushed, effects, hadds, hle, hiff⟩ := ih hrest
    cases hs : s.finished with
    | true =>
      have hstay : turnStep rt s env = s := turnStep_finished env hs
      rw [hstay] at hadds hiff
      refine ⟨pushed, effects, ?_, hle, ?_⟩
      · rwa [Runs.run_cons, hstay]
      · rw [hiff]
        simp only [Runs.Along, TurnEnv.persists, hs, Bool.true_or, true_and, hstay]
    | false =>
      have hcommit := hfirst.resolve_left (by rw [hs]; exact Bool.false_ne_true)
      obtain ⟨pushed₁, effects₁, hadds₁, hle₁, hiff₁⟩ := turnStep_ends hs hcommit
      refine ⟨_, _, hadds₁.trans hadds, ?_, ?_⟩
      · rw [messageEnds_append, List.length_append, List.length_append]
        omega
      · simp only [Runs.Along]
        rw [← hiff₁, ← hiff, messageEnds_append]
        constructor
        · intro heq
          -- no turn announces more than it pushes, so none announces less
          have hlen := congrArg List.length heq
          rw [List.length_append, List.length_append] at hlen
          exact List.append_inj heq (by omega)
        · rintro ⟨rfl, rfl⟩
          rfl

theorem cut_persists (rt : AgentRuntime) (s : LoopState) : TurnEnv.cut.persists rt s = true := by
  have hcut : (TurnEnv.cut.established rt.loopConfig s.ctx.tokens &&
      ((TurnEnv.cut.answer rt).aborted || (TurnEnv.cut.answer rt).toolCalls.isEmpty)) = true := rfl
  unfold TurnEnv.persists
  rw [hcut, Bool.or_true]

theorem cut_uncommitted (rt : AgentRuntime) (s : LoopState) : TurnEnv.cut.Uncommitted rt s :=
  .inr (TurnEnv.commit?_cut rt s.ctx.transcript)

/-- Without a compaction the bridge stores the transcript of a run exactly when every turn that is
taken has its stream set up and is aborted or without calls. -/
theorem persisted_runAgentLoop_iff (rt : AgentRuntime) (ctx : RunContext) (initial : List Message)
    (env : RunEnv) (hnone : Runs.Along (turnStep rt) (TurnEnv.Uncommitted rt)
      (startLoop ctx initial env.arrivals) env.turns) :
    Persisted ctx (runAgentLoop rt ctx initial env).2 ↔
      Runs.Along (turnStep rt) (fun s turn => turn.persists rt s = true)
        (startLoop ctx initial env.arrivals) env.turns := by
  have hstart := RunContext.adds_startLoop ctx initial env.arrivals
  have hnone' : Runs.Along (turnStep rt) (TurnEnv.Uncommitted rt)
      (startLoop ctx initial env.arrivals) (env.turns ++ [.cut]) :=
    Runs.along_append.mpr ⟨hnone, cut_uncommitted rt _, trivial⟩
  obtain ⟨pushed, effects, hadds, -, hiff⟩ := turns_ends hnone'
  have hall : RunContext.Adds ctx (runAgentLoop rt ctx initial env).2 _ _ :=
    (hstart.trans hadds).trans (RunContext.adds_send _ (.agentEnd
      (loopRun rt ctx initial env).ctx.transcript))
  have hends := announces_startLoop initial env.arrivals
  have hlast : Runs.Along (turnStep rt) (fun s turn => turn.persists rt s = true)
      (Runs.run (turnStep rt) (startLoop ctx initial env.arrivals) env.turns) [.cut] :=
    ⟨cut_persists rt _, trivial⟩
  rw [persisted_iff hall]
  rw [Runs.along_append, and_iff_left hlast] at hiff
  rw [← hiff, messageEnds_append, messageEnds_append, hends.ends]
  show appendedInitial initial env.arrivals ++ messageEnds effects ++ [] = _ ↔ _
  simp only [List.append_nil]
  exact List.append_right_inj _

theorem persisted_answeredRun : Persisted (.start [])
    (runAgentLoop .plain (.start []) [helloMessage] ⟨[], [.streaming [.done helloAnswer]]⟩).2 :=
  (persisted_runAgentLoop_iff .plain _ _ _ (by decide +kernel)).mpr (by decide +kernel)

/-- The result of a call, here of one to an unknown tool, is pushed and not announced. -/
theorem callingRun_not_persisted : ¬ Persisted (.start []) (runAgentLoop .plain (.start [])
    [helloMessage] ⟨[], [.streaming [.done callingAnswer], .streaming [.done helloAnswer]]⟩).2 := by
  decide +kernel

end Guigu
