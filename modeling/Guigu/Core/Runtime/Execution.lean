import Guigu.Core.Runtime.LoopTurns

/-! Which tool calls a run executes: those of a final message that was not cut at its length, and
those collected from a stream that never brought a final message. -/
namespace Guigu

/-- The call stands in a final message that was not cut at its length limit. -/
def fromDone (last : Option AssistantEvent) (call : ToolCall) : Bool :=
  match last with
  | some (.done m) => decide (m.stopReason ≠ some .length) && decide (call ∈ extractToolCalls m)
  | _ => false

/-- The last event of the stream that answers the request under way. -/
def answering (last : Option AssistantEvent) : Effect → Option AssistantEvent
  | .request _ _ => none
  | .streamed e => some e
  | _ => last

/-- Every call that is executed stands in the final message of the stream under way. -/
def authorized : Option AssistantEvent → List Effect → Bool
  | _, [] => true
  | last, .executed call args :: es =>
    fromDone last call && authorized (answering last (.executed call args)) es
  | last, e :: es => authorized (answering last e) es

/-- Nothing is executed behind the answer, or the stream ended with a final message. -/
def TurnEnv.executesDone (rt : AgentRuntime) (s : LoopState) (env : TurnEnv) : Bool :=
  s.finished || env.cancelsCompaction rt s.ctx.transcript ||
    !env.established rt.loopConfig s.ctx.tokens || (env.answer rt).aborted ||
    env.streamed.finalMessage.isSome ||
    !(env.prepared rt (env.answer rt).toolCalls).any PreparedCall.runs

theorem authorized_append (last : Option AssistantEvent) (es fs : List Effect) :
    authorized last (es ++ fs) =
      (authorized last es && authorized (es.foldl answering last) fs) := by
  induction es generalizing last with
  | nil => rfl
  | cons e es ih =>
    cases e <;> simp only [List.cons_append, authorized, List.foldl_cons, ih, Bool.and_assoc]

theorem authorized_of_executions {es : List Effect} (last : Option AssistantEvent)
    (h : executions es = []) : authorized last es = true := by
  induction es generalizing last with
  | nil => rfl
  | cons e es ih =>
    cases e with
    | executed call args => cases h
    | _ => exact ih _ h

/-- The tools of a turn leave the stream under way as it is. -/
theorem authorized_ofTools {es : List Effect} (last : Option AssistantEvent) (h : OfTools es) :
    authorized last es = (executions es).all fun x => fromDone last x.1 := by
  induction es with
  | nil => rfl
  | cons e es ih =>
    obtain ⟨htools, hrest⟩ := List.forall_mem_cons.mp h
    cases e with
    | executed call args =>
      show (fromDone last call && authorized last es) = _
      rw [ih hrest]
      rfl
    | event e => exact ih hrest
    | request | drained | processing | initial | taken | streamed => cases htools

theorem foldl_answering {es : List Effect} (last : Option AssistantEvent)
    (hrequests : requested es = []) : es.foldl answering last = (lastStreamed es).or last := by
  induction es generalizing last with
  | nil => rfl
  | cons e es ih =>
    cases e with
    | request t r => cases hrequests
    | streamed e =>
      rw [List.foldl_cons, ih _ hrequests, ← List.singleton_append, lastStreamed_append]
      cases lastStreamed es <;> rfl
    | event | drained | processing | initial | taken | executed =>
      rw [List.foldl_cons, ih _ hrequests]
      rfl

theorem finalize_done {acc : TurnAccumulator} {m : AssistantMessage} (modelId : String)
    (h : acc.finalMessage = some m) : acc.finalize modelId = m := by
  unfold TurnAccumulator.finalize
  rw [h]

/-- What has been collected without a final message never counts as cut at its length. -/
theorem finalize_stopReason {acc : TurnAccumulator} (modelId : String)
    (h : acc.finalMessage = none) : (acc.finalize modelId).stopReason ≠ some .length := by
  unfold TurnAccumulator.finalize
  rw [h]
  simp only
  split_ifs
  · simp
  · cases acc.errorMessage <;> simp

/-- The tool work of an answer is authorised when its stream ended with a final message, and
otherwise only when there is none. -/
theorem authorized_toolWork (rt : AgentRuntime) (env : TurnEnv) {last : Option AssistantEvent}
    (hlast : ∀ m, last = some (.done m) ↔ env.streamed.finalMessage = some m) :
    authorized last (env.toolWork rt (env.answer rt)).1 =
      ((env.answer rt).aborted || env.streamed.finalMessage.isSome ||
        !(env.prepared rt (env.answer rt).toolCalls).any PreparedCall.runs) := by
  rw [authorized_ofTools last (toolWork_ofTools rt env _)]
  unfold TurnEnv.toolWork
  cases habort : (env.answer rt).aborted with
  | true => rfl
  | false =>
    rw [Bool.false_or, Bool.false_or]
    cases hcalls : (env.answer rt).toolCalls.isEmpty with
    | true =>
      have hnil : (env.answer rt).toolCalls = [] := by simpa using hcalls
      simp [hnil, TurnEnv.prepared, executions]
    | false =>
      simp only [Bool.false_eq_true, ↓reduceIte]
      have hperm := executeToolCalls_executions rt env (env.answer rt).toolCalls
        (env.answer rt).assistantMessage.stopReason
      rw [hperm.all_eq]
      cases hfinal : env.streamed.finalMessage with
      | some m =>
        have hm : (env.answer rt).assistantMessage = m := finalize_done _ hfinal
        have hlast' : last = some (.done m) := (hlast m).mpr hfinal
        rw [Option.isSome_some, Bool.true_or]
        cases htrunc : isTruncated (env.answer rt).toolCalls
            (env.answer rt).assistantMessage.stopReason with
        | true => rfl
        | false =>
          have hstop : m.stopReason ≠ some .length := by
            unfold isTruncated at htrunc
            rw [hcalls, hm] at htrunc
            simpa using htrunc
          simp only [Bool.false_eq_true, ↓reduceIte, List.all_eq_true]
          intro x hx
          obtain ⟨p, hp, rfl⟩ := List.mem_map.mp hx
          have hmem : p.toolCall ∈ (env.answer rt).toolCalls := by
            rw [← env.prepared_toolCall rt (env.answer rt).toolCalls]
            exact List.mem_map_of_mem (List.mem_filter.mp hp).1
          have hcall : p.toolCall ∈ extractToolCalls m := by
            rw [← hm]
            exact hmem
          rw [hlast']
          simp [fromDone, hstop, hcall]
      | none =>
        have htrunc : isTruncated (env.answer rt).toolCalls
            (env.answer rt).assistantMessage.stopReason = false := by
          have hstop : (env.answer rt).assistantMessage.stopReason ≠ some .length :=
            finalize_stopReason _ hfinal
          unfold isTruncated
          rw [decide_eq_false hstop, Bool.false_and]
        have hnever (call : ToolCall) : fromDone last call = false := by
          unfold fromDone
          split
          · have hsome := (hlast _).mp rfl
            rw [hfinal] at hsome
            cases hsome
          · rfl
        rw [htrunc, Option.isSome_none, Bool.false_or]
        simp only [Bool.false_eq_true, ↓reduceIte, hnever]
        cases hany : (env.prepared rt (env.answer rt).toolCalls).any PreparedCall.runs with
        | false =>
          have hfilter :
              (env.prepared rt (env.answer rt).toolCalls).filter PreparedCall.runs = [] :=
            List.filter_eq_nil_iff.mpr fun p hp hruns => by
              rw [List.any_eq_false] at hany
              exact hany p hp hruns
          rw [hfilter]
          rfl
        | true =>
          obtain ⟨p, hp, hruns⟩ := List.any_eq_true.mp hany
          rw [Bool.not_true, List.all_eq_false]
          exact ⟨(p.toolCall, p.args), List.mem_map.mpr ⟨p, List.mem_filter.mpr ⟨hp, hruns⟩, rfl⟩,
            Bool.false_ne_true⟩

theorem turnStep_authorized {rt : AgentRuntime} {s : LoopState} (env : TurnEnv)
    (hs : s.finished = false) :
    ∃ effects, (turnStep rt s env).ctx.trace = s.ctx.trace ++ effects ∧
      ∀ last, authorized last effects = env.executesDone rt s := by
  unfold TurnEnv.executesDone
  rw [hs, Bool.false_or]
  rcases turnStep_cases env hs with ⟨hcancel, -, hadds, -⟩ | ⟨hcancel, base, turn, injected, before,
    stream, behind, step, h⟩
  · rw [hcancel]
    exact ⟨_, hadds.trace, fun last => rfl⟩
  · rw [hcancel, Bool.false_or]
    obtain ⟨request, htrace⟩ := h.trace
    refine ⟨_, htrace, fun last => ?_⟩
    have hbefore : executions before = [] := by
      cases h.prepared <;> rfl
    have hbehind := authorized_of_executions
      (((env.toolWork rt turn).1).foldl answering (stream.foldl answering none))
      h.finish.announces.executions_eq
    -- nothing is executed in front of the request, and the request forgets what was before
    have hturn : authorized last (.event .turnStart :: (before ++ .request base request ::
        (stream ++ ((env.toolWork rt turn).1 ++ behind)))) =
        (authorized none stream &&
          authorized (stream.foldl answering none) (env.toolWork rt turn).1) := by
      show authorized last (before ++ _) = _
      rw [authorized_append, authorized_of_executions last hbefore, Bool.true_and]
      show authorized none (stream ++ _) = _
      rw [authorized_append, authorized_append, hbehind, Bool.and_true]
    rw [hturn]
    cases h.outcome with
    | failed hno hcalls =>
      have hwork : env.toolWork rt turn = ([], []) := by
        unfold TurnEnv.toolWork
        simp [hcalls]
      rw [hwork, hno]
      rfl
    | answered hyes hquiet hlast =>
      rename_i effects _
      have hend : requested (effects ++ [.event (.messageEnd
          (.assistant (env.answer rt).assistantMessage))]) = [] := by
        rw [requested_append, hquiet.requested_eq]
        rfl
      have hexec : executions (effects ++ [.event (.messageEnd
          (.assistant (env.answer rt).assistantMessage))]) = [] := by
        rw [executions_append, hquiet.executions_eq]
        rfl
      rw [authorized_of_executions none hexec, Bool.true_and, foldl_answering none hend, hyes,
        Bool.not_true, Bool.false_or, lastStreamed_append, Option.or_none]
      exact authorized_toolWork rt env hlast

theorem turns_authorized (rt : AgentRuntime) (s : LoopState) (envs : List TurnEnv) :
    ∃ effects, (Runs.run (turnStep rt) s envs).ctx.trace = s.ctx.trace ++ effects ∧
      ∀ last, authorized last effects = true ↔
        Runs.Along (turnStep rt) (fun s env => env.executesDone rt s = true) s envs := by
  induction envs generalizing s with
  | nil => exact ⟨[], (List.append_nil _).symm, fun last => by simp [authorized, Runs.Along]⟩
  | cons env envs ih =>
    obtain ⟨effects, htrace, hiff⟩ := ih (turnStep rt s env)
    cases hs : s.finished with
    | true =>
      have hstay : turnStep rt s env = s := turnStep_finished env hs
      rw [hstay] at htrace hiff
      refine ⟨effects, ?_, fun last => ?_⟩
      · rwa [Runs.run_cons, hstay]
      · rw [hiff]
        simp only [Runs.Along, TurnEnv.executesDone, hs, Bool.true_or, true_and, hstay]
    | false =>
      obtain ⟨effects₁, htrace₁, hturn⟩ := turnStep_authorized env hs
      refine ⟨effects₁ ++ effects, ?_, fun last => ?_⟩
      · rw [Runs.run_cons, htrace, htrace₁, List.append_assoc]
      · rw [authorized_append, Bool.and_eq_true, hturn, hiff]
        rfl

/-- A run executes only calls of final messages that were not cut at their length exactly when
every turn that is taken brings a final message, is aborted or has no collected call that could
run. -/
theorem authorized_runAgentLoop_iff (rt : AgentRuntime) (ctx : RunContext)
    (initial : List Message) (env : RunEnv) :
    authorized none (ctx.since (runAgentLoop rt ctx initial env).2) = true ↔
      Runs.Along (turnStep rt) (fun s turn => turn.executesDone rt s = true)
        (startLoop ctx initial env.arrivals) env.turns := by
  obtain ⟨effects, htrace, hiff⟩ := turns_authorized rt (startLoop ctx initial env.arrivals)
    (env.turns ++ [.cut])
  have hexec := (announces_startLoop initial env.arrivals).executions_eq
  have hlast : Runs.Along (turnStep rt) (fun s turn => turn.executesDone rt s = true)
      (Runs.run (turnStep rt) (startLoop ctx initial env.arrivals) env.turns) [.cut] := by
    refine ⟨?_, trivial⟩
    have habort : (TurnEnv.cut.answer rt).aborted = true := rfl
    simp [TurnEnv.executesDone, habort]
  rw [RunContext.since_eq (runAgentLoop_trace rt ctx initial env htrace), authorized_append,
    authorized_of_executions none hexec, Bool.true_and, authorized_append, Bool.and_eq_true, hiff,
    Runs.along_append, and_iff_left hlast]
  exact and_iff_left rfl

/-- A stream that ends in the middle of an answer leaves a call that is executed. -/
theorem brokenStream_executes : authorized none ((RunContext.start []).since
    (runAgentLoop .withBash (.start []) [helloMessage]
      ⟨[], [.streaming [.toolCallStart "c1" "bash" "{}"]]⟩).2) = false := by
  decide +kernel

end Guigu
