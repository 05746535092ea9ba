import Guigu.Core.Runtime.Commands

/-! One answer of the provider: setting the stream up with retries, and consuming it. -/
namespace Guigu

/-- Only failures to set the stream up are tried again. The tokens are those of the moment the
function returns. -/
def streamWithRetry (config : LoopConfig) :
    ℕ → Tokens → List Attempt → Except ProviderError Unit × Tokens
  | _, tokens, [] => (.error .aborted, tokens.observe)
  | attempt, tokens, a :: rest =>
    let failed (e : ProviderError) :=
      if e.retryClass = .permanent then (.error e, tokens)
      else
        let tokens := if a.cancelledMeanwhile then tokens.observe else tokens
        if tokens.isCancelled then (.error .aborted, tokens)
        else if config.maxRetries ≤ attempt then (.error e, tokens)
        else if a.backoffCancelled then (.error .aborted, tokens.observe)
        else streamWithRetry config (attempt + 1) tokens rest
    match a.outcome with
    | .established => (.ok (), tokens)
    | .failed e => failed e
    | .timedOut =>
      -- without a timeout the request hangs until it is cancelled
      if config.requestTimeout then failed .timeout else (.error .aborted, tokens.observe)
    | .cancelled => (.error .aborted, tokens.observe)

structure TurnResult where
  assistantMessage : AssistantMessage
  toolCalls : List ToolCall
  aborted : Bool
  deriving DecidableEq, Repr

structure TurnAccumulator where
  text : String
  thinking : String
  toolCalls : List ToolCall
  currentTool : Option ToolCall
  finalMessage : Option AssistantMessage
  errorMessage : Option String
  aborted : Bool
  deriving DecidableEq, Repr

def buildAssistant (text thinking : String) (toolCalls : List ToolCall)
    (currentTool : Option ToolCall) (modelId : String) : AssistantMessage where
  content :=
    (if thinking.isEmpty then [] else [.thinking thinking]) ++
      (if text.isEmpty then [] else [.text text]) ++
      toolCalls.map .toolCall ++ currentTool.toList.map .toolCall
  model := some modelId
  usage := none
  stopReason := none
  errorMessage := none
  timestamp := 0

/-- An answer without content. -/
def emptyAssistant (modelId : String) : AssistantMessage := ⟨[], some modelId, none, none, none, 0⟩

namespace TurnAccumulator

def empty : TurnAccumulator := ⟨"", "", [], none, none, none, false⟩

/-- Take one event; the flag tells that it ends the stream. -/
def handleEvent (acc : TurnAccumulator) : AssistantEvent → Bool × TurnAccumulator
  | .textDelta text => (false, { acc with text := acc.text ++ text })
  | .thinkingDelta thinking => (false, { acc with thinking := acc.thinking ++ thinking })
  | .toolCallStart id name arguments =>
    (false, { acc with
      toolCalls := acc.toolCalls ++ acc.currentTool.toList
      currentTool := some ⟨id, name, arguments⟩ })
  | .toolCallDelta id argumentsDelta =>
    match acc.currentTool with
    | some tc =>
      if tc.id = id then
        (false,
          { acc with currentTool := some { tc with arguments := tc.arguments ++ argumentsDelta } })
      else (false, acc)
    | none => (false, acc)
  | .toolCallEnd id =>
    match acc.currentTool with
    | some tc =>
      if tc.id = id then
        (false, { acc with toolCalls := acc.toolCalls ++ [tc], currentTool := none })
      else (false, acc)
    | none => (false, acc)
  | .done message => (true, { acc with finalMessage := some message })
  | .error message aborted =>
    (true, { acc with errorMessage := some message, aborted := aborted })

def build (acc : TurnAccumulator) (modelId : String) : AssistantMessage :=
  buildAssistant acc.text acc.thinking acc.toolCalls acc.currentTool modelId

/-- The message of the turn: the final one of the provider, or what has been collected. -/
def finalize (acc : TurnAccumulator) (modelId : String) : AssistantMessage :=
  match acc.finalMessage with
  | some message => message
  | none =>
    let message := buildAssistant acc.text acc.thinking
      (acc.toolCalls ++ acc.currentTool.toList) none modelId
    if acc.aborted then { message with stopReason := some .aborted }
    else
      match acc.errorMessage with
      | some e => { message with stopReason := some .error, errorMessage := some e }
      | none =>
        { message with
          stopReason := some .error
          errorMessage := some "stream ended without Done event" }

end TurnAccumulator

/-- A stream that could not be set up. -/
def streamFailureResult (modelId : String) (e : ProviderError) (cancelled : Bool) : TurnResult :=
  let aborted := decide (e = .aborted) || cancelled
  ⟨{ emptyAssistant modelId with
      stopReason := some (if aborted then .aborted else .error)
      errorMessage := if aborted then none else some e.text },
    [], aborted⟩

/-- The loop over the events of a stream. -/
def consume (modelId : String) :
    RunContext → TurnAccumulator → List StreamItem → TurnAccumulator × RunContext
  | ctx, acc, [] => (acc, ctx)
  | ctx, acc, .cancelled :: _ =>
    ({ acc with aborted := true }, { ctx with tokens := ctx.tokens.observe })
  | ctx, acc, .event arrived e :: items =>
    let d := ctx.drainCommands arrived
    let ctx := d.2.requeue d.1
    if d.1.aborted || d.1.shutdown then ({ acc with aborted := true }, ctx)
    else
      let handled := acc.handleEvent e
      let ctx := ctx.record [.streamed e]
      if handled.1 then (handled.2, ctx)
      else
        consume modelId (ctx.send (.messageUpdate (.assistant (handled.2.build modelId)) e))
          handled.2 items

def streamTurn (rt : AgentRuntime) (ctx : RunContext) (env : TurnEnv) : TurnResult × RunContext :=
  let modelId := rt.loopConfig.model.id
  match streamWithRetry rt.loopConfig 0 ctx.tokens env.attempts with
  | (.error e, tokens) =>
    let tokens := if env.setupCancelled then tokens.observe else tokens
    (streamFailureResult modelId e tokens.isCancelled, { ctx with tokens := tokens })
  | (.ok (), tokens) =>
    let ctx := ({ ctx with tokens := tokens } : RunContext).send
      (.messageStart (.assistant (emptyAssistant modelId)))
    let r := consume modelId ctx .empty env.stream
    let message := r.1.finalize modelId
    (⟨message, extractToolCalls message, r.1.aborted⟩, r.2.send (.messageEnd (.assistant message)))

/-- What the events of a stream leave in the accumulator, up to the cut or the last event. -/
def TurnAccumulator.run : TurnAccumulator → List StreamItem → TurnAccumulator
  | acc, [] => acc
  | acc, .cancelled :: _ => { acc with aborted := true }
  | acc, .event arrived e :: items =>
    if arrived.any AgentCommand.cuts then { acc with aborted := true }
    else if (acc.handleEvent e).1 then (acc.handleEvent e).2
    else (acc.handleEvent e).2.run items

/-- What is drained while a stream is consumed, event by event. -/
def TurnAccumulator.drains : TurnAccumulator → List StreamItem → List (List AgentCommand)
  | _, [] => []
  | _, .cancelled :: _ => []
  | acc, .event arrived e :: items =>
    if arrived.any AgentCommand.cuts then [arrived]
    else if (acc.handleEvent e).1 then [arrived]
    else arrived :: (acc.handleEvent e).2.drains items

/-- The stream of the turn can be set up. -/
def TurnEnv.established (env : TurnEnv) (config : LoopConfig) (tokens : Tokens) : Bool :=
  (streamWithRetry config 0 tokens env.attempts).1.isOk

/-- What the stream of the turn leaves in the accumulator. -/
def TurnEnv.streamed (env : TurnEnv) : TurnAccumulator := TurnAccumulator.empty.run env.stream

/-- An event that does not end the stream leaves the final message out. -/
theorem TurnAccumulator.handleEvent_final {acc : TurnAccumulator} {e : AssistantEvent}
    (h : acc.finalMessage = none) (m : AssistantMessage) :
    (acc.handleEvent e).2.finalMessage = some m ↔ e = .done m := by
  cases e with
  | done message => simp [handleEvent]
  | toolCallDelta id argumentsDelta =>
    simp only [handleEvent, reduceCtorEq, iff_false]
    cases acc.currentTool with
    | none => simp [h]
    | some tc => by_cases hid : tc.id = id <;> simp [hid, h]
  | toolCallEnd id =>
    simp only [handleEvent, reduceCtorEq, iff_false]
    cases acc.currentTool with
    | none => simp [h]
    | some tc => by_cases hid : tc.id = id <;> simp [hid, h]
  | _ => simp [handleEvent, h]

theorem TurnAccumulator.handleEvent_done {acc : TurnAccumulator} {e : AssistantEvent}
    (h : (acc.handleEvent e).1 = false) (m : AssistantMessage) : e ≠ .done m := by
  rintro rfl
  cases h

namespace RunContext

/-- What the consumption of a stream does: it pushes nothing, and the last event it handles is
the final message, if there is one. -/
structure Consumed (ctx ctx' : RunContext) (acc : TurnAccumulator) (items : List StreamItem)
    (effects : List Effect) : Prop where
  adds : Adds ctx ctx' [] effects
  quiet : Quiet effects
  last : ∀ m, lastStreamed effects = some (.done m) ↔ (acc.run items).finalMessage = some m
  drained : drainedOf effects = (acc.drains items).flatten
  queue : ctx'.queue = ctx.queue ++ (acc.drains items).flatMap requeued

theorem consume_consumed (modelId : String) (ctx : RunContext) {acc : TurnAccumulator}
    (items : List StreamItem) (hacc : acc.finalMessage = none) :
    (consume modelId ctx acc items).1 = acc.run items ∧
      ∃ effects, Consumed ctx (consume modelId ctx acc items).2 acc items effects := by
  induction items generalizing ctx acc with
  | nil =>
    exact ⟨rfl, [], .refl ctx, List.forall_mem_nil _,
      by simp [lastStreamed, TurnAccumulator.run, hacc], rfl, (List.append_nil _).symm⟩
  | cons item items ih =>
    cases item with
    | cancelled =>
      exact ⟨rfl, [], ⟨by simp [consume], by simp [consume]⟩, List.forall_mem_nil _,
        by simp [lastStreamed, TurnAccumulator.run, hacc], rfl, (List.append_nil _).symm⟩
    | event arrived e =>
      have hdrain := (adds_drainCommands ctx arrived).trans
        (adds_requeue _ (ctx.drainCommands arrived).1)
      simp only [List.append_nil] at hdrain
      have hqueue := ctx.queue_requeue arrived
      simp only [consume, TurnAccumulator.run, drainCommands_cuts]
      cases hcut : arrived.any AgentCommand.cuts with
      | true =>
        simp only [↓reduceIte]
        refine ⟨trivial, _, hdrain, quiet_drained _, ?_, ?_, ?_⟩
        · simp [TurnAccumulator.run, hcut, hacc, lastStreamed_drained]
        · simp [TurnAccumulator.drains, hcut]
        · simp [TurnAccumulator.drains, hcut, hqueue]
      | false =>
        simp only [Bool.false_eq_true, ↓reduceIte]
        have hhandled := hdrain.trans (adds_record _ [.streamed e])
        have hquiet : Quiet (arrived.map .drained ++ [.streamed e]) :=
          (quiet_drained arrived).append (quiet_singleton rfl)
        have hdrained : drainedOf (arrived.map .drained ++ [.streamed e]) = arrived := by
          rw [drainedOf_append, drainedOf_drained]
          exact List.append_nil arrived
        cases hend : (acc.handleEvent e).1 with
        | true =>
          simp only [↓reduceIte]
          refine ⟨trivial, _, hhandled, hquiet, fun m => ?_, ?_, ?_⟩
          · simp only [TurnAccumulator.run, hcut, hend, Bool.false_eq_true, ↓reduceIte]
            rw [TurnAccumulator.handleEvent_final hacc, lastStreamed_append]
            exact ⟨fun h => Option.some.inj h, fun h => congrArg some h⟩
          · simp [TurnAccumulator.drains, hcut, hend, hdrained]
          · simp [TurnAccumulator.drains, hcut, hend, hqueue, record]
        | false =>
          simp only [Bool.false_eq_true, ↓reduceIte]
          have hnone : (acc.handleEvent e).2.finalMessage = none := by
            rw [Option.eq_none_iff_forall_ne_some]
            intro m hm
            exact TurnAccumulator.handleEvent_done hend m
              ((TurnAccumulator.handleEvent_final hacc m).mp hm)
          obtain ⟨heq, effects, hrest⟩ := ih
            (((((ctx.drainCommands arrived).2.requeue (ctx.drainCommands arrived).1).record
              [.streamed e]).send (.messageUpdate
                (.assistant ((acc.handleEvent e).2.build modelId)) e))) hnone
          refine ⟨heq, _, (hhandled.trans (adds_send _ _)).trans hrest.adds, ?_, fun m => ?_, ?_,
            ?_⟩
          · exact (hquiet.append (quiet_singleton rfl)).append hrest.quiet
          · simp only [TurnAccumulator.run, hcut, hend, Bool.false_eq_true, ↓reduceIte]
            rw [← hrest.last m, lastStreamed_append]
            cases hl : lastStreamed effects with
            | some e' => rfl
            | none =>
              -- the events before the rest end with one that is not final
              have hne : e ≠ .done m := TurnAccumulator.handleEvent_done hend m
              have hfirst : lastStreamed (List.map Effect.drained arrived ++ [.streamed e] ++
                  [.event (.messageUpdate
                    (.assistant ((acc.handleEvent e).2.build modelId)) e)]) = some e := by
                rw [lastStreamed_append, lastStreamed_append]
                rfl
              rw [Option.none_or, hfirst]
              simp [hne]
          · rw [drainedOf_append, drainedOf_append, hdrained, hrest.drained]
            simp [TurnAccumulator.drains, hcut, hend, drainedOf, drained?]
          · rw [hrest.queue]
            simp [TurnAccumulator.drains, hcut, hend, hqueue, record, send]

/-- A stream that cannot be set up gives an answer without calls and no event. -/
theorem streamTurn_failed {rt : AgentRuntime} {ctx : RunContext} {env : TurnEnv}
    (h : env.established rt.loopConfig ctx.tokens = false) :
    (streamTurn rt ctx env).1.toolCalls = [] ∧
      (streamTurn rt ctx env).1.assistantMessage.content = [] ∧
      Adds ctx (streamTurn rt ctx env).2 [] [] ∧
      (streamTurn rt ctx env).2.queue = ctx.queue := by
  unfold TurnEnv.established at h
  unfold streamTurn
  cases hset : streamWithRetry rt.loopConfig 0 ctx.tokens env.attempts with
  | mk result tokens =>
    cases result with
    | error e =>
      exact ⟨rfl, rfl, ⟨(List.append_nil _).symm, (List.append_nil _).symm⟩, rfl⟩
    | ok u =>
      rw [hset] at h
      cases h

/-- A stream that is set up is consumed, and its message announced. -/
theorem streamTurn_established {rt : AgentRuntime} {ctx : RunContext} {env : TurnEnv}
    (h : env.established rt.loopConfig ctx.tokens = true) :
    (streamTurn rt ctx env).1 =
        ⟨env.streamed.finalize rt.loopConfig.model.id,
          extractToolCalls (env.streamed.finalize rt.loopConfig.model.id), env.streamed.aborted⟩ ∧
      ∃ ctx' effects, Consumed ctx ctx' .empty env.stream effects ∧
        (streamTurn rt ctx env).2 =
          ctx'.send (.messageEnd (.assistant (env.streamed.finalize rt.loopConfig.model.id))) := by
  unfold TurnEnv.established at h
  unfold streamTurn
  cases hset : streamWithRetry rt.loopConfig 0 ctx.tokens env.attempts with
  | mk result tokens =>
    cases result with
    | error e =>
      rw [hset] at h
      cases h
    | ok u =>
      simp only
      obtain ⟨heq, effects, hcons⟩ := consume_consumed rt.loopConfig.model.id
        (({ ctx with tokens := tokens } : RunContext).send
          (.messageStart (.assistant (emptyAssistant rt.loopConfig.model.id))))
        env.stream (rfl : TurnAccumulator.empty.finalMessage = none)
      have hstart : Adds ctx (({ ctx with tokens := tokens } : RunContext).send
          (.messageStart (.assistant (emptyAssistant rt.loopConfig.model.id)))) []
          [.event (.messageStart (.assistant (emptyAssistant rt.loopConfig.model.id)))] :=
        ⟨(List.append_nil _).symm, rfl⟩
      simp only [heq]
      refine ⟨rfl, _, _, ⟨hstart.trans hcons.adds, ?_, fun m => ?_, ?_, hcons.queue⟩, rfl⟩
      · exact (quiet_singleton rfl).append hcons.quiet
      · have hfirst : lastStreamed [.event (.messageStart
            (.assistant (emptyAssistant rt.loopConfig.model.id)))] = none := rfl
        rw [lastStreamed_append, hfirst, Option.or_none]
        exact hcons.last m
      · rw [drainedOf_append, hcons.drained]
        rfl

end RunContext

end Guigu
