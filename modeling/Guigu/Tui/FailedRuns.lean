import Guigu.Core.Runtime.Bracketing
import Guigu.Tui.State

/-! What the terminal interface shows of a run that fails. The loop does not pass the events on that
end a stream, and the end of every run makes the interface idle. -/
namespace Guigu

/-- The error of a stream is passed on to the subscribers. -/
def AgentEvent.passesError : AgentEvent → Bool
  | .messageUpdate _ (.error _ _) => true
  | _ => false

/-- No error of a stream is passed on. -/
def Silent (effects : List Effect) : Prop := ∀ e ∈ eventsOf effects, e.passesError = false

namespace Silent

theorem nil : Silent [] := List.forall_mem_nil _

theorem append {es fs : List Effect} (h : Silent es) (h' : Silent fs) : Silent (es ++ fs) := by
  unfold Silent
  rw [eventsOf_append]
  exact List.forall_mem_append.mpr ⟨h, h'⟩

theorem event {e : AgentEvent} (h : e.passesError = false) : Silent [.event e] :=
  List.forall_mem_singleton.mpr h

/-- Effects without events. -/
theorem of_eventsOf {es : List Effect} (h : eventsOf es = []) : Silent es := by
  unfold Silent
  rw [h]
  exact List.forall_mem_nil _

theorem drained (arrived : List AgentCommand) : Silent (arrived.map .drained) :=
  of_eventsOf (AgentView.eventsOf_drained arrived)

theorem taken (cmds : List AgentCommand) : Silent (cmds.map .taken) :=
  of_eventsOf (AgentView.eventsOf_taken cmds)

theorem said (ms : List Message) : Silent (said ms) := by
  induction ms with
  | nil => exact nil
  | cons m ms ih =>
    have hfirst : Silent [.event (.messageStart m), .event (.messageEnd m)] :=
      (event (e := .messageStart m) rfl).append (event rfl)
    exact hfirst.append ih

theorem ofTools {es : List Effect} (h : OfTools es) : Silent es := by
  intro e he
  obtain ⟨effect, heffect, hevent⟩ := List.mem_filterMap.mp he
  have htools := h effect heffect
  cases effect with
  | event _ =>
    cases hevent
    cases e with
    | toolExecutionStart | toolExecutionUpdate | toolExecutionEnd => rfl
    | _ => cases htools
  | _ => cases hevent

end Silent

theorem TurnFinish.silent {rt : AgentRuntime} {env : TurnEnv} {turn : TurnResult}
    {shutdown : Bool} {queue queue' : List AgentCommand} {injected : List Message}
    {behind : List Effect} {step : LoopStep}
    (h : TurnFinish rt env turn shutdown queue injected behind queue' step) : Silent behind := by
  have hend (results : List ToolResultMessage) :
      Silent [.event (.turnEnd turn.assistantMessage results)] := .event rfl
  cases h with
  | aborted | stopped => exact hend _
  | cut | ended => exact (hend []).append (.drained _)
  | steered | followed =>
    exact (hend []).append ((Silent.drained _).append ((Silent.taken _).append (.said _)))
  | toolCut | toolDone => exact (hend _).append ((Silent.said _).append (.drained _))

namespace RunContext

/-- The step passes no error of a stream on. -/
def Silently (ctx ctx' : RunContext) : Prop :=
  ∃ effects, ctx'.trace = ctx.trace ++ effects ∧ Silent effects

theorem Silently.refl (ctx : RunContext) : Silently ctx ctx :=
  ⟨[], (List.append_nil _).symm, .nil⟩

theorem Silently.trans {a b c : RunContext} (h : Silently a b) (h' : Silently b c) :
    Silently a c := by
  obtain ⟨es, hes, hsilent⟩ := h
  obtain ⟨fs, hfs, hsilent'⟩ := h'
  exact ⟨es ++ fs, by rw [hfs, hes, List.append_assoc], hsilent.append hsilent'⟩

theorem Adds.silently {ctx ctx' : RunContext} {ms : List Message} {effects : List Effect}
    (h : Adds ctx ctx' ms effects) (hsilent : Silent effects) : Silently ctx ctx' :=
  ⟨effects, h.trace, hsilent⟩

theorem silently_send (ctx : RunContext) {e : AgentEvent} (h : e.passesError = false) :
    Silently ctx (ctx.send e) := (adds_send ctx e).silently (.event h)

/-- An event that ends the stream is not passed on, any other is no error. -/
theorem silently_consume (modelId : String) (ctx : RunContext) (acc : TurnAccumulator)
    (items : List StreamItem) : Silently ctx (consume modelId ctx acc items).2 := by
  induction items generalizing ctx acc with
  | nil => exact .refl ctx
  | cons item items ih =>
    cases item with
    | cancelled => exact ⟨[], (List.append_nil _).symm, .nil⟩
    | event arrived e =>
      have hdrain := ((adds_drainCommands ctx arrived).silently (.drained arrived)).trans
        ((adds_requeue _ (ctx.drainCommands arrived).1).silently .nil)
      simp only [consume]
      split
      · exact hdrain
      · have hhandled := hdrain.trans ((adds_record _ [.streamed e]).silently (.of_eventsOf rfl))
        split
        · exact hhandled
        next hend =>
          refine (hhandled.trans (silently_send _ ?_)).trans (ih _ _)
          cases e with
          | error message aborted => exact absurd rfl hend
          | _ => rfl

theorem silently_streamTurn (rt : AgentRuntime) (ctx : RunContext) (env : TurnEnv) :
    Silently ctx (streamTurn rt ctx env).2 := by
  unfold streamTurn
  cases streamWithRetry rt.loopConfig 0 ctx.tokens env.attempts with
  | mk result tokens =>
    cases result with
    | error e => exact ⟨[], (List.append_nil _).symm, .nil⟩
    | ok u =>
      have hstart := silently_send { ctx with tokens := tokens }
        (e := .messageStart (.assistant (emptyAssistant rt.loopConfig.model.id))) rfl
      exact (hstart.trans (silently_consume _ _ _ _)).trans (silently_send _ rfl)

theorem silently_prepareRequestMessages (rt : AgentRuntime) (ctx : RunContext) (env : TurnEnv) :
    Silently ctx (ctx.prepareRequestMessages rt env).2 := by
  rcases prepareRequestMessages_cases rt ctx env with ⟨-, -, hadds, -⟩ |
    ⟨-, messages, base, before, -, hprepared, -, htrace, -⟩
  · exact hadds.silently .nil
  · refine ⟨before, htrace, ?_⟩
    cases hprepared with
    | kept => exact .nil
    | committed => exact .event rfl

end RunContext

open RunContext

theorem silently_turnStep (rt : AgentRuntime) (s : LoopState) (env : TurnEnv) :
    Silently s.ctx (turnStep rt s env).ctx := by
  unfold turnStep
  split
  · exact .refl _
  · have hprepared := (silently_send s.ctx (e := .turnStart) rfl).trans
      (silently_prepareRequestMessages rt _ env)
    split
    next ctx hnone =>
      rw [hnone] at hprepared
      exact hprepared.trans (silently_send ctx rfl)
    next messages ctx hsome =>
      rw [hsome] at hprepared
      have hrequest := (adds_record ctx
        [.request ctx.transcript (buildRequest rt messages)]).silently (.of_eventsOf rfl)
      have hanswer := (hrequest.trans (silently_streamTurn rt _ env)).trans
        ((adds_pushAssistantMessage _ (answerTurn rt ctx messages env).1).silently .nil)
      obtain ⟨injected, behind, step, hfinish, -, hadds⟩ := finishTurn_finish rt s
        (answerTurn rt ctx messages env).2 (answerTurn rt ctx messages env).1 env
      exact (hprepared.trans hanswer).trans
        (hadds.silently ((Silent.ofTools (toolWork_ofTools rt env _)).append hfinish.silent))

/-- What a run sends: a start that clears what there was, nothing that shows an error, an end. -/
theorem runAgentLoop_silent (rt : AgentRuntime) (ctx : RunContext) (initial : List Message)
    (env : RunEnv) : ∃ before turns messages,
      eventsOf (ctx.since (runAgentLoop rt ctx initial env).2) =
        before ++ .agentStart :: (eventsOf turns ++ [.agentEnd messages]) ∧ Silent turns := by
  have hstep : ∀ (s : LoopState) (turnEnv : TurnEnv),
      Silently (startLoop ctx initial env.arrivals).ctx s.ctx →
        Silently (startLoop ctx initial env.arrivals).ctx (turnStep rt s turnEnv).ctx :=
    fun s turnEnv h => h.trans (silently_turnStep rt s turnEnv)
  obtain ⟨turns, hturns, hsilent⟩ : Silently (startLoop ctx initial env.arrivals).ctx
      (loopRun rt ctx initial env).ctx :=
    (Runs.always hstep (fun _ h => h) (.refl _) (env.turns ++ [TurnEnv.cut])).last
  refine ⟨eventsOf (initialEffects initial env.arrivals), turns,
    (loopRun rt ctx initial env).ctx.transcript, ?_, hsilent⟩
  rw [since_eq (runAgentLoop_trace rt ctx initial env hturns)]
  simp only [eventsOf_append, List.append_assoc]
  rfl

namespace Tui

open TuiState

/-- The run has ended with an answer that stopped with an error. -/
def EndsInError (events : List AgentEvent) : Prop :=
  (events.filterMap fun
    | .turnEnd message _ => some message
    | _ => none).getLast?.bind AssistantMessage.stopReason = some .error

/-- The interface shows that the run has failed, and why. -/
def ShowsFailure (s : TuiState) : Prop := s.status = .error ∧ s.error.isSome = true

instance (events : List AgentEvent) : Decidable (EndsInError events) :=
  inferInstanceAs (Decidable (_ = _))

instance (s : TuiState) : Decidable (ShowsFailure s) := inferInstanceAs (Decidable (_ ∧ _))

@[simp] theorem finalizeStreaming_error (s : TuiState) :
    s.finalizeStreaming.error = s.error := by
  unfold finalizeStreaming
  split
  · split_ifs <;> rfl
  · rfl

@[simp] theorem updateToolCard_error (s : TuiState) (id : String) (f : ToolCard → ToolCard) :
    (s.updateToolCard id f).error = s.error := by
  unfold updateToolCard
  split <;> rfl

@[simp] theorem upsertToolCard_error (s : TuiState) (id name args : String)
    (status : ToolCardStatus) : (s.upsertToolCard id name args status).error = s.error := by
  unfold upsertToolCard
  split <;> rfl

/-- Only the error of a stream brings an error up. -/
theorem applyEvent_error {s : TuiState} {e : AgentEvent} (h : e.passesError = false)
    (hs : s.error = none) : (applyEvent s e).error = none := by
  cases e with
  | agentStart => rfl
  | messageStart message => cases message <;> exact hs
  | messageEnd message => cases message <;> simpa [applyEvent] using hs
  | messageUpdate message update =>
    cases update with
    | error message aborted => cases h
    | toolCallStart | toolCallDelta => simpa [applyEvent, applyUpdate] using hs
    | _ => exact hs
  | _ => simpa [applyEvent] using hs

theorem foldl_applyEvent_error {s : TuiState} {events : List AgentEvent}
    (h : ∀ e ∈ events, e.passesError = false) (hs : s.error = none) :
    (events.foldl applyEvent s).error = none := by
  induction events generalizing s with
  | nil => exact hs
  | cons e events ih =>
    obtain ⟨he, hevents⟩ := List.forall_mem_cons.mp h
    exact ih hevents (applyEvent_error he hs)

/-- Behind every run the interface is idle and shows no error. -/
theorem idle_behind_run (rt : AgentRuntime) (ctx : RunContext) (initial : List Message)
    (env : RunEnv) (s : TuiState) :
    let shown := (eventsOf (ctx.since (runAgentLoop rt ctx initial env).2)).foldl applyEvent s
    shown.status = .idle ∧ shown.error = none := by
  obtain ⟨before, turns, messages, hevents, hsilent⟩ := runAgentLoop_silent rt ctx initial env
  have hstart (s : TuiState) : (applyEvent s .agentStart).error = none := rfl
  have hturns := foldl_applyEvent_error hsilent (hstart (before.foldl applyEvent s))
  simp only [hevents, List.foldl_append, List.foldl_cons, List.foldl_nil]
  exact ⟨rfl, by simpa [applyEvent] using hturns⟩

/-- So the failure of a run is shown only when there is none. -/
theorem failure_shown_iff (rt : AgentRuntime) (ctx : RunContext) (initial : List Message)
    (env : RunEnv) (s : TuiState) :
    let events := eventsOf (ctx.since (runAgentLoop rt ctx initial env).2)
    (EndsInError events → ShowsFailure (events.foldl applyEvent s)) ↔ ¬ EndsInError events := by
  obtain ⟨hidle, -⟩ := idle_behind_run rt ctx initial env s
  constructor
  · intro hshows hfails
    rw [(hshows hfails).1] at hidle
    cases hidle
  · exact fun hfine hfails => absurd hfails hfine

/-- An answer of a run whose stream ends with an error, of one whose stream just ends, and of one
whose stream cannot be set up. -/
def failingTurns : List TurnEnv :=
  [TurnEnv.streaming [.textDelta "He", .error "HTTP 500" false],
    TurnEnv.streaming [.textDelta "He"],
    { TurnEnv.cut with attempts := [⟨.failed (.build "no key"), false, false⟩] }]

/-- The events of a run with one answer. -/
def eventsOfTurn (turn : TurnEnv) : List AgentEvent :=
  let ctx := RunContext.start []
  eventsOf (ctx.since (runAgentLoop AgentRuntime.plain ctx [helloMessage] ⟨[], [turn]⟩).2)

theorem failingTurns_not_shown :
    failingTurns.Forall fun turn => EndsInError (eventsOfTurn turn) ∧
      ¬ ShowsFailure ((eventsOfTurn turn).foldl applyEvent TuiState.new) := by
  decide +kernel

end Tui

end Guigu
