import Guigu.Core.Pairing
import Guigu.Core.Runtime.Bracketing
import Guigu.Core.Runtime.Preview

/-! What the events of a run tell of the messages that it adds: who follows the events learns part
by part what the transcript gets. -/
namespace Guigu

/-- The call whose result the message is. -/
def Message.resultOf? : Message → Option String
  | .toolResult r => some r.toolCallId
  | .user _ | .assistant _ => none

/-- The message is neither an answer with text nor a result. -/
def Message.unspoken : Message → Bool
  | .user _ => true
  | .assistant m => (m.joined .text).isEmpty
  | .toolResult _ => false

theorem resultOf_toolResults (results : List ToolResultMessage) :
    (results.map Message.toolResult).filterMap Message.resultOf? =
      results.map ToolResultMessage.toolCallId := by
  induction results with
  | nil => rfl
  | cons r results ih => exact congrArg (r.toolCallId :: ·) ih

/-- The event begins or ends a run or a turn. -/
def AgentEvent.framing : AgentEvent → Bool
  | .agentStart | .agentEnd _ | .turnStart | .turnEnd _ _ => true
  | .messageStart _ | .messageUpdate _ _ | .messageEnd _ | .toolExecutionStart _ _ _
  | .toolExecutionUpdate _ _ _ _ | .toolExecutionEnd _ _ _ _ => false

/-! ### One answer -/

/-- The final message of the stream, if there is one, has the text that was streamed. -/
def Faithful (env : TurnEnv) : Bool :=
  env.streamed.finalMessage.all fun m => decide (m.joined .text = env.streamed.text)

/-- The message of a stream has the text that was streamed. -/
theorem joined_finalize (acc : TurnAccumulator) (modelId : String)
    (h : acc.finalMessage.all (fun m => decide (m.joined .text = acc.text)) = true) :
    (acc.finalize modelId).joined .text = acc.text := by
  have hbuilt : ∀ m : AssistantMessage, m.content = (buildAssistant acc.text acc.thinking
      (acc.toolCalls ++ acc.currentTool.toList) none modelId).content →
      m.joined .text = acc.text := by
    intro m hm
    have hjoined := joined_buildAssistant acc.text acc.thinking
      (acc.toolCalls ++ acc.currentTool.toList) modelId (.inl rfl)
    rw [AssistantMessage.joined, hm]
    exact hjoined
  unfold TurnAccumulator.finalize
  cases hfinal : acc.finalMessage with
  | some m =>
    rw [hfinal] at h
    exact of_decide_eq_true h
  | none =>
    simp only
    split_ifs
    · exact hbuilt _ rfl
    · cases acc.errorMessage with
      | none => exact hbuilt _ rfl
      | some e => exact hbuilt _ rfl

/-- An event of the stream with the answer that it has grown to. -/
abbrev Growth := AssistantMessage × AssistantEvent

def Growth.update (g : Growth) : AgentEvent := .messageUpdate (.assistant g.1) g.2

/-- The text that has come in. -/
def grownText (growths : List Growth) : String := Block.text.joined (growths.map Prod.snd)

open RunContext in
/-- While a stream is consumed the growth of the answer is told, up to the end of the stream. -/
theorem consume_grows (modelId : String) (ctx : RunContext) (acc : TurnAccumulator)
    (items : List StreamItem) : ∃ effects, ∃ growths : List Growth,
      Adds ctx (consume modelId ctx acc items).2 [] effects ∧
      eventsOf effects = growths.map Growth.update ∧ (∀ g ∈ growths, g.2.isTerminal = false) ∧
      (consume modelId ctx acc items).1.text = acc.text ++ grownText growths := by
  induction items generalizing ctx acc with
  | nil => exact ⟨[], [], .refl ctx, rfl, List.forall_mem_nil _, String.append_empty.symm⟩
  | cons item items ih =>
    cases item with
    | cancelled =>
      refine ⟨[], [], ⟨?_, ?_⟩, rfl, List.forall_mem_nil _, String.append_empty.symm⟩
      · exact (List.append_nil _).symm
      · exact (List.append_nil _).symm
    | event arrived e =>
      have hdrain := (adds_drainCommands ctx arrived).trans
        (adds_requeue _ (ctx.drainCommands arrived).1)
      have hquiet := AgentView.eventsOf_drained arrived
      have htext : (acc.handleEvent e).2.text = acc.text ++ Block.text.joined [e] :=
        acc.handleEvent_textOf e (.inl rfl)
      simp only [List.append_nil] at hdrain
      simp only [consume]
      split_ifs with hcut hend
      · exact ⟨_, [], hdrain, hquiet, List.forall_mem_nil _, String.append_empty.symm⟩
      · refine ⟨_, [], hdrain.trans (adds_record _ [.streamed e]), ?_, List.forall_mem_nil _, ?_⟩
        · rw [eventsOf_append, hquiet]
          rfl
        · rw [acc.handleEvent_fst] at hend
          have hnone : Block.text.deltaOf e = none := by
            cases e with
            | done | error => rfl
            | _ => cases hend
          rw [htext, Gathers.joined_of_none (by simpa using hnone)]
          rfl
      · have hupdate : ∀ m, Adds ctx (((((ctx.drainCommands arrived).2.requeue
            (ctx.drainCommands arrived).1).record [.streamed e]).send (.messageUpdate m e))) []
            (arrived.map .drained ++ [.streamed e] ++ [.event (.messageUpdate m e)]) :=
          fun m => (hdrain.trans (adds_record _ [.streamed e])).trans (adds_send _ _)
        obtain ⟨effects, growths, hadds, hevents, hopen, hrest⟩ := ih
          (((((ctx.drainCommands arrived).2.requeue
            (ctx.drainCommands arrived).1).record [.streamed e]).send (.messageUpdate
              (.assistant ((acc.handleEvent e).2.build modelId)) e))) (acc.handleEvent e).2
        refine ⟨_, ((acc.handleEvent e).2.build modelId, e) :: growths, (hupdate _).trans hadds,
          ?_, ?_, ?_⟩
        · rw [eventsOf_append, eventsOf_append, eventsOf_append, hquiet, hevents]
          rfl
        · refine List.forall_mem_cons.mpr ⟨?_, hopen⟩
          rw [← acc.handleEvent_fst]
          exact eq_false_of_ne_true hend
        · rw [hrest, htext, String.append_assoc, grownText, grownText, List.map_cons,
            ← Gathers.joined_append]
          rfl

open RunContext in
/-- The events of an answer that is streamed, and of one whose stream could not be set up. -/
theorem streamTurn_grows (rt : AgentRuntime) (ctx : RunContext) (env : TurnEnv)
    (h : env.established rt.loopConfig ctx.tokens = true → Faithful env = true) : ∃ effects,
      Adds ctx (streamTurn rt ctx env).2 [] effects ∧
      ((streamTurn rt ctx env).1.assistantMessage.joined .text = "" ∧ effects = [] ∨
        ∃ growths : List Growth, (∀ g ∈ growths, g.2.isTerminal = false) ∧
          (streamTurn rt ctx env).1.assistantMessage.joined .text = grownText growths ∧
          eventsOf effects =
            .messageStart (.assistant (emptyAssistant rt.loopConfig.model.id)) ::
              growths.map Growth.update ++
                [.messageEnd (.assistant (streamTurn rt ctx env).1.assistantMessage)]) := by
  unfold TurnEnv.established at h
  unfold streamTurn
  cases hset : streamWithRetry rt.loopConfig 0 ctx.tokens env.attempts with
  | mk result tokens =>
    cases result with
    | error e => exact ⟨[], ⟨(List.append_nil _).symm, (List.append_nil _).symm⟩, .inl ⟨rfl, rfl⟩⟩
    | ok u =>
      rw [hset] at h
      obtain ⟨effects, growths, hadds, hevents, hopen, htext⟩ := consume_grows
        rt.loopConfig.model.id (({ ctx with tokens := tokens } : RunContext).send
          (.messageStart (.assistant (emptyAssistant rt.loopConfig.model.id)))) .empty env.stream
      obtain ⟨hacc, -⟩ := consume_consumed rt.loopConfig.model.id
        (({ ctx with tokens := tokens } : RunContext).send
          (.messageStart (.assistant (emptyAssistant rt.loopConfig.model.id))))
        env.stream (rfl : TurnAccumulator.empty.finalMessage = none)
      have hstart : Adds ctx (({ ctx with tokens := tokens } : RunContext).send
          (.messageStart (.assistant (emptyAssistant rt.loopConfig.model.id)))) []
          [.event (.messageStart (.assistant (emptyAssistant rt.loopConfig.model.id)))] :=
        ⟨(List.append_nil _).symm, rfl⟩
      refine ⟨_, (hstart.trans hadds).trans (adds_send _ _), .inr ⟨growths, hopen, ?_, ?_⟩⟩
      · simp only
        rw [hacc] at htext ⊢
        have hmessage := joined_finalize (TurnAccumulator.empty.run env.stream)
          rt.loopConfig.model.id (h rfl)
        rw [hmessage, htext]
        exact String.empty_append
      · rw [eventsOf_append, eventsOf_append, hevents]
        rfl

/-! ### Tellings -/

/-- A relation between effects and the messages that they tell of. -/
structure Telling (rt : AgentRuntime) (tells : List Effect → List Message → Prop) : Prop where
  silent : ∀ {es : List Effect}, eventsOf es = [] → tells es []
  append : ∀ {es fs : List Effect} {ms ns : List Message}, tells es ms → tells fs ns →
    tells (es ++ fs) (ms ++ ns)
  framing : ∀ {e : AgentEvent}, e.framing = true → tells [.event e] []
  /-- A message that is told in one piece. -/
  whole : ∀ {m : Message}, m.unspoken = true →
    tells [.event (.messageStart m), .event (.messageEnd m)] [m]
  untold : ∀ {m : AssistantMessage}, m.joined .text = "" → tells [] [.assistant m]
  streamed : ∀ {es : List Effect} {begun m : AssistantMessage} {growths : List Growth},
    eventsOf es = .messageStart (.assistant begun) :: growths.map Growth.update ++
      [.messageEnd (.assistant m)] →
    (∀ g ∈ growths, g.2.isTerminal = false) → m.joined .text = grownText growths →
    tells es [.assistant m]
  toolWork : ∀ (env : TurnEnv) (turn : TurnResult),
    tells (env.toolWork rt turn).1 ((env.toolWork rt turn).2.map .toolResult)

namespace Telling

variable {rt : AgentRuntime} {tells : List Effect → List Message → Prop}

theorem drained (h : Telling rt tells) (arrived : List AgentCommand) :
    tells (arrived.map .drained) [] := h.silent (AgentView.eventsOf_drained arrived)

theorem taken (h : Telling rt tells) (cmds : List AgentCommand) : tells (cmds.map .taken) [] :=
  h.silent (AgentView.eventsOf_taken cmds)

theorem said (h : Telling rt tells) {ms : List Message} (hms : ms.all Message.unspoken = true) :
    tells (said ms) ms := by
  induction ms with
  | nil => exact h.silent rfl
  | cons m ms ih =>
    rw [List.all_cons, Bool.and_eq_true] at hms
    exact h.append (h.whole hms.1) (ih hms.2)

/-- Messages that are taken in where a turn has ended. -/
theorem injected (h : Telling rt tells) (m : AssistantMessage) (arrived cmds : List AgentCommand)
    {ms : List Message} (hall : ms.all Message.unspoken = true) :
    tells (.event (.turnEnd m []) :: (arrived.map .drained ++ (cmds.map .taken ++ Guigu.said ms)))
      ms := by
  have hsaid := h.append (h.drained arrived) (h.append (h.taken cmds) (h.said hall))
  have hend := h.append (h.framing (e := .turnEnd m []) rfl) hsaid
  exact hend

/-- What follows an answer tells the messages that come in behind it. -/
theorem finish (h : Telling rt tells) {env : TurnEnv} {turn : TurnResult} {shutdown : Bool}
    {queue queue' : List AgentCommand} {injected : List Message} {behind : List Effect}
    {step : LoopStep} (hfinish : TurnFinish rt env turn shutdown queue injected behind queue' step)
    (hall : injected.all Message.unspoken = true) : tells behind injected := by
  cases hfinish with
  | aborted | stopped => exact h.framing rfl
  | cut | ended => exact h.append (h.framing rfl) (h.drained _)
  | steered | followed =>
    exact h.injected turn.assistantMessage env.arrived _ hall
  | toolCut | toolDone =>
    have hsaid := h.append (h.said hall) (h.drained env.arrived)
    rw [List.append_nil] at hsaid
    exact h.append (h.framing (e := .turnEnd turn.assistantMessage (env.toolWork rt turn).2) rfl)
      hsaid

theorem initialEffects (h : Telling rt tells) {initial : List Message}
    (arrivals : List (List AgentCommand)) (hall : initial.all Message.unspoken = true) :
    tells (initialEffects initial arrivals) (appendedInitial initial arrivals) := by
  induction initial generalizing arrivals with
  | nil => exact h.silent rfl
  | cons m ms ih =>
    rw [List.all_cons, Bool.and_eq_true] at hall
    have hfirst : tells [.initial m] [] := h.silent rfl
    have hsaid : tells (Guigu.said [m]) [m] := h.said (by simpa using hall.1)
    have hhead := h.append (h.append hfirst hsaid) (h.drained (arrivals.headD []))
    unfold Guigu.initialEffects appendedInitial
    split_ifs
    · simpa using hhead
    · simpa using h.append hhead (ih arrivals.tail hall.2)

/-- What is taken in by commands and hooks are neither results nor answers with text, and nothing is
reset; no turn commits a compaction, and the final message of a stream has the text that was
streamed. -/
def demand : Demand where
  takes _ cmd := cmd != .reset && cmd.messages.all Message.unspoken
  start _ _ := true
  turn rt s env := (env.commit? rt s.ctx.transcript).isNone &&
    (!env.established rt.loopConfig s.ctx.tokens || Faithful env) &&
    (env.aborts rt s || (env.injection rt.loopConfig ++ boundarySteers (env.waiting rt s)
      env.arrived ++ boundaryFollowUps (env.waiting rt s) env.arrived).all Message.unspoken)

/-- A turn tells what it adds. -/
theorem turnStep (h : Telling rt tells) {s : LoopState} {env : TurnEnv} (hs : s.finished = false)
    (hturn : demand.turn rt s env = true) : ∃ ms effects,
      RunContext.Adds s.ctx (turnStep rt s env).ctx ms effects ∧ tells effects ms := by
  simp only [demand, Bool.and_eq_true, Bool.or_eq_true, Bool.not_eq_true'] at hturn
  obtain ⟨⟨hcommit, hfaithful⟩, hcond⟩ := hturn
  rw [Option.isNone_iff_eq_none] at hcommit
  unfold Guigu.turnStep
  rw [hs]
  simp only [Bool.false_eq_true, ↓reduceIte]
  have hstart := RunContext.adds_send s.ctx .turnStart
  have hbegun : tells [.event .turnStart] [] := h.framing rfl
  rcases RunContext.prepareRequestMessages_cases rt (s.ctx.send .turnStart) env with
    ⟨-, hnone, hadds, -⟩ | ⟨-, messages, base, before, hsome, hprepared, hbase, hbefore, hqueue,
      htokens⟩
  · generalize (s.ctx.send .turnStart).prepareRequestMessages rt env = r at hnone hadds
    obtain ⟨messages, ctx⟩ := r
    cases hnone
    exact ⟨_, _, (hstart.trans hadds).trans (RunContext.adds_send ctx _),
      h.append (h.append hbegun (h.silent rfl)) (h.framing rfl)⟩
  · -- nothing is committed, so the request is built from the transcript as it is
    have hkept : base = s.ctx.transcript ∧ before = [] := by
      cases hprepared with
      | kept => exact ⟨rfl, rfl⟩
      | committed hsome => exact absurd (hcommit.symm.trans hsome) (Option.some_ne_none _).symm
    obtain ⟨rfl, rfl⟩ := hkept
    generalize (s.ctx.send .turnStart).prepareRequestMessages rt env = r
      at hsome hbase hbefore hqueue htokens
    obtain ⟨some_messages, ctx⟩ := r
    cases hsome
    simp only at hbase hbefore hqueue htokens ⊢
    have hready : RunContext.Adds s.ctx ctx [] [.event .turnStart] := by
      refine ⟨hbase.trans (List.append_nil _).symm, ?_⟩
      rw [hbefore, List.append_nil]
      exact hstart.trace
    have htokens' : (ctx.record [.request ctx.transcript (buildRequest rt messages)]).tokens =
        s.ctx.tokens := htokens
    obtain ⟨stream, hstream, hgrows⟩ := streamTurn_grows rt
      (ctx.record [.request ctx.transcript (buildRequest rt messages)]) env (by
        rw [htokens']
        intro hset
        exact hfaithful.resolve_left (by simp [hset]))
    have hanswer :
        tells stream [.assistant (answerTurn rt ctx messages env).1.assistantMessage] := by
      rcases hgrows with ⟨hempty, rfl⟩ | ⟨growths, hopen, htext, hevents⟩
      · exact h.untold hempty
      · exact h.streamed hevents hopen htext
    obtain ⟨outcomeEffects, houtcome, -, hleft⟩ := RunContext.streamTurn_outcome rt
      (ctx.record [.request ctx.transcript (buildRequest rt messages)]) env
    rw [htokens'] at houtcome hleft
    obtain ⟨injected, behind, step, hfinish, -, hadds⟩ := finishTurn_finish rt s
      (answerTurn rt ctx messages env).2 (answerTurn rt ctx messages env).1 env
    have hwaiting : (answerTurn rt ctx messages env).2.queue = env.waiting rt s := by
      unfold TurnEnv.waiting
      rw [← show ctx.queue = s.ctx.queue from hqueue]
      exact hleft
    rw [hwaiting] at hfinish
    have hinjected : injected.all Message.unspoken = true := by
      apply hfinish.injected_all
      intro hno
      refine hcond.resolve_left ?_
      intro habort
      exact absurd (hno.symm.trans (houtcome.aborted_of_aborts habort)) (by simp)
    have hbehind : tells ((env.toolWork rt (answerTurn rt ctx messages env).1).1 ++ behind)
        ((env.toolWork rt (answerTurn rt ctx messages env).1).2.map .toolResult ++ injected) :=
      h.append (h.toolWork env _) (h.finish hfinish hinjected)
    have hrequest : tells [.request ctx.transcript (buildRequest rt messages)] [] := h.silent rfl
    have hanswered := (((hready.trans (ctx.adds_record _)).trans hstream).trans
      (RunContext.adds_pushAssistantMessage _ _)).trans hadds
    refine ⟨_, _, hanswered, ?_⟩
    have htold := h.append (h.append (h.append hbegun hrequest) hanswer) hbehind
    simp only [List.nil_append, List.append_nil] at htold ⊢
    exact htold

/-- The events so far tell of what stands behind the messages that were resumed. -/
def Told (tells : List Effect → List Message → Prop) (resumed : List Message) (ctx : RunContext) :
    Prop := ∃ ms, ctx.transcript = resumed ++ ms ∧ tells ctx.trace ms

theorem Told.adds (h : Telling rt tells) {resumed : List Message} {ctx ctx' : RunContext}
    {ms : List Message} {effects : List Effect} (htold : Told tells resumed ctx)
    (hadds : RunContext.Adds ctx ctx' ms effects) (htells : tells effects ms) :
    Told tells resumed ctx' := by
  obtain ⟨before, htranscript, htrace⟩ := htold
  refine ⟨before ++ ms, by rw [hadds.transcript, htranscript, List.append_assoc], ?_⟩
  rw [hadds.trace]
  exact h.append htrace htells

/-- A command that is taken tells nothing. -/
theorem Told.next (h : Telling rt tells) {resumed : List Message} {ctx ctx' : RunContext}
    {cmd : AgentCommand} (htold : Told tells resumed ctx) (hnext : Next ctx cmd ctx') :
    Told tells resumed ctx' := by
  cases hnext with
  | dequeued => exact htold
  | received => exact htold.adds h (ctx.adds_record [.drained cmd]) (h.silent rfl)

theorem keeps (h : Telling rt tells) (resumed : List Message) :
    demand.Keeps rt fun ctx _ => Told tells resumed ctx where
  start := by
    intro ctx ctx' cmd initial n arrivals htold hnext hinitial htakes hstart
    simp only [demand, Bool.and_eq_true] at htakes
    rw [messages_of_initial? hinitial] at htakes
    have hprocessing : Told tells resumed (ctx'.record [.processing cmd]) :=
      (htold.next h hnext).adds h (ctx'.adds_record _) (h.silent rfl)
    have htells := h.append (h.initialEffects arrivals htakes.2)
      (h.framing (e := .agentStart) rfl)
    rw [List.append_nil] at htells
    exact hprocessing.adds h (RunContext.adds_startLoop _ initial arrivals) htells
  turn := by
    intro s env n htold hturn
    cases hs : s.finished with
    | true => rwa [turnStep_finished env hs]
    | false =>
      obtain ⟨ms, effects, hadds, htells⟩ := h.turnStep hs hturn
      exact htold.adds h hadds htells
  close := by
    intro ctx n htold
    exact htold.adds h (ctx.adds_send _) (h.framing rfl)
  reset := by
    intro ctx ctx' n htold hnext htakes
    cases htakes
  skip := by
    intro ctx ctx' cmd n htold hnext hcuts htakes
    exact (htold.next h hnext).adds h (ctx'.adds_record _) (h.silent rfl)

/-- What follows from the telling holds behind every round. -/
theorem throughout (h : Telling rt tells) {resumed : List Message} {prop : AgentSystem → Prop}
    (hprop : ∀ s : AgentSystem, Told tells resumed s.agent.ctx → prop s) {as : List SystemAction}
    (has : Runs.Along (AgentSystem.step rt) (demand.MetBySystem rt) (.start resumed) as) :
    Runs.Throughout (AgentSystem.step rt) prop (.start resumed) as :=
  (h.keeps resumed).throughout ⟨[], (List.append_nil _).symm, h.silent rfl⟩
    (fun s hs _ => hprop s hs) has

end Telling

end Guigu
