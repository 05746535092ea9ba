import Guigu.Core.Runtime.LoopTurns
import Mathlib.Data.Multiset.AddSub

/-! The events of a run as brackets: what a subscriber that follows them has open. -/
namespace Guigu

inductive RunPhase where
  | outside | running | turn | ended
  deriving DecidableEq, Repr

/-- What a subscriber has come to: where the run is, the message that has started, and the calls
that have started, each as often as it has. -/
structure AgentView where
  phase : RunPhase
  message : Option Message
  calls : Multiset String
  deriving DecidableEq

/-- Nothing is open inside the phase. -/
abbrev AgentView.plain (phase : RunPhase) : AgentView := ⟨phase, none, 0⟩

/-- The end of a message is that of the one that has started; an answer has grown since. -/
def Message.closes : Message → Message → Bool
  | .assistant _, .assistant _ => true
  | opened, m => decide (opened = m)

/-- The view behind an event, unless the event closes what is not open or opens in the wrong
place. -/
def AgentView.step (v : AgentView) : AgentEvent → Option AgentView
  | .agentStart => if v = .plain .outside then some (.plain .running) else none
  | .agentEnd _ => if v = .plain .running then some (.plain .ended) else none
  | .turnStart => if v = .plain .running then some (.plain .turn) else none
  | .turnEnd _ _ => if v = .plain .turn then some (.plain .running) else none
  | .messageStart m => if v.message = none then some { v with message := some m } else none
  | .messageUpdate _ _ => if v.message = none then none else some v
  | .messageEnd m =>
    if v.message.any (·.closes m) then some { v with message := none } else none
  | .toolExecutionStart id _ _ =>
    if v.phase = .turn then some { v with calls := id ::ₘ v.calls } else none
  | .toolExecutionUpdate id _ _ _ => if id ∈ v.calls then some v else none
  | .toolExecutionEnd id _ _ _ =>
    if id ∈ v.calls then some { v with calls := v.calls.erase id } else none

/-- The view behind events. -/
def AgentView.follow (v : Option AgentView) (events : List AgentEvent) : Option AgentView :=
  events.foldl (fun v e => v.bind (·.step e)) v

/-- The events of a run, from the outside to the end with nothing left open. -/
def WellBracketed (events : List AgentEvent) : Prop :=
  AgentView.follow (some (.plain .outside)) events = some (.plain .ended)

instance (events : List AgentEvent) : Decidable (WellBracketed events) :=
  inferInstanceAs (Decidable (_ = _))

def event? : Effect → Option AgentEvent
  | .event e => some e
  | _ => none

def eventsOf (effects : List Effect) : List AgentEvent := effects.filterMap event?

@[simp] theorem eventsOf_append (es fs : List Effect) :
    eventsOf (es ++ fs) = eventsOf es ++ eventsOf fs := List.filterMap_append

namespace AgentView

@[simp] theorem follow_nil (v : Option AgentView) : follow v [] = v := rfl

@[simp] theorem follow_cons (v : Option AgentView) (e : AgentEvent) (es : List AgentEvent) :
    follow v (e :: es) = follow (v.bind (·.step e)) es := rfl

theorem follow_append (v : Option AgentView) (es fs : List AgentEvent) :
    follow v (es ++ fs) = follow (follow v es) fs := List.foldl_append

/-- What has gone wrong once stays wrong. -/
theorem follow_none (es : List AgentEvent) : follow none es = none := by
  induction es with
  | nil => rfl
  | cons e es ih => exact ih

/-- A user message is told in one piece. -/
theorem follow_said {v : AgentView} (h : v.message = none) (ms : List Message) :
    follow (some v) (eventsOf (said ms)) = some v := by
  induction ms with
  | nil => rfl
  | cons m ms ih =>
    have hcloses : m.closes m = true := by
      cases m <;> simp [Message.closes]
    have hv : { v with message := none } = v := by
      rw [← h]
    show follow (some v) (.messageStart m :: .messageEnd m :: eventsOf (said ms)) = some v
    simp only [follow_cons, Option.bind_some, step, h, if_true, Option.any_some, hcloses, hv, ih]

theorem eventsOf_drained (arrived : List AgentCommand) :
    eventsOf (arrived.map .drained) = [] := by
  induction arrived with
  | nil => rfl
  | cons cmd arrived ih => exact ih

theorem eventsOf_taken (cmds : List AgentCommand) : eventsOf (cmds.map .taken) = [] := by
  induction cmds with
  | nil => rfl
  | cons cmd cmds ih => exact ih

theorem follow_initial {v : AgentView} (h : v.message = none) (initial : List Message)
    (arrivals : List (List AgentCommand)) :
    follow (some v) (eventsOf (initialEffects initial arrivals)) = some v := by
  induction initial generalizing arrivals with
  | nil => rfl
  | cons m ms ih =>
    unfold initialEffects
    show follow (some v) (eventsOf (said [m] ++ _)) = some v
    rw [eventsOf_append, eventsOf_append, follow_append, follow_said h, eventsOf_drained,
      List.nil_append]
    split_ifs
    · rfl
    · exact ih arrivals.tail

end AgentView

/-! ### Calls -/

/-- The steps that a call has left; the index is the identifier if the call has started. -/
inductive CallScript : Option String → List Effect → Prop
  | nil : CallScript none []
  | start {id name : String} {args : Json} {rest : List Effect} (h : CallScript (some id) rest) :
    CallScript none (.event (.toolExecutionStart id name args) :: rest)
  | executed {id : String} {tc : ToolCall} {args : Json} {rest : List Effect}
    (h : CallScript (some id) rest) : CallScript (some id) (.executed tc args :: rest)
  | update {id name : String} {args : Json} {r : ToolResult} {rest : List Effect}
    (h : CallScript (some id) rest) :
    CallScript (some id) (.event (.toolExecutionUpdate id name args r) :: rest)
  | finish {id name : String} {r : ToolResult} {isError : Bool} {rest : List Effect}
    (h : CallScript none rest) :
    CallScript (some id) (.event (.toolExecutionEnd id name r isError) :: rest)

/-- The identifier of a call that has started, read off the steps it has left. -/
def startedId : List Effect → Option String
  | .event (.toolExecutionUpdate id _ _ _) :: _ | .event (.toolExecutionEnd id _ _ _) :: _ =>
    some id
  | .executed _ _ :: rest => startedId rest
  | _ => none

namespace CallScript

theorem startedId_eq {o : Option String} {steps : List Effect} (h : CallScript o steps) :
    startedId steps = o := by
  induction h with
  | executed _ ih => exact ih
  | _ => rfl

theorem executeSingle (p : PreparedCall) (env : CallEnv) :
    CallScript none (executeSingle p env).1 := by
  have hupdates : ∀ (updates : List ToolResult) (result : ToolResult),
      CallScript (some p.toolCall.id) (updates.map (fun u => .event
          (.toolExecutionUpdate p.toolCall.id p.toolCall.name p.args u)) ++
        [.event (.toolExecutionEnd p.toolCall.id p.toolCall.name result result.isError)]) := by
    intro updates result
    induction updates with
    | nil => exact .finish .nil
    | cons u updates ih => exact .update ih
  unfold Guigu.executeSingle
  obtain ⟨tc, tool, args, rejected⟩ := p
  cases rejected with
  | some reject => exact .start (.finish .nil)
  | none =>
    cases tool with
    | none => exact .start (.finish .nil)
    | some t => exact .start (.executed (hupdates _ _))

/-- The calls that are open besides `calls`. -/
def held (o : Option String) (calls : Multiset String) : Multiset String :=
  o.elim calls (· ::ₘ calls)

/-- A step of a call opens or closes this call only. -/
theorem follow_step {o : Option String} {e : Effect} {rest : List Effect}
    (h : CallScript o (e :: rest)) : ∃ o', CallScript o' rest ∧ ∀ calls : Multiset String,
      AgentView.follow (some ⟨.turn, none, held o calls⟩) (eventsOf [e]) =
        some ⟨.turn, none, held o' calls⟩ := by
  cases h with
  | start h => exact ⟨_, h, fun calls => rfl⟩
  | executed h => exact ⟨_, h, fun calls => rfl⟩
  | update h =>
    refine ⟨_, h, fun calls => ?_⟩
    simp [eventsOf, event?, AgentView.step, held]
  | finish h =>
    refine ⟨_, h, fun calls => ?_⟩
    simp [eventsOf, event?, AgentView.step, held]

theorem follow {o : Option String} {steps : List Effect} (h : CallScript o steps)
    (calls : Multiset String) :
    AgentView.follow (some ⟨.turn, none, held o calls⟩) (eventsOf steps) =
      some ⟨.turn, none, calls⟩ := by
  induction steps generalizing o with
  | nil =>
    cases h
    rfl
  | cons e rest ih =>
    obtain ⟨o', hrest, hstep⟩ := h.follow_step
    have hcons : eventsOf (e :: rest) = eventsOf [e] ++ eventsOf rest := eventsOf_append [e] rest
    rw [hcons, AgentView.follow_append, hstep, ih hrest]

/-- The calls that have started among those that run together. -/
def opens (ts : List (Interleave.Task Effect ToolResult)) : Multiset String :=
  ↑(ts.filterMap fun t => startedId t.steps)

theorem opens_cons (t : Interleave.Task Effect ToolResult)
    (ts : List (Interleave.Task Effect ToolResult)) :
    opens (t :: ts) = held (startedId t.steps) (opens ts) := by
  unfold opens held
  cases h : startedId t.steps <;> simp [h]

theorem opens_perm {ts ts' : List (Interleave.Task Effect ToolResult)} (h : ts.Perm ts') :
    opens ts = opens ts' := Multiset.coe_eq_coe.mpr (h.filterMap _)

/-- Calls that run together each open and close what is theirs, under any schedule. -/
theorem follow_run (picks : List ℕ) {ts : List (Interleave.Task Effect ToolResult)}
    (h : ∀ t ∈ ts, ∃ o, CallScript o t.steps) :
    AgentView.follow (some ⟨.turn, none, opens ts⟩) (eventsOf (Interleave.run picks ts).1) =
      some (.plain .turn) := by
  induction picks generalizing ts with
  | nil =>
    induction ts with
    | nil => rfl
    | cons t ts ih =>
      obtain ⟨⟨o, ht⟩, hts⟩ := List.forall_mem_cons.mp h
      show AgentView.follow _ (eventsOf (t.steps ++ ts.flatMap Interleave.Task.steps)) = _
      rw [eventsOf_append, AgentView.follow_append, opens_cons, ht.startedId_eq, ht.follow]
      exact ih hts
  | cons pick picks ih =>
    unfold Interleave.run
    cases hpick : ts[pick]? with
    | none => exact ih h
    | some t =>
      obtain ⟨o, ht⟩ := h t (List.mem_of_getElem? hpick)
      have hopens : opens ts = held o (opens (ts.eraseIdx pick)) := by
        rw [← ht.startedId_eq, ← opens_cons]
        exact (opens_perm (Interleave.perm_cons_eraseIdx hpick)).symm
      have hothers : ∀ t' ∈ ts.eraseIdx pick, ∃ o, CallScript o t'.steps :=
        fun t' ht' => h t' (List.mem_of_mem_eraseIdx ht')
      cases hsteps : t.steps with
      | nil =>
        rw [hsteps] at ht
        cases ht
        simp only [hsteps]
        rw [hopens]
        exact ih hothers
      | cons e es =>
        rw [hsteps] at ht
        simp only [hsteps]
        obtain ⟨o', hrest, hstep⟩ := ht.follow_step
        have hlt : pick < ts.length := (List.getElem?_eq_some_iff.mp hpick).1
        have hset := List.set_perm_cons_eraseIdx hlt { t with steps := es }
        have hopens' : opens (ts.set pick { t with steps := es }) =
            held o' (opens (ts.eraseIdx pick)) := by
          rw [opens_perm hset, opens_cons, hrest.startedId_eq]
        show AgentView.follow _ (eventsOf ([e] ++ (Interleave.run picks _).1)) = _
        rw [eventsOf_append, AgentView.follow_append, hopens, hstep, ← hopens']
        apply ih
        intro t' ht'
        rcases List.mem_cons.mp (hset.mem_iff.mp ht') with rfl | ht'
        · exact ⟨o', hrest⟩
        · exact hothers t' ht'

theorem follow_executeSequential (calls : ℕ → CallEnv) (i : ℕ) (ps : List PreparedCall) :
    AgentView.follow (some (.plain .turn)) (eventsOf (executeSequential calls i ps).1) =
      some (.plain .turn) := by
  induction ps generalizing i with
  | nil => rfl
  | cons p ps ih =>
    unfold executeSequential
    rw [eventsOf_append, AgentView.follow_append]
    exact (congrArg (AgentView.follow · _) ((executeSingle p (calls i)).follow 0)).trans
      (ih (i + 1))

theorem follow_executeGroups (schedule : ℕ → List ℕ) (calls : ℕ → CallEnv)
    {group : List (Interleave.Task Effect ToolResult)} (h : ∀ t ∈ group, CallScript none t.steps)
    (i : ℕ) (ps : List PreparedCall) :
    AgentView.follow (some (.plain .turn)) (eventsOf (executeGroups schedule calls group i ps).1) =
      some (.plain .turn) := by
  have hgroup : ∀ {group : List (Interleave.Task Effect ToolResult)},
      (∀ t ∈ group, CallScript none t.steps) → ∀ i,
      AgentView.follow (some (.plain .turn)) (eventsOf (Interleave.run (schedule i) group).1) =
        some (.plain .turn) := by
    intro group h i
    have hnone : opens group = 0 := by
      have hfilter : (group.filterMap fun t => startedId t.steps) = [] := by
        rw [List.filterMap_eq_nil_iff]
        exact fun t ht => (h t ht).startedId_eq
      rw [opens, hfilter]
      rfl
    have hrun := follow_run (schedule i) fun t ht => ⟨none, h t ht⟩
    rwa [hnone] at hrun
  induction ps generalizing group i with
  | nil => exact hgroup h i
  | cons p ps ih =>
    unfold executeGroups
    split_ifs
    · apply ih
      intro t ht
      rcases List.mem_append.mp ht with ht | ht
      · exact h t ht
      · rw [List.mem_singleton.mp ht]
        exact executeSingle p (calls i)
    · show AgentView.follow _ (eventsOf (_ ++ (_ ++ _))) = _
      rw [eventsOf_append, eventsOf_append, AgentView.follow_append, AgentView.follow_append,
        hgroup h i]
      exact (congrArg (AgentView.follow · _) ((executeSingle p (calls i)).follow 0)).trans
        (ih (List.forall_mem_nil _) (i + 1))

end CallScript

theorem follow_synthesizeTruncatedResults (toolCalls : List ToolCall) :
    AgentView.follow (some (.plain .turn)) (eventsOf (synthesizeTruncatedResults toolCalls).1) =
      some (.plain .turn) := by
  unfold synthesizeTruncatedResults
  induction toolCalls with
  | nil => rfl
  | cons tc toolCalls ih =>
    rw [List.flatMap_cons, eventsOf_append, AgentView.follow_append]
    have htc : CallScript none
        [.event (.toolExecutionStart tc.id tc.name
            ((Serde.fromStr tc.arguments.toList).getD .null)),
          .event (.toolExecutionEnd tc.id tc.name truncatedResult true)] := .start (.finish .nil)
    exact (congrArg (AgentView.follow · _) (htc.follow 0)).trans ih

/-- All calls of an answer start and end, whatever becomes of them. -/
theorem follow_executeToolCalls (rt : AgentRuntime) (env : TurnEnv) (toolCalls : List ToolCall)
    (stopReason : Option StopReason) :
    AgentView.follow (some (.plain .turn))
      (eventsOf (executeToolCalls rt env toolCalls stopReason).1) = some (.plain .turn) := by
  unfold executeToolCalls
  split_ifs
  · exact follow_synthesizeTruncatedResults toolCalls
  · simp only
    cases rt.loopConfig.toolExecution with
    | sequential => exact CallScript.follow_executeSequential _ _ _
    | readOnlyParallel => exact CallScript.follow_executeGroups _ _ (List.forall_mem_nil _) _ _

theorem follow_toolWork (rt : AgentRuntime) (env : TurnEnv) (turn : TurnResult) :
    AgentView.follow (some (.plain .turn)) (eventsOf (env.toolWork rt turn).1) =
      some (.plain .turn) := by
  unfold TurnEnv.toolWork
  split_ifs
  · rfl
  · exact follow_executeToolCalls rt env turn.toolCalls turn.assistantMessage.stopReason

theorem TurnFinish.follow {rt : AgentRuntime} {env : TurnEnv} {turn : TurnResult} {shutdown : Bool}
    {queue queue' : List AgentCommand} {injected : List Message} {behind : List Effect}
    {step : LoopStep} (h : TurnFinish rt env turn shutdown queue injected behind queue' step) :
    AgentView.follow (some (.plain .turn)) (eventsOf behind) = some (.plain .running) := by
  have hturnEnd : ∀ (m : AssistantMessage) (results : List ToolResultMessage) (es : List Effect),
      AgentView.follow (some (.plain .running)) (eventsOf es) = some (.plain .running) →
      AgentView.follow (some (.plain .turn)) (eventsOf (.event (.turnEnd m results) :: es)) =
        some (.plain .running) := fun _ _ _ h => h
  have hsaid := fun ms => AgentView.follow_said (rfl : (AgentView.plain .running).message = none) ms
  cases h with
  | aborted => exact hturnEnd _ _ _ rfl
  | cut | ended =>
    apply hturnEnd
    rw [AgentView.eventsOf_drained, AgentView.follow_nil]
  | steered | followed =>
    apply hturnEnd
    rw [eventsOf_append, eventsOf_append, AgentView.eventsOf_drained, AgentView.eventsOf_taken,
      List.nil_append, List.nil_append, hsaid]
  | stopped => exact hturnEnd _ _ _ rfl
  | toolCut | toolDone =>
    apply hturnEnd
    rw [eventsOf_append, AgentView.eventsOf_drained, List.append_nil, hsaid]

/-! ### Turns -/

theorem TurnEnv.commit?_of_cancels {env : TurnEnv} {rt : AgentRuntime} {transcript : List Message}
    (h : env.cancelsCompaction rt transcript = true) : env.commit? rt transcript = none := by
  unfold cancelsCompaction at h
  unfold commit?
  cases hplan : env.plan rt transcript with
  | error e => rfl
  | ok prepared =>
    rw [hplan] at h
    cases h

namespace RunContext

/-- Between two moments of a run a subscriber comes from one view to another. -/
def Shows (ctx ctx' : RunContext) (v v' : Option AgentView) : Prop :=
  ∃ effects, ctx'.trace = ctx.trace ++ effects ∧ AgentView.follow v (eventsOf effects) = v'

theorem Shows.refl (ctx : RunContext) (v : Option AgentView) : Shows ctx ctx v v :=
  ⟨[], (List.append_nil _).symm, rfl⟩

theorem Shows.trans {a b c : RunContext} {u v w : Option AgentView} (h : Shows a b u v)
    (h' : Shows b c v w) : Shows a c u w := by
  obtain ⟨es, htrace, rfl⟩ := h
  obtain ⟨fs, htrace', rfl⟩ := h'
  refine ⟨es ++ fs, ?_, ?_⟩
  · rw [htrace', htrace, List.append_assoc]
  · rw [eventsOf_append, AgentView.follow_append]

/-- What has gone wrong stays wrong, whatever comes next. -/
theorem Shows.trans_none {a b c : RunContext} {u v w : Option AgentView}
    (h : Shows a b u none) (h' : Shows b c v w) : Shows a c u none := by
  obtain ⟨es, htrace, hnone⟩ := h
  obtain ⟨fs, htrace', -⟩ := h'
  refine ⟨es ++ fs, ?_, ?_⟩
  · rw [htrace', htrace, List.append_assoc]
  · rw [eventsOf_append, AgentView.follow_append, hnone]
    exact AgentView.follow_none _

theorem Adds.shows {ctx ctx' : RunContext} {ms : List Message} {effects : List Effect}
    {v v' : Option AgentView} (h : Adds ctx ctx' ms effects)
    (hfollow : AgentView.follow v (eventsOf effects) = v') : Shows ctx ctx' v v' :=
  ⟨effects, h.trace, hfollow⟩

theorem shows_send (ctx : RunContext) (e : AgentEvent) (v : Option AgentView) :
    Shows ctx (ctx.send e) v (v.bind (·.step e)) :=
  (adds_send ctx e).shows rfl

/-- The events of a stream grow the message that has started. -/
theorem consume_shows (modelId : String) (ctx : RunContext) (acc : TurnAccumulator)
    (items : List StreamItem) {v : AgentView} (h : v.message ≠ none) :
    Shows ctx (consume modelId ctx acc items).2 (some v) (some v) := by
  induction items generalizing ctx acc with
  | nil => exact .refl ctx _
  | cons item items ih =>
    cases item with
    | cancelled => exact ⟨[], (List.append_nil _).symm, rfl⟩
    | event arrived e =>
      have hdrain : Shows ctx ((ctx.drainCommands arrived).2.requeue (ctx.drainCommands arrived).1)
          (some v) (some v) := by
        refine ((adds_drainCommands ctx arrived).trans (adds_requeue _ _)).shows ?_
        rw [List.append_nil, AgentView.eventsOf_drained]
        rfl
      simp only [consume]
      split_ifs
      · exact hdrain
      · exact hdrain.trans ((adds_record _ [.streamed e]).shows rfl)
      · have hupdate : ∀ ctx m, Shows ctx (send ctx (.messageUpdate m e)) (some v) (some v) := by
          intro ctx m
          refine (adds_send ctx _).shows ?_
          show AgentView.follow (some v) [.messageUpdate m e] = some v
          simp [AgentView.step, h]
        exact (hdrain.trans ((adds_record _ [.streamed e]).shows rfl)).trans
          ((hupdate _ _).trans (ih _ _))

/-- A stream that is set up shows one message, any other stream shows nothing. -/
theorem streamTurn_shows (rt : AgentRuntime) (ctx : RunContext) (env : TurnEnv) :
    Shows ctx (streamTurn rt ctx env).2 (some (.plain .turn)) (some (.plain .turn)) := by
  unfold streamTurn
  cases hset : streamWithRetry rt.loopConfig 0 ctx.tokens env.attempts with
  | mk result tokens =>
    cases result with
    | error e => exact ⟨[], (List.append_nil _).symm, rfl⟩
    | ok u =>
      simp only
      have hstart : Shows ctx (({ ctx with tokens := tokens } : RunContext).send
          (.messageStart (.assistant (emptyAssistant rt.loopConfig.model.id))))
          (some (.plain .turn))
          (some ⟨.turn, some (.assistant (emptyAssistant rt.loopConfig.model.id)), 0⟩) :=
        ⟨_, rfl, rfl⟩
      exact (hstart.trans (consume_shows _ _ _ _ nofun)).trans (shows_send _ _ _)

theorem answerTurn_shows (rt : AgentRuntime) (ctx : RunContext) (messages : List Message)
    (env : TurnEnv) :
    Shows ctx (answerTurn rt ctx messages env).2 (some (.plain .turn)) (some (.plain .turn)) :=
  (((adds_record ctx [.request ctx.transcript (buildRequest rt messages)]).shows rfl).trans
    (streamTurn_shows rt _ env)).trans ((adds_pushAssistantMessage _ _).shows rfl)

theorem Prepared.shows {rt : AgentRuntime} {env : TurnEnv} {transcript base : List Message}
    {before : List Effect} (h : Prepared rt env transcript base before) :
    AgentView.follow (some (.plain .turn)) (eventsOf before) =
      if (env.commit? rt transcript).isSome then none else some (.plain .turn) := by
  cases h with
  | kept hcommit =>
    rw [hcommit]
    rfl
  | committed hcommit =>
    rw [hcommit]
    rfl

/-- A turn that commits a compaction announces the end of a message that has not started; any other
turn closes what it opens. -/
theorem turnStep_shows {rt : AgentRuntime} {s : LoopState} (env : TurnEnv)
    (hs : s.finished = false) :
    Shows s.ctx (turnStep rt s env).ctx (some (.plain .running))
      (if (env.commit? rt s.ctx.transcript).isSome then none else some (.plain .running)) := by
  unfold turnStep
  rw [hs]
  simp only [Bool.false_eq_true, ↓reduceIte]
  have hstart : Shows s.ctx (s.ctx.send .turnStart) (some (.plain .running))
      (some (.plain .turn)) := shows_send _ _ _
  rcases prepareRequestMessages_cases rt (s.ctx.send .turnStart) env with
    ⟨hcancel, hnone, hadds, -⟩ | ⟨-, messages, base, before, hsome, hprepared, -, hbefore, -, -⟩
  · have hcommit : env.commit? rt s.ctx.transcript = none := TurnEnv.commit?_of_cancels hcancel
    rw [hcommit]
    generalize (s.ctx.send .turnStart).prepareRequestMessages rt env = r at hnone hadds
    obtain ⟨messages, ctx⟩ := r
    cases hnone
    exact (hstart.trans (hadds.shows rfl)).trans (shows_send _ _ _)
  · generalize (s.ctx.send .turnStart).prepareRequestMessages rt env = r at hsome hbefore
    obtain ⟨some_messages, ctx⟩ := r
    cases hsome
    have hshown : Shows s.ctx ctx (some (.plain .running))
        (if (env.commit? rt s.ctx.transcript).isSome then none else some (.plain .turn)) :=
      hstart.trans ⟨before, hbefore, Prepared.shows hprepared⟩
    obtain ⟨injected, behind, step, hfinish, -, hadds⟩ := finishTurn_finish rt s
      (answerTurn rt ctx messages env).2 (answerTurn rt ctx messages env).1 env
    have hwork : Shows (answerTurn rt ctx messages env).2
        (s.finishTurn rt (answerTurn rt ctx messages env).2 (answerTurn rt ctx messages env).1
          env).ctx (some (.plain .turn)) (some (.plain .running)) := by
      refine hadds.shows ?_
      rw [eventsOf_append, AgentView.follow_append, follow_toolWork, hfinish.follow]
    cases hcommit : env.commit? rt s.ctx.transcript with
    | none =>
      rw [hcommit] at hshown
      exact (hshown.trans (answerTurn_shows rt ctx messages env)).trans hwork
    | some commit =>
      rw [hcommit] at hshown
      exact hshown.trans_none ((answerTurn_shows rt ctx messages env).trans hwork)

end RunContext

/-- The turn commits no compaction. -/
def keepsTranscript (rt : AgentRuntime) (s : LoopState) (env : TurnEnv) : Prop :=
  (s.finished || (env.commit? rt s.ctx.transcript).isNone) = true

instance (rt : AgentRuntime) (s : LoopState) (env : TurnEnv) :
    Decidable (keepsTranscript rt s env) := inferInstanceAs (Decidable (_ = _))

/-- The turns of a run, up to the first one that commits a compaction. -/
theorem turns_shows (rt : AgentRuntime) (s : LoopState) (envs : List TurnEnv) :
    ∃ v, RunContext.Shows s.ctx (Runs.run (turnStep rt) s envs).ctx (some (.plain .running)) v ∧
      (v = some (.plain .running) ∧ Runs.Along (turnStep rt) (keepsTranscript rt) s envs ∨
        v = none ∧ ¬ Runs.Along (turnStep rt) (keepsTranscript rt) s envs) := by
  induction envs generalizing s with
  | nil => exact ⟨_, .refl _ _, .inl ⟨rfl, trivial⟩⟩
  | cons env envs ih =>
    obtain ⟨v, hrest, hv⟩ := ih (turnStep rt s env)
    -- a turn that commits no compaction leaves the verdict to the turns behind it
    have hkept : keepsTranscript rt s env →
        RunContext.Shows s.ctx (turnStep rt s env).ctx (some (.plain .running))
          (some (.plain .running)) →
        ∃ v, RunContext.Shows s.ctx (Runs.run (turnStep rt) s (env :: envs)).ctx
            (some (.plain .running)) v ∧
          (v = some (.plain .running) ∧
              Runs.Along (turnStep rt) (keepsTranscript rt) s (env :: envs) ∨
            v = none ∧ ¬ Runs.Along (turnStep rt) (keepsTranscript rt) s (env :: envs)) := by
      intro hkeeps hturn
      refine ⟨v, hturn.trans hrest, ?_⟩
      rcases hv with ⟨hv, halong⟩ | ⟨hv, halong⟩
      · exact .inl ⟨hv, hkeeps, halong⟩
      · exact .inr ⟨hv, fun hall => halong hall.2⟩
    cases hs : s.finished with
    | true =>
      apply hkept
      · simp [keepsTranscript, hs]
      · rw [turnStep_finished env hs]
        exact .refl _ _
    | false =>
      have hturn : RunContext.Shows s.ctx (turnStep rt s env).ctx (some (.plain .running)) _ :=
        RunContext.turnStep_shows env hs
      cases hcommit : env.commit? rt s.ctx.transcript with
      | none =>
        rw [hcommit] at hturn
        apply hkept
        · simp [keepsTranscript, hcommit]
        · exact hturn
      | some commit =>
        rw [hcommit] at hturn
        refine ⟨none, hturn.trans_none hrest, .inr ⟨rfl, fun hall => ?_⟩⟩
        have hkeeps := hall.1
        simp [keepsTranscript, hs, hcommit] at hkeeps

/-- The events of a run are well bracketed if and only if no turn of it commits a compaction. -/
theorem runAgentLoop_wellBracketed_iff (rt : AgentRuntime) (ctx : RunContext)
    (initial : List Message) (env : RunEnv) :
    WellBracketed (eventsOf (ctx.since (runAgentLoop rt ctx initial env).2)) ↔
      Runs.Along (turnStep rt) (keepsTranscript rt) (startLoop ctx initial env.arrivals)
        (env.turns ++ [.cut]) := by
  obtain ⟨v, ⟨effects, htrace, hfollow⟩, hv⟩ :=
    turns_shows rt (startLoop ctx initial env.arrivals) (env.turns ++ [.cut])
  have hstart : AgentView.follow (some (.plain .outside))
      (eventsOf (initialEffects initial env.arrivals ++ [.event .agentStart])) =
      some (.plain .running) := by
    rw [eventsOf_append, AgentView.follow_append, AgentView.follow_initial rfl]
    rfl
  rw [RunContext.since_eq (runAgentLoop_trace rt ctx initial env htrace), WellBracketed,
    eventsOf_append, AgentView.follow_append, hstart, eventsOf_append, AgentView.follow_append,
    hfollow]
  rcases hv with ⟨rfl, halong⟩ | ⟨rfl, halong⟩
  · exact iff_of_true rfl halong
  · exact iff_of_false nofun halong

end Guigu
