import Guigu.Core.AgentRuns

/-! The transcripts that providers get: they begin with a `User` message, and behind each answer
come the results of its calls. -/
namespace Guigu

/-- The calls whose results stand at the front. -/
def leadingResults : List Message → List String
  | .toolResult r :: ms => r.toolCallId :: leadingResults ms
  | _ => []

/-- Behind every answer with calls come their results, in order, before anything else. -/
def Paired : List Message → Prop
  | [] => True
  | .assistant m :: ms =>
    (extractToolCalls m ≠ [] → leadingResults ms = (extractToolCalls m).map ToolCall.id) ∧ Paired ms
  | .user _ :: ms | .toolResult _ :: ms => Paired ms

instance decidablePaired : (ms : List Message) → Decidable (Paired ms)
  | [] => .isTrue trivial
  | .assistant m :: ms =>
    have : Decidable (Paired ms) := decidablePaired ms
    inferInstanceAs (Decidable ((_ → _) ∧ _))
  | .user _ :: ms | .toolResult _ :: ms => decidablePaired ms

/-- A `User` message comes first. -/
def beginsWithUser (ms : List Message) : Bool := ms.head?.any Message.isUser

/-- Every request is built from a transcript that a provider accepts. -/
def AgentSystem.RequestsPaired (s : AgentSystem) : Prop :=
  ∀ ms ∈ requested s.agent.ctx.trace, beginsWithUser ms = true ∧ Paired ms

/-- The messages that are taken in are `User` messages, no turn is taken over an empty transcript,
and no answer is cut behind a call. -/
def Demand.pairs : Demand where
  takes _ cmd := cmd.messages.all Message.isUser
  start _ _ := true
  turn rt s env := !s.ctx.transcript.isEmpty &&
    if env.aborts rt s then (env.answer rt).toolCalls.isEmpty
    else (env.injection rt.loopConfig ++ boundarySteers (env.waiting rt s) env.arrived ++
      boundaryFollowUps (env.waiting rt s) env.arrived).all Message.isUser

theorem leadingResults_append {as bs : List Message} (h : leadingResults bs = []) :
    leadingResults (as ++ bs) = leadingResults as := by
  induction as with
  | nil => exact h
  | cons m as ih =>
    cases m with
    | toolResult r => exact congrArg (r.toolCallId :: ·) ih
    | user | assistant => rfl

theorem leadingResults_results (results : List ToolResultMessage) {ms : List Message}
    (h : leadingResults ms = []) :
    leadingResults (results.map .toolResult ++ ms) = results.map ToolResultMessage.toolCallId := by
  induction results with
  | nil => exact h
  | cons r results ih => exact congrArg (r.toolCallId :: ·) ih

/-- `User` messages have no results at their front. -/
theorem leadingResults_of_all {ms : List Message} (h : (ms.all Message.isUser) = true) :
    leadingResults ms = [] := by
  cases ms with
  | nil => rfl
  | cons m ms =>
    cases m with
    | toolResult r => cases h
    | user | assistant => rfl

namespace Paired

theorem append {as bs : List Message} (ha : Paired as) (hb : Paired bs)
    (h : leadingResults bs = []) : Paired (as ++ bs) := by
  induction as with
  | nil => exact hb
  | cons m as ih =>
    cases m with
    | assistant m =>
      refine ⟨?_, ih ha.2⟩
      show _ → leadingResults (as ++ bs) = _
      rw [leadingResults_append h]
      exact ha.1
    | user | toolResult => exact ih ha

theorem of_all {ms : List Message} (h : (ms.all Message.isUser) = true) : Paired ms := by
  induction ms with
  | nil => trivial
  | cons m ms ih =>
    rw [List.all_cons, Bool.and_eq_true] at h
    cases m with
    | user m => exact ih h.2
    | assistant | toolResult => cases h.1

theorem drop {ms : List Message} (h : Paired ms) (n : ℕ) : Paired (ms.drop n) := by
  induction n generalizing ms with
  | zero => exact h
  | succ n ih =>
    cases ms with
    | nil => exact h
    | cons m ms =>
      cases m with
      | assistant m => exact ih h.2
      | user | toolResult => exact ih h

theorem results (results : List ToolResultMessage) {ms : List Message} (h : Paired ms) :
    Paired (results.map .toolResult ++ ms) := by
  induction results with
  | nil => exact h
  | cons r results ih => exact ih

/-- An answer, its results and the `User` messages behind them. -/
theorem turn {m : AssistantMessage} {rs : List ToolResultMessage} {ms : List Message}
    (h : rs.map ToolResultMessage.toolCallId = (extractToolCalls m).map ToolCall.id)
    (hms : (ms.all Message.isUser) = true) :
    Paired (.assistant m :: (rs.map .toolResult ++ ms)) := by
  refine ⟨?_, results rs (of_all hms)⟩
  intro _
  rw [leadingResults_results rs (leadingResults_of_all hms), h]

end Paired

/-- The results of a turn are those of the calls of its answer. -/
theorem toolWork_ids {rt : AgentRuntime} {env : TurnEnv} {turn : TurnResult}
    (h : turn.aborted = true → turn.toolCalls = []) :
    (env.toolWork rt turn).2.map ToolResultMessage.toolCallId =
      turn.toolCalls.map ToolCall.id := by
  unfold TurnEnv.toolWork
  split_ifs with hnone
  · rw [Bool.or_eq_true, List.isEmpty_iff] at hnone
    rcases hnone with habort | hnil
    · rw [h habort]
      rfl
    · rw [hnil]
      rfl
  · have hresults := congrArg (List.map Prod.fst)
      (executeToolCalls_results rt env turn.toolCalls turn.assistantMessage.stopReason)
    rwa [List.map_map, List.map_map] at hresults

theorem StreamOutcome.calls_eq {rt : AgentRuntime} {env : TurnEnv} {tokens : Tokens}
    {turn : TurnResult} {stream : List Effect} (h : StreamOutcome rt env tokens turn stream) :
    turn.toolCalls = extractToolCalls turn.assistantMessage := by
  cases h with
  | failed _ hcalls hcontent =>
    unfold extractToolCalls
    rw [hcalls, hcontent]
    rfl
  | answered => rfl

/-- A stream builds no request. -/
theorem StreamOutcome.requested_eq {rt : AgentRuntime} {env : TurnEnv} {tokens : Tokens}
    {turn : TurnResult} {stream : List Effect} (h : StreamOutcome rt env tokens turn stream) :
    requested stream = [] := by
  cases h with
  | failed => rfl
  | answered _ hquiet =>
    rw [requested_append, hquiet.requested_eq]
    rfl

/-- What follows an answer enters as the demand says. -/
theorem TurnFinish.injected_all {rt : AgentRuntime} {env : TurnEnv} {turn : TurnResult}
    {shutdown : Bool} {queue queue' : List AgentCommand} {injected : List Message}
    {behind : List Effect} {step : LoopStep} {p : Message → Bool}
    (h : TurnFinish rt env turn shutdown queue injected behind queue' step)
    (hall : turn.aborted = false → (env.injection rt.loopConfig ++
      boundarySteers queue env.arrived ++ boundaryFollowUps queue env.arrived).all p = true) :
    injected.all p = true := by
  simp only [List.all_append, Bool.and_eq_true] at hall
  cases h with
  | aborted | cut | ended | stopped => rfl
  | steered habort => exact (hall habort).1.2
  | followed habort => exact (hall habort).2
  | toolCut habort => exact (hall habort).1.1
  | toolDone habort => exact (hall habort).1.1

/-- A transcript that a provider accepts, and only such requests so far. -/
structure Sound (ctx : RunContext) : Prop where
  paired : Paired ctx.transcript
  begins : ctx.transcript = [] ∨ beginsWithUser ctx.transcript = true
  requests : ∀ ms ∈ requested ctx.trace, beginsWithUser ms = true ∧ Paired ms

theorem beginsWithUser_append {as bs : List Message} (h : beginsWithUser as = true) :
    beginsWithUser (as ++ bs) = true := by
  cases as with
  | nil => cases h
  | cons m as => exact h

theorem Prepared.sound {rt : AgentRuntime} {env : TurnEnv} {transcript base : List Message}
    {before : List Effect} (h : Prepared rt env transcript base before)
    (hpaired : Paired transcript) (hbegins : beginsWithUser transcript = true) :
    beginsWithUser base = true ∧ Paired base ∧ requested before = [] := by
  cases h with
  | kept => exact ⟨hbegins, hpaired, rfl⟩
  | committed => exact ⟨rfl, hpaired.drop _, rfl⟩

/-- A turn builds its request from an acceptable transcript, and leaves one. -/
theorem Sound.turnStep {rt : AgentRuntime} {s : LoopState} {env : TurnEnv} (h : Sound s.ctx)
    (hturn : Demand.pairs.turn rt s env = true) : Sound (turnStep rt s env).ctx := by
  simp only [Demand.pairs, Bool.and_eq_true, Bool.not_eq_true'] at hturn
  obtain ⟨hsome, hcond⟩ := hturn
  cases hs : s.finished with
  | true => rwa [turnStep_finished env hs]
  | false =>
    rcases turnStep_cases env hs with ⟨-, -, hadds, -⟩ | ⟨-, base, turn, injected, before, stream,
      behind, step, ht⟩
    · constructor
      · rw [hadds.transcript, List.append_nil]
        exact h.paired
      · rw [hadds.transcript, List.append_nil]
        exact h.begins
      · rw [hadds.trace, requested_append]
        exact (List.append_nil (requested s.ctx.trace)).symm ▸ h.requests
    · have hbegins : beginsWithUser s.ctx.transcript = true := by
        refine h.begins.resolve_left ?_
        intro hnil
        rw [hnil] at hsome
        cases hsome
      obtain ⟨hbase, hpaired, hbefore⟩ := ht.prepared.sound h.paired hbegins
      have haborts : turn.aborted = true → turn.toolCalls = [] := by
        intro habort
        cases ht.outcome with
        | failed _ hcalls => exact hcalls
        | answered hset =>
          have hcut : env.aborts rt s = true := by
            unfold TurnEnv.aborts
            rw [hset]
            exact habort
          rw [if_pos hcut] at hcond
          exact List.isEmpty_iff.mp hcond
      have hinjected : injected.all Message.isUser = true := by
        apply ht.finish.injected_all
        intro hno
        have hcut : ¬ env.aborts rt s = true := by
          intro habort
          exact absurd (hno.symm.trans (ht.outcome.aborted_of_aborts habort)) (by simp)
        rw [if_neg hcut] at hcond
        exact hcond
      have hids := @toolWork_ids rt env turn haborts
      rw [ht.outcome.calls_eq] at hids
      obtain ⟨request, htrace⟩ := ht.trace
      constructor
      · rw [ht.transcript]
        exact hpaired.append (.turn hids hinjected) rfl
      · rw [ht.transcript]
        exact .inr (beginsWithUser_append hbase)
      · rw [htrace]
        have hrequests : requested (.event .turnStart :: (before ++ .request base request ::
            (stream ++ ((env.toolWork rt turn).1 ++ behind)))) = [base] := by
          show requested (before ++ ([.request base request] ++
            (stream ++ ((env.toolWork rt turn).1 ++ behind)))) = _
          rw [requested_append, requested_append, requested_append, requested_append, hbefore,
            ht.outcome.requested_eq, (toolWork_ofTools rt env turn).requested_eq,
            ht.finish.announces.requests]
          rfl
        rw [requested_append, hrequests]
        exact List.forall_mem_append.mpr
          ⟨h.requests, List.forall_mem_singleton.mpr ⟨hbase, hpaired⟩⟩

theorem appendedInitial_all {p : Message → Bool} {initial : List Message}
    {arrivals : List (List AgentCommand)} (h : initial.all p = true) :
    (appendedInitial initial arrivals).all p = true := by
  induction initial generalizing arrivals with
  | nil => rfl
  | cons m ms ih =>
    rw [List.all_cons, Bool.and_eq_true] at h
    unfold appendedInitial
    rw [List.all_cons, h.1, Bool.true_and]
    split_ifs
    · rfl
    · exact ih h.2

/-- `User` messages may be put behind an acceptable transcript. -/
theorem beginsWithUser_of_all {as bs : List Message}
    (h : as = [] ∨ beginsWithUser as = true) (hall : bs.all Message.isUser = true) :
    as ++ bs = [] ∨ beginsWithUser (as ++ bs) = true := by
  rcases h with rfl | h
  · cases bs with
    | nil => exact .inl rfl
    | cons m bs =>
      rw [List.all_cons, Bool.and_eq_true] at hall
      exact .inr hall.1
  · exact .inr (beginsWithUser_append h)

theorem pairs_keeps (rt : AgentRuntime) : Demand.pairs.Keeps rt fun ctx _ => Sound ctx where
  start := by
    intro ctx ctx' cmd initial n arrivals h hnext hinitial htakes hstart
    obtain ⟨-, -, htranscript, -⟩ := hnext.books
    have hadds := RunContext.adds_startLoop (ctx'.record [.processing cmd]) initial arrivals
    have hall : (appendedInitial initial arrivals).all Message.isUser = true := by
      apply appendedInitial_all
      rw [← messages_of_initial? hinitial]
      exact htakes
    constructor
    · rw [hadds.transcript]
      show Paired (ctx'.transcript ++ _)
      rw [htranscript]
      exact h.paired.append (.of_all hall) (leadingResults_of_all hall)
    · rw [hadds.transcript]
      show ctx'.transcript ++ _ = [] ∨ beginsWithUser (ctx'.transcript ++ _) = true
      rw [htranscript]
      exact beginsWithUser_of_all h.begins hall
    · rw [hadds.trace, requested_append, (announces_startLoop initial arrivals).requests,
        List.append_nil]
      exact hnext.requested_eq.symm ▸ h.requests
  turn := by
    intro s env n h hturn
    exact h.turnStep hturn
  close := by
    intro ctx n h
    have hrequests : requested (ctx.send (.agentEnd ctx.transcript)).trace = requested ctx.trace :=
      (requested_append _ _).trans (List.append_nil _)
    exact ⟨h.paired, h.begins, hrequests.symm ▸ h.requests⟩
  reset := by
    intro ctx ctx' n h hnext htakes
    exact ⟨trivial, .inl rfl, hnext.requested_eq.symm ▸ h.requests⟩
  skip := by
    intro ctx ctx' cmd n h hnext hcuts htakes
    obtain ⟨-, -, htranscript, -⟩ := hnext.books
    refine ⟨?_, ?_, hnext.requested_eq.symm ▸ h.requests⟩
    · show Paired ctx'.transcript
      rw [htranscript]
      exact h.paired
    · show ctx'.transcript = [] ∨ beginsWithUser ctx'.transcript = true
      rw [htranscript]
      exact h.begins

namespace AgentSystem

/-- Every request is acceptable in a run in which `User` messages are taken in, no turn is taken
over an empty transcript and no answer is cut behind a call. -/
theorem requestsPaired_throughout {rt : AgentRuntime} {transcript : List Message}
    {as : List SystemAction}
    (hbegins : transcript = [] ∨ beginsWithUser transcript = true) (hpaired : Paired transcript)
    (h : Runs.Along (AgentSystem.step rt) (Demand.pairs.MetBySystem rt) (.start transcript) as) :
    Runs.Throughout (AgentSystem.step rt) RequestsPaired (.start transcript) as := by
  refine (pairs_keeps rt).throughout ?_ ?_ h
  · exact ⟨hpaired, hbegins, List.forall_mem_nil _⟩
  · intro s hsound _
    exact hsound.requests

/-- A call is executed, and the next request shows its result. -/
theorem requestsPaired_callingAgent : Runs.Throughout (AgentSystem.step .withBash) RequestsPaired
    (.start []) [.send (.prompt [helloMessage]),
      .runtime (.receive (.prompt [helloMessage])
        ⟨[], [.streaming [.done callingAnswer], .streaming [.done helloAnswer]]⟩)] :=
  requestsPaired_throughout (.inl rfl) trivial (by decide +kernel)

/-- An `Abort` cuts a stream behind a call; the next request shows the call without a result. -/
theorem abortedCall_unpaired : ¬ RequestsPaired (Runs.run (AgentSystem.step .withBash) (.start [])
    [.send (.prompt [helloMessage]), .send .abort, .send (.prompt [helloMessage]),
      .runtime (.receive (.prompt [helloMessage]) ⟨[], [{ TurnEnv.cut with
        stream := [.event [] (.toolCallStart "c1" "bash" "\x7b\x7d"),
          .event [.abort] (.toolCallEnd "c1")] }]⟩),
      .runtime (.receive (.prompt [helloMessage]) ⟨[], [.streaming [.done helloAnswer]]⟩)]) := by
  unfold RequestsPaired
  decide +kernel

end AgentSystem

end Guigu
