import Guigu.Core.Projection
import Guigu.Library.Runs

/-! The compactor that asks a provider for the summary, while the signal may be cancelled at any
time: what happens to it, step by step, and which cancellations end the run. -/
namespace Guigu

/-- A message on one line; what an assistant has thought is left out, as are the arguments of its
calls. -/
def formatMessageLine : Message → String
  | .user u => "[user] " ++ "\n".intercalate (u.content.map fun
      | .text t => t
      | .image img => "[image:" ++ img.mimeType)
  | .assistant a => "[assistant] " ++ "\n".intercalate (a.content.filterMap fun
      | .text t => some t
      | .thinking _ => none
      | .toolCall c => some ("tool_call:" ++ c.name))
  | .toolResult t => "[tool_result:" ++ t.toolName ++ "] " ++ "\n".intercalate (t.content.map fun
      | .text s => s
      | .image img => "[image:" ++ img.mimeType)

def formatMessagesForSummary (messages : List Message) : String :=
  "\n".intercalate (messages.map formatMessageLine)

structure LlmCompactor where
  model : Model
  summaryPrompt : String
  deriving DecidableEq, Repr

/-- The messages go to the provider as the text of one. -/
def LlmCompactor.request (compactor : LlmCompactor) (messages : List Message) :
    ProviderRequest where
  model := compactor.model
  context := ⟨compactor.summaryPrompt, [.user ⟨[.text (formatMessagesForSummary messages)], 0⟩], []⟩
  thinkingLevel := .off
  sessionId := none

inductive CompactionPhase where
  | settingUp (request : ProviderRequest)
  | collecting (summary : String)
  | finished (result : Except CompactionError String)
  deriving DecidableEq, Repr

/-- A call of `compact`, and whether the signal has been cancelled since it began. -/
structure Compaction where
  phase : CompactionPhase
  cancelled : Bool
  deriving DecidableEq, Repr

/-- What happens next: the signal is cancelled, the provider answers the request, and the loop
takes what the stream brings (`none` at its end) or looks at the signal. -/
inductive CompactionStep where
  | cancel
  | setUp (answer : Except ProviderError Unit)
  | next (event : Option AssistantEvent)
  | watch
  deriving DecidableEq, Repr

/-- The start of `compact`. -/
def LlmCompactor.compact (compactor : LlmCompactor) (messages : List Message) (cancelled : Bool) :
    Compaction where
  phase :=
    if messages = [] then .finished (.error .emptyInput)
    else if cancelled then .finished (.error .cancelled)
    else .settingUp (compactor.request messages)
  cancelled := cancelled

/-- A stream that ends has to have brought some text. -/
def finishSummary (summary : String) : CompactionPhase :=
  .finished (if summary.isEmpty then .error .emptySummary else .ok summary)

def takeEvent (summary : String) : Option AssistantEvent → CompactionPhase
  | none => finishSummary summary
  | some (.textDelta text) => .collecting (summary ++ text)
  | some (.done _) => finishSummary summary
  | some (.error message aborted) =>
    .finished (.error (.provider (if aborted then .aborted else .request message)))
  | some _ => .collecting summary

namespace Compaction

/-- What cannot happen now changes nothing: the setting up is awaited without a look at the signal,
and the loop may take an event although the signal is cancelled. -/
def step (c : Compaction) : CompactionStep → Compaction
  | .cancel =>
    match c.phase with
    | .finished _ => c
    | _ => { c with cancelled := true }
  | .setUp answer =>
    match c.phase, answer with
    | .settingUp _, .ok () => { c with phase := .collecting "" }
    | .settingUp _, .error e => { c with phase := .finished (.error (.provider e)) }
    | _, _ => c
  | .next event =>
    match c.phase with
    | .collecting summary => { c with phase := takeEvent summary event }
    | _ => c
  | .watch =>
    match c.phase, c.cancelled with
    | .collecting _, true => { c with phase := .finished (.error .cancelled) }
    | _, _ => c

def isFinished (c : Compaction) : Bool :=
  match c.phase with
  | .finished _ => true
  | _ => false

/-- The stream is over with this. -/
def endsStream : Option AssistantEvent → Bool
  | none | some (.done _) | some (.error ..) => true
  | some _ => false

/-- The provider brings the compaction to an end although the signal has been cancelled. -/
def outruns (c : Compaction) : CompactionStep → Bool
  | .setUp (.error _) =>
    match c.phase with
    | .settingUp _ => c.cancelled
    | _ => false
  | .next event =>
    match c.phase with
    | .collecting _ => c.cancelled && endsStream event
    | _ => false
  | _ => false

/-- The provider does not bring the compaction to an end behind the cancellation. -/
abbrev Heeds (c : Compaction) (steps : List CompactionStep) : Prop :=
  Runs.Along step (fun c s => c.outruns s = false) c steps

theorem step_of_finished {c : Compaction} (h : c.isFinished = true) (s : CompactionStep) :
    c.step s = c ∧ c.outruns s = false := by
  obtain ⟨phase, cancelled⟩ := c
  cases phase with
  | finished result =>
    cases s with
    | setUp answer => cases answer <;> exact ⟨rfl, rfl⟩
    | _ => exact ⟨rfl, rfl⟩
  | _ => cases h

/-- Nothing happens behind the end. -/
theorem run_of_finished {c : Compaction} (h : c.isFinished = true) (steps : List CompactionStep) :
    Runs.run step c steps = c ∧ c.Heeds steps := by
  induction steps with
  | nil => exact ⟨rfl, trivial⟩
  | cons s steps ih =>
    obtain ⟨hstep, houtruns⟩ := step_of_finished h s
    refine ⟨?_, houtruns, ?_⟩
    · rw [Runs.run_cons, hstep]
      exact ih.1
    · rw [hstep]
      exact ih.2

/-- A step that goes on does not outrun a cancellation; one that ends a cancelled compaction
outruns it, unless it is the look at the signal. -/
theorem step_cases {c : Compaction} (h : c.isFinished = false) (s : CompactionStep) :
    ((c.step s).isFinished = false ∧ c.outruns s = false) ∨
      ((c.step s).phase = .finished (.error .cancelled) ∧ c.outruns s = false) ∨
      ∃ result, (c.step s).phase = .finished result ∧ result ≠ .error .cancelled ∧
        c.outruns s = (c.step s).cancelled := by
  obtain ⟨phase, cancelled⟩ := c
  cases phase with
  | finished result => cases h
  | settingUp request =>
    cases s with
    | setUp answer =>
      cases answer with
      | ok u => exact .inl ⟨rfl, rfl⟩
      | error e => exact .inr (.inr ⟨_, rfl, by simp, rfl⟩)
    | _ => exact .inl ⟨rfl, rfl⟩
  | collecting summary =>
    have hfinish : ∃ result, finishSummary summary = .finished result ∧
        result ≠ .error .cancelled := by
      refine ⟨_, rfl, ?_⟩
      split_ifs <;> simp
    obtain ⟨result, hresult, hne⟩ := hfinish
    cases s with
    | cancel => exact .inl ⟨rfl, rfl⟩
    | setUp answer => cases answer <;> exact .inl ⟨rfl, rfl⟩
    | watch =>
      cases cancelled with
      | true => exact .inr (.inl ⟨rfl, rfl⟩)
      | false => exact .inl ⟨rfl, rfl⟩
    | next event =>
      cases event with
      | none => exact .inr (.inr ⟨result, hresult, hne, Bool.and_true _⟩)
      | some e =>
        cases e with
        | done m => exact .inr (.inr ⟨result, hresult, hne, Bool.and_true _⟩)
        | error message aborted =>
          exact .inr (.inr ⟨_, rfl, by simp, Bool.and_true _⟩)
        | _ => exact .inl ⟨rfl, Bool.and_false _⟩

/-- A cancelled compaction ends as cancelled exactly when the provider does not outrun the look at
the signal. -/
theorem result_iff {c : Compaction} {steps : List CompactionStep}
    {result : Except CompactionError String}
    (hfinished : (Runs.run step c steps).phase = .finished result)
    (hcancelled : (Runs.run step c steps).cancelled = true) (h : c.isFinished = false) :
    result = .error .cancelled ↔ c.Heeds steps := by
  induction steps generalizing c with
  | nil =>
    rw [Runs.run_nil] at hfinished
    simp [isFinished, hfinished] at h
  | cons s steps ih =>
    rw [Runs.run_cons] at hfinished hcancelled
    show _ ↔ c.outruns s = false ∧ (c.step s).Heeds steps
    rcases step_cases h s with ⟨hgoes, hheeds⟩ | ⟨hends, hheeds⟩ | ⟨result', hends, hne, heq⟩
    · rw [ih hfinished hcancelled hgoes]
      exact (and_iff_right hheeds).symm
    · obtain ⟨hrun, hrest⟩ := run_of_finished (c := c.step s) (by simp [isFinished, hends]) steps
      rw [hrun, hends] at hfinished
      obtain rfl := CompactionPhase.finished.inj hfinished
      exact iff_of_true rfl ⟨hheeds, hrest⟩
    · obtain ⟨hrun, hrest⟩ := run_of_finished (c := c.step s) (by simp [isFinished, hends]) steps
      rw [hrun] at hfinished hcancelled
      rw [hends] at hfinished
      obtain rfl := CompactionPhase.finished.inj hfinished
      rw [heq, hcancelled]
      exact iff_of_false hne fun hheeds => by cases hheeds.1

end Compaction

/-! ### The turn behind a compaction -/

/-- The compaction in front of the turn, from its start on. -/
def LlmCompactor.compaction (compactor : LlmCompactor) (rt : AgentRuntime)
    (transcript : List Message) (cancelled : Bool) : Compaction :=
  compactor.compact (transcript.take (computeSplit transcript rt.loopConfig.compaction.keepRecent))
    cancelled

/-- The signal is cancelled before the compaction in front of the turn has ended, with the answer
the turn goes by. -/
structure CancelledOnTheWay (rt : AgentRuntime) (s : LoopState) (env : TurnEnv) (c : Compaction)
    (steps : List CompactionStep) : Prop where
  unfinished : s.finished = false
  asked : rt.compacts s.ctx.transcript = true
  finished : (Runs.run Compaction.step c steps).phase = .finished env.compacted
  cancelled : (Runs.run Compaction.step c steps).cancelled = true

/-- The plan is given up, and the run ends with the aborted turn. -/
structure EndsAborted (rt : AgentRuntime) (s : LoopState) (env : TurnEnv) : Prop where
  plan : planContext s.ctx.transcript rt.loopConfig.compaction env.compacted = .error .cancelled
  finished : (turnStep rt s env).finished = true
  trace : (turnStep rt s env).ctx.trace =
    s.ctx.trace ++ [.event .turnStart, .event (.turnEnd RunContext.abortedMessage [])]
  transcript : (turnStep rt s env).ctx.transcript = s.ctx.transcript

/-- The run ends aborted when the compactor says that it was cancelled, and only then. -/
theorem endsAborted_iff_compacted {rt : AgentRuntime} {s : LoopState} {env : TurnEnv}
    (hunfinished : s.finished = false) (hasked : rt.compacts s.ctx.transcript = true) :
    EndsAborted rt s env ↔ env.compacted = .error .cancelled := by
  unfold AgentRuntime.compacts at hasked
  simp only [Bool.and_eq_true, decide_eq_true_eq] at hasked
  obtain ⟨⟨hcompactor, hover⟩, hspare⟩ := hasked
  have hsplit := mt computeSplit_eq_zero_iff.mp (not_le.mpr hspare)
  constructor
  · rintro ⟨hplan, -, -, -⟩
    have hplanned := planContext_planned s.ctx.transcript rt.loopConfig.compaction env.compacted
    rw [hplan] at hplanned
    cases hplanned with
    | cancelled _ _ h => exact h
  · intro hcancelled
    have hplan : planContext s.ctx.transcript rt.loopConfig.compaction env.compacted =
        .error .cancelled := by
      unfold planContext
      rw [if_neg (not_le.mpr hover)]
      simp only [if_neg hsplit, hcancelled]
    have hprepare : (s.ctx.send .turnStart).prepareRequestMessages rt env =
        (none, { s.ctx.send .turnStart with
          tokens := if env.setupCancelled then s.ctx.tokens.observe else s.ctx.tokens }) := by
      unfold RunContext.prepareRequestMessages
      rw [if_pos hcompactor]
      have hplan' : planContext (s.ctx.send .turnStart).transcript rt.loopConfig.compaction
        env.compacted = .error .cancelled := hplan
      rw [hplan']
      rfl
    have hturn : turnStep rt s env = { s with
        ctx := { s.ctx.send .turnStart with tokens :=
          if env.setupCancelled then s.ctx.tokens.observe else s.ctx.tokens }.sendAbortedTurnEnd
        finished := true } := by
      unfold turnStep
      rw [hunfinished, hprepare]
      rfl
    refine ⟨hplan, ?_, ?_, ?_⟩
    · rw [hturn]
    · rw [hturn]
      show (s.ctx.trace ++ [_]) ++ [_] = _
      rw [List.append_assoc]
      rfl
    · rw [hturn]
      rfl

/-- A cancellation on the way ends the run exactly when the provider does not bring the
compaction to an end behind it. -/
theorem endsAborted_iff_heeds {rt : AgentRuntime} {s : LoopState} {env : TurnEnv}
    {compactor : LlmCompactor} {cancelled : Bool} {steps : List CompactionStep}
    (h : CancelledOnTheWay rt s env (compactor.compaction rt s.ctx.transcript cancelled) steps) :
    EndsAborted rt s env ↔ (compactor.compaction rt s.ctx.transcript cancelled).Heeds steps := by
  rw [endsAborted_iff_compacted h.unfinished h.asked]
  have hasked := h.asked
  unfold AgentRuntime.compacts at hasked
  simp only [Bool.and_eq_true, decide_eq_true_eq] at hasked
  have hspare := hasked.2
  have hmessages : s.ctx.transcript.take
      (computeSplit s.ctx.transcript rt.loopConfig.compaction.keepRecent) ≠ [] := by
    rw [Ne, List.take_eq_nil_iff, not_or]
    refine ⟨mt computeSplit_eq_zero_iff.mp (not_le.mpr hspare), fun hnil => ?_⟩
    rw [hnil] at hspare
    exact absurd hspare (Nat.not_lt_zero _)
  cases cancelled with
  | false =>
    have hstart : (compactor.compaction rt s.ctx.transcript false).isFinished = false := by
      simp [LlmCompactor.compaction, LlmCompactor.compact, Compaction.isFinished, hmessages]
    exact Compaction.result_iff h.finished h.cancelled hstart
  | true =>
    -- the compactor sees it before it asks the provider
    have hstart : (compactor.compaction rt s.ctx.transcript true).phase =
        .finished (.error .cancelled) := by
      simp [LlmCompactor.compaction, LlmCompactor.compact, hmessages]
    obtain ⟨hrun, hheeds⟩ := Compaction.run_of_finished
      (c := compactor.compaction rt s.ctx.transcript true)
      (by simp [Compaction.isFinished, hstart]) steps
    have hfinished := h.finished
    rw [hrun, hstart] at hfinished
    exact iff_of_true (CompactionPhase.finished.inj hfinished).symm hheeds

/-- A runtime that compacts all but the last turn. -/
def AgentRuntime.compacting : AgentRuntime :=
  { AgentRuntime.plain with
    loopConfig := { LoopConfig.default with compactor := true, compaction := ⟨0, 1, 0, 0⟩ } }

/-- The loop in front of a turn over two questions. -/
def LoopState.overBudget : LoopState := ⟨.start [helloMessage, helloMessage], 0, false, false⟩

theorem endsAborted_watched :
    EndsAborted .compacting .overBudget { TurnEnv.cut with compacted := .error .cancelled } ↔
      ((⟨⟨"m", 0⟩, ""⟩ : LlmCompactor).compaction .compacting [helloMessage, helloMessage]
        false).Heeds [.setUp (.ok ()), .next (some (.textDelta "a")), .cancel, .watch] :=
  endsAborted_iff_heeds (s := .overBudget) ⟨rfl, by decide +kernel, by decide +kernel,
    by decide +kernel⟩

/-- A provider that sees the cancellation first says so, and is taken for one that has failed. -/
theorem endsAborted_outrun :
    ¬ ∀ (rt : AgentRuntime) (s : LoopState) (env : TurnEnv) (compactor : LlmCompactor)
      (cancelled : Bool) (steps : List CompactionStep),
      CancelledOnTheWay rt s env (compactor.compaction rt s.ctx.transcript cancelled) steps →
      EndsAborted rt s env := by
  intro h
  have hends := h .compacting .overBudget
    { TurnEnv.cut with compacted := .error (.provider .aborted) } ⟨⟨"m", 0⟩, ""⟩ false
    [.cancel, .setUp (.error .aborted)]
    ⟨rfl, by decide +kernel, by decide +kernel, by decide +kernel⟩
  exact absurd ((endsAborted_iff_compacted rfl (by decide +kernel)).mp hends) (by decide +kernel)

end Guigu
