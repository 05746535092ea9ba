import Guigu.Core.Pairing
import Mathlib.Data.List.DropRight

/-! What the cuts in front of a request leave: whole turns of the transcript, and behind each
answer the results that stood there. -/
namespace Guigu

/-- The turns: each begins with a `User` message and reaches up to the next one. -/
def turnsOf : List Message → List (List Message)
  | [] => []
  | m :: ms =>
    if m.isUser then (m :: ms.takeWhile fun m => !m.isUser) :: turnsOf ms else turnsOf ms

/-- The results that stand at the front. -/
def resultsInFront : List Message → List ToolResultMessage
  | .toolResult r :: ms => r :: resultsInFront ms
  | _ => []

/-- Every message that is no result, with the results directly behind it. -/
def toolGroups : List Message → List (Message × List ToolResultMessage)
  | [] => []
  | .toolResult _ :: ms => toolGroups ms
  | .user m :: ms => (.user m, resultsInFront ms) :: toolGroups ms
  | .assistant m :: ms => (.assistant m, resultsInFront ms) :: toolGroups ms

/-- Each call of the message has a result among those behind it. -/
def Answered (group : Message × List ToolResultMessage) : Prop :=
  (group.1.toolCalls.map ToolCall.id).Subperm (group.2.map ToolResultMessage.toolCallId)

/-- The compactor is asked: it is there, the transcript is over its budget and has turns to
spare. -/
def AgentRuntime.compacts (rt : AgentRuntime) (transcript : List Message) : Bool :=
  rt.loopConfig.compactor &&
    decide (rt.loopConfig.compaction.budgetTokens < (estimateTotal transcript 0).toNat) &&
    decide (max rt.loopConfig.compaction.keepRecent 1 < (turnsOf transcript).length)

theorem userBoundaries_cons (m : Message) (ms : List Message) :
    userBoundaries (m :: ms) =
      (if m.isUser then [0] else []) ++ (userBoundaries ms).map (· + 1) := by
  unfold userBoundaries
  rw [List.length_cons, List.range_succ_eq_map, List.filter_cons, List.filter_map]
  by_cases huser : m.isUser = true
  · simp [huser, Function.comp_def]
  · simp [huser, Function.comp_def]

/-- What stands in front of the first turn, then the turns. -/
theorem takeWhile_append_turns (ms : List Message) :
    (ms.takeWhile fun m => !m.isUser) ++ (turnsOf ms).flatten = ms := by
  induction ms with
  | nil => rfl
  | cons m ms ih =>
    unfold turnsOf
    by_cases huser : m.isUser = true
    · rw [if_pos huser, List.takeWhile_cons_of_neg (by simp [huser]), List.flatten_cons,
        List.nil_append, List.cons_append, ih]
    · rw [if_neg huser, List.takeWhile_cons_of_pos (by simp [huser]), List.cons_append, ih]

theorem length_turnsOf (ms : List Message) :
    (turnsOf ms).length = (userBoundaries ms).length := by
  induction ms with
  | nil => rfl
  | cons m ms ih =>
    unfold turnsOf
    rw [userBoundaries_cons]
    split_ifs with huser
    · simp [ih]
    · simp [ih]

/-- A cut at a boundary leaves the turns from there on. -/
theorem drop_boundary (ms : List Message) (i : ℕ) :
    ms.drop ((userBoundaries ms).getD i ms.length) = ((turnsOf ms).drop i).flatten := by
  induction ms generalizing i with
  | nil => simp [turnsOf, userBoundaries]
  | cons m ms ih =>
    have hshift (j : ℕ) : ((userBoundaries ms).map (· + 1)).getD j (ms.length + 1) =
        (userBoundaries ms).getD j ms.length + 1 := by
      rw [List.getD_eq_getElem?_getD, List.getElem?_map, List.getD_eq_getElem?_getD]
      cases (userBoundaries ms)[j]? <;> rfl
    rw [userBoundaries_cons, List.length_cons]
    unfold turnsOf
    split_ifs with huser
    · cases i with
      | zero =>
        show m :: ms = m :: ((ms.takeWhile fun m => !m.isUser) ++ (turnsOf ms).flatten)
        rw [takeWhile_append_turns]
      | succ i =>
        rw [List.singleton_append, List.getD_cons_succ, hshift, List.drop_succ_cons,
          List.drop_succ_cons, ih]
    · rw [List.nil_append, hshift, List.drop_succ_cons, ih]

/-- The split of a compaction leaves the last turns. -/
theorem drop_computeSplit {ms : List Message} {keepRecent : ℕ}
    (h : max keepRecent 1 < (turnsOf ms).length) :
    ms.drop (computeSplit ms keepRecent) =
      ((turnsOf ms).rtake (max keepRecent 1)).flatten := by
  rw [length_turnsOf] at h
  have hlt : (userBoundaries ms).length - max keepRecent 1 < (userBoundaries ms).length := by omega
  unfold computeSplit List.rtake
  rw [length_turnsOf, ← drop_boundary, if_neg (by omega)]
  simp only [List.getD_eq_getElem?_getD, List.getElem?_eq_getElem hlt, Option.getD_some]

/-- There is something to compact when there are more turns than are kept. -/
theorem computeSplit_eq_zero_iff {ms : List Message} {keepRecent : ℕ} :
    computeSplit ms keepRecent = 0 ↔ (turnsOf ms).length ≤ max keepRecent 1 := by
  rw [length_turnsOf]
  constructor
  · intro hzero
    by_contra hmore
    have hlt : (userBoundaries ms).length - max keepRecent 1 < (userBoundaries ms).length := by
      omega
    have hrising : (userBoundaries ms).Pairwise (· < ·) := List.pairwise_lt_range.filter _
    have hfirst := List.pairwise_iff_getElem.mp hrising 0 _ (by omega) hlt (by omega)
    unfold computeSplit at hzero
    rw [if_neg hmore, List.getD_eq_getElem?_getD, List.getElem?_eq_getElem hlt,
      Option.getD_some] at hzero
    omega
  · intro hfew
    exact if_pos hfew

namespace RunContext

/-- The transcript changes only when the compactor is asked and returns a summary; then the
summary and the last turns are what is committed and what the final projection gets. -/
theorem prepareRequestMessages_commits (rt : AgentRuntime) (ctx : RunContext) (env : TurnEnv) :
    (∀ summary, rt.compacts ctx.transcript = true → env.compacted = .ok summary →
      (ctx.prepareRequestMessages rt env).2.transcript = summaryMessage summary ::
        ((turnsOf ctx.transcript).rtake (max rt.loopConfig.compaction.keepRecent 1)).flatten ∧
      (ctx.prepareRequestMessages rt env).1 =
        some (applyFinalProjection rt env (ctx.prepareRequestMessages rt env).2.transcript)) ∧
    (rt.compacts ctx.transcript = false ∨ (∃ e, env.compacted = .error e) →
      (ctx.prepareRequestMessages rt env).2.transcript = ctx.transcript) := by
  unfold prepareRequestMessages AgentRuntime.compacts
  by_cases hcompactor : rt.loopConfig.compactor = true
  · rw [if_pos hcompactor, hcompactor, Bool.true_and]
    have hplanned := planContext_planned ctx.transcript rt.loopConfig.compaction env.compacted
    generalize planContext ctx.transcript rt.loopConfig.compaction env.compacted = plan at hplanned
    cases hplanned with
    | fits hfits =>
      refine ⟨?_, fun _ => rfl⟩
      intro summary hasked
      simp [not_lt.mpr hfits] at hasked
    | truncated hover hwhy =>
      refine ⟨?_, fun _ => rfl⟩
      intro summary hasked hok
      rw [Bool.and_eq_true, decide_eq_true_eq, decide_eq_true_eq] at hasked
      rcases hwhy with hfew | ⟨e, -, herror⟩
      · exact absurd (computeSplit_eq_zero_iff.mp hfew) (not_le.mpr hasked.2)
      · rw [herror] at hok
        cases hok
    | cancelled hover hsplit hcancelled =>
      refine ⟨?_, fun _ => rfl⟩
      intro summary hasked hok
      rw [hcancelled] at hok
      cases hok
    | @committed answer hover hsplit hanswer =>
      have hmore := not_le.mp (mt computeSplit_eq_zero_iff.mpr hsplit)
      constructor
      · intro summary hasked hok
        rw [hanswer] at hok
        cases hok
        rw [← drop_computeSplit hmore]
        exact ⟨rfl, rfl⟩
      · rintro (hunasked | ⟨e, herror⟩)
        · simp [hover, hmore] at hunasked
        · rw [hanswer] at herror
          cases herror
  · simp [hcompactor]

end RunContext

theorem resultsInFront_of_beginsWithUser {ms : List Message} (h : beginsWithUser ms = true) :
    resultsInFront ms = [] := by
  cases ms with
  | nil => rfl
  | cons m ms =>
    cases m with
    | user => rfl
    | assistant | toolResult => cases h

/-- A cut loses the groups in front of it, and changes none behind it. -/
theorem toolGroups_suffix {sent ms : List Message} (h : sent <:+ ms) :
    toolGroups sent <:+ toolGroups ms := by
  obtain ⟨front, rfl⟩ := h
  induction front with
  | nil => exact List.suffix_rfl
  | cons m front ih =>
    cases m with
    | toolResult => exact ih
    | user | assistant => exact ih.trans (List.suffix_cons _ _)

theorem firstFitting_of_all {ms : List Message} {maxTokens : ℕ} {fixedOverhead : UInt32}
    {boundaries : List ℕ} {rest : List Message}
    (h : firstFitting ms maxTokens fixedOverhead boundaries = some rest) :
    ∃ b ∈ boundaries, rest = ms.drop b := by
  induction boundaries with
  | nil => cases h
  | cons b boundaries ih =>
    simp only [firstFitting] at h
    split_ifs at h with hsplit hfits
    · obtain ⟨b', hmem, hrest⟩ := ih h
      exact ⟨b', List.mem_cons_of_mem b hmem, hrest⟩
    · cases h
      exact ⟨b, List.mem_cons_self, rfl⟩
    · obtain ⟨b', hmem, hrest⟩ := ih h
      exact ⟨b', List.mem_cons_of_mem b hmem, hrest⟩

theorem beginsWithUser_drop {ms : List Message} {b : ℕ} (h : b ∈ userBoundaries ms) :
    beginsWithUser (ms.drop b) = true := by
  unfold userBoundaries at h
  rw [List.mem_filter] at h
  unfold beginsWithUser
  rw [List.head?_drop]
  exact h.2

/-- A truncation cuts in front of a turn, if the messages begin with one. -/
theorem truncateToBudgetWithOverhead_cut {ms : List Message} (maxTokens : ℕ)
    (fixedOverhead : UInt32) (h : beginsWithUser ms = true) :
    truncateToBudgetWithOverhead ms maxTokens fixedOverhead <:+ ms ∧
      beginsWithUser (truncateToBudgetWithOverhead ms maxTokens fixedOverhead) = true := by
  unfold truncateToBudgetWithOverhead
  split_ifs with hfits
  · exact ⟨List.suffix_rfl, h⟩
  · cases ms with
    | nil => cases h
    | cons m ms =>
      have huser : m.isUser = true := h
      simp only [huser, if_true]
      cases hfirst : firstFitting (m :: ms) maxTokens fixedOverhead (userBoundaries (m :: ms)) with
      | some rest =>
        obtain ⟨b, hmem, rfl⟩ := firstFitting_of_all hfirst
        exact ⟨List.drop_suffix b _, beginsWithUser_drop hmem⟩
      | none =>
        have hne : userBoundaries (m :: ms) ≠ [] := by
          rw [userBoundaries_cons, if_pos huser]
          exact List.cons_ne_nil _ _
        rw [List.getLastD_eq_getLast?, List.getLast?_eq_getLast_of_ne_nil hne, Option.getD_some]
        exact ⟨List.drop_suffix _ _, beginsWithUser_drop (List.getLast_mem hne)⟩

/-- The messages behind a request are those of the transcript from some turn on, or a summary in
front of them. -/
inductive Cut (transcript : List Message) : List Message → Prop
  | kept {sent : List Message} (h : sent <:+ transcript) (hbegins : beginsWithUser sent = true) :
    Cut transcript sent
  | summarised {kept : List Message} (summary : String) (h : kept <:+ transcript)
    (hbegins : beginsWithUser kept = true) : Cut transcript (summaryMessage summary :: kept)

namespace Cut

theorem beginsWithUser {transcript sent : List Message} (h : Cut transcript sent) :
    beginsWithUser sent = true := by
  cases h with
  | kept _ hbegins => exact hbegins
  | summarised => rfl

/-- A further cut of the same kind. -/
theorem trans {transcript sent rest : List Message} (h : Cut transcript sent)
    (hrest : rest <:+ sent) (hbegins : Guigu.beginsWithUser rest = true) :
    Cut transcript rest := by
  cases h with
  | kept hsent => exact .kept (hrest.trans hsent) hbegins
  | @summarised kept summary hkept hkeptBegins =>
    rcases List.suffix_cons_iff.mp hrest with rfl | hinner
    · exact .summarised summary hkept hkeptBegins
    · exact .kept (hinner.trans hkept) hbegins

theorem toolGroups {transcript sent : List Message} (h : Cut transcript sent) :
    ∃ kept, kept <:+ Guigu.toolGroups transcript ∧ (Guigu.toolGroups sent = kept ∨
      ∃ summary, Guigu.toolGroups sent = (summaryMessage summary, []) :: kept) := by
  cases h with
  | kept hsent => exact ⟨_, toolGroups_suffix hsent, .inl rfl⟩
  | @summarised kept summary hkept hbegins =>
    refine ⟨_, toolGroups_suffix hkept, .inr ⟨summary, ?_⟩⟩
    show (summaryMessage summary, resultsInFront kept) :: Guigu.toolGroups kept = _
    rw [resultsInFront_of_beginsWithUser hbegins]

end Cut

theorem applyFinalProjection_cut {rt : AgentRuntime} (env : TurnEnv)
    {transcript messages : List Message} (hook : rt.loopConfig.transformContext = false)
    (h : Cut transcript messages) : Cut transcript (applyFinalProjection rt env messages) := by
  unfold applyFinalProjection ContextBudget.truncate
  rw [if_neg (by simp [hook])]
  obtain ⟨hsuffix, hbegins⟩ := truncateToBudgetWithOverhead_cut _ _ h.beginsWithUser
  exact h.trans hsuffix hbegins

theorem Planned.cut {transcript : List Message} {policy : CompactionPolicy}
    {compacted : Except CompactionError String} {p : PreparedContext}
    (h : Planned transcript policy compacted (.ok p)) (hbegins : beginsWithUser transcript = true) :
    Cut transcript p.requestMessages := by
  cases h with
  | fits => exact .kept List.suffix_rfl hbegins
  | truncated =>
    obtain ⟨hsuffix, hcut⟩ := truncateToBudgetWithOverhead_cut policy.budgetTokens 0 hbegins
    exact .kept hsuffix hcut
  | committed _ hsplit =>
    obtain ⟨m, hm, huser⟩ := computeSplit_user hsplit
    refine .summarised _ (List.drop_suffix _ _) ?_
    unfold beginsWithUser
    rw [List.head?_drop, hm]
    exact huser

namespace RunContext

theorem prepareRequestMessages_cut {rt : AgentRuntime} {ctx : RunContext} {env : TurnEnv}
    (hook : rt.loopConfig.transformContext = false)
    (hbegins : beginsWithUser ctx.transcript = true) (h : env.compacted ≠ .error .cancelled) :
    ∃ messages, (ctx.prepareRequestMessages rt env).1 = some messages ∧
      Cut ctx.transcript messages := by
  unfold prepareRequestMessages
  by_cases hcompactor : rt.loopConfig.compactor = true
  · rw [if_pos hcompactor]
    have hplanned := planContext_planned ctx.transcript rt.loopConfig.compaction env.compacted
    cases hplan : planContext ctx.transcript rt.loopConfig.compaction env.compacted with
    | ok prepared =>
      rw [hplan] at hplanned
      exact ⟨_, rfl, applyFinalProjection_cut env hook (hplanned.cut hbegins)⟩
    | error e =>
      rw [hplan] at hplanned
      cases hplanned with
      | cancelled _ _ hcancelled => exact absurd hcancelled h
  · rw [if_neg hcompactor]
    exact ⟨_, rfl, applyFinalProjection_cut env hook (.kept List.suffix_rfl hbegins)⟩

/-- The messages that are sent begin with a `User` message, so there are some, and keep behind
each answer the results of all its calls: their groups are the last ones of the transcript, whole,
behind a summary or not. -/
theorem sentMessages_keepGroups {rt : AgentRuntime} {ctx : RunContext} {env : TurnEnv}
    (hook : rt.loopConfig.transformContext = false)
    (hbegins : beginsWithUser ctx.transcript = true)
    (hgroups : ∀ group ∈ toolGroups ctx.transcript, Answered group)
    (h : env.compacted ≠ .error .cancelled) :
    ∃ messages, (ctx.prepareRequestMessages rt env).1 = some messages ∧
      beginsWithUser messages = true ∧ (∀ group ∈ toolGroups messages, Answered group) ∧
      ∃ kept, kept <:+ toolGroups ctx.transcript ∧ (toolGroups messages = kept ∨
        ∃ summary, toolGroups messages = (summaryMessage summary, []) :: kept) := by
  obtain ⟨messages, hsent, hcut⟩ := prepareRequestMessages_cut hook hbegins h
  obtain ⟨kept, hkept, hsplit⟩ := hcut.toolGroups
  refine ⟨messages, hsent, hcut.beginsWithUser, ?_, kept, hkept, hsplit⟩
  have hanswered : ∀ group ∈ kept, Answered group :=
    fun group hgroup => hgroups group (hkept.mem hgroup)
  rcases hsplit with heq | ⟨summary, heq⟩
  · rwa [heq]
  · rw [heq]
    exact List.forall_mem_cons.mpr ⟨List.nil_subperm, hanswered⟩

/-- A turn with a call is compacted, the turn behind it is sent behind the summary. -/
theorem sentMessages_compactedCall :
    let rt := { AgentRuntime.withBash with loopConfig := { LoopConfig.default with
      compactor := true, compaction := { CompactionPolicy.default with budgetTokens := 3 } } }
    let transcript := [helloMessage, .assistant callingAnswer,
      .toolResult ⟨"c1", "bash", false, [.text "done"], none, 0⟩, helloMessage]
    ∃ messages, ((RunContext.start transcript).prepareRequestMessages rt
        { TurnEnv.cut with compacted := .ok "summary" }).1 = some messages ∧
      beginsWithUser messages = true ∧ (∀ group ∈ toolGroups messages, Answered group) ∧
      ∃ kept, kept <:+ toolGroups transcript ∧ (toolGroups messages = kept ∨
        ∃ summary, toolGroups messages = (summaryMessage summary, []) :: kept) :=
  sentMessages_keepGroups rfl rfl (by unfold Answered; decide) (by simp)

end RunContext

end Guigu
