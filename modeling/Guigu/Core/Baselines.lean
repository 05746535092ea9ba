import Guigu.Core.Runtime.Loop
import Guigu.Core.Truncation

/-! Estimates that rest on the usage of an answer, and what they do to truncation and compaction:
the recorded input covers messages that have been dropped since. -/
namespace Guigu

def tokensOf (messages : List Message) : UInt64 :=
  (messages.map fun m => (estimateMessageTokens m).toUInt64).sum

/-- The estimate of messages by their content. -/
def contentEstimate (messages : List Message) (fixedOverhead : UInt32) : UInt64 :=
  fixedOverhead.toUInt64 + tokensOf messages

/-- The estimate that rests on a recorded input. -/
def recordedEstimate (usage : UInt64 × List Message) : UInt64 := usage.1 + tokensOf usage.2

theorem tokensOf_append (front rest : List Message) :
    tokensOf (front ++ rest) = tokensOf front + tokensOf rest := by
  unfold tokensOf
  rw [List.map_append, List.sum_append]

theorem estimateTotal_of_usage {ms : List Message} {usage : UInt64 × List Message}
    (h : lastUsage ms = some usage) (fixedOverhead : UInt32) :
    estimateTotal ms fixedOverhead = recordedEstimate usage := by
  obtain ⟨input, behind⟩ := usage
  simp only [estimateTotal, h]
  rfl

theorem estimateTotal_of_none {ms : List Message} (h : lastUsage ms = none)
    (fixedOverhead : UInt32) :
    estimateTotal ms fixedOverhead = contentEstimate ms fixedOverhead := by
  simp only [estimateTotal, h]
  rfl

/-- The last usage stays the last one, whatever stands in front of it. -/
theorem lastUsage_append {rest : List Message} {usage : UInt64 × List Message}
    (h : lastUsage rest = some usage) (front : List Message) :
    lastUsage (front ++ rest) = some usage := by
  induction front with
  | nil => exact h
  | cons m front ih =>
    rw [List.cons_append]
    simp only [lastUsage, ih]

theorem lastUsage_append_of_none {rest : List Message} (h : lastUsage rest = none)
    (front : List Message) :
    lastUsage (front ++ rest) = (lastUsage front).map fun usage => (usage.1, usage.2 ++ rest) := by
  induction front with
  | nil => exact h
  | cons m front ih =>
    rw [List.cons_append]
    simp only [lastUsage, ih]
    cases lastUsage front with
    | some usage => rfl
    | none =>
      cases m with
      | user | toolResult => rfl
      | assistant a =>
        simp only [Option.map_none, Option.map_map]
        rfl

theorem lt_add_iff {x d : UInt64} : x < x + d ↔ 0 < d ∧ x.toNat + d.toNat < 2 ^ 64 := by
  rw [UInt64.lt_iff_toNat_lt, UInt64.lt_iff_toNat_lt, UInt64.toNat_add]
  have hx := x.toNat_lt
  have hd := d.toNat_lt
  show _ ↔ 0 < d.toNat ∧ _
  omega

/-! ### Truncation -/

/-- Dropping turns lowers the estimate, and no turn is dropped for messages that fit by their
content. -/
structure MakesProgress (fixedOverhead : UInt32) (ms : List Message) : Prop where
  lowers : ∀ front rest, front ≠ [] → beginsWithUser rest = true → front ++ rest = ms →
    estimateTotal rest fixedOverhead < estimateTotal ms fixedOverhead
  spares : ∀ (maxTokens : ℕ) (longer : List Message), longer = ms ∨ TurnSuffix longer ms →
    (truncateToBudgetWithOverhead ms maxTokens fixedOverhead).length < longer.length →
    maxTokens < (contentEstimate longer fixedOverhead).toNat

/-- No usage is left behind what is dropped. The messages that are dropped have content, or the
last usage among them was recorded as more than what is left and no more than there was. -/
structure Unspoilt (fixedOverhead : UInt32) (front rest : List Message) : Prop where
  unrecorded : lastUsage rest = none
  dropped : lastUsage front = none → 0 < tokensOf front ∧
    (contentEstimate rest fixedOverhead).toNat + (tokensOf front).toNat < 2 ^ 64
  recorded : ∀ usage ∈ lastUsage front,
    contentEstimate rest fixedOverhead < recordedEstimate (usage.1, usage.2 ++ rest) ∧
      recordedEstimate (usage.1, usage.2 ++ rest) ≤ contentEstimate (front ++ rest) fixedOverhead

variable {fixedOverhead : UInt32} {front rest ms : List Message}

theorem contentEstimate_append (fixedOverhead : UInt32) (front rest : List Message) :
    contentEstimate (front ++ rest) fixedOverhead =
      contentEstimate rest fixedOverhead + tokensOf front := by
  unfold contentEstimate
  rw [tokensOf_append, add_comm (tokensOf front), add_assoc]

/-- The estimate falls when no usage is left, and the dropped messages count. -/
theorem estimateTotal_lt_iff :
    estimateTotal rest fixedOverhead < estimateTotal (front ++ rest) fixedOverhead ↔
      lastUsage rest = none ∧
        (lastUsage front = none → 0 < tokensOf front ∧
          (contentEstimate rest fixedOverhead).toNat + (tokensOf front).toNat < 2 ^ 64) ∧
        ∀ usage ∈ lastUsage front,
          contentEstimate rest fixedOverhead < recordedEstimate (usage.1, usage.2 ++ rest) := by
  cases hrest : lastUsage rest with
  | some usage =>
    -- the rest is estimated as the whole
    rw [estimateTotal_of_usage hrest, estimateTotal_of_usage (lastUsage_append hrest front)]
    exact iff_of_false (UInt64.lt_irrefl _) fun h => by cases h.1
  | none =>
    have hwhole := lastUsage_append_of_none hrest front
    rw [estimateTotal_of_none hrest]
    cases hfront : lastUsage front with
    | none =>
      rw [hfront] at hwhole
      rw [estimateTotal_of_none hwhole, contentEstimate_append, lt_add_iff]
      exact ⟨fun h => ⟨rfl, fun _ => h, nofun⟩, fun h => h.2.1 rfl⟩
    | some usage =>
      rw [hfront] at hwhole
      rw [estimateTotal_of_usage hwhole]
      refine ⟨fun h => ⟨rfl, nofun, fun usage' husage => ?_⟩, fun h => h.2.2 usage rfl⟩
      obtain rfl := Option.some.inj husage
      exact h

namespace Unspoilt

theorem estimate_rest (h : Unspoilt fixedOverhead front rest) :
    estimateTotal rest fixedOverhead = contentEstimate rest fixedOverhead :=
  estimateTotal_of_none h.unrecorded fixedOverhead

theorem estimate_le (h : Unspoilt fixedOverhead front rest) :
    estimateTotal (front ++ rest) fixedOverhead ≤
      contentEstimate (front ++ rest) fixedOverhead := by
  have hwhole := lastUsage_append_of_none h.unrecorded front
  cases hfront : lastUsage front with
  | none =>
    rw [hfront] at hwhole
    rw [estimateTotal_of_none hwhole]
    exact UInt64.le_refl _
  | some usage =>
    rw [hfront] at hwhole
    rw [estimateTotal_of_usage hwhole]
    exact (h.recorded usage hfront).2

theorem lowers (h : Unspoilt fixedOverhead front rest) :
    estimateTotal rest fixedOverhead < estimateTotal (front ++ rest) fixedOverhead :=
  estimateTotal_lt_iff.mpr
    ⟨h.unrecorded, h.dropped, fun usage husage => (h.recorded usage husage).1⟩

end Unspoilt

/-- Messages that do not fit lose a turn, if there is one to lose. -/
theorem length_truncateToBudgetWithOverhead_lt (hfront : front ≠ [])
    (hbegins : beginsWithUser rest = true) {maxTokens : ℕ}
    (hover : fitsIn maxTokens fixedOverhead (front ++ rest) = false) :
    (truncateToBudgetWithOverhead (front ++ rest) maxTokens fixedOverhead).length <
      (front ++ rest).length := by
  have hrest : TurnSuffix rest (front ++ rest) := ⟨List.suffix_append _ _, hbegins⟩
  have hshort : rest.length < (front ++ rest).length := by
    rw [List.length_append]
    exact Nat.lt_add_of_pos_left (List.length_pos_of_ne_nil hfront)
  have htruncated := truncateToBudgetWithOverhead_cases (front ++ rest) maxTokens fixedOverhead
  generalize truncateToBudgetWithOverhead (front ++ rest) maxTokens fixedOverhead = kept
    at htruncated
  cases htruncated with
  | whole h => cases h.symm.trans hover
  | longest _ hsuffix hfits =>
    refine lt_of_le_of_ne hsuffix.1.length_le fun heq => ?_
    rw [hsuffix.1.eq_of_length heq] at hfits
    cases hfits.symm.trans hover
  | lastTurn _ _ _ hmin => exact (hmin rest hrest).trans_lt hshort
  | noTurn _ hnone => exact absurd hrest (hnone rest)

/-- A suffix that is shorter than the whole has something in front of it. -/
theorem TurnSuffix.exists_front (h : TurnSuffix rest ms) (hshort : rest.length < ms.length) :
    ∃ front, front ≠ [] ∧ front ++ rest = ms := by
  obtain ⟨front, rfl⟩ := h.1
  refine ⟨front, ?_, rfl⟩
  rintro rfl
  exact absurd hshort (lt_irrefl _)

/-- Truncation makes progress exactly when no later turn carries usage, and what is dropped counts
as its content. -/
theorem makesProgress_iff (fixedOverhead : UInt32) (ms : List Message) :
    MakesProgress fixedOverhead ms ↔
      ∀ front rest, front ≠ [] → beginsWithUser rest = true → front ++ rest = ms →
        Unspoilt fixedOverhead front rest := by
  constructor
  · rintro h front rest hfront hbegins rfl
    obtain ⟨hnone, hdropped, hrecorded⟩ :=
      estimateTotal_lt_iff.mp (h.lowers front rest hfront hbegins rfl)
    refine ⟨hnone, hdropped, fun usage husage => ⟨hrecorded usage husage, ?_⟩⟩
    have hwhole := lastUsage_append_of_none hnone front
    rw [husage] at hwhole
    refine UInt64.not_lt.mp fun habove => ?_
    have hover : fitsIn (contentEstimate (front ++ rest) fixedOverhead).toNat fixedOverhead
        (front ++ rest) = false := by
      refine decide_eq_false (not_le.mpr ?_)
      rw [estimateTotal_of_usage hwhole]
      exact UInt64.lt_iff_toNat_lt.mp habove
    have hcut := length_truncateToBudgetWithOverhead_lt hfront hbegins hover
    exact absurd (h.spares _ _ (.inl rfl) hcut) (lt_irrefl _)
  · intro h
    refine ⟨?_, ?_⟩
    · rintro front rest hfront hbegins rfl
      exact (h front rest hfront hbegins rfl).lowers
    intro maxTokens longer hlonger hcut
    have htruncated := truncateToBudgetWithOverhead_cases ms maxTokens fixedOverhead
    generalize truncateToBudgetWithOverhead ms maxTokens fixedOverhead = kept at hcut htruncated
    have hle : longer.length ≤ ms.length := by
      rcases hlonger with rfl | hlonger
      · exact le_rfl
      · exact hlonger.1.length_le
    have hkept : TurnSuffix kept ms ∧ fitsIn maxTokens fixedOverhead ms = false := by
      cases htruncated with
      | whole => exact absurd hle (not_le.mpr hcut)
      | longest hover hrest | lastTurn hover hrest => exact ⟨hrest, hover⟩
      | noTurn => exact absurd hle (not_le.mpr hcut)
    by_cases hwhole : longer = ms
    · obtain ⟨front, hfront, rfl⟩ := hkept.1.exists_front (hwhole ▸ hcut)
      have hestimate := (h front kept hfront hkept.1.2 rfl).estimate_le
      rw [hwhole]
      exact (not_le.mp (of_decide_eq_false hkept.2)).trans_le (UInt64.le_iff_toNat_le.mp hestimate)
    · have hlonger := hlonger.resolve_left hwhole
      obtain ⟨front, hfront, hms⟩ := hlonger.exists_front
        (lt_of_le_of_ne hle fun heq => hwhole (hlonger.1.eq_of_length heq))
      have hover : fitsIn maxTokens fixedOverhead longer = false := by
        refine Bool.eq_false_iff.mpr fun hfits => ?_
        cases htruncated with
        | whole => exact absurd hle (not_le.mpr hcut)
        | longest _ _ _ hmax => exact absurd (hmax longer hlonger hfits) (not_le.mpr hcut)
        | lastTurn _ _ hnone => cases hfits.symm.trans (hnone longer hlonger)
        | noTurn _ hnone => exact hnone longer hlonger
      rw [← (h front longer hfront hlonger.2 hms).estimate_rest]
      exact not_le.mp (of_decide_eq_false hover)

/-- An answer that was given to an input of `n` tokens. -/
def answerTo (n : UInt64) : Message :=
  .assistant ⟨[.text "hello"], none, some ⟨n, 0, 0, 0, 0, none⟩, some .completed, none, 0⟩

/-- The input of the last answer stays in the estimate when the first turn is dropped. -/
theorem makesProgress_recorded :
    ¬ ∀ (fixedOverhead : UInt32) (ms : List Message), MakesProgress fixedOverhead ms := by
  intro h
  have hlower := (h 0 [helloMessage, helloMessage, answerTo 1000]).lowers [helloMessage]
    [helloMessage, answerTo 1000] (by decide) rfl rfl
  exact absurd hlower (by decide +kernel)

/-! ### Compaction -/

/-- Whatever the compactor would answer, the transcript is sent as it is. -/
def Settled (policy : CompactionPolicy) (transcript : List Message) : Prop :=
  ∀ compacted, planContext transcript policy compacted = .ok ⟨transcript, none⟩

/-- A cut at a boundary leaves the turns from there on. -/
theorem turnsOf_drop_boundary (ms : List Message) (i : ℕ) :
    turnsOf (ms.drop ((userBoundaries ms).getD i ms.length)) = (turnsOf ms).drop i := by
  induction ms generalizing i with
  | nil => simp [turnsOf]
  | cons m ms ih =>
    have hshift (j : ℕ) : ((userBoundaries ms).map (· + 1)).getD j (ms.length + 1) =
        (userBoundaries ms).getD j ms.length + 1 := by
      rw [List.getD_eq_getElem?_getD, List.getElem?_map, List.getD_eq_getElem?_getD]
      cases (userBoundaries ms)[j]? <;> rfl
    rw [userBoundaries_cons, List.length_cons]
    cases huser : m.isUser with
    | true =>
      cases i with
      | zero => rfl
      | succ i =>
        have hturns : turnsOf (m :: ms) = (m :: ms.takeWhile fun m => !m.isUser) :: turnsOf ms := by
          simp only [turnsOf, huser, if_true]
        rw [if_pos rfl, List.singleton_append, List.getD_cons_succ, hshift, List.drop_succ_cons, ih,
          hturns, List.drop_succ_cons]
    | false =>
      have hturns : turnsOf (m :: ms) = turnsOf ms := by
        simp only [turnsOf, huser, Bool.false_eq_true, if_false]
      rw [if_neg Bool.false_ne_true, List.nil_append, hshift, List.drop_succ_cons, ih, hturns]

/-- Behind the split of a compaction there are as many turns as are kept. -/
theorem length_turnsOf_split {ms : List Message} {keepRecent : ℕ}
    (h : computeSplit ms keepRecent ≠ 0) :
    (turnsOf (ms.drop (computeSplit ms keepRecent))).length = max keepRecent 1 := by
  have hmore := not_le.mp (mt computeSplit_eq_zero_iff.mpr h)
  rw [length_turnsOf] at hmore
  have hlt : (userBoundaries ms).length - max keepRecent 1 < (userBoundaries ms).length := by omega
  have hsplit : computeSplit ms keepRecent =
      (userBoundaries ms).getD ((userBoundaries ms).length - max keepRecent 1) ms.length := by
    unfold computeSplit
    rw [if_neg (not_le.mpr hmore)]
    simp only [List.getD_eq_getElem?_getD, List.getElem?_eq_getElem hlt, Option.getD_some]
  rw [hsplit, turnsOf_drop_boundary, List.length_drop, length_turnsOf]
  omega

/-- A transcript with turns to spare is sent as it is when its estimate is within the budget, and
only then. -/
theorem settled_iff {policy : CompactionPolicy} {transcript : List Message}
    (h : max policy.keepRecent 1 < (turnsOf transcript).length) :
    Settled policy transcript ↔ (estimateTotal transcript 0).toNat ≤ policy.budgetTokens := by
  constructor
  · intro hsettled
    refine not_lt.mp fun hover => ?_
    have hsplit : computeSplit transcript policy.keepRecent ≠ 0 :=
      mt computeSplit_eq_zero_iff.mp (not_le.mpr h)
    -- an answer of the compactor would be committed
    have hplan := hsettled (.ok "")
    rw [planContext, if_neg (not_le.mpr hover)] at hplan
    simp only [if_neg hsplit] at hplan
    exact absurd (congrArg PreparedContext.commit (Except.ok.inj hplan)) (by simp)
  · intro hfits compacted
    exact if_pos hfits

/-- A compaction whose summary and kept turns are within the budget by their content is not
followed by another one, nor by a truncation, exactly when the last usage that was kept is within
the budget, too. -/
theorem commitCompaction_settled_iff {ctx : RunContext} {policy : CompactionPolicy}
    {summary : String} {p : PreparedContext} {commit : CompactionCommit}
    (hplan : planContext ctx.transcript policy (.ok summary) = .ok p)
    (hcommit : p.commit = some commit)
    (hcontent : (contentEstimate p.requestMessages 0).toNat ≤ policy.budgetTokens) :
    Settled policy (ctx.commitCompaction commit).transcript ↔
      ∀ usage ∈ lastUsage (ctx.transcript.drop commit.keepFrom),
        (recordedEstimate usage).toNat ≤ policy.budgetTokens := by
  have hplanned := planContext_planned ctx.transcript policy (.ok summary)
  rw [hplan] at hplanned
  cases hplanned with
  | fits | truncated => cases hcommit
  | committed _ hsplit hok =>
    obtain rfl := Except.ok.inj hok
    obtain rfl := Option.some.inj hcommit
    have hturns : max policy.keepRecent 1 <
        (turnsOf (summaryMessage summary ::
          ctx.transcript.drop (computeSplit ctx.transcript policy.keepRecent))).length := by
      show _ < (turnsOf _).length + 1
      rw [length_turnsOf_split hsplit]
      exact Nat.lt_succ_self _
    show Settled policy (summaryMessage summary :: ctx.transcript.drop _) ↔ _
    rw [settled_iff hturns]
    generalize ctx.transcript.drop (computeSplit ctx.transcript policy.keepRecent) = kept
      at hcontent ⊢
    cases husage : lastUsage kept with
    | none =>
      have hnone : lastUsage (summaryMessage summary :: kept) = none :=
        lastUsage_append_of_none husage [summaryMessage summary]
      rw [estimateTotal_of_none hnone]
      exact iff_of_true hcontent nofun
    | some usage =>
      have hsome : lastUsage (summaryMessage summary :: kept) = some usage :=
        lastUsage_append husage [summaryMessage summary]
      rw [estimateTotal_of_usage hsome]
      refine ⟨fun h usage' husage' => ?_, fun h => h usage rfl⟩
      obtain rfl := Option.some.inj husage'
      exact h

theorem commitCompaction_settled_question :
    Settled ⟨8, 1, 0, 0⟩
        ((RunContext.start [helloMessage, answerTo 9, helloMessage]).commitCompaction
          ⟨"all", 2⟩).transcript ↔
      ∀ usage ∈ lastUsage [helloMessage], (recordedEstimate usage).toNat ≤ 8 :=
  @commitCompaction_settled_iff _ _ "all" ⟨[summaryMessage "all", helloMessage], some ⟨"all", 2⟩⟩ _
    (by decide +kernel) rfl (by decide +kernel)

/-- The input of an answer that is kept counts what the summary has replaced. -/
theorem commitCompaction_unsettled :
    ¬ ∀ (ctx : RunContext) (policy : CompactionPolicy) (summary : String) (p : PreparedContext)
      (commit : CompactionCommit),
      planContext ctx.transcript policy (.ok summary) = .ok p → p.commit = some commit →
      (contentEstimate p.requestMessages 0).toNat ≤ policy.budgetTokens →
      Settled policy (ctx.commitCompaction commit).transcript := by
  intro h
  have hsettled := h (RunContext.start [helloMessage, helloMessage, answerTo 9]) ⟨8, 1, 0, 0⟩ "all"
    ⟨[summaryMessage "all", helloMessage, answerTo 9], some ⟨"all", 1⟩⟩ ⟨"all", 1⟩
    (by decide +kernel) rfl (by decide +kernel)
  exact absurd (hsettled (.ok "all")) (by decide +kernel)

end Guigu
