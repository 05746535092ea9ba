import Guigu.Adapters.Representation
import Guigu.Adapters.Room
import Guigu.Adapters.Sending

/-! When mapping an event of an Anthropic stream returns. -/
namespace Guigu

open Serde Panicking

namespace Anthropic

variable {room : ℕ} {acc : Acc}

/-- There is room for the block that is started. -/
def StartFits (room : ℕ) (v : Json) (acc : Acc) : Prop :=
  ∀ s ∈ startOf v, acc.blockKind s.1 = none → s.1 < tableEnd room

/-- The tokens of an answer can be added up. -/
def UsageFits (v : Json) (acc : Acc) : Prop :=
  ∀ usage ∈ nonNull (get "usage" v),
    (if 0 < acc.inputTokens then acc.inputTokens.toNat else (getU64 "input_tokens" usage).getD 0) +
      (getU64 "output_tokens" usage).getD 0 < 2 ^ 64

def Fits (room : ℕ) (sse : SseEvent) (acc : Acc) : Prop :=
  ∀ e ∈ eventOf sse, (e.1 = "content_block_start" → StartFits room e.2 acc) ∧
    (e.1 = "message_delta" → UsageFits e.2 acc)

/-- There is room for the block that an event starts. -/
def IndexesFit (room : ℕ) (sse : SseEvent) (acc : Acc) : Prop :=
  ∀ e ∈ eventOf sse, e.1 = "content_block_start" → StartFits room e.2 acc

instance (sse : SseEvent) (acc : Acc) : Decidable (IndexesFit room sse acc) :=
  inferInstanceAs (Decidable (∀ e ∈ eventOf sse, e.1 = "content_block_start" →
    ∀ s ∈ startOf e.2, acc.blockKind s.1 = none → s.1 < tableEnd room))

def TokensFit (sse : SseEvent) (acc : Acc) : Prop :=
  ∀ e ∈ eventOf sse, e.1 = "message_delta" → UsageFits e.2 acc

theorem fits_iff (sse : SseEvent) :
    Fits room sse acc ↔ IndexesFit room sse acc ∧ TokensFit sse acc :=
  ⟨fun h => ⟨fun e he => (h e he).1, fun e he => (h e he).2⟩,
    fun h e he => ⟨h.1 e he, h.2 e he⟩⟩

theorem startOf_index {v : Json} {s : ℕ × Block} (h : startOf v = some s) :
    getU64 "index" v = some s.1 := by
  obtain ⟨index, hindex, h⟩ := Option.bind_eq_some_iff.mp h
  obtain ⟨block, -, h⟩ := Option.bind_eq_some_iff.mp h
  obtain ⟨blockType, -, h⟩ := Option.bind_eq_some_iff.mp h
  split_ifs at h
  · obtain ⟨id, -, h⟩ := Option.bind_eq_some_iff.mp h
    obtain ⟨name, -, h⟩ := Option.bind_eq_some_iff.mp h
    cases h
    exact hindex
  · cases h
    exact hindex
  · cases h
    exact hindex

theorem startFits_of_none {v : Json} (h : startOf v = none) : StartFits room v acc := by
  intro s hs
  rw [h] at hs
  cases hs

/-- A block is started, and then its index gets an entry. -/
theorem noted_follows {index : ℕ} (start : Acc → ℕ × Acc) (kind : ℕ → SegmentKind)
    (events : List AssistantEvent)
    (hshort : (start acc).2.blockKinds.length ≤ tableEnd room) :
    Follows (do
        let i ← modifyGet start
        Handling.noteBlock room index (kind i)
        return events : Handling (List AssistantEvent)) acc (index < tableEnd room)
      (.ok (events, (start acc).2.noteBlock index (kind (start acc).1))) := by
  apply Follows.last (outcome_modifyGet start acc)
  · intro hfits
    exact outcome_bind_ok (Handling.noteBlock_returns hfits _ _)
  · intro hnot
    obtain ⟨p, hp⟩ := Handling.noteBlock_panics hshort hnot (kind (start acc).1)
    exact ⟨p, outcome_bind_panic hp⟩

theorem handleBlockStart_follows (hshort : acc.blockKinds.length ≤ tableEnd room) (v : Json) :
    Follows (Handling.Anthropic.handleBlockStart room v) acc (StartFits room v acc)
      (handleBlockStart v acc) := by
  apply Handling.require_follows
  · intro hnone
    exact startFits_of_none (by simp [startOf, hnone])
  intro index hindex
  apply Follows.bind (outcome_get acc)
  split_ifs with hstarted
  · apply Handling.refuse_follows
    intro s hs hfree
    obtain rfl := Option.some.inj (hindex.symm.trans (startOf_index hs))
    simp [hfree] at hstarted
  have hfree : acc.blockKind index = none := by simpa using hstarted
  apply Handling.require_follows
  · intro hnone
    exact startFits_of_none (by simp [startOf, hindex, hnone])
  intro block hblock
  apply Handling.require_follows
  · intro hnone
    exact startFits_of_none (by simp [startOf, hindex, hblock, hnone])
  intro blockType htype
  have hfits : ∀ b, startOf v = some (index, b) →
      (index < tableEnd room ↔ StartFits room v acc) := by
    intro b hb
    unfold StartFits
    rw [hb]
    simp [hfree]
  unfold Handling.Anthropic.startBlock startBlock
  split_ifs with htool htext hthinking
  · apply Handling.require_follows
    · intro hnone
      exact startFits_of_none (by simp [startOf, hindex, hblock, htype, htool, hnone])
    intro id hid
    apply Handling.require_follows
    · intro hnone
      exact startFits_of_none (by simp [startOf, hindex, hblock, htype, htool, hid, hnone])
    intro name hname
    exact (noted_follows (·.startToolCall id name) .toolCall _ hshort).congr
      (hfits (.toolUse id name) (by simp [startOf, hindex, hblock, htype, htool, hid, hname]))
  · exact (noted_follows Acc.startTextBlock .text _ hshort).congr
      (hfits .text (by simp [startOf, hindex, hblock, htype, htext]))
  · exact (noted_follows Acc.startThinkingBlock .thinking _ hshort).congr
      (hfits .thinking (by simp [startOf, hindex, hblock, htype, hthinking]))
  · apply Handling.refuse_follows
    exact startFits_of_none (by simp [startOf, hindex, hblock, htype, htool, htext, hthinking])

/-- The blocks of the table are in bounds. -/
def Bounded (acc : Acc) : Prop :=
  ∀ index seg, acc.blockKind index = some seg → ∃ p, acc.content seg = some p

theorem textDelta_follows (hbounds : Bounded acc) (index : ℕ) (delta : Json) :
    Follows (Handling.Anthropic.textDelta index delta) acc True (textDelta index delta acc) := by
  apply Handling.require_follows fun _ => trivial
  intro text _
  apply Follows.bind (outcome_get acc)
  cases hkind : acc.blockKind index with
  | none => exact Handling.refuse_follows trivial
  | some seg =>
    cases seg with
    | text i =>
      obtain ⟨p, hp⟩ := hbounds _ _ hkind
      apply Follows.of_outcome trivial
      exact outcome_bind_ok (Handling.appendTextBlock_returns (Acc.lt_of_content hp) text)
    | _ => exact Handling.refuse_follows trivial

theorem thinkingDelta_follows (hbounds : Bounded acc) (index : ℕ) (delta : Json) :
    Follows (Handling.Anthropic.thinkingDelta index delta) acc True
      (thinkingDelta index delta acc) := by
  apply Handling.require_follows fun _ => trivial
  intro thinking _
  apply Follows.bind (outcome_get acc)
  cases hkind : acc.blockKind index with
  | none => exact Handling.refuse_follows trivial
  | some seg =>
    cases seg with
    | thinking i =>
      obtain ⟨p, hp⟩ := hbounds _ _ hkind
      apply Follows.of_outcome trivial
      exact outcome_bind_ok (Handling.appendThinkingBlock_returns (Acc.lt_of_content hp) thinking)
    | _ => exact Handling.refuse_follows trivial

theorem inputJsonDelta_follows (index : ℕ) (delta : Json) :
    Follows (Handling.Anthropic.inputJsonDelta index delta) acc True
      (inputJsonDelta index delta acc) := by
  apply Handling.require_follows fun _ => trivial
  intro args _
  apply Follows.bind (outcome_get acc)
  cases hkind : acc.blockKind index with
  | none => exact Handling.refuse_follows trivial
  | some seg =>
    cases seg with
    | toolCall i =>
      apply Handling.require_follows fun _ => trivial
      intro tc htc
      apply Follows.of_outcome trivial
      exact outcome_bind_ok
        (Handling.appendArguments_returns (List.getElem?_eq_some_iff.mp htc).1 args)
    | _ => exact Handling.refuse_follows trivial

theorem handleBlockDelta_follows (hbounds : Bounded acc) (v : Json) :
    Follows (Handling.Anthropic.handleBlockDelta v) acc True (handleBlockDelta v acc) := by
  apply Handling.require_follows fun _ => trivial
  intro index _
  apply Handling.require_follows fun _ => trivial
  intro delta _
  apply Handling.require_follows fun _ => trivial
  intro deltaType _
  split_ifs
  · exact textDelta_follows hbounds index delta
  · exact thinkingDelta_follows hbounds index delta
  · exact inputJsonDelta_follows index delta
  · exact Handling.refuse_follows trivial

theorem handleBlockStop_follows (v : Json) :
    Follows (Handling.Anthropic.handleBlockStop v) acc True (handleBlockStop v acc) := by
  apply Handling.require_follows fun _ => trivial
  intro index _
  apply Follows.bind (outcome_get acc)
  cases hkind : acc.blockKind index with
  | none => exact Handling.refuse_follows trivial
  | some seg =>
    cases seg with
    | toolCall i =>
      apply Handling.require_follows fun _ => trivial
      intro tc _
      split_ifs
      · exact Handling.refuse_follows trivial
      · exact .of_outcome trivial rfl
    | _ => exact .of_outcome trivial rfl

theorem mapUsage_returns {usage : Json} {accInput : UInt64}
    (h : (if 0 < accInput then accInput.toNat else (getU64 "input_tokens" usage).getD 0) +
      (getU64 "output_tokens" usage).getD 0 < 2 ^ 64) :
    outcome (Handling.Anthropic.mapUsage usage accInput) acc =
      .ok (.ok (mapUsage usage accInput), acc) := by
  apply outcome_bind_ok (Handling.addU64_returns ?_ acc)
  rw [apply_ite UInt64.toNat, Handling.toNat_tokens, Handling.toNat_tokens]
  exact h

theorem mapUsage_panics {usage : Json} {accInput : UInt64}
    (h : ¬ (if 0 < accInput then accInput.toNat else (getU64 "input_tokens" usage).getD 0) +
      (getU64 "output_tokens" usage).getD 0 < 2 ^ 64) :
    outcome (Handling.Anthropic.mapUsage usage accInput) acc = .error .overflow := by
  apply outcome_bind_panic (Handling.addU64_panics ?_ acc)
  rw [apply_ite UInt64.toNat, Handling.toNat_tokens, Handling.toNat_tokens]
  exact h

/-- The usage of a `message_delta`. -/
def withUsage (v : Json) (acc : Acc) : Acc :=
  match nonNull (get "usage" v) with
  | some usage => { acc with usage := some (mapUsage usage acc.inputTokens) }
  | none => acc

theorem recordUsage_returns {v : Json} (h : UsageFits v acc) :
    outcome (Handling.Anthropic.recordUsage v) acc = .ok (.ok (), withUsage v acc) := by
  unfold Handling.Anthropic.recordUsage withUsage
  cases husage : nonNull (get "usage" v) with
  | none => rfl
  | some usage =>
    simp only
    rw [outcome_bind_ok (outcome_get acc), outcome_bind_ok (mapUsage_returns (h usage husage))]
    rfl

theorem recordUsage_panics {v : Json} (h : ¬ UsageFits v acc) :
    outcome (Handling.Anthropic.recordUsage v) acc = .error .overflow := by
  unfold UsageFits at h
  unfold Handling.Anthropic.recordUsage
  cases husage : nonNull (get "usage" v) with
  | none => simp [husage] at h
  | some usage =>
    simp only [husage, Option.mem_some_iff, forall_eq'] at h ⊢
    rw [outcome_bind_ok (outcome_get acc), outcome_bind_panic (mapUsage_panics h)]

theorem usageFits_recordStopReason (v : Json) :
    UsageFits v (Handling.Anthropic.recordStopReason v acc) ↔ UsageFits v acc := by
  have htokens : (Handling.Anthropic.recordStopReason v acc).inputTokens = acc.inputTokens := by
    unfold Handling.Anthropic.recordStopReason
    split <;> rfl
  unfold UsageFits
  rw [htokens]

theorem messageDelta_panics {v : Json} (h : ¬ UsageFits v acc) :
    outcome (Handling.Anthropic.messageDelta v) acc = .error .overflow := by
  rw [← usageFits_recordStopReason] at h
  exact (outcome_bind_ok (outcome_modify _ acc)).trans (outcome_bind_panic (recordUsage_panics h))

theorem messageDelta_follows (v : Json) :
    Follows (Handling.Anthropic.messageDelta v) acc (UsageFits v acc)
      (.ok ([], messageDelta v acc)) := by
  have hmapped : messageDelta v acc = withUsage v (Handling.Anthropic.recordStopReason v acc) := rfl
  rw [hmapped]
  refine ⟨fun h => ?_, fun h => ⟨_, messageDelta_panics h⟩⟩
  rw [← usageFits_recordStopReason] at h
  exact (outcome_bind_ok (outcome_modify _ acc)).trans (outcome_bind_ok (recordUsage_returns h))

theorem handle_follows (hbounds : Bounded acc)
    (hshort : acc.blockKinds.length ≤ tableEnd room) (eventType : String) (v : Json) :
    Follows (Handling.Anthropic.handle room eventType v) acc
      ((eventType = "content_block_start" → StartFits room v acc) ∧
        (eventType = "message_delta" → UsageFits v acc)) (handle eventType v acc) := by
  unfold Handling.Anthropic.handle handle
  split_ifs with hstart hdelta hstop hmessage husage hdone
  · exact (handleBlockStart_follows hshort v).congr (by simp [hstart])
  · exact (handleBlockDelta_follows hbounds v).congr (by simp [hdelta])
  · exact (handleBlockStop_follows v).congr (by simp [hstop])
  · exact .of_outcome (by simp [hmessage]) rfl
  · exact (messageDelta_follows v).congr (by simp [husage])
  · exact .of_outcome (by simp [hdone]) rfl
  · exact .of_outcome (by simp [hstart, husage]) rfl

theorem dispatch_follows (hbounds : Bounded acc)
    (hshort : acc.blockKinds.length ≤ tableEnd room) (jsonError : String → String)
    (eventType data : String) :
    Follows (Handling.Anthropic.dispatch room jsonError eventType data) acc
      (∀ v ∈ fromStr data.toList, (eventType = "content_block_start" → StartFits room v acc) ∧
        (eventType = "message_delta" → UsageFits v acc))
      (dispatch jsonError eventType data acc) := by
  apply Follows.demand (g := fun v => handle eventType v acc)
  · unfold dispatch
    cases fromStr data.toList <;> rfl
  · intro hnone
    simp [hnone]
  · intro v hv
    exact (handle_follows hbounds hshort eventType v).congr (by simp [hv])

/-- An event panics unless there is room for the block it starts and its usage can be added up;
else it is mapped, and leaves the answer as it is when it is refused. -/
theorem mapEvent_follows (hbounds : Bounded acc)
    (hshort : acc.blockKinds.length ≤ tableEnd room) (jsonError : String → String)
    (sse : SseEvent) :
    Follows (Handling.Anthropic.mapEvent room jsonError sse) acc (Fits room sse acc)
      (mapEvent jsonError sse acc) := by
  cases sse with
  | named event data =>
    apply (dispatch_follows hbounds hshort jsonError event data).congr
    simp [Fits, eventOf]
  | data data =>
    apply Follows.demand (g := fun v => dispatch jsonError ((getString "type" v).getD "") data acc)
    · simp only [mapEvent]
      cases fromStr data.toList <;> rfl
    · intro hnone
      simp [Fits, eventOf, hnone]
    · intro v hv
      apply (dispatch_follows hbounds hshort jsonError _ data).congr
      simp [Fits, eventOf, hv]
  | done => exact .of_outcome (by simp [Fits, eventOf]) rfl

theorem mapEvent_handle (jsonError : String → String) {sse : SseEvent} {e : String × Json}
    (h : eventOf sse = some e) :
    outcome (Handling.Anthropic.mapEvent room jsonError sse) acc =
      outcome (Handling.Anthropic.handle room e.1 e.2) acc := by
  cases sse with
  | named event data =>
    obtain ⟨v, hv, rfl⟩ := Option.map_eq_some_iff.mp h
    rw [Handling.Anthropic.mapEvent, Handling.Anthropic.dispatch, hv]
    rfl
  | data data =>
    obtain ⟨v, hv, rfl⟩ := Option.map_eq_some_iff.mp h
    rw [Handling.Anthropic.mapEvent, hv]
    simp only [Handling.Anthropic.dispatch, hv]
    rfl
  | done => cases h

/-- A sum of tokens that is too large is a panic of its own. -/
theorem mapEvent_overflows (jsonError : String → String) {sse : SseEvent}
    (h : ¬ TokensFit sse acc) :
    outcome (Handling.Anthropic.mapEvent room jsonError sse) acc = .error .overflow := by
  unfold TokensFit at h
  push Not at h
  obtain ⟨⟨eventType, v⟩, hevent, rfl, husage⟩ := h
  rw [mapEvent_handle jsonError hevent]
  simpa [Handling.Anthropic.handle] using messageDelta_panics husage

/-- A block of every index that has one, and room for their table. -/
structure Tabled (room : ℕ) (acc : Acc) : Prop where
  placed : ∃ w, Sent w acc
  short : acc.blockKinds.length ≤ tableEnd room

theorem Tabled.bounds (hacc : Tabled room acc) : Bounded acc := by
  obtain ⟨w, hw⟩ := hacc.placed
  exact fun _ _ hseg => hw.held.present _ (hw.mem_segments hseg)

theorem mapEvent_short {jsonError : String → String} {sse : SseEvent}
    {r : List AssistantEvent × Acc} (hshort : acc.blockKinds.length ≤ tableEnd room)
    (hfits : IndexesFit room sse acc) (h : mapEvent jsonError sse acc = .ok r) :
    r.2.blockKinds.length ≤ tableEnd room := by
  obtain ⟨e, hevent, hhandle⟩ | ⟨-, rfl⟩ := mapEvent_ok h
  · obtain houtline | ⟨hstart, index, b, hs, hfree, hnext⟩ := handle_outline hhandle
    · have htable : r.2.blockKinds = acc.blockKinds := congrArg (·.2.1) houtline
      rw [htable]
      exact hshort
    · have htable : r.2.blockKinds = noteAt acc.blockKinds index (acc.started b).1 := by
        rw [hnext]
        cases b <;> rfl
      rw [htable]
      exact Handling.length_noteAt_le hshort (hfits e hevent hstart _ hs hfree) _
  · exact hshort

theorem Tabled.mapEvent {jsonError : String → String} {sse : SseEvent}
    {r : List AssistantEvent × Acc} (hacc : Tabled room acc) (hfits : Fits room sse acc)
    (h : mapEvent jsonError sse acc = .ok r) : Tabled room r.2 := by
  obtain ⟨w, hw⟩ := hacc.placed
  exact ⟨⟨_, (mapEvent_sends h w hw).1⟩,
    mapEvent_short hacc.short ((fits_iff sse).mp hfits).1 h⟩

theorem mapEvent_leaves (jsonError : String → String) (sse : SseEvent) (hacc : Tabled room acc) :
    Leaves (Tabled room) (Handling.Anthropic.mapEvent room jsonError sse) acc (Fits room sse acc)
      (mapEvent jsonError sse acc) :=
  (mapEvent_follows hacc.bounds hacc.short jsonError sse).leaves hacc
    fun hfits _ h => hacc.mapEvent hfits h

/-! ### Errors -/

theorem handleBlockStart_parseOnly (v : Json) (acc : Acc) : ParseOnly (handleBlockStart v acc) := by
  apply ParseOnly.demand
  intro index
  split_ifs
  · exact .parse _
  apply ParseOnly.demand
  intro block
  apply ParseOnly.demand
  intro blockType
  unfold startBlock
  split_ifs
  · exact .demand fun _ => .demand fun _ => .ok _
  · exact .ok _
  · exact .ok _
  · exact .parse _

theorem handleBlockDelta_parseOnly (v : Json) (acc : Acc) : ParseOnly (handleBlockDelta v acc) := by
  apply ParseOnly.demand
  intro index
  apply ParseOnly.demand
  intro delta
  apply ParseOnly.demand
  intro deltaType
  split_ifs
  · apply ParseOnly.demand
    intro text
    split
    · exact .ok _
    · exact .parse _
  · apply ParseOnly.demand
    intro thinking
    split
    · exact .ok _
    · exact .parse _
  · apply ParseOnly.demand
    intro args
    split
    · exact .demand fun _ => .ok _
    · exact .parse _
  · exact .parse _

theorem handleBlockStop_parseOnly (v : Json) (acc : Acc) : ParseOnly (handleBlockStop v acc) := by
  apply ParseOnly.demand
  intro index
  split
  · apply ParseOnly.demand
    intro tc
    split_ifs
    · exact .parse _
    · exact .ok _
  · exact .ok _
  · exact .ok _
  · exact .parse _

theorem dispatch_parseOnly (jsonError : String → String) (eventType data : String) (acc : Acc) :
    ParseOnly (dispatch jsonError eventType data acc) := by
  unfold dispatch
  split
  · exact .parse _
  · unfold handle
    split_ifs
    · exact handleBlockStart_parseOnly _ acc
    · exact handleBlockDelta_parseOnly _ acc
    · exact handleBlockStop_parseOnly _ acc
    all_goals exact .ok _

end Anthropic

end Guigu
