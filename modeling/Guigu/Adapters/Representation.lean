import Guigu.Adapters.Accumulation
import Guigu.Library.Tables

/-! The vectors of an answer refer to each other by position. Every operation of the two adapters
keeps these references right. -/
namespace Guigu

namespace Acc

/-- The places for the pieces of an answer. -/
def slots (acc : Acc) : List SegmentKind :=
  (List.range acc.texts.length).map .text ++ (List.range acc.thinkings.length).map .thinking ++
    (List.range acc.toolCalls.length).map .toolCall

/-- The segments list every slot once, and the entries of both tables lead to slots that exist, no
two of them to the same. -/
structure Represented (acc : Acc) : Prop where
  listed : acc.segments.Perm acc.slots
  blocks : Directory acc.blockKind (· ∈ acc.slots)
  calls : Directory acc.toolLocalIndex (· < acc.toolCalls.length)

variable {acc acc' : Acc}

theorem mem_slots {seg : SegmentKind} : seg ∈ acc.slots ↔ ∃ p, acc.content seg = some p := by
  cases seg <;>
    simp [slots, content, ToolCallAcc.piece, List.getElem?_eq_some_iff]

theorem mem_slots_toolCall {i : ℕ} : .toolCall i ∈ acc.slots ↔ i < acc.toolCalls.length := by
  simp [slots]

theorem nodup_slots (acc : Acc) : acc.slots.Nodup := by
  have hkind : ∀ (kind : ℕ → SegmentKind) (n : ℕ), Function.Injective kind →
      ((List.range n).map kind).Nodup := fun kind n h => List.nodup_range.map h
  refine List.Nodup.append (List.Nodup.append (hkind _ _ ?_) (hkind _ _ ?_) ?_) (hkind _ _ ?_) ?_
  · exact fun i j h => SegmentKind.text.inj h
  · exact fun i j h => SegmentKind.thinking.inj h
  · simp [List.Disjoint]
  · exact fun i j h => SegmentKind.toolCall.inj h
  · rw [List.disjoint_append_left]
    simp [List.Disjoint]

/-- The references of an answer, and how much there is to refer to. -/
def outline (acc : Acc) :
    List SegmentKind × List (Option SegmentKind) × List (Option ℕ) × ℕ × ℕ × ℕ :=
  (acc.segments, acc.blockKinds, acc.toolIndexMap, acc.texts.length, acc.thinkings.length,
    acc.toolCalls.length)

@[simp] theorem outline_appendTextBlock (acc : Acc) (i : ℕ) (text : String) :
    (acc.appendTextBlock i text).outline = acc.outline := by
  simp [outline, appendTextBlock]

@[simp] theorem outline_appendThinkingBlock (acc : Acc) (i : ℕ) (thinking : String) :
    (acc.appendThinkingBlock i thinking).outline = acc.outline := by
  simp [outline, appendThinkingBlock]

@[simp] theorem outline_appendArguments (acc : Acc) (i : ℕ) (args : String) :
    (acc.appendArguments i args).outline = acc.outline := by
  simp [outline, appendArguments]

@[simp] theorem outline_extended (acc : Acc) (t : String) (seg : SegmentKind) :
    (acc.extended t seg).outline = acc.outline := by
  cases seg <;> simp [extended]

@[simp] theorem outline_endToolCall (acc : Acc) (id : String) :
    (acc.endToolCall id).outline = acc.outline := by
  simp [outline, endToolCall]

/-- A new piece has a slot that no piece had. -/
theorem mem_slots_started {b : Block} {seg : SegmentKind} :
    seg ∈ (acc.started b).2.slots ↔ seg = (acc.started b).1 ∨ seg ∈ acc.slots := by
  rw [mem_slots, mem_slots, content_started]
  split_ifs with hnew <;> simp [hnew]

theorem started_not_mem_slots (acc : Acc) (b : Block) : (acc.started b).1 ∉ acc.slots := by
  rw [mem_slots, content_fresh]
  simp

namespace Represented

theorem new (model : String) : (Acc.new model).Represented where
  listed := .refl _
  blocks := .empty fun _ => rfl
  calls := .empty fun _ => rfl

/-- Where only the contents are others, the references are still right. -/
theorem frame (h : acc.Represented) (houtline : acc'.outline = acc.outline) :
    acc'.Represented := by
  simp only [outline, Prod.mk.injEq] at houtline
  obtain ⟨hsegments, hkinds, hmap, htexts, hthinkings, hcalls⟩ := houtline
  have hslots : acc'.slots = acc.slots := by
    rw [slots, slots, htexts, hthinkings, hcalls]
  have hblock : acc'.blockKind = acc.blockKind := by
    funext index
    rw [blockKind, blockKind, hkinds]
  have hlocal : acc'.toolLocalIndex = acc.toolLocalIndex := by
    funext index
    rw [toolLocalIndex, toolLocalIndex, hmap]
  constructor
  · rw [hsegments, hslots]
    exact h.listed
  · rw [hblock, hslots]
    exact h.blocks
  · rw [hlocal, hcalls]
    exact h.calls

theorem sound (h : acc.Represented) : acc.Sound where
  nodup := h.listed.nodup_iff.mpr acc.nodup_slots
  present _ hseg := mem_slots.mp (h.listed.mem_iff.mp hseg)

/-- Nothing that was gathered is missing in the message, and nothing stands there twice. -/
theorem content_perm (h : acc.Represented) :
    acc.buildMessage.content.Perm (acc.slots.filterMap acc.content?) :=
  h.listed.filterMap acc.content?

theorem bounds (h : acc.Represented) (index : ℕ) (seg : SegmentKind)
    (hseg : acc.blockKind index = some seg) : ∃ p, acc.content seg = some p :=
  mem_slots.mp (h.blocks.live index seg hseg)

theorem listed_started (h : acc.Represented) (b : Block) :
    (acc.started b).2.segments.Perm (acc.started b).2.slots := by
  apply (List.perm_ext_iff_of_nodup (h.sound.started b).nodup (nodup_slots _)).mpr
  intro seg
  rw [segments_started, List.mem_append, List.mem_singleton, mem_slots_started, h.listed.mem_iff,
    or_comm]

theorem calls_started (h : acc.Represented) (b : Block) :
    Directory (acc.started b).2.toolLocalIndex (· < (acc.started b).2.toolCalls.length) := by
  have hlocal : (acc.started b).2.toolLocalIndex = acc.toolLocalIndex := by
    cases b <;> rfl
  rw [hlocal]
  apply h.calls.mono
  intro i hi
  rw [← mem_slots_toolCall] at hi ⊢
  exact mem_slots_started.mpr (.inr hi)

theorem started (h : acc.Represented) (b : Block) : (acc.started b).2.Represented where
  listed := h.listed_started b
  blocks := by
    have hblock : (acc.started b).2.blockKind = acc.blockKind := by
      cases b <;> rfl
    rw [hblock]
    exact h.blocks.mono fun _ hseg => mem_slots_started.mpr (.inr hseg)
  calls := h.calls_started b

/-- The table of the blocks gets a new slot. -/
theorem noted (h : acc.Represented) (b : Block) (index : ℕ) :
    ((acc.started b).2.noteBlock index (acc.started b).1).Represented where
  listed := h.listed_started b
  blocks := by
    apply h.blocks.note (fun _ hseg => mem_slots_started.mpr (.inr hseg)) (i := index) ?_
      (started_not_mem_slots acc b) (mem_slots_started.mpr (.inl rfl))
    intro j
    have hold : lookAt (acc.started b).2.blockKinds j = acc.blockKind j := by
      cases b <;> rfl
    rw [blockKind, noteBlock, lookAt_noteAt, hold]
  calls := h.calls_started b

/-- And so does the table of the calls. -/
theorem indexed (h : acc.Represented) (id name : String) (index : ℕ) :
    Represented { (acc.startToolCall id name).2 with
      toolIndexMap := noteAt acc.toolIndexMap index (acc.startToolCall id name).1 } where
  listed := h.listed_started (.toolUse id name)
  blocks := (h.started (.toolUse id name)).blocks
  calls := by
    have hlength : (acc.startToolCall id name).2.toolCalls.length = acc.toolCalls.length + 1 := by
      simp [startToolCall]
    apply h.calls.note (i := index) (a := acc.toolCalls.length)
    · intro i hi
      rw [hlength]
      omega
    · intro j
      exact lookAt_noteAt acc.toolIndexMap index j _
    · exact lt_irrefl _
    · rw [hlength]
      omega

end Represented

end Acc

/-! ### OpenAI -/

namespace OpenAi

variable {acc : Acc}

theorem mapText_represented (delta : Json) (h : acc.Represented) :
    (mapText delta acc).2.Represented := by
  unfold mapText
  split
  · unfold Acc.appendText
    split
    · exact h.frame (Acc.outline_appendTextBlock _ _ _)
    · exact (h.started .text).frame (Acc.outline_appendTextBlock _ _ _)
  · exact h

theorem mapThinking_represented (delta : Json) (h : acc.Represented) :
    (mapThinking delta acc).2.Represented := by
  unfold mapThinking
  split
  · unfold Acc.appendThinking
    split
    · exact h.frame (Acc.outline_appendThinkingBlock _ _ _)
    · exact (h.started .thinking).frame (Acc.outline_appendThinkingBlock _ _ _)
  · exact h

theorem outline_mapArguments (i : ℕ) (args : String) (acc : Acc) :
    (mapArguments i args acc).2.outline = acc.outline := by
  unfold mapArguments
  split_ifs
  · rfl
  · split
    · exact Acc.outline_appendArguments acc i args
    · rfl

theorem mapToolCall_represented {tc : Json} {r : List AssistantEvent × Acc}
    (h : mapToolCall tc acc = .ok r) (hacc : acc.Represented) : r.2.Represented := by
  obtain ⟨index, function, located, -, -, hlocate, rfl⟩ := mapToolCall_ok h
  obtain ⟨-, -, rfl⟩ | ⟨-, i, -, rfl⟩ := locate_ok hlocate
  · exact (hacc.indexed _ _ index).frame (outline_mapArguments _ _ _)
  · exact hacc.frame (outline_mapArguments _ _ _)

theorem outline_mapFinish (choice : Json) (acc : Acc) :
    (mapFinish choice acc).2.outline = acc.outline := by
  unfold mapFinish
  split
  · rfl
  · split_ifs <;> simp [Acc.outline]

theorem outline_recordUsage (v : Json) (acc : Acc) :
    (recordUsage v acc).outline = acc.outline := by
  unfold recordUsage
  split <;> rfl

end OpenAi

/-! ### Anthropic -/

namespace Anthropic

variable {acc : Acc}

theorem outline_messageStart (v : Json) (acc : Acc) :
    (messageStart v acc).outline = acc.outline := by
  unfold messageStart
  split <;> rfl

theorem outline_messageDelta (v : Json) (acc : Acc) :
    (messageDelta v acc).outline = acc.outline := by
  unfold messageDelta
  split <;> split <;> rfl

/-- Only the start of a block changes a reference. -/
theorem handle_outline {eventType : String} {v : Json} {r : List AssistantEvent × Acc}
    (h : handle eventType v acc = .ok r) : r.2.outline = acc.outline ∨
      eventType = "content_block_start" ∧ ∃ index b, startOf v = some (index, b) ∧
        acc.blockKind index = none ∧
        r.2 = (acc.started b).2.noteBlock index (acc.started b).1 := by
  unfold handle at h
  split_ifs at h with hstart
  · obtain ⟨index, b, hs, hfree, rfl⟩ := handleBlockStart_ok h
    exact .inr ⟨hstart, index, b, hs, hfree, rfl⟩
  all_goals refine .inl ?_
  · obtain ⟨index, t, seg, -, -, hnext, -⟩ := handleBlockDelta_ok h
    rw [hnext]
    exact Acc.outline_extended acc t seg
  · obtain ⟨index, seg, -, -, ⟨i, tc, -, -, -, rfl⟩ | ⟨-, rfl⟩⟩ := handleBlockStop_ok h
    · exact Acc.outline_endToolCall acc tc.id
    · rfl
  · cases h
    exact outline_messageStart v acc
  · cases h
    exact outline_messageDelta v acc
  · cases h
    rfl
  · cases h
    rfl

theorem mapEvent_represented {jsonError : String → String} {sse : SseEvent}
    {r : List AssistantEvent × Acc} (h : mapEvent jsonError sse acc = .ok r)
    (hacc : acc.Represented) : r.2.Represented := by
  obtain ⟨e, -, hhandle⟩ | ⟨-, rfl⟩ := mapEvent_ok h
  · obtain houtline | ⟨-, index, b, -, -, hnext⟩ := handle_outline hhandle
    · exact hacc.frame houtline
    · rw [hnext]
      exact hacc.noted b index
  · exact hacc

end Anthropic

end Guigu
