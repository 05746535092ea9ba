import Guigu.Adapters.Segments
import Guigu.Adapters.Chunking
import Guigu.Core.Context
import Mathlib.Data.List.Nodup
import Mathlib.Data.Option.Basic

/-! What an adapter hands out while its stream goes on is what its message holds at the end. -/
namespace Guigu

/-! ### OpenAI -/

namespace OpenAi

/-- The first choice of a chunk, if it has one. -/
def choiceOf (v : Json) : Option Json :=
  ((Serde.get "choices" v).bind Serde.array).bind List.head?

/-- The pieces of calls in a chunk. -/
def piecesOf (v : Json) : List Json :=
  (choiceOf v).elim [] fun choice =>
    ((Serde.get "tool_calls" ((Serde.get "delta" choice).getD .null)).bind Serde.array).getD []

theorem toolIndexMap_mapArguments (i : ℕ) (args : String) (acc : Acc) :
    (mapArguments i args acc).2.toolIndexMap = acc.toolIndexMap := by
  unfold mapArguments
  split_ifs
  · rfl
  · split <;> rfl

theorem toolIndexMap_mapText (delta : Json) (acc : Acc) :
    (mapText delta acc).2.toolIndexMap = acc.toolIndexMap := by
  unfold mapText
  split
  · unfold Acc.appendText
    split <;> rfl
  · rfl

theorem toolIndexMap_mapThinking (delta : Json) (acc : Acc) :
    (mapThinking delta acc).2.toolIndexMap = acc.toolIndexMap := by
  unfold mapThinking
  split
  · unfold Acc.appendThinking
    split <;> rfl
  · rfl

theorem toolIndexMap_mapFinish (choice : Json) (acc : Acc) :
    (mapFinish choice acc).2.toolIndexMap = acc.toolIndexMap := by
  unfold mapFinish
  split
  · rfl
  · split_ifs <;> rfl

/-- The provider's indexes lead to calls of the answer. -/
structure Sound (acc : Acc) : Prop where
  held : acc.Sound
  indexed : ∀ i j, acc.toolLocalIndex i = some j → .toolCall j ∈ acc.segments

/-- A step hands out what it adds to the pieces. -/
def Tracks (acc : Acc) (events : List AssistantEvent) (acc' : Acc) : Prop :=
  Sound acc → Sound acc' ∧ Gathers true acc.pieces events acc'.pieces

theorem Tracks.trans {first second third : Acc} {events events' : List AssistantEvent}
    (h : Tracks first events second) (h' : Tracks second events' third) :
    Tracks first (events ++ events') third := by
  intro hsound
  obtain ⟨hsecond, hgathers⟩ := h hsound
  obtain ⟨hthird, hgathers'⟩ := h' hsecond
  exact ⟨hthird, hgathers.trans hgathers'⟩

theorem Tracks.quiet {acc acc' : Acc} {events : List AssistantEvent} (hsame : acc.Same acc')
    (hindex : acc'.toolIndexMap = acc.toolIndexMap) (hquiet : ∀ e ∈ events, e.isQuiet = true) :
    Tracks acc events acc' := by
  rintro ⟨hheld, hindexed⟩
  refine ⟨⟨hsame.sound hheld, ?_⟩, hsame.pieces ▸ .quiet hquiet⟩
  intro i j hij
  rw [Acc.toolLocalIndex, hindex] at hij
  exact hsame.segments ▸ hindexed i j hij

theorem Tracks.refl (acc : Acc) : Tracks acc [] acc :=
  .quiet ⟨rfl, rfl⟩ rfl (List.forall_mem_nil _)

theorem Tracks.started (acc : Acc) (b : Block)
    (hnew : b = .text ∨ b = .thinking → b ∉ acc.pieces.map Prod.fst) :
    Tracks acc b.starts (acc.started b).2 := by
  rintro ⟨hheld, hindexed⟩
  refine ⟨⟨hheld.started b, ?_⟩, hheld.pieces_started b ▸ .start fun _ => hnew⟩
  intro i j hij
  have hold : acc.toolLocalIndex i = some j := by
    cases b <;> exact hij
  rw [Acc.segments_started]
  exact List.mem_append_left _ (hindexed i j hold)

theorem Tracks.extended {acc : Acc} {seg : SegmentKind} (b : Block) (t : String)
    (hseg : seg ∈ acc.segments) (hb : ∀ p, acc.content seg = some p → p.1 = b) :
    Tracks acc [b.delta t] (acc.extended t seg) := by
  rintro ⟨hheld, hindexed⟩
  obtain ⟨p, hp⟩ := hheld.present seg hseg
  refine ⟨⟨hheld.extended t seg, ?_⟩, hb p hp ▸ hheld.gathers_extended t hseg hp⟩
  intro i j hij
  have hold : acc.toolLocalIndex i = some j := by
    cases seg <;> exact hij
  rw [Acc.segments_extended]
  exact hindexed i j hold

/-- All text of a kind goes into one piece, which starts without an event. -/
theorem Tracks.sole {acc : Acc} {b : Block} (hb : b.starts = []) (t : String)
    (found : Option SegmentKind)
    (hfound : ∀ seg, found = some seg →
      seg ∈ acc.segments ∧ ∀ p, acc.content seg = some p → p.1 = b)
    (hnone : found = none → b ∉ acc.pieces.map Prod.fst) :
    Tracks acc [b.delta t]
      (found.elim ((acc.started b).2.extended t (acc.started b).1) (acc.extended t)) := by
  cases found with
  | some seg =>
    obtain ⟨hseg, hblock⟩ := hfound seg rfl
    exact .extended b t hseg hblock
  | none =>
    have hstarted := Tracks.started acc b fun _ => hnone rfl
    have hextended : Tracks (acc.started b).2 [b.delta t]
        ((acc.started b).2.extended t (acc.started b).1) := by
      apply Tracks.extended b t (by simp)
      intro p hp
      rw [Acc.content_started, if_pos rfl] at hp
      exact congrArg Prod.fst (Option.some.inj hp).symm
    rw [hb] at hstarted
    exact hstarted.trans hextended

/-- The piece is the first one of its kind. -/
theorem Tracks.first {acc : Acc} {b : Block} (hb : b.starts = []) (t : String)
    {kind : ℕ → SegmentKind} {index? : SegmentKind → Option ℕ}
    (hindex : ∀ seg i, index? seg = some i ↔ seg = kind i)
    (hkind : ∀ seg p, acc.content seg = some p → (p.1 = b ↔ ∃ i, seg = kind i)) :
    Tracks acc [b.delta t] (((acc.segments.findSome? index?).map kind).elim
      ((acc.started b).2.extended t (acc.started b).1) (acc.extended t)) := by
  apply Tracks.sole hb
  · intro seg hseg
    obtain ⟨i, hi, rfl⟩ := Option.map_eq_some_iff.mp hseg
    obtain ⟨seg, hmem, hseg⟩ := List.exists_of_findSome?_eq_some hi
    obtain rfl := (hindex seg i).mp hseg
    exact ⟨hmem, fun p hp => (hkind _ p hp).mpr ⟨i, rfl⟩⟩
  · intro hnone hmem
    rw [Option.map_eq_none_iff, List.findSome?_eq_none_iff] at hnone
    obtain ⟨p, hp, hblock⟩ := List.mem_map.mp hmem
    obtain ⟨seg, hseg, hcontent⟩ := List.mem_filterMap.mp hp
    obtain ⟨i, rfl⟩ := (hkind seg p hcontent).mp hblock
    exact absurd ((hindex _ i).mpr rfl) (by simp [hnone _ hseg])

theorem appendText_tracks (acc : Acc) (text : String) :
    Tracks acc [.textDelta text] (acc.appendText text) := by
  have heq : acc.appendText text = ((Acc.firstText? acc.segments).map SegmentKind.text).elim
      ((acc.started .text).2.extended text (acc.started .text).1) (acc.extended text) := by
    unfold Acc.appendText
    cases Acc.firstText? acc.segments <;> rfl
  rw [heq]
  apply Tracks.first (b := .text) rfl text
  · intro seg i
    cases seg <;> simp
  · exact fun seg p hp => Acc.block_text hp

theorem appendThinking_tracks (acc : Acc) (thinking : String) :
    Tracks acc [.thinkingDelta thinking] (acc.appendThinking thinking) := by
  have heq : acc.appendThinking thinking =
      ((Acc.firstThinking? acc.segments).map SegmentKind.thinking).elim
        ((acc.started .thinking).2.extended thinking (acc.started .thinking).1)
        (acc.extended thinking) := by
    unfold Acc.appendThinking
    cases Acc.firstThinking? acc.segments <;> rfl
  rw [heq]
  apply Tracks.first (b := .thinking) rfl thinking
  · intro seg i
    cases seg <;> simp
  · exact fun seg p hp => Acc.block_thinking hp

theorem mapText_tracks (delta : Json) (acc : Acc) :
    Tracks acc (mapText delta acc).1 (mapText delta acc).2 := by
  unfold mapText
  split
  · exact appendText_tracks _ _
  · exact .refl acc

theorem mapThinking_tracks (delta : Json) (acc : Acc) :
    Tracks acc (mapThinking delta acc).1 (mapThinking delta acc).2 := by
  unfold mapThinking
  split
  · exact appendThinking_tracks _ _
  · exact .refl acc

/-- A piece with an identifier starts a call at an index that is new; others are for a call that has
started. -/
theorem locate_ok {index : ℕ} {id name : String} {acc : Acc} {r : List AssistantEvent × ℕ × Acc}
    (h : locate index id name acc = .ok r) :
    (id ≠ "" ∧ acc.toolLocalIndex index = none ∧
      r = ([.toolCallStart id name ""], (acc.startToolCall id name).1,
        { (acc.startToolCall id name).2 with
            toolIndexMap := noteAt acc.toolIndexMap index (acc.startToolCall id name).1 })) ∨
    id = "" ∧ ∃ i, acc.toolLocalIndex index = some i ∧ r = ([], i, acc) := by
  unfold locate at h
  split_ifs at h with hid hknown
  · obtain ⟨acc', hacc', rfl⟩ := Except.map_eq_ok.mp h
    unfold Acc.mapToolIndex at hacc'
    split at hacc'
    · cases hacc'
      exact .inl ⟨hid, by simpa using hknown, rfl⟩
    · cases hacc'
  · split at h
    · rename_i i hi
      cases h
      exact .inr ⟨not_not.mp hid, i, hi, rfl⟩
    · cases h

/-- The call that a piece belongs to is one of the answer. -/
theorem locate_tracks {index : ℕ} {id name : String} {acc : Acc}
    {r : List AssistantEvent × ℕ × Acc} (h : locate index id name acc = .ok r) :
    Tracks acc r.1 r.2.2 ∧ (Sound acc → .toolCall r.2.1 ∈ r.2.2.segments) := by
  obtain ⟨-, -, rfl⟩ | ⟨-, i, hi, rfl⟩ := locate_ok h
  · have hmem : SegmentKind.toolCall (acc.startToolCall id name).1 ∈
        (acc.startToolCall id name).2.segments := by
      simp [Acc.startToolCall]
    refine ⟨?_, fun _ => hmem⟩
    intro hsound
    obtain ⟨⟨hheld, hindexed⟩, hgathers⟩ := Tracks.started acc (.toolUse id name) (by simp) hsound
    have hsame : (acc.startToolCall id name).2.Same { (acc.startToolCall id name).2 with
        toolIndexMap := noteAt acc.toolIndexMap index (acc.startToolCall id name).1 } := ⟨rfl, rfl⟩
    refine ⟨⟨hsame.sound hheld, ?_⟩, hsame.pieces ▸ hgathers⟩
    intro i j hij
    rw [Acc.toolLocalIndex, lookAt_noteAt] at hij
    split_ifs at hij
    · cases hij
      exact hmem
    · exact hindexed i j hij
  · exact ⟨.refl acc, fun hsound => hsound.indexed _ _ hi⟩

theorem mapArguments_tracks {i : ℕ} (args : String) {acc : Acc}
    (hseg : .toolCall i ∈ acc.segments) :
    Tracks acc (mapArguments i args acc).1 (mapArguments i args acc).2 := by
  unfold mapArguments
  split_ifs
  · exact .refl acc
  · split
    · rename_i tc htc
      apply Tracks.extended (.toolUse tc.id tc.name) args hseg
      intro p hp
      simp only [Acc.content, htc, Option.map_some, Option.some.injEq] at hp
      rw [← hp]
      rfl
    · exact .refl acc

theorem mapToolCall_tracks {tc : Json} {acc : Acc} {r : List AssistantEvent × Acc}
    (h : mapToolCall tc acc = .ok r) : Tracks acc r.1 r.2 := by
  obtain ⟨index, function, located, -, -, hlocate, rfl⟩ := mapToolCall_ok h
  obtain ⟨htracks, hseg⟩ := locate_tracks hlocate
  intro hsound
  exact htracks.trans (mapArguments_tracks _ (hseg hsound)) hsound

theorem mapToolCalls_tracks {tcs : List Json} {acc : Acc} {r : List AssistantEvent × Acc}
    (h : mapToolCalls tcs acc = .ok r) : Tracks acc r.1 r.2 := by
  induction tcs generalizing acc r with
  | nil =>
    cases h
    exact .refl acc
  | cons tc tcs ih =>
    obtain ⟨first, rest, hfirst, hrest, rfl⟩ := mapToolCalls_cons_ok h
    exact (mapToolCall_tracks hfirst).trans (ih hrest)

/-- The end of the answer marks calls as done. -/
theorem mapFinish_tracks (choice : Json) (acc : Acc) :
    Tracks acc (mapFinish choice acc).1 (mapFinish choice acc).2 := by
  unfold mapFinish
  split
  · exact .refl acc
  · split_ifs
    · apply Tracks.quiet
      · refine Acc.same_of_calls rfl rfl rfl ?_
        intro i
        rw [List.getElem?_map, Option.map_map]
        rfl
      · rfl
      · intro e he
        obtain ⟨tc, -, rfl⟩ := List.mem_map.mp he
        rfl
    · exact .quiet ⟨rfl, rfl⟩ rfl (List.forall_mem_nil _)

theorem mapChoice_tracks {choice : Json} {acc : Acc} {r : List AssistantEvent × Acc}
    (h : mapChoice choice acc = .ok r) : Tracks acc r.1 r.2 := by
  obtain ⟨calls, hcalls, rfl⟩ := Except.map_eq_ok.mp h
  exact (((mapText_tracks _ acc).trans (mapThinking_tracks _ _)).trans
    (mapToolCalls_tracks hcalls)).trans (mapFinish_tracks choice calls.2)

theorem mapChunk_tracks {jsonError : String → String} {data : String} {acc : Acc}
    {r : List AssistantEvent × Acc} (h : mapChunk jsonError data acc = .ok r) :
    Tracks acc r.1 r.2 := by
  unfold mapChunk at h
  cases hread : Serde.fromStr data.toList with
  | none => simp only [hread, reduceCtorEq] at h
  | some v =>
    simp only [hread] at h
    obtain ⟨mapped, hmapped, rfl⟩ := Except.map_eq_ok.mp h
    have hrecord : Tracks mapped.2 [] (recordUsage v mapped.2) := by
      unfold recordUsage
      split
      · exact .quiet ⟨rfl, rfl⟩ rfl (List.forall_mem_nil _)
      · exact .refl _
    have htracks : Tracks acc mapped.1 mapped.2 := by
      split at hmapped
      · exact mapChoice_tracks hmapped
      · cases hmapped
        exact .refl acc
    rw [← List.append_nil mapped.1] at htracks ⊢
    exact (List.append_nil mapped.1 ▸ htracks).trans hrecord

theorem mapEvent_tracks {jsonError : String → String} {sse : SseEvent} {acc : Acc}
    {r : List AssistantEvent × Acc} (h : mapEvent jsonError sse acc = .ok r) :
    Tracks acc r.1 r.2 := by
  cases sse with
  | named event data => exact mapChunk_tracks h
  | data data => exact mapChunk_tracks h
  | done =>
    cases h
    exact .quiet ⟨rfl, rfl⟩ rfl (by simp [AssistantEvent.isQuiet])

theorem mapAll_tracks {jsonError : String → String} {sses : List SseEvent} {acc acc' : Acc}
    {events : List AssistantEvent}
    (h : mapAll (mapEvent jsonError) acc sses = (events, acc', none)) : Tracks acc events acc' := by
  induction sses generalizing acc events with
  | nil =>
    cases h
    exact .refl _
  | cons sse sses ih =>
    obtain ⟨first, second, rest, hfirst, hrest, rfl⟩ := mapAll_cons_ok h
    exact (mapEvent_tracks hfirst).trans (ih hrest)

end OpenAi

/-! ### Anthropic -/

namespace Anthropic

open Serde

/-- The type of an event and its data. -/
def eventOf : SseEvent → Option (String × Json)
  | .named event data => (fromStr data.toList).map (event, ·)
  | .data data => (fromStr data.toList).map fun v => ((getString "type" v).getD "", v)
  | .done => none

theorem mapEvent_ok {jsonError : String → String} {sse : SseEvent} {acc : Acc}
    {r : List AssistantEvent × Acc} (h : mapEvent jsonError sse acc = .ok r) :
    (∃ e, eventOf sse = some e ∧ handle e.1 e.2 acc = .ok r) ∨
      eventOf sse = none ∧ r = ([.done acc.buildMessage], acc) := by
  cases sse with
  | named event data =>
    simp only [mapEvent, dispatch] at h
    cases hread : fromStr data.toList with
    | none => simp only [hread, reduceCtorEq] at h
    | some v =>
      simp only [hread] at h
      exact .inl ⟨(event, v), by rw [eventOf, hread, Option.map_some], h⟩
  | data data =>
    simp only [mapEvent, dispatch] at h
    cases hread : fromStr data.toList with
    | none => simp only [hread, reduceCtorEq] at h
    | some v =>
      simp only [hread] at h
      exact .inl ⟨((getString "type" v).getD "", v), by simp [eventOf, hread], h⟩
  | done =>
    cases h
    exact .inr ⟨rfl, rfl⟩

/-- The block that a `content_block_start` is for, with its index. -/
def startOf (v : Json) : Option (ℕ × Block) := do
  let index ← getU64 "index" v
  let block ← get "content_block" v
  let blockType ← getString "type" block
  if blockType = "tool_use" then
    let id ← getString "id" block
    let name ← getString "name" block
    return (index, .toolUse id name)
  else if blockType = "text" then return (index, .text)
  else if blockType = "thinking" then return (index, .thinking)
  else none

/-- The text that a `content_block_delta` has for the block of an index. -/
def deltaOf (v : Json) : Option (ℕ × String) := do
  let index ← getU64 "index" v
  let delta ← get "delta" v
  let deltaType ← getString "type" delta
  if deltaType = "text_delta" then return (index, ← getString "text" delta)
  else if deltaType = "thinking_delta" then return (index, ← getString "thinking" delta)
  else if deltaType = "input_json_delta" then return (index, ← getString "partial_json" delta)
  else none

def blockStart? (sse : SseEvent) : Option (ℕ × Block) :=
  (eventOf sse).bind fun e => if e.1 = "content_block_start" then startOf e.2 else none

def blockDelta? (sse : SseEvent) : Option (ℕ × String) :=
  (eventOf sse).bind fun e => if e.1 = "content_block_delta" then deltaOf e.2 else none

/-- All text that was sent for the block of an index. -/
def textAt (index : ℕ) (deltas : List (ℕ × String)) : String :=
  String.join (deltas.filterMap fun d => if d.1 = index then some d.2 else none)

/-- The segments are the blocks that were started, in their order, with the text for their
indexes. -/
structure Blocks (starts : List (ℕ × Block)) (deltas : List (ℕ × String)) (acc : Acc) : Prop where
  held : acc.Sound
  placed : starts.map (fun s => acc.blockKind s.1) = acc.segments.map some
  known : ∀ index seg, acc.blockKind index = some seg → index ∈ starts.map Prod.fst
  content : ∀ s ∈ starts, (acc.blockKind s.1).bind acc.content = some (s.2, textAt s.1 deltas)
  started : ∀ d ∈ deltas, d.1 ∈ starts.map Prod.fst

namespace Blocks

variable {starts : List (ℕ × Block)} {deltas : List (ℕ × String)} {acc acc' : Acc}

theorem same (h : Blocks starts deltas acc) (hsame : acc.Same acc')
    (hkinds : acc'.blockKinds = acc.blockKinds) : Blocks starts deltas acc' := by
  have hkind : acc'.blockKind = acc.blockKind := by
    funext index
    rw [Acc.blockKind, Acc.blockKind, hkinds]
  refine ⟨hsame.sound h.held, ?_, ?_, ?_, h.started⟩
  · rw [hkind, hsame.segments, h.placed]
  · rw [hkind]
    exact h.known
  · rw [hkind, hsame.content]
    exact h.content

theorem mem_segments (h : Blocks starts deltas acc) {index : ℕ} {seg : SegmentKind}
    (hseg : acc.blockKind index = some seg) : seg ∈ acc.segments := by
  obtain ⟨s, hs, rfl⟩ := List.mem_map.mp (h.known index seg hseg)
  have hmem : some seg ∈ acc.segments.map some := by
    rw [← h.placed, ← hseg]
    exact List.mem_map_of_mem hs
  simpa using hmem

theorem pieces_eq (h : Blocks starts deltas acc) :
    acc.pieces = starts.map fun s => (s.2, textAt s.1 deltas) := by
  have hsegments : acc.pieces = (acc.segments.map some).filterMap (·.bind acc.content) := by
    rw [List.filterMap_map]
    rfl
  rw [hsegments, ← h.placed, List.filterMap_map, ← List.filterMap_eq_map]
  exact List.filterMap_congr h.content

/-- Two indexes have no block in common. -/
theorem kind_inj (h : Blocks starts deltas acc) {index index' : ℕ} {seg : SegmentKind}
    (hseg : acc.blockKind index = some seg) (hseg' : acc.blockKind index' = some seg) :
    index = index' := by
  obtain ⟨s, hs, rfl⟩ := List.mem_map.mp (h.known index seg hseg)
  obtain ⟨s', hs', rfl⟩ := List.mem_map.mp (h.known index' seg hseg')
  have hnodup : (starts.map fun s => acc.blockKind s.1).Nodup := by
    rw [h.placed]
    exact h.held.nodup.map (Option.some_injective _)
  rw [List.inj_on_of_nodup_map hnodup hs hs' (hseg.trans hseg'.symm)]

theorem start (h : Blocks starts deltas acc) {index : ℕ} (hfresh : acc.blockKind index = none)
    (b : Block) : Blocks (starts ++ [(index, b)]) deltas
      ((acc.started b).2.noteBlock index (acc.started b).1) := by
  have hsame : (acc.started b).2.Same ((acc.started b).2.noteBlock index (acc.started b).1) :=
    ⟨rfl, rfl⟩
  have hkind : ∀ j, ((acc.started b).2.noteBlock index (acc.started b).1).blockKind j =
      if j = index then some (acc.started b).1 else acc.blockKind j := by
    intro j
    rw [Acc.blockKind, Acc.noteBlock, lookAt_noteAt]
    cases b <;> rfl
  have hold : ∀ s ∈ starts, s.1 ≠ index := by
    rintro s hs rfl
    have hcontent := h.content s hs
    rw [hfresh] at hcontent
    cases hcontent
  refine ⟨hsame.sound (h.held.started b), ?_, ?_, ?_, ?_⟩
  · have hplaced : (starts.map fun s =>
        ((acc.started b).2.noteBlock index (acc.started b).1).blockKind s.1) =
        acc.segments.map some := by
      rw [← h.placed]
      apply List.map_congr_left
      intro s hs
      rw [hkind, if_neg (hold s hs)]
    rw [hsame.segments, Acc.segments_started, List.map_append, List.map_append, hplaced]
    simp [hkind]
  · intro j seg hseg
    rw [hkind] at hseg
    rw [List.map_append, List.mem_append]
    split_ifs at hseg with hj
    · exact .inr (by simp [hj])
    · exact .inl (h.known j seg hseg)
  · intro s hs
    rw [hkind, hsame.content]
    rcases List.mem_append.mp hs with hs | hs
    · obtain ⟨seg, hseg, hcontent⟩ := Option.bind_eq_some_iff.mp (h.content s hs)
      have hne : seg ≠ (acc.started b).1 :=
        fun heq => h.held.fresh b (heq ▸ h.mem_segments hseg)
      rw [if_neg (hold s hs), hseg, Option.bind_some, Acc.content_started, if_neg hne, hcontent]
    · -- Nothing was sent for an index without a block.
      obtain rfl := List.mem_singleton.mp hs
      have hnone : deltas.filterMap (fun d => if d.1 = index then some d.2 else none) = [] := by
        rw [List.filterMap_eq_nil_iff]
        intro d hd
        obtain ⟨s, hs, hsd⟩ := List.mem_map.mp (h.started d hd)
        rw [if_neg fun heq => hold s hs (hsd.trans heq)]
      rw [if_pos rfl, Option.bind_some, Acc.content_started, if_pos rfl, textAt, hnone]
      rfl
  · intro d hd
    rw [List.map_append]
    exact List.mem_append_left _ (h.started d hd)

theorem delta (h : Blocks starts deltas acc) {index : ℕ} {seg : SegmentKind}
    (hseg : acc.blockKind index = some seg) (t : String) :
    Blocks starts (deltas ++ [(index, t)]) (acc.extended t seg) := by
  have hkind : (acc.extended t seg).blockKind = acc.blockKind := by
    cases seg <;> rfl
  refine ⟨h.held.extended t seg, ?_, ?_, ?_, ?_⟩
  · rw [hkind, Acc.segments_extended, h.placed]
  · rw [hkind]
    exact h.known
  · intro s hs
    obtain ⟨seg', hseg', hcontent⟩ := Option.bind_eq_some_iff.mp (h.content s hs)
    rw [hkind, hseg', Option.bind_some, Acc.content_extended, textAt, List.filterMap_append,
      String.join_append]
    by_cases hindex : s.1 = index
    · rw [hindex, hseg] at hseg'
      cases hseg'
      simp [hindex, hcontent, textAt]
    · have hne : seg' ≠ seg := fun heq => hindex (h.kind_inj hseg' (heq ▸ hseg))
      rw [if_neg hne, hcontent]
      simp [Ne.symm hindex, textAt]
  · intro d hd
    rcases List.mem_append.mp hd with hd | hd
    · exact h.started d hd
    · rw [List.mem_singleton.mp hd]
      exact h.known index seg hseg

end Blocks

/-- A step starts at most one block or has text for one, and hands out what it adds. -/
def Tracks (started : Option (ℕ × Block)) (sent : Option (ℕ × String)) (acc : Acc)
    (events : List AssistantEvent) (acc' : Acc) : Prop :=
  ∀ starts deltas, Blocks starts deltas acc →
    Blocks (starts ++ started.toList) (deltas ++ sent.toList) acc' ∧
      Gathers false acc.pieces events acc'.pieces

theorem Tracks.quiet {acc acc' : Acc} {events : List AssistantEvent} (hsame : acc.Same acc')
    (hkinds : acc'.blockKinds = acc.blockKinds) (hquiet : ∀ e ∈ events, e.isQuiet = true) :
    Tracks none none acc events acc' := by
  intro starts deltas h
  rw [Option.toList_none, Option.toList_none, List.append_nil, List.append_nil]
  exact ⟨h.same hsame hkinds, hsame.pieces ▸ .quiet hquiet⟩

theorem Tracks.start {acc : Acc} {index : ℕ} (hfresh : acc.blockKind index = none) (b : Block) :
    Tracks (some (index, b)) none acc b.starts
      ((acc.started b).2.noteBlock index (acc.started b).1) := by
  intro starts deltas h
  have hsame : (acc.started b).2.Same ((acc.started b).2.noteBlock index (acc.started b).1) :=
    ⟨rfl, rfl⟩
  rw [Option.toList_none, List.append_nil]
  refine ⟨h.start hfresh b, ?_⟩
  rw [hsame.pieces, h.held.pieces_started b]
  exact .start fun hsingle => by cases hsingle

theorem Tracks.delta {acc : Acc} {index : ℕ} {seg : SegmentKind}
    (hseg : acc.blockKind index = some seg) (t : String) {events : List AssistantEvent}
    (hevents : ∀ p, acc.content seg = some p → events = [p.1.delta t]) :
    Tracks none (some (index, t)) acc events (acc.extended t seg) := by
  intro starts deltas h
  rw [Option.toList_none, List.append_nil]
  refine ⟨h.delta hseg t, ?_⟩
  obtain ⟨p, hp⟩ := h.held.present seg (h.mem_segments hseg)
  rw [hevents p hp]
  exact h.held.gathers_extended t (h.mem_segments hseg) hp

/-- A block starts at an index that is new. -/
theorem handleBlockStart_ok {v : Json} {acc : Acc} {r : List AssistantEvent × Acc}
    (h : handleBlockStart v acc = .ok r) : ∃ index b, startOf v = some (index, b) ∧
      acc.blockKind index = none ∧
      r = (b.starts, (acc.started b).2.noteBlock index (acc.started b).1) := by
  obtain ⟨index, hindex, h⟩ := Except.bind_eq_ok.mp h
  split_ifs at h with hstarted
  obtain ⟨block, hblock, h⟩ := Except.bind_eq_ok.mp h
  obtain ⟨blockType, htype, h⟩ := Except.bind_eq_ok.mp h
  rw [blockIndex, demand_eq_ok] at hindex
  rw [demand_eq_ok] at hblock htype
  have hfresh : acc.blockKind index = none := by simpa using hstarted
  unfold startBlock at h
  split_ifs at h with htool htext hthinking
  · obtain ⟨id, hid, h⟩ := Except.bind_eq_ok.mp h
    obtain ⟨name, hname, h⟩ := Except.bind_eq_ok.mp h
    rw [demand_eq_ok] at hid hname
    cases h
    exact ⟨index, .toolUse id name,
      by simp [startOf, hindex, hblock, htype, htool, hid, hname], hfresh, rfl⟩
  · cases h
    exact ⟨index, .text, by simp [startOf, hindex, hblock, htype, htext], hfresh, rfl⟩
  · cases h
    exact ⟨index, .thinking, by simp [startOf, hindex, hblock, htype, hthinking], hfresh, rfl⟩

theorem handleBlockStart_tracks {v : Json} {acc : Acc} {r : List AssistantEvent × Acc}
    (h : handleBlockStart v acc = .ok r) : Tracks (startOf v) none acc r.1 r.2 := by
  obtain ⟨index, b, hstart, hfresh, rfl⟩ := handleBlockStart_ok h
  rw [hstart]
  exact .start hfresh b

/-- Text goes to the block of its index, which is of its kind. -/
theorem handleBlockDelta_ok {v : Json} {acc : Acc} {r : List AssistantEvent × Acc}
    (h : handleBlockDelta v acc = .ok r) : ∃ index t seg, deltaOf v = some (index, t) ∧
      acc.blockKind index = some seg ∧ r.2 = acc.extended t seg ∧
      ∀ p, acc.content seg = some p → r.1 = [p.1.delta t] := by
  obtain ⟨index, hindex, h⟩ := Except.bind_eq_ok.mp h
  obtain ⟨delta, hdelta, h⟩ := Except.bind_eq_ok.mp h
  obtain ⟨deltaType, htype, h⟩ := Except.bind_eq_ok.mp h
  rw [blockIndex, demand_eq_ok] at hindex
  rw [demand_eq_ok] at hdelta htype
  split_ifs at h with htext hthinking hargs
  · obtain ⟨text, hread, h⟩ := Except.bind_eq_ok.mp h
    rw [demand_eq_ok] at hread
    split at h
    · rename_i i hkind
      cases h
      refine ⟨index, text, _, by simp [deltaOf, hindex, hdelta, htype, htext, hread], hkind, rfl,
        ?_⟩
      intro p hp
      rw [(Acc.block_text hp).mpr ⟨i, rfl⟩]
      rfl
    · cases h
  · obtain ⟨thinking, hread, h⟩ := Except.bind_eq_ok.mp h
    rw [demand_eq_ok] at hread
    split at h
    · rename_i i hkind
      cases h
      refine ⟨index, thinking, _, by simp [deltaOf, hindex, hdelta, htype, hthinking, hread], hkind,
        rfl, ?_⟩
      intro p hp
      rw [(Acc.block_thinking hp).mpr ⟨i, rfl⟩]
      rfl
    · cases h
  · obtain ⟨args, hread, h⟩ := Except.bind_eq_ok.mp h
    rw [demand_eq_ok] at hread
    split at h
    · rename_i i hkind
      obtain ⟨tc, htc, h⟩ := Except.bind_eq_ok.mp h
      rw [demand_eq_ok] at htc
      cases h
      refine ⟨index, args, _, by simp [deltaOf, hindex, hdelta, htype, hargs, hread], hkind, rfl,
        ?_⟩
      intro p hp
      simp only [Acc.content, htc, Option.map_some, Option.some.injEq] at hp
      rw [← hp]
      rfl
    · cases h

theorem handleBlockDelta_tracks {v : Json} {acc : Acc} {r : List AssistantEvent × Acc}
    (h : handleBlockDelta v acc = .ok r) : Tracks none (deltaOf v) acc r.1 r.2 := by
  obtain ⟨index, t, seg, hdelta, hkind, hacc, hevents⟩ := handleBlockDelta_ok h
  rw [hdelta, hacc]
  exact .delta hkind t hevents

/-- Only the end of a call is handed out. -/
theorem handleBlockStop_ok {v : Json} {acc : Acc} {r : List AssistantEvent × Acc}
    (h : handleBlockStop v acc = .ok r) : ∃ index seg, getU64 "index" v = some index ∧
      acc.blockKind index = some seg ∧
      ((∃ i tc, seg = .toolCall i ∧ acc.toolCalls[i]? = some tc ∧ tc.done = false ∧
          r = ([.toolCallEnd tc.id], acc.endToolCall tc.id)) ∨
        (∀ i, seg ≠ .toolCall i) ∧ r = ([], acc)) := by
  obtain ⟨index, hindex, h⟩ := Except.bind_eq_ok.mp h
  rw [blockIndex, demand_eq_ok] at hindex
  split at h
  · rename_i i hkind
    obtain ⟨tc, htc, h⟩ := Except.bind_eq_ok.mp h
    rw [demand_eq_ok] at htc
    split_ifs at h with hdone
    cases h
    exact ⟨index, _, hindex, hkind, .inl ⟨i, tc, rfl, htc, by simpa using hdone, rfl⟩⟩
  · rename_i i hkind
    cases h
    exact ⟨index, _, hindex, hkind, .inr ⟨fun _ => SegmentKind.noConfusion, rfl⟩⟩
  · rename_i i hkind
    cases h
    exact ⟨index, _, hindex, hkind, .inr ⟨fun _ => SegmentKind.noConfusion, rfl⟩⟩
  · cases h

theorem same_endToolCall (acc : Acc) (id : String) : acc.Same (acc.endToolCall id) := by
  refine Acc.same_of_calls rfl rfl rfl ?_
  intro i
  rw [Acc.endToolCall, List.getElem?_modify, Option.map_eq_map, Option.map_map]
  congr 1
  funext tc
  simp only [Function.comp_apply]
  split_ifs <;> rfl

/-- The end of a block marks its call as done. -/
theorem handleBlockStop_tracks {v : Json} {acc : Acc} {r : List AssistantEvent × Acc}
    (h : handleBlockStop v acc = .ok r) : Tracks none none acc r.1 r.2 := by
  obtain ⟨index, seg, -, -, ⟨i, tc, -, -, -, rfl⟩ | ⟨-, rfl⟩⟩ := handleBlockStop_ok h
  · exact .quiet (same_endToolCall acc tc.id) rfl (by simp [AssistantEvent.isQuiet])
  · exact .quiet ⟨rfl, rfl⟩ rfl (List.forall_mem_nil _)

theorem handle_tracks {eventType : String} {v : Json} {acc : Acc} {r : List AssistantEvent × Acc}
    (h : handle eventType v acc = .ok r) :
    Tracks (if eventType = "content_block_start" then startOf v else none)
      (if eventType = "content_block_delta" then deltaOf v else none) acc r.1 r.2 := by
  unfold handle at h
  split_ifs at h with hstart hdelta hstop hmessage husage hdone
  · rw [if_pos hstart, if_neg (by simp [hstart])]
    exact handleBlockStart_tracks h
  · rw [if_neg hstart, if_pos hdelta]
    exact handleBlockDelta_tracks h
  all_goals rw [if_neg hstart, if_neg hdelta]
  · exact handleBlockStop_tracks h
  · cases h
    unfold messageStart
    split
    · exact .quiet ⟨rfl, rfl⟩ rfl (List.forall_mem_nil _)
    · exact .quiet ⟨rfl, rfl⟩ rfl (List.forall_mem_nil _)
  · cases h
    unfold messageDelta
    split <;> split <;> exact .quiet ⟨rfl, rfl⟩ rfl (List.forall_mem_nil _)
  · cases h
    exact .quiet ⟨rfl, rfl⟩ rfl (by simp [AssistantEvent.isQuiet])
  · cases h
    exact .quiet ⟨rfl, rfl⟩ rfl (List.forall_mem_nil _)

theorem mapEvent_tracks {jsonError : String → String} {sse : SseEvent} {acc : Acc}
    {r : List AssistantEvent × Acc} (h : mapEvent jsonError sse acc = .ok r) :
    Tracks (blockStart? sse) (blockDelta? sse) acc r.1 r.2 := by
  unfold blockStart? blockDelta?
  obtain ⟨e, hevent, hhandle⟩ | ⟨hevent, rfl⟩ := mapEvent_ok h
  · rw [hevent]
    exact handle_tracks hhandle
  · rw [hevent]
    exact .quiet ⟨rfl, rfl⟩ rfl (by simp [AssistantEvent.isQuiet])

theorem mapAll_tracks {jsonError : String → String} {sses : List SseEvent} {acc acc' : Acc}
    {events : List AssistantEvent} {starts : List (ℕ × Block)} {deltas : List (ℕ × String)}
    (h : mapAll (mapEvent jsonError) acc sses = (events, acc', none))
    (hblocks : Blocks starts deltas acc) :
    Blocks (starts ++ sses.filterMap blockStart?) (deltas ++ sses.filterMap blockDelta?) acc' ∧
      Gathers false acc.pieces events acc'.pieces := by
  induction sses generalizing acc events starts deltas with
  | nil =>
    cases h
    rw [List.filterMap_nil, List.filterMap_nil, List.append_nil, List.append_nil]
    exact ⟨hblocks, .refl _⟩
  | cons sse sses ih =>
    obtain ⟨first, second, rest, hfirst, hrest, rfl⟩ := mapAll_cons_ok h
    obtain ⟨hsecond, hgathers⟩ := mapEvent_tracks hfirst starts deltas hblocks
    obtain ⟨hthird, hgathers'⟩ := ih hrest hsecond
    have hcons : ∀ {α : Type} (f : SseEvent → Option α),
        (sse :: sses).filterMap f = (f sse).toList ++ sses.filterMap f := by
      intro α f
      cases hf : f sse <;> simp [hf]
    rw [hcons, hcons, ← List.append_assoc, ← List.append_assoc]
    exact ⟨hthird, hgathers.trans hgathers'⟩

end Anthropic

/-! ### The message of a `Done` -/

/-- The text of a content that is of the block's kind. -/
def Block.textIn? : Block → AssistantContent → Option String
  | .text, .text t | .thinking, .thinking t => some t
  | _, _ => none

theorem callsOf_pieces {m : AssistantMessage} {pieces : List Piece}
    (h : m.content = pieces.filterMap Piece.content?) :
    extractToolCalls m = pieces.filterMap Piece.call? := by
  rw [extractToolCalls, h, List.filterMap_filterMap]
  apply List.filterMap_congr
  rintro ⟨b, t⟩ -
  cases b with
  | toolUse id name => rfl
  | _ =>
    simp only [Piece.content?, Block.content?]
    split_ifs <;> rfl

theorem textIn?_pieces {b : Block} (hb : b = .text ∨ b = .thinking) (pieces : List Piece) :
    (pieces.filterMap Piece.content?).filterMap b.textIn? =
      (pieces.filterMap (Piece.textOf? b)).filter (· ≠ "") := by
  rw [List.filterMap_filterMap, List.filter_filterMap]
  apply List.filterMap_congr
  rintro ⟨b', t⟩ -
  by_cases ht : t = ""
  · rcases hb with rfl | rfl <;> cases b' <;>
      simp [Piece.content?, Block.content?, Piece.textOf?, Block.textIn?, Option.filter, ht]
  · rcases hb with rfl | rfl <;> cases b' <;>
      simp [Piece.content?, Block.content?, Piece.textOf?, Block.textIn?, Option.filter, ht]

/-- The calls of the message are the ones that were announced, in their order and with the arguments
that were announced; with OpenAI its text and its thinking are all that was announced of them, and
with Anthropic its content is the blocks that were started, each with what was sent for its
index. -/
theorem doneMessage_gathered (adapter : Adapter) (jsonError : String → String) (model : String)
    {sses : List SseEvent} {last : SseEvent} {events : List AssistantEvent} {acc acc' : Acc}
    {m : AssistantMessage}
    (haccepted : mapAll (adapter.mapEvent jsonError) (.new model) sses = (events, acc, none))
    (hdone : adapter.mapEvent jsonError last acc = .ok ([.done m], acc'))
    (hids : ((events.filterMap AssistantEvent.callStart?).map Prod.fst).Nodup) :
    extractToolCalls m = (events.filterMap AssistantEvent.callStart?).map
        (fun c => ⟨c.1, c.2, (Block.toolUse c.1 c.2).joined events⟩) ∧
      (adapter = .openAi → ∀ b : Block, b = .text ∨ b = .thinking →
        m.content.filterMap b.textIn? = [b.joined events].filter (· ≠ "")) ∧
      (adapter = .anthropic →
        m.content = (sses.filterMap Anthropic.blockStart?).filterMap fun s =>
          s.2.content? (Anthropic.textAt s.1 (sses.filterMap Anthropic.blockDelta?))) := by
  have hm : m = acc.buildMessage := Adapter.done_eq hdone
  have hcontent : m.content = acc.pieces.filterMap Piece.content? := by
    rw [hm, Acc.buildMessage_content]
  have hcalls : ∀ {single}, Gathers single [] events acc.pieces →
      extractToolCalls m = (events.filterMap AssistantEvent.callStart?).map
        (fun c => ⟨c.1, c.2, (Block.toolUse c.1 c.2).joined events⟩) := by
    intro single hgathers
    have hnone : Gathers.Calls [] (([] : List Piece).filterMap Piece.call?) :=
      ⟨rfl, by simp, by simp⟩
    obtain ⟨hstarts, -, hjoined⟩ := Gathers.calls hnone hgathers
    rw [List.nil_append] at hstarts hjoined
    have hnodup : ((acc.pieces.filterMap Piece.call?).map ToolCall.id).Nodup := by
      rw [← hstarts, List.map_map] at hids
      exact hids
    rw [callsOf_pieces hcontent, ← hstarts, List.map_map]
    have hself : ∀ c ∈ acc.pieces.filterMap Piece.call?,
        ((fun c : String × String => (⟨c.1, c.2, (Block.toolUse c.1 c.2).joined events⟩ :
            ToolCall)) ∘
          fun c : ToolCall => (c.id, c.name)) c = id c := by
      intro c hc
      rw [Function.comp_apply, ← hjoined hnodup c hc]
      rfl
    rw [List.map_congr_left hself, List.map_id]
  cases adapter with
  | openAi =>
    have hheld : OpenAi.Sound (.new model) := by
      refine ⟨⟨List.nodup_nil, List.forall_mem_nil _⟩, ?_⟩
      intro i j hij
      cases hij
    have hgathers := (OpenAi.mapAll_tracks haccepted hheld).2
    refine ⟨hcalls hgathers, ?_, nofun⟩
    intro _ b hb
    have hnone : Gathers.Sole b [] [] := .inl ⟨rfl, rfl⟩
    rw [hcontent, textIn?_pieces hb]
    obtain ⟨hempty, hjoined⟩ | hsole := Gathers.sole hb hnone hgathers
    · rw [List.nil_append] at hjoined
      rw [hempty, hjoined]
      rfl
    · rw [hsole]
      rfl
  | anthropic =>
    have hblocks : Anthropic.Blocks [] [] (.new model) := by
      refine ⟨⟨List.nodup_nil, List.forall_mem_nil _⟩, rfl, ?_, List.forall_mem_nil _,
        List.forall_mem_nil _⟩
      intro index seg hseg
      cases hseg
    obtain ⟨hend, hgathers⟩ := Anthropic.mapAll_tracks haccepted hblocks
    refine ⟨hcalls hgathers, nofun, ?_⟩
    intro _
    rw [hcontent, hend.pieces_eq, List.filterMap_map]
    rfl

/-- A call whose arguments are sent in two pieces. -/
def lsCall : List SseEvent :=
  [.named "content_block_start" ("\x7b\"index\":0,\"content_block\":" ++
      "\x7b\"type\":\"tool_use\",\"id\":\"a\",\"name\":\"ls\"\x7d\x7d"),
    .named "content_block_delta" ("\x7b\"index\":0,\"delta\":" ++
      "\x7b\"type\":\"input_json_delta\",\"partial_json\":\"[1,\"\x7d\x7d"),
    .named "content_block_delta" ("\x7b\"index\":0,\"delta\":" ++
      "\x7b\"type\":\"input_json_delta\",\"partial_json\":\"2]\"\x7d\x7d")]

theorem doneMessage_lsCall :
    extractToolCalls (mapAll (Adapter.anthropic.mapEvent fun _ => "") (.new "m")
      lsCall).2.1.buildMessage = [⟨"a", "ls", "[1,2]"⟩] := by
  have hwhole : ∀ r : List AssistantEvent × Acc × Option ProviderError, r.2.2 = none →
      r = (r.1, r.2.1, none) := by
    rintro ⟨events, acc, failure⟩ rfl
    rfl
  have hdone : ∀ acc : Acc, (Adapter.anthropic.mapEvent fun _ => "") .done acc =
      .ok ([.done acc.buildMessage], acc) := fun _ => rfl
  obtain ⟨hnone, hids, hcall⟩ :
      (mapAll (Adapter.anthropic.mapEvent fun _ => "") (.new "m") lsCall).2.2 = none ∧
        (((mapAll (Adapter.anthropic.mapEvent fun _ => "") (.new "m")
          lsCall).1.filterMap AssistantEvent.callStart?).map Prod.fst).Nodup ∧
        ((mapAll (Adapter.anthropic.mapEvent fun _ => "") (.new "m")
          lsCall).1.filterMap AssistantEvent.callStart?).map (fun c => (⟨c.1, c.2,
            (Block.toolUse c.1 c.2).joined (mapAll (Adapter.anthropic.mapEvent fun _ => "")
              (.new "m") lsCall).1⟩ : ToolCall)) = [⟨"a", "ls", "[1,2]"⟩] := by
    decide +kernel
  have hgathered := doneMessage_gathered .anthropic (fun _ => "") "m" (hwhole _ hnone) (hdone _)
    hids
  exact hgathered.1.trans hcall

end Guigu
