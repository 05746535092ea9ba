import Guigu.Adapters.Accumulation
import Guigu.Adapters.Wire

/-! What the adapters make of the steps they are sent: their events announce the steps, and their
message is the blocks. -/
namespace Guigu

/-- The segments are the blocks in the order of their starts; a key leads to its segment. -/
structure Placed {κ : Type} (place : κ → Option SegmentKind) (w : Wire κ) (acc : Acc) : Prop where
  wire : w.Sound
  held : acc.Sound
  placed : w.keys.map place = acc.segments.map some
  known : ∀ k seg, place k = some seg → k ∈ w.keys
  content : ∀ p ∈ w.pieces, (place p.1).bind acc.content = some p.2

namespace Placed

variable {κ : Type} {place place' : κ → Option SegmentKind} {w : Wire κ} {acc acc' : Acc}

theorem same (h : Placed place w acc) (hsame : acc.Same acc') : Placed place w acc' where
  wire := h.wire
  held := hsame.sound h.held
  placed := hsame.segments ▸ h.placed
  known := h.known
  content := hsame.content ▸ h.content

theorem pieces_eq (h : Placed place w acc) : acc.pieces = w.pieces.map Prod.snd := by
  have hsegments : acc.pieces = (acc.segments.map some).filterMap (·.bind acc.content) := by
    rw [List.filterMap_map]
    rfl
  rw [hsegments, ← h.placed, List.filterMap_map, Wire.keys, List.filterMap_map,
    ← List.filterMap_eq_map]
  exact List.filterMap_congr h.content

/-- A key with a segment has a piece. -/
theorem piece (h : Placed place w acc) {k : κ} {seg : SegmentKind} (hseg : place k = some seg) :
    ∃ p, (k, p) ∈ w.pieces ∧ acc.content seg = some p := by
  obtain ⟨⟨k, p⟩, hp, rfl⟩ := List.mem_map.mp (h.known k seg hseg)
  have hcontent := h.content (k, p) hp
  rw [hseg, Option.bind_some] at hcontent
  exact ⟨p, hp, hcontent⟩

theorem mem_segments (h : Placed place w acc) {k : κ} {seg : SegmentKind}
    (hseg : place k = some seg) : seg ∈ acc.segments := by
  have hmem : some seg ∈ acc.segments.map some := by
    rw [← h.placed, ← hseg]
    exact List.mem_map_of_mem (h.known k seg hseg)
  simpa using hmem

theorem fresh (h : Placed place w acc) {k : κ} (hk : place k = none) : k ∉ w.keys := by
  intro hmem
  have hnone : none ∈ acc.segments.map some := by
    rw [← h.placed, ← hk]
    exact List.mem_map_of_mem hmem
  simp at hnone

/-- The calls of the wire are those with a segment of a call. -/
theorem mem_calls (h : Placed place w acc) {k : κ} {i : ℕ} (hseg : place k = some (.toolCall i))
    {tc : ToolCallAcc} (htc : acc.toolCalls[i]? = some tc) :
    (k, ⟨tc.id, tc.name, tc.arguments⟩) ∈ w.calls := by
  obtain ⟨p, hp, hcontent⟩ := h.piece hseg
  rw [Acc.content, htc, Option.map_some] at hcontent
  obtain rfl := Option.some.inj hcontent
  exact Wire.mem_select.mpr ⟨_, hp, rfl⟩

variable [DecidableEq κ]

theorem start (h : Placed place w acc) {k : κ} (hk : place k = none) {b : Block}
    (hplace : ∀ j, place' j = if j = k then some (acc.started b).1 else place j) :
    Placed place' (w.take (.start k b)) (acc.started b).2 := by
  have hfresh := h.fresh hk
  have hpieces := Wire.pieces_start hfresh b
  have hold : ∀ j ∈ w.keys, place' j = place j := by
    intro j hj
    rw [hplace, if_neg]
    rintro rfl
    exact hfresh hj
  refine ⟨h.wire.take _, h.held.started b, ?_, ?_, ?_⟩
  · rw [Wire.keys, hpieces, List.map_append, List.map_append, Acc.segments_started,
      List.map_append, ← h.placed, ← List.map_congr_left hold]
    simp [hplace, Wire.keys]
  · intro j seg hseg
    rw [Wire.keys, hpieces, List.map_append, List.mem_append]
    rw [hplace] at hseg
    split_ifs at hseg with hj
    · exact .inr (by simp [hj])
    · exact .inl (h.known j seg hseg)
  · intro p hp
    rw [hpieces] at hp
    rcases List.mem_append.mp hp with hp | hp
    · have hmem : p.1 ∈ w.keys := List.mem_map_of_mem hp
      obtain ⟨seg, hseg, hcontent⟩ := Option.bind_eq_some_iff.mp (h.content p hp)
      have hne : seg ≠ (acc.started b).1 :=
        fun heq => h.held.fresh b (heq ▸ h.mem_segments hseg)
      rw [hold _ hmem, hseg, Option.bind_some, Acc.content_started, if_neg hne, hcontent]
    · obtain rfl := List.mem_singleton.mp hp
      rw [hplace, if_pos rfl, Option.bind_some, Acc.content_started, if_pos rfl]

theorem grow (h : Placed place w acc) {k : κ} {seg : SegmentKind} (hseg : place k = some seg)
    (t : String) : Placed place (w.take (.grow k t)) (acc.extended t seg) := by
  obtain ⟨p, hp, hcontent⟩ := h.piece hseg
  refine ⟨h.wire.take _, h.held.extended t seg, ?_, ?_, ?_⟩
  · rw [Wire.keys_grow, Acc.segments_extended, h.placed]
  · rw [Wire.keys_grow]
    exact h.known
  · intro q hq
    obtain ⟨q', hq', rfl⟩ := List.mem_map.mp hq
    obtain ⟨seg', hseg', hcontent'⟩ := Option.bind_eq_some_iff.mp (h.content q' hq')
    by_cases hk : q'.1 = k
    · have heq : seg' = seg := Option.some.inj (hseg'.symm.trans (hk ▸ hseg))
      rw [if_pos hk]
      simp only [hseg', Option.bind_some, Acc.content_extended, heq, if_true]
      rw [← heq, hcontent', Option.map_some]
    · have hne : seg' ≠ seg := by
        rintro rfl
        have hinj : ∀ j ∈ w.keys, ∀ j' ∈ w.keys, place j = place j' → j = j' := by
          intro j hj j' hj' heq
          have hnodup : (w.keys.map place).Nodup := by
            rw [h.placed]
            exact h.held.nodup.map (Option.some_injective _)
          exact List.inj_on_of_nodup_map hnodup hj hj' heq
        exact hk (hinj _ (h.known _ _ hseg') _ (h.known _ _ hseg) (hseg'.trans hseg.symm))
      rw [if_neg hk]
      simp only [hseg', Option.bind_some, Acc.content_extended, if_neg hne, hcontent']

/-- The end of calls changes no piece. -/
theorem ended (h : Placed place w acc) {s : WireStep κ} (hs : (w.take s).pieces = w.pieces) :
    Placed place (w.take s) acc where
  wire := h.wire.take s
  held := h.held
  placed := by
    rw [Wire.keys, hs]
    exact h.placed
  known := by
    rw [Wire.keys, hs]
    exact h.known
  content := hs ▸ h.content

/-- Text for a piece is handed out as text of that piece. -/
theorem announces_grow (h : Placed place w acc) {k : κ} {seg : SegmentKind}
    (hseg : place k = some seg) {t : String} {events : List AssistantEvent}
    (hevents : ∀ p, acc.content seg = some p → events = [p.1.delta t]) :
    w.Announces [.grow k t] events := by
  obtain ⟨p, hp, hcontent⟩ := h.piece hseg
  rw [hevents p hcontent]
  exact .grow hp

end Placed

/-- Steps are taken, and told. -/
def Sends {κ : Type} [DecidableEq κ] (Sent : Wire κ → Acc → Prop) (acc : Acc)
    (steps : List (WireStep κ)) (events : List AssistantEvent) (acc' : Acc) : Prop :=
  ∀ w, Sent w acc → Sent (w.run steps) acc' ∧ w.Announces steps events

section Sends

variable {κ : Type} [DecidableEq κ] {Sent : Wire κ → Acc → Prop}

theorem Sends.refl (acc : Acc) : Sends Sent acc [] [] acc :=
  fun _ h => ⟨h, .quiet (List.forall_mem_nil _)⟩

theorem Sends.trans {first second third : Acc} {steps steps' : List (WireStep κ)}
    {events events' : List AssistantEvent} (h : Sends Sent first steps events second)
    (h' : Sends Sent second steps' events' third) :
    Sends Sent first (steps ++ steps') (events ++ events') third := by
  intro w hw
  obtain ⟨hsecond, hannounces⟩ := h w hw
  obtain ⟨hthird, hannounces'⟩ := h' _ hsecond
  exact ⟨Wire.run_append w steps steps' ▸ hthird, hannounces.trans hannounces'⟩

theorem sends_mapAll {mapEvent : MapEventFn ProviderError} {steps : SseEvent → List (WireStep κ)}
    (hstep : ∀ sse acc r, mapEvent sse acc = .ok r → Sends Sent acc (steps sse) r.1 r.2)
    {sses : List SseEvent} {acc acc' : Acc} {events : List AssistantEvent}
    (h : mapAll mapEvent acc sses = (events, acc', none)) :
    Sends Sent acc (sses.flatMap steps) events acc' := by
  induction sses generalizing acc events with
  | nil =>
    cases h
    exact .refl _
  | cons sse sses ih =>
    obtain ⟨first, second, rest, hfirst, hrest, rfl⟩ := mapAll_cons_ok h
    rw [List.flatMap_cons]
    exact (hstep _ _ _ hfirst).trans (ih hrest)

end Sends

/-! ### OpenAI -/

namespace OpenAi

open Serde

/-- All text is one block, and so is all thinking; calls have their indexes. -/
inductive Slot where
  | text
  | thinking
  | call (index : ℕ)
  deriving DecidableEq, Repr

def textSteps (slot : Slot) (b : Block) (text : Option String) : List (WireStep Slot) :=
  match nonEmpty text with
  | some t => [.start slot b, .grow slot t]
  | none => []

/-- A piece with an identifier starts its call. -/
def callSteps (tc : Json) : List (WireStep Slot) :=
  match getU64 "index" tc, get "function" tc with
  | some index, some function =>
    let id := (getString "id" tc).getD ""
    let args := (getString "arguments" function).getD ""
    (if id = "" then []
      else [.start (.call index) (.toolUse id ((getString "name" function).getD ""))]) ++
      if args = "" then [] else [.grow (.call index) args]
  | _, _ => []

def finishSteps (choice : Json) : List (WireStep Slot) :=
  if getString "finish_reason" choice = some "tool_calls" then [.finish] else []

def choiceSteps (choice : Json) : List (WireStep Slot) :=
  let delta := (get "delta" choice).getD .null
  textSteps .text .text (getString "content" delta) ++
    textSteps .thinking .thinking (getString "reasoning_content" delta) ++
    (((get "tool_calls" delta).bind array).getD []).flatMap callSteps ++ finishSteps choice

/-- The steps in an event, of which only the first choice counts. -/
def steps : SseEvent → List (WireStep Slot)
  | .data data | .named _ data =>
    ((fromStr data.toList).bind fun v => ((get "choices" v).bind array).bind List.head?).elim []
      choiceSteps
  | .done => []

def place (acc : Acc) : Slot → Option SegmentKind
  | .text => (Acc.firstText? acc.segments).map .text
  | .thinking => (Acc.firstThinking? acc.segments).map .thinking
  | .call index => (acc.toolLocalIndex index).map .toolCall

/-- The calls with whether they are done. -/
def marks (acc : Acc) : List (String × Bool) := acc.toolCalls.map fun tc => (tc.id, tc.done)

/-- The answer so far is what was sent, and the current call is not done. -/
structure Sent (w : Wire Slot) (acc : Acc) : Prop where
  placed : Placed (place acc) w acc
  running : ∀ c ∈ w.current, (c.2, false) ∈ marks acc

/-- Nothing of the pieces changes. -/
theorem sends_quiet {acc acc' : Acc} {events : List AssistantEvent} (hsame : acc.Same acc')
    (hindex : acc'.toolIndexMap = acc.toolIndexMap) (hcalls : acc'.toolCalls = acc.toolCalls)
    (hquiet : ∀ e ∈ events, e.isTerminal = true) : Sends Sent acc [] events acc' := by
  intro w hw
  have hplace : place acc' = place acc := by
    funext slot
    cases slot <;> simp only [place, hsame.segments, Acc.toolLocalIndex, hindex]
  refine ⟨⟨hplace ▸ hw.placed.same hsame, ?_⟩, .quiet hquiet⟩
  rw [marks, hcalls]
  exact hw.running

theorem place_extended (acc : Acc) (t : String) (seg : SegmentKind) :
    place (acc.extended t seg) = place acc := by
  funext slot
  have hindex : (acc.extended t seg).toolIndexMap = acc.toolIndexMap := by
    cases seg <;> rfl
  cases slot <;> simp only [place, Acc.segments_extended, Acc.toolLocalIndex, hindex]

theorem marks_extended (acc : Acc) (t : String) (seg : SegmentKind) :
    marks (acc.extended t seg) = marks acc := by
  cases seg with
  | toolCall i =>
    refine List.ext_getElem? fun j => ?_
    simp only [marks, Acc.extended, Acc.appendArguments, List.getElem?_map, List.getElem?_modify]
    split_ifs <;> cases acc.toolCalls[j]? <;> rfl
  | _ => rfl

theorem sends_grow {acc : Acc} {slot : Slot} {seg : SegmentKind} (hseg : place acc slot = some seg)
    (t : String) {events : List AssistantEvent}
    (hevents : ∀ p, acc.content seg = some p → events = [p.1.delta t]) :
    Sends Sent acc [.grow slot t] events (acc.extended t seg) := by
  intro w hw
  refine ⟨⟨?_, ?_⟩, hw.placed.announces_grow hseg hevents⟩
  · rw [place_extended]
    exact hw.placed.grow hseg t
  · rw [marks_extended]
    exact hw.running

/-- A block starts; what stands under the other keys stays there. -/
theorem sends_start {acc acc' : Acc} {slot : Slot} {b : Block} (hfresh : place acc slot = none)
    (hsame : (acc.started b).2.Same acc') (hcalls : acc'.toolCalls = (acc.started b).2.toolCalls)
    (hplace : ∀ j, place acc' j = if j = slot then some (acc.started b).1 else place acc j) :
    Sends Sent acc [.start slot b] b.starts acc' := by
  intro w hw
  have hkey := hw.placed.fresh hfresh
  refine ⟨⟨(hw.placed.start hfresh hplace).same hsame, ?_⟩, .start hkey⟩
  intro c hc
  rw [marks, hcalls]
  rw [Wire.run_cons, Wire.run_nil] at hc
  simp only [Wire.take, if_neg hkey] at hc
  cases b with
  | toolUse id name =>
    obtain rfl := Option.some.inj hc
    simp [Acc.started, Acc.startToolCall]
  | _ => exact hw.running c hc

/-- All text of a kind goes into one block, which starts without an event. -/
theorem sends_sole (acc : Acc) (slot : Slot) (b : Block) (hb : b.starts = [])
    (hstart : place acc slot = none → ∀ j,
      place (acc.started b).2 j = if j = slot then some (acc.started b).1 else place acc j)
    (hblock : ∀ seg p, place acc slot = some seg → acc.content seg = some p → p.1 = b)
    (t : String) : Sends Sent acc [.start slot b, .grow slot t] [b.delta t]
      ((place acc slot).elim ((acc.started b).2.extended t (acc.started b).1)
        (acc.extended t)) := by
  cases hplace : place acc slot with
  | none =>
    have hstarted : Sends Sent acc [.start slot b] [] (acc.started b).2 :=
      hb ▸ sends_start hplace ⟨rfl, rfl⟩ rfl (hstart hplace)
    refine hstarted.trans (sends_grow ((hstart hplace slot).trans (if_pos rfl)) t ?_)
    intro p hp
    rw [Acc.content_started, if_pos rfl] at hp
    rw [← Option.some.inj hp]
  | some seg =>
    have hagain : Sends Sent acc [.start slot b] [] acc := by
      intro w hw
      have hkey : slot ∈ w.keys := hw.placed.known slot seg hplace
      refine ⟨?_, .again hkey⟩
      rw [Wire.run_cons, Wire.start_of_mem hkey]
      exact hw
    refine hagain.trans (sends_grow hplace t ?_)
    intro p hp
    rw [hblock seg p hplace hp]

theorem place_started_text {acc : Acc} (h : place acc .text = none) (j : Slot) :
    place (acc.started .text).2 j = if j = .text then some (acc.started .text).1
      else place acc j := by
  have hnone : Acc.firstText? acc.segments = none := Option.map_eq_none_iff.mp h
  rw [Acc.firstText?] at hnone
  cases j <;> simp [place, Acc.started, Acc.startTextBlock, Acc.firstText?, Acc.firstThinking?,
    Acc.toolLocalIndex, List.findSome?_append, hnone]

theorem place_started_thinking {acc : Acc} (h : place acc .thinking = none) (j : Slot) :
    place (acc.started .thinking).2 j = if j = .thinking then some (acc.started .thinking).1
      else place acc j := by
  have hnone : Acc.firstThinking? acc.segments = none := Option.map_eq_none_iff.mp h
  rw [Acc.firstThinking?] at hnone
  cases j <;> simp [place, Acc.started, Acc.startThinkingBlock, Acc.firstText?,
    Acc.firstThinking?, Acc.toolLocalIndex, List.findSome?_append, hnone]

theorem mapText_sends (delta : Json) (acc : Acc) :
    Sends Sent acc (textSteps .text .text (getString "content" delta)) (mapText delta acc).1
      (mapText delta acc).2 := by
  unfold mapText textSteps
  cases nonEmpty (getString "content" delta) with
  | none => exact .refl acc
  | some t =>
    have hsole := sends_sole acc .text .text rfl place_started_text
      (fun seg p hseg hp => by
        obtain ⟨i, -, rfl⟩ := Option.map_eq_some_iff.mp hseg
        exact (Acc.block_text hp).mpr ⟨i, rfl⟩) t
    have heq : acc.appendText t = (place acc .text).elim
        ((acc.started .text).2.extended t (acc.started .text).1) (acc.extended t) := by
      unfold Acc.appendText place
      cases Acc.firstText? acc.segments <;> rfl
    rw [← heq] at hsole
    exact hsole

theorem mapThinking_sends (delta : Json) (acc : Acc) :
    Sends Sent acc (textSteps .thinking .thinking (getString "reasoning_content" delta))
      (mapThinking delta acc).1 (mapThinking delta acc).2 := by
  unfold mapThinking textSteps
  cases nonEmpty (getString "reasoning_content" delta) with
  | none => exact .refl acc
  | some t =>
    have hsole := sends_sole acc .thinking .thinking rfl place_started_thinking
      (fun seg p hseg hp => by
        obtain ⟨i, -, rfl⟩ := Option.map_eq_some_iff.mp hseg
        exact (Acc.block_thinking hp).mpr ⟨i, rfl⟩) t
    have heq : acc.appendThinking t = (place acc .thinking).elim
        ((acc.started .thinking).2.extended t (acc.started .thinking).1) (acc.extended t) := by
      unfold Acc.appendThinking place
      cases Acc.firstThinking? acc.segments <;> rfl
    rw [← heq] at hsole
    exact hsole

theorem locate_sends {index : ℕ} {id name : String} {acc : Acc}
    {r : List AssistantEvent × ℕ × Acc} (h : locate index id name acc = .ok r) :
    Sends Sent acc (if id = "" then [] else [.start (.call index) (.toolUse id name)]) r.1 r.2.2 ∧
      r.2.2.toolLocalIndex index = some r.2.1 := by
  obtain ⟨hid, hfresh, rfl⟩ | ⟨rfl, i, hi, rfl⟩ := locate_ok h
  · have hindex : ∀ j, lookAt (noteAt acc.toolIndexMap index (acc.startToolCall id name).1) j =
        if j = index then some (acc.startToolCall id name).1 else acc.toolLocalIndex j :=
      fun j => lookAt_noteAt _ _ _ _
    refine ⟨?_, (hindex index).trans (if_pos rfl)⟩
    rw [if_neg hid]
    refine sends_start ?_ ⟨rfl, rfl⟩ rfl ?_
    · rw [place, hfresh, Option.map_none]
    · intro j
      cases j with
      | call j =>
        simp only [place, Acc.toolLocalIndex, hindex, Slot.call.injEq]
        split_ifs <;> rfl
      | _ =>
        simp [place, Acc.startToolCall, Acc.firstText?, Acc.firstThinking?, List.findSome?_append]
  · exact ⟨.refl acc, hi⟩

theorem mapArguments_sends {index i : ℕ} (args : String) {acc : Acc}
    (hindex : acc.toolLocalIndex index = some i) :
    Sends Sent acc (if args = "" then [] else [.grow (.call index) args])
      (mapArguments i args acc).1 (mapArguments i args acc).2 := by
  have hplace : place acc (.call index) = some (.toolCall i) := by
    rw [place, hindex, Option.map_some]
  unfold mapArguments
  split_ifs with hargs
  · exact .refl acc
  · intro w hw
    obtain ⟨p, -, hcontent⟩ := hw.placed.piece hplace
    obtain ⟨tc, htc, rfl⟩ := Option.map_eq_some_iff.mp hcontent
    simp only [htc]
    refine sends_grow hplace args ?_ w hw
    intro p hp
    rw [← Option.some.inj (hcontent.symm.trans hp)]
    rfl

theorem mapToolCall_sends {tc : Json} {acc : Acc} {r : List AssistantEvent × Acc}
    (h : mapToolCall tc acc = .ok r) : Sends Sent acc (callSteps tc) r.1 r.2 := by
  obtain ⟨index, function, located, hindex, hfunction, hlocate, rfl⟩ := mapToolCall_ok h
  obtain ⟨hstart, hi⟩ := locate_sends hlocate
  unfold callSteps
  rw [hindex, hfunction]
  exact hstart.trans (mapArguments_sends _ hi)

theorem mapToolCalls_sends {tcs : List Json} {acc : Acc} {r : List AssistantEvent × Acc}
    (h : mapToolCalls tcs acc = .ok r) : Sends Sent acc (tcs.flatMap callSteps) r.1 r.2 := by
  induction tcs generalizing acc r with
  | nil =>
    cases h
    exact .refl acc
  | cons tc tcs ih =>
    obtain ⟨first, rest, hfirst, hrest, rfl⟩ := mapToolCalls_cons_ok h
    rw [List.flatMap_cons]
    exact (mapToolCall_sends hfirst).trans (ih hrest)

/-- The end of the answer ends the current call. -/
theorem mapFinish_sends (choice : Json) (acc : Acc) :
    Sends Sent acc (finishSteps choice) (mapFinish choice acc).1 (mapFinish choice acc).2 := by
  unfold mapFinish finishSteps
  cases hreason : getString "finish_reason" choice with
  | none => exact .refl acc
  | some reason =>
    simp only [Option.some.injEq]
    split_ifs
    · intro w hw
      refine ⟨⟨?_, fun _ h => by cases h⟩, ?_⟩
      · have hsame : acc.Same { acc with
            toolCalls := acc.toolCalls.map fun tc => { tc with done := true }
            stopReason := some (mapStopReason reason) } := by
          refine Acc.same_of_calls rfl rfl rfl ?_
          intro i
          rw [List.getElem?_map, Option.map_map]
          rfl
        exact Placed.ended (s := .finish) (hw.placed.same hsame) rfl
      · have hids : ((acc.toolCalls.filter fun tc => !tc.done).map fun tc =>
            AssistantEvent.toolCallEnd tc.id) =
            ((acc.toolCalls.filter fun tc => !tc.done).map ToolCallAcc.id).map .toolCallEnd := by
          rw [List.map_map]
          rfl
        simp only [hids]
        refine .finish fun c hc => ?_
        obtain ⟨tc, htc, hmark⟩ := List.mem_map.mp (hw.running c hc)
        obtain ⟨hid, hdone⟩ := Prod.mk.inj hmark
        exact List.mem_map.mpr ⟨tc, List.mem_filter.mpr ⟨htc, by rw [hdone]; rfl⟩, hid⟩
    · exact sends_quiet ⟨rfl, rfl⟩ rfl rfl (List.forall_mem_nil _)

theorem mapChoice_sends {choice : Json} {acc : Acc} {r : List AssistantEvent × Acc}
    (h : mapChoice choice acc = .ok r) : Sends Sent acc (choiceSteps choice) r.1 r.2 := by
  obtain ⟨calls, hcalls, rfl⟩ := Except.map_eq_ok.mp h
  exact (((mapText_sends _ acc).trans (mapThinking_sends _ _)).trans
    (mapToolCalls_sends hcalls)).trans (mapFinish_sends choice calls.2)

theorem mapChunk_sends {jsonError : String → String} {data : String} {acc : Acc}
    {r : List AssistantEvent × Acc} (h : mapChunk jsonError data acc = .ok r) :
    Sends Sent acc (steps (.data data)) r.1 r.2 := by
  unfold mapChunk at h
  simp only [steps]
  cases hread : Serde.fromStr data.toList with
  | none => simp only [hread, reduceCtorEq] at h
  | some v =>
    simp only [hread] at h
    obtain ⟨mapped, hmapped, rfl⟩ := Except.map_eq_ok.mp h
    have hrecord : Sends Sent mapped.2 [] [] (recordUsage v mapped.2) := by
      unfold recordUsage
      split
      · exact sends_quiet ⟨rfl, rfl⟩ rfl rfl (List.forall_mem_nil _)
      · exact .refl _
    rw [Option.bind_some]
    cases hchoice : ((get "choices" v).bind array).bind List.head? with
    | none =>
      rw [hchoice] at hmapped
      cases hmapped
      exact hrecord
    | some choice =>
      rw [hchoice] at hmapped
      have hsends := (mapChoice_sends hmapped).trans hrecord
      rwa [List.append_nil, List.append_nil] at hsends

theorem mapEvent_sends {jsonError : String → String} {sse : SseEvent} {acc : Acc}
    {r : List AssistantEvent × Acc} (h : mapEvent jsonError sse acc = .ok r) :
    Sends Sent acc (steps sse) r.1 r.2 := by
  cases sse with
  | named event data => exact mapChunk_sends h
  | data data => exact mapChunk_sends h
  | done =>
    cases h
    exact sends_quiet ⟨rfl, rfl⟩ rfl rfl (by simp)

theorem mapAll_sends {jsonError : String → String} {sses : List SseEvent} {acc acc' : Acc}
    {events : List AssistantEvent}
    (h : mapAll (mapEvent jsonError) acc sses = (events, acc', none)) :
    Sends Sent acc (sses.flatMap steps) events acc' :=
  sends_mapAll (fun _ _ _ hmap => mapEvent_sends hmap) h

/-- All text of a kind stands in one block. -/
theorem slot_of_start {sse : SseEvent} {k : Slot} {b : Block} (h : .start k b ∈ steps sse) :
    (b = .text → k = .text) ∧ (b = .thinking → k = .thinking) := by
  have htext : ∀ {slot : Slot} {b' : Block} {text : Option String},
      .start k b ∈ textSteps slot b' text → k = slot ∧ b = b' := by
    intro slot b' text hmem
    unfold textSteps at hmem
    split at hmem <;> simp_all
  have hcall : ∀ {tc : Json}, .start k b ∈ callSteps tc → ∃ id name, b = .toolUse id name := by
    intro tc hmem
    unfold callSteps at hmem
    split at hmem
    · rcases List.mem_append.mp hmem with hmem | hmem
      · split_ifs at hmem
        · cases hmem
        · cases List.mem_singleton.mp hmem
          exact ⟨_, _, rfl⟩
      · split_ifs at hmem
        · cases hmem
        · cases List.mem_singleton.mp hmem
    · cases hmem
  have hchoice : ∀ {choice : Json}, .start k b ∈ choiceSteps choice →
      (b = .text → k = .text) ∧ (b = .thinking → k = .thinking) := by
    intro choice hmem
    unfold choiceSteps at hmem
    simp only [List.mem_append, or_assoc] at hmem
    rcases hmem with hmem | hmem | hmem | hmem
    · obtain ⟨rfl, rfl⟩ := htext hmem
      exact ⟨fun _ => rfl, Block.noConfusion⟩
    · obtain ⟨rfl, rfl⟩ := htext hmem
      exact ⟨Block.noConfusion, fun _ => rfl⟩
    · obtain ⟨tc, -, hmem⟩ := List.mem_flatMap.mp hmem
      obtain ⟨id, name, rfl⟩ := hcall hmem
      exact ⟨Block.noConfusion, Block.noConfusion⟩
    · unfold finishSteps at hmem
      split_ifs at hmem
      · cases List.mem_singleton.mp hmem
      · cases hmem
  cases sse with
  | done => cases h
  | _ =>
    simp only [steps] at h
    cases hread : (fromStr _).bind fun v => ((get "choices" v).bind array).bind List.head? with
    | none =>
      rw [hread] at h
      cases h
    | some choice =>
      rw [hread] at h
      exact hchoice h

theorem texts_inOrder (sses : List SseEvent) {b : Block} (hb : b = .text ∨ b = .thinking) :
    Wire.empty.arrived b (sses.flatMap steps) =
      (Wire.empty.run (sses.flatMap steps)).spelled b := by
  symm
  rcases hb with rfl | rfl
  · refine Wire.spelled_run_of_sole (k := .text) fun j hj => ?_
    obtain ⟨sse, -, hstart⟩ := List.mem_flatMap.mp hj
    exact (slot_of_start hstart).1 rfl
  · refine Wire.spelled_run_of_sole (k := .thinking) fun j hj => ?_
    obtain ⟨sse, -, hstart⟩ := List.mem_flatMap.mp hj
    exact (slot_of_start hstart).2 rfl

end OpenAi

/-! ### Anthropic -/

namespace Anthropic

open Serde

/-- The index of the block that a `content_block_stop` is for. -/
def blockStop? (sse : SseEvent) : Option ℕ :=
  (eventOf sse).bind fun e => if e.1 = "content_block_stop" then getU64 "index" e.2 else none

/-- The step in an event. -/
def steps (sse : SseEvent) : List (WireStep ℕ) :=
  ((blockStart? sse).map fun s => .start s.1 s.2).toList ++
    ((blockDelta? sse).map fun d => .grow d.1 d.2).toList ++ ((blockStop? sse).map .stop).toList

/-- The answer so far is what was sent. -/
abbrev Sent (w : Wire ℕ) (acc : Acc) : Prop := Placed acc.blockKind w acc

theorem sends_quiet {acc acc' : Acc} {events : List AssistantEvent} (hsame : acc.Same acc')
    (hkinds : acc'.blockKinds = acc.blockKinds) (hquiet : ∀ e ∈ events, e.isTerminal = true) :
    Sends Sent acc [] events acc' := by
  intro w hw
  have hkind : acc'.blockKind = acc.blockKind := by
    funext index
    rw [Acc.blockKind, Acc.blockKind, hkinds]
  refine ⟨?_, .quiet hquiet⟩
  rw [Sent, hkind]
  exact hw.same hsame

theorem handleBlockStart_sends {v : Json} {acc : Acc} {r : List AssistantEvent × Acc}
    (h : handleBlockStart v acc = .ok r) :
    Sends Sent acc ((startOf v).map fun s => .start s.1 s.2).toList r.1 r.2 := by
  obtain ⟨index, b, hstart, hfresh, rfl⟩ := handleBlockStart_ok h
  rw [hstart]
  intro w hw
  refine ⟨(hw.start hfresh ?_).same ⟨rfl, rfl⟩, .start (hw.fresh hfresh)⟩
  intro j
  rw [Acc.blockKind, Acc.noteBlock, lookAt_noteAt]
  cases b <;> rfl

theorem handleBlockDelta_sends {v : Json} {acc : Acc} {r : List AssistantEvent × Acc}
    (h : handleBlockDelta v acc = .ok r) :
    Sends Sent acc ((deltaOf v).map fun d => .grow d.1 d.2).toList r.1 r.2 := by
  obtain ⟨index, t, seg, hdelta, hkind, hacc, hevents⟩ := handleBlockDelta_ok h
  have hkinds : (acc.extended t seg).blockKind = acc.blockKind := by
    cases seg <;> rfl
  rw [hdelta, hacc]
  intro w hw
  refine ⟨?_, hw.announces_grow hkind hevents⟩
  rw [Sent, hkinds]
  exact hw.grow hkind t

theorem handleBlockStop_sends {v : Json} {acc : Acc} {r : List AssistantEvent × Acc}
    (h : handleBlockStop v acc = .ok r) :
    Sends Sent acc ((getU64 "index" v).map .stop).toList r.1 r.2 := by
  obtain ⟨index, seg, hindex, hkind, hstop⟩ := handleBlockStop_ok h
  rw [hindex]
  intro w hw
  have hended : ∀ {acc' : Acc}, acc.Same acc' → acc'.blockKind = acc.blockKind →
      Placed acc'.blockKind (w.run [.stop index]) acc' := by
    intro acc' hsame hkinds
    rw [hkinds]
    exact Placed.ended (s := .stop index) (hw.same hsame) rfl
  obtain ⟨i, tc, rfl, htc, -, rfl⟩ | ⟨hother, rfl⟩ := hstop
  · exact ⟨hended (same_endToolCall acc tc.id) rfl, .stop (hw.mem_calls hkind htc)⟩
  · refine ⟨hended ⟨rfl, rfl⟩ rfl, .pass fun hmem => ?_⟩
    obtain ⟨⟨k, call⟩, hcall, rfl⟩ := List.mem_map.mp hmem
    obtain ⟨p, hp, hpiece⟩ := hw.piece hkind
    obtain ⟨p', hp', hcall⟩ := Wire.mem_select.mp hcall
    obtain rfl := hw.wire.unique hp hp'
    cases seg with
    | toolCall i => exact hother i rfl
    | text i =>
      obtain ⟨_, -, rfl⟩ := Option.map_eq_some_iff.mp hpiece
      cases hcall
    | thinking i =>
      obtain ⟨_, -, rfl⟩ := Option.map_eq_some_iff.mp hpiece
      cases hcall

/-- The step in an event of a type. -/
def stepsOf (eventType : String) (v : Json) : List (WireStep ℕ) :=
  if eventType = "content_block_start" then ((startOf v).map fun s => .start s.1 s.2).toList
  else if eventType = "content_block_delta" then ((deltaOf v).map fun d => .grow d.1 d.2).toList
  else if eventType = "content_block_stop" then ((getU64 "index" v).map .stop).toList
  else []

theorem steps_of {sse : SseEvent} {e : String × Json} (h : eventOf sse = some e) :
    steps sse = stepsOf e.1 e.2 := by
  simp only [steps, blockStart?, blockDelta?, blockStop?, h, Option.bind_some, stepsOf]
  by_cases hstart : e.1 = "content_block_start"
  · simp [hstart]
  by_cases hdelta : e.1 = "content_block_delta"
  · simp [hdelta]
  by_cases hstop : e.1 = "content_block_stop"
  · simp [hstop]
  · simp [hstart, hdelta, hstop]

theorem handle_sends {eventType : String} {v : Json} {acc : Acc} {r : List AssistantEvent × Acc}
    (h : handle eventType v acc = .ok r) : Sends Sent acc (stepsOf eventType v) r.1 r.2 := by
  unfold handle at h
  unfold stepsOf
  split_ifs at h ⊢ with hstart hdelta hstop hmessage husage hdone
  · exact handleBlockStart_sends h
  · exact handleBlockDelta_sends h
  · exact handleBlockStop_sends h
  · cases h
    unfold messageStart
    split
    · exact sends_quiet ⟨rfl, rfl⟩ rfl (List.forall_mem_nil _)
    · exact .refl acc
  · cases h
    unfold messageDelta
    split <;> split <;> exact sends_quiet ⟨rfl, rfl⟩ rfl (List.forall_mem_nil _)
  · cases h
    exact sends_quiet ⟨rfl, rfl⟩ rfl (by simp)
  · cases h
    exact .refl acc

theorem mapEvent_sends {jsonError : String → String} {sse : SseEvent} {acc : Acc}
    {r : List AssistantEvent × Acc} (h : mapEvent jsonError sse acc = .ok r) :
    Sends Sent acc (steps sse) r.1 r.2 := by
  obtain ⟨e, hevent, hhandle⟩ | ⟨hevent, rfl⟩ := mapEvent_ok h
  · rw [steps_of hevent]
    exact handle_sends hhandle
  · have hnone : steps sse = [] := by
      simp [steps, blockStart?, blockDelta?, blockStop?, hevent]
    rw [hnone]
    exact sends_quiet ⟨rfl, rfl⟩ rfl (by simp)

theorem mapAll_sends {jsonError : String → String} {sses : List SseEvent} {acc acc' : Acc}
    {events : List AssistantEvent}
    (h : mapAll (mapEvent jsonError) acc sses = (events, acc', none)) :
    Sends Sent acc (sses.flatMap steps) events acc' :=
  sends_mapAll (fun _ _ _ hmap => mapEvent_sends hmap) h

end Anthropic

end Guigu
