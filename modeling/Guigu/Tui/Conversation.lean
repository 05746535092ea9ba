import Guigu.Core.Telling
import Guigu.Tui.State

/-! The conversation that the terminal interface shows: its bubbles are the messages of the
transcript. -/
namespace Guigu

/-- What is said in the conversation. -/
inductive Bubble where
  | user (text : String)
  | assistant (text : String)
  deriving DecidableEq, Repr

/-- The bubble of a message; an answer without text has none. -/
def Message.bubble? : Message → Option Bubble
  | .user m => some (.user (Tui.userText m))
  | .assistant m => if (m.joined .text).isEmpty then none else some (.assistant (m.joined .text))
  | .toolResult _ => none

namespace Tui

def ConvItem.bubble? : ConvItem → Option Bubble
  | .user text => some (.user text)
  | .assistant text => some (.assistant text)
  | .tool _ => none

namespace TuiState

def bubbles (s : TuiState) : List Bubble := s.conv.filterMap ConvItem.bubble?

/-- The text that has been streamed and not come to rest. -/
def pendingText (s : TuiState) : String := (s.streaming.map StreamingBubble.text).getD ""

/-- The state behind the events of a run. -/
def watch (s : TuiState) (effects : List Effect) : TuiState :=
  (eventsOf effects).foldl applyEvent s

theorem watch_append (s : TuiState) (es fs : List Effect) :
    s.watch (es ++ fs) = (s.watch es).watch fs := by
  rw [watch, eventsOf_append, List.foldl_append]
  rfl

theorem watch_of_eventsOf (s : TuiState) {es : List Effect} (h : eventsOf es = []) :
    s.watch es = s := by
  rw [watch, h]
  rfl

@[simp] theorem finalizeStreaming_streaming (s : TuiState) :
    s.finalizeStreaming.streaming = none := by
  unfold finalizeStreaming
  split
  · split_ifs <;> rfl
  next h => exact h

/-- The text that was streamed becomes a bubble, unless there is none. -/
theorem finalizeStreaming_bubbles (s : TuiState) : s.finalizeStreaming.bubbles =
    s.bubbles ++ if s.pendingText.isEmpty then [] else [.assistant s.pendingText] := by
  unfold finalizeStreaming pendingText
  cases hs : s.streaming with
  | none => simp
  | some bubble =>
    simp only [Option.map_some, Option.getD_some]
    split_ifs
    · rw [List.append_nil]
      rfl
    · exact List.filterMap_append

/-- A change of a card leaves the bubbles alone. -/
theorem changeToolCard_bubbles {id : String} {f : ToolCard → ToolCard} {conv conv' : List ConvItem}
    (h : changeToolCard id f conv = some conv') :
    conv'.filterMap ConvItem.bubble? = conv.filterMap ConvItem.bubble? := by
  induction conv generalizing conv' with
  | nil => cases h
  | cons item conv ih =>
    cases item with
    | tool card =>
      simp only [changeToolCard] at h
      split_ifs at h
      · obtain rfl := Option.some.inj h
        rfl
      · obtain ⟨rest, hrest, rfl⟩ := Option.map_eq_some_iff.mp h
        have hsame := ih hrest
        exact hsame
    | user text | assistant text =>
      obtain ⟨rest, hrest, rfl⟩ := Option.map_eq_some_iff.mp h
      exact congrArg (_ :: ·) (ih hrest)

@[simp] theorem updateToolCard_bubbles (s : TuiState) (id : String) (f : ToolCard → ToolCard) :
    (s.updateToolCard id f).bubbles = s.bubbles := by
  unfold updateToolCard
  split
  next h => exact changeToolCard_bubbles h
  · rfl

@[simp] theorem updateToolCard_streaming (s : TuiState) (id : String) (f : ToolCard → ToolCard) :
    (s.updateToolCard id f).streaming = s.streaming := by
  unfold updateToolCard
  split <;> rfl

@[simp] theorem upsertToolCard_bubbles (s : TuiState) (id name args : String)
    (status : ToolCardStatus) : (s.upsertToolCard id name args status).bubbles = s.bubbles := by
  unfold upsertToolCard
  split
  next h => exact changeToolCard_bubbles h
  · exact List.filterMap_append.trans (List.append_nil _)

@[simp] theorem upsertToolCard_streaming (s : TuiState) (id name args : String)
    (status : ToolCardStatus) :
    (s.upsertToolCard id name args status).streaming = s.streaming := by
  unfold upsertToolCard
  split <;> rfl

end TuiState

/-- The call that an event opens a card for. -/
def opens? : AgentEvent → Option String
  | .toolExecutionStart id _ _ | .messageUpdate _ (.toolCallStart id _ _) => some id
  | _ => none

def opened (effects : List Effect) : List String := (eventsOf effects).filterMap opens?

theorem opened_append (es fs : List Effect) : opened (es ++ fs) = opened es ++ opened fs := by
  rw [opened, eventsOf_append, List.filterMap_append]
  rfl

namespace TuiState

end TuiState

/-! ### One message -/

/-- The events leave nothing to stream, and the bubbles of the messages in the conversation; each
result comes behind a card. -/
structure Tells (effects : List Effect) (ms : List Message) : Prop where
  bubbles : ∀ s : TuiState, s.streaming = none →
    (s.watch effects).streaming = none ∧
      (s.watch effects).bubbles = s.bubbles ++ ms.filterMap Message.bubble?
  cards : ms.filterMap Message.resultOf? ⊆ opened effects

namespace Tells

theorem of_eventsOf {es : List Effect} (h : eventsOf es = []) : Tells es [] := by
  refine ⟨?_, List.nil_subset _⟩
  intro s hs
  rw [s.watch_of_eventsOf h]
  exact ⟨hs, (List.append_nil _).symm⟩

theorem append {es fs : List Effect} {ms ns : List Message} (h : Tells es ms) (h' : Tells fs ns) :
    Tells (es ++ fs) (ms ++ ns) := by
  constructor
  · intro s hs
    obtain ⟨hstreaming, hbubbles⟩ := h.bubbles s hs
    obtain ⟨hstreaming', hbubbles'⟩ := h'.bubbles _ hstreaming
    rw [TuiState.watch_append]
    refine ⟨hstreaming', ?_⟩
    rw [hbubbles', hbubbles, List.filterMap_append, List.append_assoc]
  · rw [List.filterMap_append, opened_append]
    exact List.append_subset.mpr ⟨List.subset_append_of_subset_left _ h.cards,
      List.subset_append_of_subset_right _ h'.cards⟩

/-- An event that shows nothing. -/
theorem event {e : AgentEvent} (h : ∀ s : TuiState, s.streaming = none →
    (applyEvent s e).streaming = none ∧ (applyEvent s e).bubbles = s.bubbles) :
    Tells [.event e] [] := by
  refine ⟨?_, List.nil_subset _⟩
  intro s hs
  obtain ⟨hstreaming, hbubbles⟩ := h s hs
  exact ⟨hstreaming, hbubbles.trans (List.append_nil _).symm⟩

theorem finalized {s : TuiState} (hs : s.streaming = none) :
    s.finalizeStreaming.streaming = none ∧ s.finalizeStreaming.bubbles = s.bubbles := by
  refine ⟨s.finalizeStreaming_streaming, ?_⟩
  rw [TuiState.finalizeStreaming_bubbles, TuiState.pendingText, hs]
  exact List.append_nil _

theorem framing {e : AgentEvent} (he : e.framing = true) : Tells [.event e] [] := by
  cases e with
  | agentStart | turnStart => exact event fun _ hs => ⟨hs, rfl⟩
  | agentEnd | turnEnd => exact event fun _ hs => finalized hs
  | _ => cases he

/-- A message that is told in one piece has its bubble if it is no answer. -/
theorem whole {m : Message} (h : m.unspoken = true) :
    Tells [.event (.messageStart m), .event (.messageEnd m)] [m] := by
  cases m with
  | user user => exact ⟨fun s hs => ⟨hs, List.filterMap_append⟩, List.nil_subset _⟩
  | assistant assistant =>
    have hempty : (assistant.joined .text).isEmpty = true := h
    have hnone : [Message.assistant assistant].filterMap Message.bubble? = [] := by
      simp [Message.bubble?, hempty]
    refine ⟨?_, List.nil_subset _⟩
    intro s hs
    rw [hnone, List.append_nil]
    exact finalized (s := { s with streaming := none, usage := assistant.usage.or s.usage }) rfl
  | toolResult result => cases h

theorem toolResults_bubbles (results : List ToolResultMessage) :
    (results.map Message.toolResult).filterMap Message.bubble? = [] := by
  induction results with
  | nil => rfl
  | cons r results ih => exact ih

/-- What the tools do changes cards only. -/
theorem ofTools {es : List Effect} (h : OfTools es) {results : List ToolResultMessage}
    (hopened : results.map ToolResultMessage.toolCallId ⊆ opened es) :
    Tells es (results.map .toolResult) := by
  have hquiet : Tells es [] := by
    clear hopened
    induction es with
    | nil => exact of_eventsOf rfl
    | cons e es ih =>
      obtain ⟨he, hes⟩ := List.forall_mem_cons.mp h
      have hfirst : Tells [e] [] := by
        cases e with
        | event e =>
          cases e with
          | toolExecutionStart | toolExecutionUpdate | toolExecutionEnd =>
            exact event fun s hs => by simp [applyEvent, hs]
          | _ => cases he
        | _ => exact of_eventsOf rfl
      exact hfirst.append (ih hes)
  constructor
  · rw [toolResults_bubbles]
    exact hquiet.bubbles
  · rwa [resultOf_toolResults]

end Tells

/-! ### Calls -/

/-- The growth of an answer shows its text. -/
theorem applyUpdate_text {s : TuiState} {e : AssistantEvent} (he : e.isTerminal = false) :
    (applyUpdate s e).pendingText = s.pendingText ++ Block.text.joined [e] ∧
      (applyUpdate s e).bubbles = s.bubbles := by
  have hnone : s.pendingText = s.pendingText ++ "" := String.append_empty.symm
  cases e with
  | textDelta text =>
    refine ⟨?_, rfl⟩
    have hjoined : Block.text.joined [.textDelta text] = text := by
      simp [Block.joined, Block.deltaOf]
    rw [hjoined]
    simp only [applyUpdate, TuiState.pendingText, Option.map_some, Option.getD_some]
    cases s.streaming <;> rfl
  | thinkingDelta thinking =>
    refine ⟨?_, rfl⟩
    refine Eq.trans ?_ hnone
    simp only [applyUpdate, TuiState.pendingText, Option.map_some, Option.getD_some]
    cases s.streaming <;> rfl
  | toolCallStart id name arguments =>
    refine ⟨Eq.trans ?_ hnone, by simp [applyUpdate]⟩
    simp [applyUpdate, TuiState.pendingText]
  | toolCallDelta id argumentsDelta =>
    refine ⟨Eq.trans ?_ hnone, by simp [applyUpdate]⟩
    simp [applyUpdate, TuiState.pendingText]
  | toolCallEnd id => exact ⟨hnone, rfl⟩
  | done message => cases he
  | error message aborted => cases he

theorem foldl_growths {growths : List Growth} (h : ∀ g ∈ growths, g.2.isTerminal = false)
    (s : TuiState) :
    ((growths.map Growth.update).foldl applyEvent s).pendingText =
        s.pendingText ++ grownText growths ∧
      ((growths.map Growth.update).foldl applyEvent s).bubbles = s.bubbles := by
  induction growths generalizing s with
  | nil => exact ⟨String.append_empty.symm, rfl⟩
  | cons g growths ih =>
    obtain ⟨hg, hgrowths⟩ := List.forall_mem_cons.mp h
    obtain ⟨htext, hbubbles⟩ := ih hgrowths (applyUpdate s g.2)
    obtain ⟨hfirst, hkept⟩ := applyUpdate_text (s := s) hg
    refine ⟨htext.trans ?_, hbubbles.trans hkept⟩
    rw [hfirst, String.append_assoc, grownText, grownText, ← Gathers.joined_append]
    rfl

/-- An answer has its bubble, whole or cut off. -/
theorem Tells.streamed {es : List Effect} {begun m : AssistantMessage} {growths : List Growth}
    (hevents : eventsOf es = .messageStart (.assistant begun) :: growths.map Growth.update ++
      [.messageEnd (.assistant m)])
    (hopen : ∀ g ∈ growths, g.2.isTerminal = false) (htext : m.joined .text = grownText growths) :
    Tells es [.assistant m] := by
  refine ⟨?_, List.nil_subset _⟩
  intro s hs
  have hwatch : s.watch es = ({ (growths.map Growth.update).foldl applyEvent
      { s with streaming := none } with
        usage := m.usage.or ((growths.map Growth.update).foldl applyEvent
          { s with streaming := none }).usage }).finalizeStreaming := by
    rw [TuiState.watch, hevents, List.foldl_append]
    rfl
  obtain ⟨hpending, hbubbles⟩ := foldl_growths hopen { s with streaming := none }
  generalize (growths.map Growth.update).foldl applyEvent { s with streaming := none } = s'
    at hwatch hpending hbubbles
  rw [hwatch, TuiState.finalizeStreaming_bubbles]
  refine ⟨TuiState.finalizeStreaming_streaming _, ?_⟩
  have hpending' : ({ s' with usage := m.usage.or s'.usage } : TuiState).pendingText =
      m.joined .text := hpending.trans (String.empty_append.trans htext.symm)
  have hbubbles' : ({ s' with usage := m.usage.or s'.usage } : TuiState).bubbles =
      s.bubbles := hbubbles
  rw [hpending', hbubbles', List.filterMap_cons, Message.bubble?]
  split_ifs <;> rfl

end Tui

namespace AgentSystem

end AgentSystem

end Guigu
