import Guigu.Adapters.Returning

/-! In every run the references of the answer stay right, so that no index is out of bounds. A block
handler that refuses leaves the answer as it was. -/
namespace Guigu

open Serde Panicking

/-! ### Refused blocks -/

namespace Handling

variable {α β : Type} {room : ℕ}

theorem require_clean {found : Option α} {text : String} {f : α → Handling β}
    (h : ∀ a, Clean (f a)) : Clean (require found text >>= f) :=
  (Looks.demand found _).bind h

theorem refuse_clean (text : String) : Clean (refuse text : Handling α) := (Looks.throw _).clean

theorem reach_accepts (xs : List (Option α)) (i : ℕ) : Accepts (reach room xs i) := by
  unfold reach
  split_ifs
  · apply Accepts.bind
    · exact .checked (.pure _) _
    · exact fun n => .checked (.pure _) _
  · exact .pure _

theorem noteBlock_accepts (index : ℕ) (kind : SegmentKind) :
    Accepts (noteBlock room index kind) := by
  apply Accepts.get.bind
  intro acc
  apply (reach_accepts acc.blockKinds index).bind
  intro table
  apply Accepts.bind
  · exact .checked (.pure _) _
  · exact fun _ => .set _

theorem appendTextBlock_accepts (i : ℕ) (text : String) : Accepts (appendTextBlock i text) :=
  Accepts.get.bind fun _ => .checked (.set _) _

theorem appendThinkingBlock_accepts (i : ℕ) (thinking : String) :
    Accepts (appendThinkingBlock i thinking) :=
  Accepts.get.bind fun _ => .checked (.set _) _

theorem appendArguments_accepts (i : ℕ) (args : String) : Accepts (appendArguments i args) :=
  Accepts.get.bind fun _ => .checked (.set _) _

namespace Anthropic

/-- A block starts when nothing is missing any more. -/
theorem startBlock_clean (index : ℕ) (blockType : String) (block : Json) :
    Clean (startBlock room index blockType block) := by
  have hnoted : ∀ (start : Acc → ℕ × Acc) (kind : ℕ → SegmentKind) (events : List AssistantEvent),
      Clean (do
        let i ← modifyGet start
        noteBlock room index (kind i)
        return events : Handling (List AssistantEvent)) := by
    intro start kind events
    apply Accepts.clean
    apply (Accepts.modifyGet start).bind
    intro i
    exact (noteBlock_accepts index (kind i)).bind fun _ => .pure events
  unfold startBlock
  split_ifs
  · apply require_clean
    intro id
    apply require_clean
    intro name
    exact hnoted (·.startToolCall id name) .toolCall _
  · exact hnoted Acc.startTextBlock .text _
  · exact hnoted Acc.startThinkingBlock .thinking _
  · exact refuse_clean _

theorem handleBlockStart_clean (v : Json) : Clean (handleBlockStart room v) := by
  apply require_clean
  intro index
  apply Looks.get.bind
  intro acc
  split_ifs
  · exact refuse_clean _
  · apply require_clean
    intro block
    apply require_clean
    intro blockType
    exact startBlock_clean index blockType block

theorem textDelta_clean (index : ℕ) (delta : Json) : Clean (textDelta index delta) := by
  apply require_clean
  intro text
  apply Looks.get.bind
  intro acc
  split
  · exact ((appendTextBlock_accepts _ text).bind fun _ => .pure _).clean
  · exact refuse_clean _

theorem thinkingDelta_clean (index : ℕ) (delta : Json) : Clean (thinkingDelta index delta) := by
  apply require_clean
  intro thinking
  apply Looks.get.bind
  intro acc
  split
  · exact ((appendThinkingBlock_accepts _ thinking).bind fun _ => .pure _).clean
  · exact refuse_clean _

theorem inputJsonDelta_clean (index : ℕ) (delta : Json) : Clean (inputJsonDelta index delta) := by
  apply require_clean
  intro args
  apply Looks.get.bind
  intro acc
  split
  · apply require_clean
    intro tc
    exact ((appendArguments_accepts _ args).bind fun _ => .pure _).clean
  · exact refuse_clean _

theorem handleBlockDelta_clean (v : Json) : Clean (handleBlockDelta v) := by
  apply require_clean
  intro index
  apply require_clean
  intro delta
  apply require_clean
  intro deltaType
  split_ifs
  · exact textDelta_clean index delta
  · exact thinkingDelta_clean index delta
  · exact inputJsonDelta_clean index delta
  · exact refuse_clean _

theorem handleBlockStop_clean (v : Json) : Clean (handleBlockStop v) := by
  apply require_clean
  intro index
  apply Looks.get.bind
  intro acc
  split
  · apply require_clean
    intro tc
    split_ifs
    · exact refuse_clean _
    · exact ((Accepts.modifyGet _).bind fun _ => .pure _).clean
  · exact (Accepts.pure _).clean
  · exact (Accepts.pure _).clean
  · exact refuse_clean _

end Anthropic

end Handling

/-! ### Runs -/

namespace Adapter

/-- The indexes that an event brings into a table can be stored there. -/
def IndexesFit (room : ℕ) : Adapter → SseEvent → Acc → Prop
  | .openAi => OpenAi.IndexesFit room
  | .anthropic => Anthropic.IndexesFit room

instance (room : ℕ) : (adapter : Adapter) → (sse : SseEvent) → (acc : Acc) →
    Decidable (adapter.IndexesFit room sse acc)
  | .openAi, sse, acc => inferInstanceAs (Decidable (OpenAi.IndexesFit room sse acc))
  | .anthropic, sse, acc => inferInstanceAs (Decidable (Anthropic.IndexesFit room sse acc))

/-- The token counts of an event can be added up. -/
def TokensFit : Adapter → SseEvent → Acc → Prop
  | .openAi => OpenAi.TokensFit
  | .anthropic => Anthropic.TokensFit

theorem fits_iff (adapter : Adapter) (room : ℕ) (sse : SseEvent) (acc : Acc) :
    adapter.Fits room sse acc ↔ adapter.IndexesFit room sse acc ∧ adapter.TokensFit sse acc := by
  cases adapter with
  | openAi => exact OpenAi.fits_iff sse
  | anthropic => exact Anthropic.fits_iff sse

/-- How long the table is that the adapter uses. -/
def tableLength : Adapter → Acc → ℕ
  | .openAi, acc => acc.toolIndexMap.length
  | .anthropic, acc => acc.blockKinds.length

/-- The references are right, and there is room for the table. -/
structure Fitted (room : ℕ) (adapter : Adapter) (acc : Acc) : Prop where
  represented : acc.Represented
  short : adapter.tableLength acc ≤ tableEnd room

/-- The answer behind an event, refused or not. Sums of tokens that are too large wrap around or are
a panic; a panic leaves the answer in front of the event. -/
def leftBehind (wraps : Bool) (room : ℕ) (jsonError : String → String) (adapter : Adapter)
    (acc : Acc) (sse : SseEvent) : Acc :=
  match outcome (adapter.handling room jsonError sse) acc, adapter.mapEvent jsonError sse acc with
  | .ok r, _ => r.2
  | .error _, .ok r => if wraps ∧ adapter.IndexesFit room sse acc then r.2 else acc
  | .error _, .error _ => acc

variable {adapter : Adapter} {room : ℕ} {acc : Acc} {sse : SseEvent}

theorem openAi_tabled (hacc : openAi.Fitted room acc) : OpenAi.Tabled room acc where
  sound := {
    held := hacc.represented.sound
    indexed := by
      intro i j hij
      rw [hacc.represented.listed.mem_iff, Acc.mem_slots_toolCall]
      exact hacc.represented.calls.live i j hij }
  short := hacc.short

/-- A step that the table takes no part in. -/
theorem openAi_fitted {next : Acc} (hacc : openAi.Fitted room acc)
    (hnext : next.Represented) (htable : next.toolIndexMap = acc.toolIndexMap) :
    openAi.Fitted room next :=
  ⟨hnext, by simpa only [tableLength, htable] using hacc.short⟩

theorem openAi_kept (room : ℕ) : OpenAi.Kept room (openAi.Fitted room) where
  tabled := openAi_tabled
  text delta hacc := openAi_fitted hacc
    (OpenAi.mapText_represented delta hacc.represented)
    (OpenAi.toolIndexMap_mapText delta _)
  thinking delta hacc := openAi_fitted hacc
    (OpenAi.mapThinking_represented delta hacc.represented)
    (OpenAi.toolIndexMap_mapThinking delta _)
  call hacc hfits h := ⟨OpenAi.mapToolCall_represented h hacc.represented,
    ((openAi_tabled hacc).mapToolCall hfits h).short⟩
  finish choice hacc := openAi_fitted hacc
    (hacc.represented.frame (OpenAi.outline_mapFinish choice _))
    (OpenAi.toolIndexMap_mapFinish choice _)
  usage := by
    intro acc v hacc
    have houtline := OpenAi.outline_recordUsage v acc
    exact openAi_fitted hacc (hacc.represented.frame houtline) (congrArg (·.2.2.1) houtline)

theorem mapEvent_fitted (hacc : adapter.Fitted room acc) (hfits : adapter.IndexesFit room sse acc)
    {jsonError : String → String} {r : List AssistantEvent × Acc}
    (h : adapter.mapEvent jsonError sse acc = .ok r) : adapter.Fitted room r.2 := by
  cases adapter with
  | openAi => exact OpenAi.mapEvent_keeps (openAi_kept room) hacc hfits h
  | anthropic =>
    exact ⟨Anthropic.mapEvent_represented h hacc.represented,
      Anthropic.mapEvent_short hacc.short hfits h⟩

theorem handling_fitted (adapter : Adapter) (jsonError : String → String) (sse : SseEvent)
    (hacc : adapter.Fitted room acc) :
    Leaves (adapter.Fitted room) (adapter.handling room jsonError sse) acc
      (adapter.Fits room sse acc) (adapter.mapEvent jsonError sse acc) := by
  cases adapter with
  | openAi => exact OpenAi.mapEvent_leaves (openAi_kept room) jsonError sse hacc
  | anthropic =>
    exact (Anthropic.mapEvent_follows hacc.represented.bounds hacc.short jsonError sse).leaves hacc
      fun hfits _ h => mapEvent_fitted hacc ((fits_iff .anthropic room sse acc).mp hfits).1 h

/-- Where the indexes fit, only a sum of tokens is a panic. -/
theorem handling_panics (hacc : adapter.Fitted room acc) (hfits : adapter.IndexesFit room sse acc)
    {jsonError : String → String} {p : Panic}
    (h : outcome (adapter.handling room jsonError sse) acc = .error p) :
    p = .overflow ∧ ¬ adapter.TokensFit sse acc := by
  have htokens : ¬ adapter.TokensFit sse acc := by
    intro htokens
    obtain ⟨next, hnext, -⟩ := (adapter.handling_fitted jsonError sse hacc).returns
      ((adapter.fits_iff room sse acc).mpr ⟨hfits, htokens⟩)
    cases hnext.symm.trans h
  have hoverflow : outcome (adapter.handling room jsonError sse) acc = .error .overflow := by
    cases adapter with
    | openAi => exact OpenAi.mapEvent_overflows jsonError (openAi_tabled hacc) hfits htokens
    | anthropic => exact Anthropic.mapEvent_overflows jsonError htokens
  exact ⟨Except.error.inj (h.symm.trans hoverflow), htokens⟩

theorem leftBehind_fitted (wraps : Bool) (jsonError : String → String) (sse : SseEvent)
    (hacc : adapter.Fitted room acc) :
    adapter.Fitted room (leftBehind wraps room jsonError adapter acc sse) := by
  have hleaves := adapter.handling_fitted jsonError sse hacc
  unfold leftBehind
  split
  · rename_i r houtcome
    by_cases hfits : adapter.Fits room sse acc
    · obtain ⟨next, hnext, -, hfitted⟩ := hleaves.returns hfits
      cases houtcome.symm.trans hnext
      exact hfitted
    · obtain ⟨p, hp⟩ := hleaves.panics hfits
      cases houtcome.symm.trans hp
  · rename_i r _ hmapped
    split_ifs with hwraps
    · exact mapEvent_fitted hacc hwraps.2 hmapped
    · exact hacc
  · exact hacc

end Adapter

/-- In every run, whether sums of tokens wrap around or are a panic, the segments list every slot
once and the tables lead to slots of their own. So no index is out of bounds: where the indexes that
an event brings can be stored, a sum of tokens is the one panic left. A handler of blocks that
refuses leaves the answer as it was. -/
theorem represented_throughout (adapter : Adapter) (wraps : Bool) (room : ℕ)
    (jsonError : String → String) (model : String) (sses : List SseEvent) :
    Runs.Throughout (adapter.leftBehind wraps room jsonError)
        (fun acc => acc.Represented ∧ ∀ sse p, adapter.IndexesFit room sse acc →
          outcome (adapter.handling room jsonError sse) acc = .error p →
            p = .overflow ∧ ¬ adapter.TokensFit sse acc) (.new model) sses ∧
      ∀ v, ∀ handler ∈ [Handling.Anthropic.handleBlockStart room v,
          Handling.Anthropic.handleBlockDelta v, Handling.Anthropic.handleBlockStop v],
        ∀ acc e next, outcome handler acc = .ok (.error e, next) → next = acc := by
  constructor
  · have hnew : adapter.Fitted room (.new model) := by
      refine ⟨.new model, ?_⟩
      cases adapter <;> exact Nat.zero_le _
    have hstep : ∀ acc sse, adapter.Fitted room acc →
        adapter.Fitted room (adapter.leftBehind wraps room jsonError acc sse) :=
      fun _ sse hacc => Adapter.leftBehind_fitted wraps jsonError sse hacc
    apply Runs.always hstep ?_ hnew
    intro acc hacc
    exact ⟨hacc.represented, fun _ _ hfits h => Adapter.handling_panics hacc hfits h⟩
  · intro v handler hhandler
    simp only [List.mem_cons, List.not_mem_nil, or_false] at hhandler
    obtain rfl | rfl | rfl := hhandler
    · exact Handling.Anthropic.handleBlockStart_clean v
    · exact Handling.Anthropic.handleBlockDelta_clean v
    · exact Handling.Anthropic.handleBlockStop_clean v

end Guigu
