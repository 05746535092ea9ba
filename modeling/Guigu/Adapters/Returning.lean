import Guigu.Adapters.AnthropicRoom
import Guigu.Adapters.OpenAiRoom
import Guigu.Library.Runs

/-! When mapping an event returns: there is room for what it starts, and its token counts can be
added up. -/
namespace Guigu

open Serde Panicking

theorem Adapter.mapEvent_parseOnly (adapter : Adapter) (jsonError : String → String)
    (sse : SseEvent) (acc : Acc) : ParseOnly (adapter.mapEvent jsonError sse acc) := by
  cases adapter with
  | openAi =>
    cases sse with
    | done => exact .ok _
    | _ => exact OpenAi.mapChunk_parseOnly jsonError _ acc
  | anthropic =>
    cases sse with
    | named event data => exact Anthropic.dispatch_parseOnly jsonError event data acc
    | data data =>
      simp only [Adapter.mapEvent, Anthropic.mapEvent]
      split
      · exact .parse _
      · exact Anthropic.dispatch_parseOnly jsonError _ data acc
    | done => exact .ok _

namespace Handling

variable {α : Type}

/-- There is an answer, or an error of parsing. -/
def Returns (m : Handling α) (acc : Acc) : Prop :=
  ∃ result next, outcome m acc = .ok (result, next) ∧ ParseOnly result

/-- The answer behind an event, whether it was refused or not; a panic leaves the one in front
of it. -/
def left (m : Handling α) (acc : Acc) : Acc :=
  match outcome m acc with
  | .ok r => r.2
  | .error _ => acc

end Handling

namespace Adapter

/-- There is room for what the event starts, and its token counts can be added up. -/
def Fits (room : ℕ) : Adapter → SseEvent → Acc → Prop
  | .openAi => OpenAi.Fits room
  | .anthropic => Anthropic.Fits room

def Tabled (room : ℕ) : Adapter → Acc → Prop
  | .openAi => OpenAi.Tabled room
  | .anthropic => Anthropic.Tabled room

theorem tabled_new (adapter : Adapter) (room : ℕ) (model : String) :
    adapter.Tabled room (.new model) := by
  cases adapter with
  | openAi =>
    refine ⟨⟨⟨List.nodup_nil, List.forall_mem_nil _⟩, ?_⟩, Nat.zero_le _⟩
    intro i j hij
    cases hij
  | anthropic =>
    refine ⟨⟨.empty, ?_⟩, Nat.zero_le _⟩
    exact {
      wire := .empty
      held := ⟨List.nodup_nil, List.forall_mem_nil _⟩
      placed := rfl
      known := nofun
      content := List.forall_mem_nil _ }

theorem handling_leaves (adapter : Adapter) {room : ℕ} {acc : Acc} (jsonError : String → String)
    (sse : SseEvent) (hacc : adapter.Tabled room acc) :
    Leaves (adapter.Tabled room) (adapter.handling room jsonError sse) acc
      (adapter.Fits room sse acc) (adapter.mapEvent jsonError sse acc) := by
  cases adapter with
  | openAi => exact OpenAi.mapEvent_leaves (OpenAi.tabled_kept room) jsonError sse hacc
  | anthropic => exact Anthropic.mapEvent_leaves jsonError sse hacc

theorem returns_iff_fits (adapter : Adapter) {room : ℕ} {acc : Acc} (jsonError : String → String)
    (sse : SseEvent) (hacc : adapter.Tabled room acc) :
    (adapter.handling room jsonError sse).Returns acc ↔ adapter.Fits room sse acc := by
  have hleaves := adapter.handling_leaves jsonError sse hacc
  constructor
  · rintro ⟨result, next, houtcome, -⟩
    by_contra hnot
    obtain ⟨p, hp⟩ := hleaves.panics hnot
    cases houtcome.symm.trans hp
  · intro hfits
    obtain ⟨next, houtcome, -⟩ := hleaves.returns hfits
    exact ⟨_, next, houtcome, (adapter.mapEvent_parseOnly jsonError sse acc).map _⟩

theorem Tabled.left {adapter : Adapter} {room : ℕ} {acc : Acc} (hacc : adapter.Tabled room acc)
    (jsonError : String → String) (sse : SseEvent) :
    adapter.Tabled room ((adapter.handling room jsonError sse).left acc) := by
  have hleaves := adapter.handling_leaves jsonError sse hacc
  unfold Handling.left
  by_cases hfits : adapter.Fits room sse acc
  · obtain ⟨next, houtcome, -, hnext⟩ := hleaves.returns hfits
    rw [houtcome]
    exact hnext
  · obtain ⟨p, hp⟩ := hleaves.panics hfits
    rw [hp]
    exact hacc

end Adapter

/-- In every run every event is answered, or refused with an error of parsing, exactly when there
is room for what it starts and its token counts can be added up. -/
theorem mapEvent_returns_iff (adapter : Adapter) (room : ℕ) (jsonError : String → String)
    (model : String) (sses : List SseEvent) :
    Runs.Along (fun acc sse => (adapter.handling room jsonError sse).left acc)
        (fun acc sse => (adapter.handling room jsonError sse).Returns acc) (.new model) sses ↔
      Runs.Along (fun acc sse => (adapter.handling room jsonError sse).left acc)
        (fun acc sse => adapter.Fits room sse acc) (.new model) sses := by
  have hstep : ∀ acc sse, adapter.Tabled room acc →
      adapter.Tabled room ((adapter.handling room jsonError sse).left acc) :=
    fun _ sse hacc => hacc.left jsonError sse
  exact Runs.along_congr hstep (fun _ sse hacc => adapter.returns_iff_fits jsonError sse hacc)
    (adapter.tabled_new room model)

/-- A block and a call whose index has no room, and tokens whose sum is no number of the machine. -/
theorem mapEvent_hugeCounts :
    ¬ (Adapter.anthropic.handling (2 ^ 59 - 1) (fun _ => "") (.named "content_block_start"
        ("\x7b\"index\":18446744073709551615,\"content_block\":\x7b\"type\":\"text\"\x7d" ++
          "\x7d"))).Returns (.new "m") ∧
      ¬ (Adapter.openAi.handling (2 ^ 59 - 1) (fun _ => "") (.data
        ("\x7b\"choices\":[\x7b\"delta\":\x7b\"tool_calls\":[\x7b\"index\":" ++
          "1152921504606846976,\"id\":\"a\",\"function\":\x7b\x7d\x7d]\x7d\x7d]\x7d"))).Returns
        (.new "m") ∧
      ¬ (Adapter.openAi.handling (2 ^ 59 - 1) (fun _ => "") (.data
        ("\x7b\"usage\":\x7b\"prompt_tokens\":18446744073709551615," ++
          "\"completion_tokens\":1\x7d\x7d"))).Returns (.new "m") := by
  have hpanics : ∀ (m : Handling (List AssistantEvent)) (acc : Acc),
      (outcome m acc).isOk = false → ¬ m.Returns acc := by
    rintro m acc hnot ⟨result, next, houtcome, -⟩
    rw [houtcome] at hnot
    cases hnot
  refine ⟨hpanics _ _ ?_, hpanics _ _ ?_, hpanics _ _ ?_⟩ <;> decide +kernel

end Guigu