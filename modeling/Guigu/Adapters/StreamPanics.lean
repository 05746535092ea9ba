import Guigu.Adapters.Chunking
import Guigu.Adapters.Returning

/-! The streams of the adapters with their panics. -/
namespace Guigu

open Panicking

/-- How mapping an event fails. -/
inductive MapError where
  | refused (e : ProviderError)
  | panicked (p : Panic)
  deriving DecidableEq, Repr

instance : MapFailure MapError where
  text?
    | .refused e => some e.text
    | .panicked _ => none

/-- `map_event` of an adapter over tables of so much room. -/
def Adapter.mapEventIn (adapter : Adapter) (room : ℕ) (jsonError : String → String) :
    MapEventFn MapError := fun sse acc =>
  match outcome (adapter.handling room jsonError sse) acc with
  | .ok (.ok events, acc) => .ok (events, acc)
  | .ok (.error e, _) => .error (.refused e)
  | .error p => .error (.panicked p)

/-- Where there is room, events are handed out as if there were no end to it. -/
theorem Adapter.mapEventIn_lone (adapter : Adapter) (room : ℕ) (jsonError : String → String) :
    Lone (adapter.Tabled room) (adapter.mapEventIn room jsonError) := by
  intro sse acc events acc' hacc h
  have hleaves := adapter.handling_leaves jsonError sse hacc
  unfold mapEventIn at h
  by_cases hfits : adapter.Fits room sse acc
  · obtain ⟨next, houtcome, hmapped, hnext⟩ := hleaves.returns hfits
    rw [houtcome] at h
    cases hplain : adapter.mapEvent jsonError sse acc with
    | error e =>
      rw [hplain] at h
      cases h
    | ok r =>
      rw [hplain] at h
      cases h
      exact ⟨hnext, (adapter.lone jsonError sse acc r.1 r.2 trivial hplain).2⟩
  · obtain ⟨p, hp⟩ := hleaves.panics hfits
    rw [hp] at h
    cases h

namespace StreamState

/-- All cuts of a body bring the same events, or the same panic, if and only if nothing is handed
out in front of the first event that is refused or panics, or behind a `Done`. -/
theorem chunkings_agree_iff (adapter : Adapter) (room : ℕ) (jsonError : String → String)
    (model : String) (body : List UInt8) (failure : Option String) :
    (∀ chunks chunks' : List (List UInt8), chunks.flatten = body → chunks'.flatten = body →
      ∃ brought,
        (start model).Brings (adapter.mapEventIn room jsonError)
          (chunks.map .chunk ++ [bodyEnd failure]) brought ∧
        (start model).Brings (adapter.mapEventIn room jsonError)
          (chunks'.map .chunk ++ [bodyEnd failure]) brought) ↔
      steady (adapter.mapEventIn room jsonError) (.new model) (SseParser.new.feed body).1 :=
  brings_alike_iff (adapter.mapEventIn_lone room jsonError) model
    (adapter.tabled_new room model) body failure

/-- A `Done` and an event behind it that is refused: cut between them the error is not seen, in one
piece it stands in front of the `Done`. -/
theorem chunkings_differ :
    ¬ ∃ brought,
      (start "m").Brings (Adapter.openAi.mapEventIn (2 ^ 59 - 1) fun _ => "")
        ([Utf8.encode "data: [DONE]\n\n".toList, Utf8.encode "data: x\n\n".toList].map .chunk ++
          [bodyEnd none]) brought ∧
      (start "m").Brings (Adapter.openAi.mapEventIn (2 ^ 59 - 1) fun _ => "")
        ([Utf8.encode "data: [DONE]\n\ndata: x\n\n".toList].map .chunk ++ [bodyEnd none])
        brought := by
  rintro ⟨brought, hcut, hpiece⟩
  rw [start, brings_iff] at hcut hpiece
  have hdiffer : outputs (Adapter.openAi.mapEventIn (2 ^ 59 - 1) fun _ => "") .new (.new "m")
      ([Utf8.encode "data: [DONE]\n\n".toList, Utf8.encode "data: x\n\n".toList].map .chunk ++
        [bodyEnd none]) ≠
      outputs (Adapter.openAi.mapEventIn (2 ^ 59 - 1) fun _ => "") .new (.new "m")
        ([Utf8.encode "data: [DONE]\n\ndata: x\n\n".toList].map .chunk ++ [bodyEnd none]) := by
    decide +kernel
  exact hdiffer (hcut.trans hpiece.symm)

/-- A panic in the same chunk loses the `Done` in front of it. -/
example :
    let mapEvent := Adapter.anthropic.mapEventIn (2 ^ 59 - 1) fun _ => ""
    let done := Utf8.encode "data: [DONE]\n\n".toList
    let huge := Utf8.encode ("event: content_block_start\ndata: " ++
      "\x7b\"index\":18446744073709551615,\"content_block\":\x7b\"type\":\"text\"\x7d\x7d\n\n").toList
    outputs mapEvent .new (.new "m") [.chunk (done ++ huge)] = some ([], true) ∧
      outputs mapEvent .new (.new "m") [.chunk done, .chunk huge] =
        some ([.done (Acc.new "m").buildMessage], false) := by
  decide +kernel

end StreamState

end Guigu
