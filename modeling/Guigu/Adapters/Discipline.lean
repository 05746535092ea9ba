import Guigu.Adapters.AnthropicDiscipline
import Guigu.Adapters.OpenAiDiscipline
import Guigu.Library.Runs

/-! Whether what an adapter tells of calls is in order: each call ends once, behind its start, and
nothing is told of it in front of the one or behind the other. -/
namespace Guigu

open Lifecycle (Stage Disciplined disciplined_nil)

namespace Adapter

/-- The blocks of an Anthropic stream that an event stops. -/
def blockStops : Adapter → SseEvent → List ℕ
  | .openAi, _ => []
  | .anthropic, sse => (Anthropic.blockStop? sse).toList

/-- No piece has arguments for a call that is done (OpenAI) or whose block has been stopped
(Anthropic), and no block is stopped again unless the call it is would be told apart. -/
def Orderly : Adapter → List ℕ → Acc → SseEvent → Prop
  | .openAi, _, acc, sse => OpenAi.Orderly acc sse
  | .anthropic, stopped, acc, sse => Anthropic.Orderly stopped acc sse

instance : (adapter : Adapter) → (stopped : List ℕ) → (acc : Acc) → (sse : SseEvent) →
    Decidable (adapter.Orderly stopped acc sse)
  | .openAi, _, acc, sse => inferInstanceAs (Decidable (OpenAi.Orderly acc sse))
  | .anthropic, stopped, acc, sse => inferInstanceAs (Decidable (Anthropic.Orderly stopped acc sse))

/-- The blocks stopped so far and the answer, behind one more event. -/
def behind (adapter : Adapter) (jsonError : String → String) (s : List ℕ × Acc) (sse : SseEvent) :
    List ℕ × Acc :=
  match adapter.mapEvent jsonError sse s.2 with
  | .ok r => (s.1 ++ adapter.blockStops sse, r.2)
  | .error _ => s

def Traced : Adapter → List ℕ → Acc → List (ℕ × Stage) → Prop
  | .openAi, _, acc, trace => OpenAi.Sound acc ∧ OpenAi.Traced acc trace
  | .anthropic, stopped, acc, trace => Anthropic.Traced stopped acc trace

variable {adapter : Adapter} {jsonError : String → String} {stopped : List ℕ} {acc : Acc}
  {trace : List (ℕ × Stage)}

theorem traced_new (adapter : Adapter) (model : String) : adapter.Traced [] (.new model) [] := by
  cases adapter with
  | openAi =>
    refine ⟨⟨⟨List.nodup_nil, List.forall_mem_nil _⟩, ?_⟩, ?_, ?_⟩
    · intro i j hij
      cases hij
    · simp [Acc.new]
    · simp [Acc.new, Acc.doneAt]
  | anthropic =>
    refine ⟨⟨[], [], ?_⟩, ?_, ?_, List.forall_mem_nil _, ?_⟩
    · refine ⟨⟨List.nodup_nil, List.forall_mem_nil _⟩, rfl, ?_, List.forall_mem_nil _,
        List.forall_mem_nil _⟩
      intro index seg hseg
      cases hseg
    · simp [Acc.new]
    · simp
    · simp

/-- What an event that is accepted does to the trace. -/
theorem Traced.step (ht : adapter.Traced stopped acc trace) {sse : SseEvent}
    {r : List AssistantEvent × Acc} (h : adapter.mapEvent jsonError sse acc = .ok r) :
    adapter.Traced (stopped ++ adapter.blockStops sse) r.2
        (trace ++ adapter.callStages sse acc) ∧
      (Disciplined (trace ++ adapter.callStages sse acc) ∧
          (stopped ++ adapter.blockStops sse).Nodup ↔
        (Disciplined trace ∧ stopped.Nodup) ∧ adapter.Orderly stopped acc sse) ∧
      Tells acc r.1 (adapter.callStages sse acc) r.2 := by
  cases adapter with
  | openAi =>
    obtain ⟨hsound, htraced⟩ := ht
    obtain ⟨hleads, htells⟩ := OpenAi.mapEvent_leads hsound h
    obtain ⟨hnext, hiff⟩ := hleads trace htraced
    refine ⟨⟨(OpenAi.mapEvent_tracks h hsound).1, hnext⟩, ?_, htells⟩
    show Disciplined (trace ++ OpenAi.callStages sse acc) ∧ (stopped ++ []).Nodup ↔
      (Disciplined trace ∧ stopped.Nodup) ∧ OpenAi.Orderly acc sse
    rw [hiff, List.append_nil, and_right_comm]
  | anthropic => exact ⟨Anthropic.Traced.step ht h, ht.disciplined_step h, ht.tells h⟩

/-- A run keeps the discipline exactly if each of its events is in order. -/
theorem Traced.run (ht : adapter.Traced stopped acc trace) {sses : List SseEvent}
    {events : List AssistantEvent} {acc' : Acc}
    (h : mapAll (adapter.mapEvent jsonError) acc sses = (events, acc', none)) :
    Tells acc events (adapter.callTrace jsonError acc sses) acc' ∧
      (Disciplined (trace ++ adapter.callTrace jsonError acc sses) ∧
          (stopped ++ sses.flatMap adapter.blockStops).Nodup ↔
        (Disciplined trace ∧ stopped.Nodup) ∧
          Runs.Along (adapter.behind jsonError) (fun s sse => adapter.Orderly s.1 s.2 sse)
            (stopped, acc) sses) := by
  induction sses generalizing stopped acc trace events with
  | nil =>
    cases h
    refine ⟨.refl _, ?_⟩
    rw [callTrace, List.append_nil, List.flatMap_nil, List.append_nil, Runs.Along, and_true]
  | cons sse sses ih =>
    obtain ⟨first, second, rest, hfirst, hrest, rfl⟩ := mapAll_cons_ok h
    obtain ⟨hnext, hiff, htells⟩ := ht.step hfirst
    obtain ⟨htells', hiff'⟩ := ih hnext hrest
    have htrace : adapter.callTrace jsonError acc (sse :: sses) =
        adapter.callStages sse acc ++ adapter.callTrace jsonError second sses := by
      rw [callTrace, hfirst]
    have hbehind : adapter.behind jsonError (stopped, acc) sse =
        (stopped ++ adapter.blockStops sse, second) := by
      rw [behind, hfirst]
    rw [htrace]
    refine ⟨htells.trans htells', ?_⟩
    rw [← List.append_assoc, List.flatMap_cons, ← List.append_assoc, hiff', hiff, Runs.Along,
      hbehind, and_assoc]

end Adapter

/-- For events that are accepted, what is told of calls is the trace, call by call. It is in order,
and no block is stopped twice, exactly if no arguments come for a call that has ended and no block
is stopped again that is no call or a call with the identifier of an earlier one. -/
theorem toolEvents_disciplined_iff (adapter : Adapter) (jsonError : String → String)
    (model : String) {sses : List SseEvent} {events : List AssistantEvent} {acc : Acc}
    (haccepted : mapAll (adapter.mapEvent jsonError) (.new model) sses = (events, acc, none)) :
    events.filterMap AssistantEvent.callStage? =
        (adapter.callTrace jsonError (.new model) sses).map acc.told ∧
      (Disciplined (adapter.callTrace jsonError (.new model) sses) ∧
          (sses.flatMap adapter.blockStops).Nodup ↔
        Runs.Along (adapter.behind jsonError) (fun s sse => adapter.Orderly s.1 s.2 sse)
          ([], .new model) sses) := by
  obtain ⟨htells, hiff⟩ := (adapter.traced_new model).run haccepted
  refine ⟨htells.told, ?_⟩
  rw [List.nil_append, List.nil_append] at hiff
  rw [hiff, and_iff_right ⟨disciplined_nil, List.nodup_nil⟩]

/-- A call whose block is stopped. -/
def lsCallStopped : List SseEvent :=
  lsCall ++ [.named "content_block_stop" "\x7b\"index\":0\x7d"]

theorem toolEvents_lsCallStopped :
    Disciplined (Adapter.anthropic.callTrace (fun _ => "") (.new "m") lsCallStopped) ∧
      (lsCallStopped.flatMap Adapter.anthropic.blockStops).Nodup := by
  have hwhole : ∀ r : List AssistantEvent × Acc × Option ProviderError, r.2.2 = none →
      r = (r.1, r.2.1, none) := by
    rintro ⟨events, acc, failure⟩ rfl
    rfl
  have hnone : (mapAll (Adapter.anthropic.mapEvent fun _ => "") (.new "m")
      lsCallStopped).2.2 = none := by
    decide +kernel
  have horderly : Runs.Along (Adapter.anthropic.behind fun _ => "")
      (fun s sse => Adapter.anthropic.Orderly s.1 s.2 sse) ([], .new "m") lsCallStopped := by
    decide +kernel
  have hiff := toolEvents_disciplined_iff .anthropic (fun _ => "") "m" (hwhole _ hnone)
  exact hiff.2.mpr horderly

/-- Arguments for a call whose block has been stopped. -/
def lateArguments : List SseEvent :=
  lsCallStopped ++ [.named "content_block_delta" ("\x7b\"index\":0,\"delta\":" ++
    "\x7b\"type\":\"input_json_delta\",\"partial_json\":\"3\"\x7d\x7d")]

/-- Arguments for a call behind the reason why the answer is finished. -/
def lateChunk : List SseEvent :=
  [.data ("\x7b\"choices\":[\x7b\"delta\":\x7b\"tool_calls\":[\x7b\"index\":0,\"id\":\"a\"," ++
      "\"function\":\x7b\"name\":\"ls\"\x7d\x7d]\x7d,\"finish_reason\":\"tool_calls\"\x7d]\x7d"),
    .data ("\x7b\"choices\":[\x7b\"delta\":\x7b\"tool_calls\":[\x7b\"index\":0," ++
      "\"function\":\x7b\"arguments\":\"3\"\x7d\x7d]\x7d\x7d]\x7d")]

/-- Two calls with one identifier, the second of which is stopped twice. -/
def sameIdStoppedTwice : List SseEvent :=
  [.named "content_block_start" ("\x7b\"index\":0,\"content_block\":" ++
      "\x7b\"type\":\"tool_use\",\"id\":\"a\",\"name\":\"ls\"\x7d\x7d"),
    .named "content_block_start" ("\x7b\"index\":1,\"content_block\":" ++
      "\x7b\"type\":\"tool_use\",\"id\":\"a\",\"name\":\"ls\"\x7d\x7d"),
    .named "content_block_stop" "\x7b\"index\":1\x7d",
    .named "content_block_stop" "\x7b\"index\":1\x7d"]

/-- A block of text that is stopped twice. -/
def textStoppedTwice : List SseEvent :=
  [.named "content_block_start" ("\x7b\"index\":0,\"content_block\":" ++
      "\x7b\"type\":\"text\"\x7d\x7d"),
    .named "content_block_stop" "\x7b\"index\":0\x7d",
    .named "content_block_stop" "\x7b\"index\":0\x7d"]

/-- None of these is refused: a call is used behind its end, ends twice, and a block is stopped
twice. -/
theorem toolEvents_undisciplined :
    ((mapAll (Adapter.anthropic.mapEvent fun _ => "") (.new "m") lateArguments).2.2 = none ∧
      ¬ Disciplined (Adapter.anthropic.callTrace (fun _ => "") (.new "m") lateArguments)) ∧
    ((mapAll (Adapter.openAi.mapEvent fun _ => "") (.new "m") lateChunk).2.2 = none ∧
      ¬ Disciplined (Adapter.openAi.callTrace (fun _ => "") (.new "m") lateChunk)) ∧
    ((mapAll (Adapter.anthropic.mapEvent fun _ => "") (.new "m") sameIdStoppedTwice).2.2 = none ∧
      ¬ Disciplined (Adapter.anthropic.callTrace (fun _ => "") (.new "m") sameIdStoppedTwice)) ∧
    (mapAll (Adapter.anthropic.mapEvent fun _ => "") (.new "m") textStoppedTwice).2.2 = none ∧
      ¬ (textStoppedTwice.flatMap Adapter.anthropic.blockStops).Nodup := by
  refine ⟨⟨by decide +kernel, ?_⟩, ⟨by decide +kernel, ?_⟩, ⟨by decide +kernel, ?_⟩,
    by decide +kernel, by decide +kernel⟩
  · intro h
    have hused := h.quietBehindStop 0 [(0, .start), (0, .use), (0, .use)] [(0, .use)]
      (by decide +kernel)
    simp at hused
  · intro h
    have hused := h.quietBehindStop 0 [(0, .start)] [(0, .use)] (by decide +kernel)
    simp at hused
  · intro h
    have hstopped := h.stopsOnce 1 [(0, .start)] [(1, .stop), (1, .stop)] (by decide +kernel)
    simp at hstopped

end Guigu
