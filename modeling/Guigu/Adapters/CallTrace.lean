import Guigu.Adapters.Sending
import Guigu.Library.Lifecycle

/-! What an adapter tells of calls, call by call: a call is an entry of the answer, whatever its
identifier. -/
namespace Guigu

open Lifecycle (Stage Disciplined)

/-- What an event tells of a call, and the identifier it is told with. -/
def AssistantEvent.callStage? : AssistantEvent → Option (Stage × String)
  | .toolCallStart id _ _ => some (.start, id)
  | .toolCallDelta id _ => some (.use, id)
  | .toolCallEnd id => some (.stop, id)
  | _ => none

namespace Acc

def idAt (acc : Acc) (i : ℕ) : Option String := acc.toolCalls[i]?.map ToolCallAcc.id

def doneAt (acc : Acc) (i : ℕ) : Bool := acc.toolCalls[i]?.any ToolCallAcc.done

/-- An entry of a trace, with the identifier that its call has in the answer. -/
def told (acc : Acc) (t : ℕ × Stage) : Stage × String := (t.2, (acc.idAt t.1).getD "")

variable {acc : Acc} {i : ℕ}

theorem doneAt_lt (h : acc.doneAt i = true) : i < acc.toolCalls.length := by
  by_contra hlong
  rw [doneAt, List.getElem?_eq_none (not_lt.mp hlong)] at h
  cases h

theorem idAt_started (acc : Acc) (b : Block) (i : ℕ) : (acc.started b).2.idAt i =
    match b with
    | .toolUse id _ => if i = acc.toolCalls.length then some id else acc.idAt i
    | _ => acc.idAt i := by
  cases b with
  | toolUse id name =>
    simp only [idAt, started, startToolCall, getElem?_concat]
    split_ifs <;> rfl
  | _ => rfl

theorem doneAt_started (acc : Acc) (b : Block) (i : ℕ) :
    (acc.started b).2.doneAt i = acc.doneAt i := by
  cases b with
  | toolUse id name =>
    simp only [doneAt, started, startToolCall, getElem?_concat]
    split_ifs with hi
    · rw [hi, List.getElem?_eq_none le_rfl]
      rfl
    · rfl
  | _ => rfl

theorem length_started (acc : Acc) (b : Block) : (acc.started b).2.toolCalls.length =
    match b with
    | .toolUse _ _ => acc.toolCalls.length + 1
    | _ => acc.toolCalls.length := by
  cases b <;> simp [started, startToolCall, startTextBlock, startThinkingBlock]

theorem idAt_extended (acc : Acc) (t : String) (seg : SegmentKind) (i : ℕ) :
    (acc.extended t seg).idAt i = acc.idAt i := by
  cases seg with
  | toolCall j =>
    simp only [idAt, extended, appendArguments, List.getElem?_modify]
    cases acc.toolCalls[i]? with
    | none => rfl
    | some tc => split_ifs <;> rfl
  | _ => rfl

theorem doneAt_extended (acc : Acc) (t : String) (seg : SegmentKind) (i : ℕ) :
    (acc.extended t seg).doneAt i = acc.doneAt i := by
  cases seg with
  | toolCall j =>
    simp only [doneAt, extended, appendArguments, List.getElem?_modify]
    cases acc.toolCalls[i]? with
    | none => rfl
    | some tc => split_ifs <;> rfl
  | _ => rfl

theorem length_extended (acc : Acc) (t : String) (seg : SegmentKind) :
    (acc.extended t seg).toolCalls.length = acc.toolCalls.length := by
  cases seg <;> simp [extended, appendArguments, appendTextBlock, appendThinkingBlock]

theorem idAt_endToolCall (acc : Acc) (id : String) (i : ℕ) :
    (acc.endToolCall id).idAt i = acc.idAt i := by
  simp only [idAt, endToolCall, List.getElem?_modify]
  cases acc.toolCalls[i]? with
  | none => rfl
  | some tc => split_ifs <;> rfl

/-- The first call of the identifier is done, and no other changes. -/
theorem doneAt_endToolCall (acc : Acc) (id : String) (i : ℕ) :
    (acc.endToolCall id).doneAt i =
      (acc.doneAt i || decide (i < acc.toolCalls.length ∧
        acc.toolCalls.findIdx (fun tc => tc.id = id) = i)) := by
  simp only [doneAt, endToolCall, List.getElem?_modify]
  cases hi : acc.toolCalls[i]? with
  | none =>
    have hlen := List.getElem?_eq_none_iff.mp hi
    simp [not_lt.mpr hlen]
  | some tc =>
    have hlen := (List.getElem?_eq_some_iff.mp hi).1
    by_cases hfirst : acc.toolCalls.findIdx (fun tc => tc.id = id) = i <;> simp [hlen, hfirst]

theorem length_endToolCall (acc : Acc) (id : String) :
    (acc.endToolCall id).toolCalls.length = acc.toolCalls.length := by
  simp [endToolCall]

end Acc

/-- The events tell of calls as the stages say; calls keep their places and identifiers. -/
structure Tells (acc : Acc) (events : List AssistantEvent) (stages : List (ℕ × Stage))
    (acc' : Acc) : Prop where
  told : events.filterMap AssistantEvent.callStage? = stages.map acc'.told
  bound : ∀ t ∈ stages, t.1 < acc'.toolCalls.length
  longer : acc.toolCalls.length ≤ acc'.toolCalls.length
  idAt : ∀ i < acc.toolCalls.length, acc'.idAt i = acc.idAt i

namespace Tells

variable {acc acc' acc'' : Acc} {events events' : List AssistantEvent}
  {stages stages' : List (ℕ × Stage)}

theorem refl (acc : Acc) : Tells acc [] [] acc :=
  ⟨rfl, List.forall_mem_nil _, le_rfl, fun _ _ => rfl⟩

theorem quiet (hevents : events.filterMap AssistantEvent.callStage? = [])
    (hlength : acc'.toolCalls.length = acc.toolCalls.length)
    (hids : ∀ i, acc'.idAt i = acc.idAt i) : Tells acc events [] acc' :=
  ⟨hevents, List.forall_mem_nil _, hlength.ge, fun i _ => hids i⟩

theorem trans (h : Tells acc events stages acc') (h' : Tells acc' events' stages' acc'') :
    Tells acc (events ++ events') (stages ++ stages') acc'' := by
  constructor
  · have hkept : stages.map acc''.told = stages.map acc'.told := by
      apply List.map_congr_left
      intro t ht
      rw [Acc.told, Acc.told, h'.idAt t.1 (h.bound t ht)]
    rw [List.filterMap_append, List.map_append, h.told, h'.told, hkept]
  · intro t ht
    obtain ht | ht := List.mem_append.mp ht
    · exact (h.bound t ht).trans_le h'.longer
    · exact h'.bound t ht
  · exact h.longer.trans h'.longer
  · intro i hi
    rw [h'.idAt i (hi.trans_le h.longer), h.idAt i hi]

end Tells

/-! ### Anthropic -/

namespace Anthropic

/-- The call that is the block of an index. -/
def callAt (acc : Acc) (index : ℕ) : Option ℕ :=
  match acc.blockKind index with
  | some (.toolCall i) => some i
  | _ => none

def startStages (acc : Acc) : Block → List (ℕ × Stage)
  | .toolUse _ _ => [(acc.toolCalls.length, .start)]
  | _ => []

/-- What an event that is accepted makes the adapter tell. -/
def callStages (sse : SseEvent) (acc : Acc) : List (ℕ × Stage) :=
  ((blockStart? sse).elim [] fun s => startStages acc s.2) ++
    (((blockDelta? sse).bind fun d => callAt acc d.1).map (·, .use)).toList ++
    (((blockStop? sse).bind (callAt acc)).map (·, .stop)).toList

end Anthropic

/-! ### OpenAI -/

namespace OpenAi

open Serde

def argumentsOf (tc : Json) : String :=
  ((get "function" tc).bind (getString "arguments")).getD ""

/-- The call that a piece is for: a new one if it has an identifier. -/
def callOf (tc : Json) (acc : Acc) : Option ℕ :=
  (getU64 "index" tc).bind fun index =>
    if (getString "id" tc).getD "" = "" then acc.toolLocalIndex index
    else some acc.toolCalls.length

/-- The arguments of a piece. -/
def useStages (i : ℕ) (args : String) : List (ℕ × Stage) := if args = "" then [] else [(i, .use)]

def pieceStages (tc : Json) (acc : Acc) : List (ℕ × Stage) :=
  match callOf tc acc with
  | none => []
  | some i =>
    (if (getString "id" tc).getD "" = "" then [] else [(i, .start)]) ++
      useStages i (argumentsOf tc)

def piecesStages : List Json → Acc → List (ℕ × Stage)
  | [], _ => []
  | tc :: tcs, acc =>
    match mapToolCall tc acc with
    | .error _ => []
    | .ok r => pieceStages tc acc ++ piecesStages tcs r.2

/-- The calls that are not done. -/
def openCalls (acc : Acc) : List ℕ :=
  (acc.toolCalls.zipIdx.filter fun c => !c.1.done).map Prod.snd

def finishStages (choice : Json) (acc : Acc) : List (ℕ × Stage) :=
  if getString "finish_reason" choice = some "tool_calls" then (openCalls acc).map (·, .stop)
  else []

def choiceStages (choice : Json) (acc : Acc) : List (ℕ × Stage) :=
  let delta := (get "delta" choice).getD .null
  let tcs := ((get "tool_calls" delta).bind array).getD []
  let acc := (mapThinking delta (mapText delta acc).2).2
  match mapToolCalls tcs acc with
  | .error _ => []
  | .ok calls => piecesStages tcs acc ++ finishStages choice calls.2

def chunkStages (data : String) (acc : Acc) : List (ℕ × Stage) :=
  ((fromStr data.toList).bind choiceOf).elim [] fun choice => choiceStages choice acc

/-- What an event that is accepted makes the adapter tell. -/
def callStages (sse : SseEvent) (acc : Acc) : List (ℕ × Stage) :=
  match sse with
  | .data data | .named _ data => chunkStages data acc
  | .done => []

end OpenAi

namespace Adapter

def callStages : Adapter → SseEvent → Acc → List (ℕ × Stage)
  | .openAi => OpenAi.callStages
  | .anthropic => Anthropic.callStages

/-- All that is told of calls for events that are accepted. -/
def callTrace (adapter : Adapter) (jsonError : String → String) :
    Acc → List SseEvent → List (ℕ × Stage)
  | _, [] => []
  | acc, sse :: sses =>
    match adapter.mapEvent jsonError sse acc with
    | .error _ => []
    | .ok r => adapter.callStages sse acc ++ callTrace adapter jsonError r.2 sses

end Adapter

end Guigu
