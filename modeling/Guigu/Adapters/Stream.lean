import Guigu.Adapters.Anthropic
import Guigu.Adapters.OpenAi

/-! The stream of an adapter: chunks of a response body into the events of an answer. -/
namespace Guigu

/-- The mapping of a provider: events to hand out, and the answer so far. -/
abbrev MapEventFn (ε : Type) := SseEvent → Acc → Except ε (List AssistantEvent × Acc)

/-- What a mapping that fails says; nothing where it panics. -/
class MapFailure (ε : Type) where
  text? : ε → Option String

instance : MapFailure ProviderError := ⟨fun e => some e.text⟩

inductive Adapter where
  | openAi | anthropic
  deriving DecidableEq, Repr

/-- `map_event` over tables without a limit, so without a panic. -/
def Adapter.mapEvent (jsonError : String → String) : Adapter → MapEventFn ProviderError
  | .openAi => OpenAi.mapEvent jsonError
  | .anthropic => Anthropic.mapEvent jsonError

namespace AssistantEvent

@[simp] def isDone : AssistantEvent → Bool
  | .done _ => true
  | _ => false

@[simp] def isError : AssistantEvent → Bool
  | .error _ _ => true
  | _ => false

/-- Nothing may follow. -/
@[simp] def isTerminal (e : AssistantEvent) : Bool := e.isDone || e.isError

end AssistantEvent

/-- What a wait brings: the signal of the caller, or the next item of the body. -/
inductive Wake where
  | cancelled
  | chunk (bytes : List UInt8)
  | failed (text : String)
  | ended
  deriving DecidableEq, Repr

structure StreamState where
  parser : SseParser
  acc : Acc
  pending : List AssistantEvent
  terminated : Bool
  deriving DecidableEq, Repr

def StreamState.start (model : String) : StreamState := ⟨.new, .new model, [], false⟩

/-- What a poll brings: an event, the end, nothing before the next wake-up, or a panic. -/
inductive Polled where
  | item (event : AssistantEvent) (s : StreamState) (wakes : List Wake)
  | ended
  | waits
  | panicked
  deriving DecidableEq, Repr

namespace StreamState

variable {ε : Type} [MapFailure ε] (mapEvent : MapEventFn ε)

/-- The events are mapped and queued up; says whether a `Done` was among them, or what the first
event that fails says. -/
def processSseEvents (s : StreamState) (gotDone : Bool) :
    List SseEvent → Except (Option String) Bool × StreamState
  | [] => (.ok gotDone, s)
  | sse :: rest =>
    match mapEvent sse s.acc with
    | .error e => (.error (MapFailure.text? e), s)
    | .ok (events, acc) =>
      processSseEvents { s with acc := acc, pending := s.pending ++ events }
        (gotDone || events.any AssistantEvent.isDone) rest

/-- A state behind its last event, which is handed out in front of the queue. -/
def failWith (s : StreamState) (message : String) (aborted : Bool) (wakes : List Wake) : Polled :=
  .item (.error message aborted) { s with terminated := true } wakes

/-- One poll: the queue first, then one item of the body after another until there is an event. -/
def step (s : StreamState) : List Wake → Polled
  | [] =>
    match s.pending with
    | e :: rest => .item e { s with pending := rest } []
    | [] => if s.terminated then .ended else .waits
  | wake :: wakes =>
    match s.pending with
    | e :: rest => .item e { s with pending := rest } (wake :: wakes)
    | [] =>
      if s.terminated then .ended
      else
        match wake with
        | .cancelled => s.failWith "cancelled" true wakes
        | .failed text => s.failWith text false wakes
        | .chunk bytes =>
          let fed := s.parser.feed bytes
          match { s with parser := fed.2 }.processSseEvents mapEvent false fed.1 with
          | (.ok gotDone, s) => step { s with terminated := gotDone } wakes
          | (.error (some message), s) => s.failWith message false wakes
          | (.error none, _) => .panicked
        | .ended =>
          match s.processSseEvents mapEvent false s.parser.finish with
          | (.ok true, s) => step { s with terminated := true } wakes
          | (.ok false, s) => s.failWith "stream ended without terminal event" false wakes
          | (.error (some message), s) => s.failWith message false wakes
          | (.error none, _) => .panicked

/-- The events of so many polls, the last of which brings the end, or a panic. -/
def collect : ℕ → StreamState → List Wake → Option (List AssistantEvent × Bool)
  | 0, _, _ => none
  | n + 1, s, wakes =>
    match s.step mapEvent wakes with
    | .item e s wakes => (collect n s wakes).map fun r => (e :: r.1, r.2)
    | .ended => some ([], false)
    | .waits => none
    | .panicked => some ([], true)

/-- Polled for as long as it can be the stream brings these events, and has panicked or not. -/
def Brings (s : StreamState) (wakes : List Wake) (brought : List AssistantEvent × Bool) : Prop :=
  ∃ n, s.collect mapEvent n wakes = some brought

/-- Polled to its end the stream brings these events. -/
def Yields (s : StreamState) (wakes : List Wake) (events : List AssistantEvent) : Prop :=
  s.Brings mapEvent wakes (events, false)

end StreamState

end Guigu
