import Guigu.Adapters.Stream

/-! The events of a whole stream: what the cuts between chunks change, and where the last event
stands. -/
namespace Guigu

variable {ε : Type} (mapEvent : MapEventFn ε)

/-- The events handed out for a batch, the answer behind them, and how the first event that fails
has failed. -/
def mapAll (acc : Acc) : List SseEvent → List AssistantEvent × Acc × Option ε
  | [] => ([], acc, none)
  | sse :: rest =>
    match mapEvent sse acc with
    | .error e => ([], acc, some e)
    | .ok (events, acc) =>
      let r := mapAll acc rest
      (events ++ r.1, r.2)

variable {mapEvent} in
theorem mapAll_cons_ok {acc acc' : Acc} {sse : SseEvent} {sses : List SseEvent}
    {events : List AssistantEvent}
    (h : mapAll mapEvent acc (sse :: sses) = (events, acc', none)) :
    ∃ first second rest, mapEvent sse acc = .ok (first, second) ∧
      mapAll mapEvent second sses = (rest, acc', none) ∧ first ++ rest = events := by
  rw [mapAll] at h
  cases hmap : mapEvent sse acc with
  | error e => simp [hmap] at h
  | ok r =>
    simp only [hmap, Prod.mk.injEq] at h
    exact ⟨r.1, r.2, _, rfl, Prod.ext rfl h.2, h.1⟩

/-- The events are accepted and nothing is handed out for them. -/
def silent (acc : Acc) : List SseEvent → Bool
  | [] => true
  | sse :: rest =>
    match mapEvent sse acc with
    | .ok ([], acc) => silent acc rest
    | _ => false

/-- What has been brought by the time a mapping fails: an error comes first, a panic loses what is
queued. -/
def failedWith [MapFailure ε] (e : ε) (events : List AssistantEvent) :
    List AssistantEvent × Bool :=
  match MapFailure.text? e with
  | some text => (.error text false :: events, false)
  | none => ([], true)

/-- How a batch ends the stream: not at all, by an event that fails, or by a `Done`. -/
inductive BatchEnd (ε : Type) where
  | unfinished (events : List AssistantEvent) (acc : Acc)
  | refused (events : List AssistantEvent) (acc : Acc) (e : ε)
  | done (events : List AssistantEvent) (acc : Acc) (rest : List SseEvent)

namespace BatchEnd

def events : BatchEnd ε → List AssistantEvent
  | .unfinished events _ | .refused events _ _ | .done events _ _ => events

def acc : BatchEnd ε → Acc
  | .unfinished _ acc | .refused _ acc _ | .done _ acc _ => acc

def isDone : BatchEnd ε → Bool
  | .done _ _ _ => true
  | _ => false

/-- The stream ends with the batch, whatever comes next. -/
def isOver : BatchEnd ε → Bool
  | .unfinished _ _ => false
  | _ => true

def behind (before : List AssistantEvent) : BatchEnd ε → BatchEnd ε
  | .unfinished events acc => .unfinished (before ++ events) acc
  | .refused events acc e => .refused (before ++ events) acc e
  | .done events acc rest => .done (before ++ events) acc rest

/-- A batch that does not end the stream goes on with the next one. -/
def continued (more : List SseEvent) (next : Acc → BatchEnd ε) : BatchEnd ε → BatchEnd ε
  | .unfinished events acc => (next acc).behind events
  | .refused events acc e => .refused events acc e
  | .done events acc rest => .done events acc (rest ++ more)

/-- What mapping the whole of the batch brings. -/
def mapped : BatchEnd ε → List AssistantEvent × Acc × Option ε
  | .unfinished events acc => (events, acc, none)
  | .refused events acc e => (events, acc, some e)
  | .done events acc rest =>
    let r := mapAll mapEvent acc rest
    (events ++ r.1, r.2)

/-- What is brought for the batch if the stream ends with it. -/
def last [MapFailure ε] : BatchEnd ε → List AssistantEvent × Bool
  | .unfinished events _ => (.error "stream ended without terminal event" false :: events, false)
  | .refused events _ e => failedWith e events
  | .done events acc rest =>
    match mapAll mapEvent acc rest with
    | (more, _, none) => (events ++ more, false)
    | (more, _, some e) => failedWith e (events ++ more)

/-- Nothing is handed out in front of a failure, or behind a `Done`. -/
def clean : BatchEnd ε → Bool
  | .unfinished events _ | .refused events _ _ => events.isEmpty
  | .done _ acc rest => silent mapEvent acc rest

end BatchEnd

def ending (acc : Acc) : List SseEvent → BatchEnd ε
  | [] => .unfinished [] acc
  | sse :: rest =>
    match mapEvent sse acc with
    | .error e => .refused [] acc e
    | .ok (events, acc) =>
      if events.any AssistantEvent.isDone then .done events acc rest
      else (ending acc rest).behind events

/-- Nothing is handed out in front of an event that fails, or behind a `Done`. -/
def steady (acc : Acc) (sses : List SseEvent) : Bool :=
  !(ending mapEvent acc sses).isOver || (ending mapEvent acc sses).clean mapEvent

/-- A mapping hands out no `Error`, and a `Done` alone, with the answer so far, as long as the
answers are as they should be. -/
def Lone (inv : Acc → Prop) (mapEvent : MapEventFn ε) : Prop :=
  ∀ sse acc events acc', inv acc → mapEvent sse acc = .ok (events, acc') →
    inv acc' ∧ ((∀ e ∈ events, e.isTerminal = false) ∨ events = [.done acc.buildMessage])

namespace StreamState

section Outputs

variable [MapFailure ε]

/-- What is brought for one wake-up, and the parser and answer behind it if the stream goes on. -/
def received (parser : SseParser) (acc : Acc) :
    Wake → (List AssistantEvent × Bool) × Option (SseParser × Acc)
  | .cancelled => (([.error "cancelled" true], false), none)
  | .failed text => (([.error text false], false), none)
  | .chunk bytes =>
    let fed := parser.feed bytes
    match mapAll mapEvent acc fed.1 with
    | (events, _, some e) => (failedWith e events, none)
    | (events, acc, none) =>
      ((events, false), if events.any AssistantEvent.isDone then none else some (fed.2, acc))
  | .ended =>
    match mapAll mapEvent acc parser.finish with
    | (events, _, some e) => (failedWith e events, none)
    | (events, _, none) =>
      if events.any AssistantEvent.isDone then ((events, false), none)
      else ((.error "stream ended without terminal event" false :: events, false), none)

/-- What a stream brings, unless the wake-ups run out before its end. -/
def outputs (parser : SseParser) (acc : Acc) : List Wake → Option (List AssistantEvent × Bool)
  | [] => none
  | wake :: wakes =>
    match received mapEvent parser acc wake with
    | (brought, none) => some brought
    | (brought, some (parser, acc)) =>
      (outputs parser acc wakes).map fun r => (brought.1 ++ r.1, r.2)

theorem processSseEvents_eq (s : StreamState) (gotDone : Bool) (sses : List SseEvent) :
    s.processSseEvents mapEvent gotDone sses =
      ((mapAll mapEvent s.acc sses).2.2.elim
        (.ok (gotDone || (mapAll mapEvent s.acc sses).1.any AssistantEvent.isDone))
        (fun e => .error (MapFailure.text? e)),
      { s with acc := (mapAll mapEvent s.acc sses).2.1,
               pending := s.pending ++ (mapAll mapEvent s.acc sses).1 }) := by
  induction sses generalizing s gotDone with
  | nil => simp [processSseEvents, mapAll]
  | cons sse rest ih =>
    unfold processSseEvents mapAll
    cases hmap : mapEvent sse s.acc with
    | error e => simp
    | ok r =>
      obtain ⟨events, acc⟩ := r
      simp only [ih, List.append_assoc, List.any_append, Bool.or_assoc]

variable {mapEvent}

/-- The same next poll, the same events. -/
theorem brings_congr {s s' : StreamState} {wakes wakes' : List Wake}
    (h : s.step mapEvent wakes = s'.step mapEvent wakes') (brought : List AssistantEvent × Bool) :
    s.Brings mapEvent wakes brought ↔ s'.Brings mapEvent wakes' brought := by
  have hcollect : ∀ n, s.collect mapEvent n wakes = s'.collect mapEvent n wakes' := by
    intro n
    cases n with
    | zero => rfl
    | succ n => simp only [collect, h]
  simp only [Brings, hcollect]

theorem brings_item {s s' : StreamState} {wakes wakes' : List Wake} {e : AssistantEvent}
    (h : s.step mapEvent wakes = .item e s' wakes') (brought : List AssistantEvent × Bool) :
    s.Brings mapEvent wakes brought ↔
      ∃ rest, brought = (e :: rest.1, rest.2) ∧ s'.Brings mapEvent wakes' rest := by
  constructor
  · rintro ⟨n, hn⟩
    cases n with
    | zero => cases hn
    | succ n =>
      simp only [collect, h] at hn
      obtain ⟨rest, hrest, rfl⟩ := Option.map_eq_some_iff.mp hn
      exact ⟨rest, rfl, n, hrest⟩
  · rintro ⟨rest, rfl, n, hn⟩
    refine ⟨n + 1, ?_⟩
    simp only [collect, h, hn, Option.map_some]

/-- A poll that brings no event is the last one. -/
theorem brings_only {s : StreamState} {wakes : List Wake} {last : List AssistantEvent × Bool}
    (h : ∀ n, s.collect mapEvent (n + 1) wakes = some last)
    (brought : List AssistantEvent × Bool) :
    s.Brings mapEvent wakes brought ↔ last = brought := by
  constructor
  · rintro ⟨n, hn⟩
    cases n with
    | zero => cases hn
    | succ n => exact Option.some.inj ((h n).symm.trans hn)
  · rintro rfl
    exact ⟨1, h 0⟩

variable (mapEvent)

/-- The queue is handed out first. -/
theorem brings_pending (parser : SseParser) (acc : Acc) (terminated : Bool) (wakes : List Wake)
    (queue : List AssistantEvent) (brought : List AssistantEvent × Bool) :
    Brings mapEvent ⟨parser, acc, queue, terminated⟩ wakes brought ↔
      ∃ rest, brought = (queue ++ rest.1, rest.2) ∧
        Brings mapEvent ⟨parser, acc, [], terminated⟩ wakes rest := by
  induction queue generalizing brought with
  | nil => simp
  | cons e queue ih =>
    have hstep : step mapEvent ⟨parser, acc, e :: queue, terminated⟩ wakes =
        .item e ⟨parser, acc, queue, terminated⟩ wakes := by
      cases wakes <;> rfl
    rw [brings_item hstep]
    simp only [ih]
    constructor
    · rintro ⟨_, rfl, rest, rfl, hrest⟩
      exact ⟨rest, rfl, hrest⟩
    · rintro ⟨rest, rfl, hrest⟩
      exact ⟨(queue ++ rest.1, rest.2), rfl, rest, rfl, hrest⟩

/-- Behind the last event comes the queue, and nothing more. -/
theorem brings_terminated (parser : SseParser) (acc : Acc) (wakes : List Wake)
    (queue : List AssistantEvent) (brought : List AssistantEvent × Bool) :
    Brings mapEvent ⟨parser, acc, queue, true⟩ wakes brought ↔ (queue, false) = brought := by
  have hended : ∀ rest, Brings mapEvent ⟨parser, acc, [], true⟩ wakes rest ↔
      ([], false) = rest := by
    refine brings_only fun n => ?_
    have hstep : step mapEvent ⟨parser, acc, [], true⟩ wakes = .ended := by
      cases wakes <;> rfl
    simp only [collect, hstep]
  rw [brings_pending]
  simp only [hended]
  constructor
  · rintro ⟨_, rfl, rfl⟩
    rw [List.append_nil]
  · rintro rfl
    exact ⟨([], false), by rw [List.append_nil], rfl⟩

variable {mapEvent}

/-- A last event stands in front of what is left in the queue. -/
theorem brings_last {s : StreamState} {wakes wakes' : List Wake} {last : AssistantEvent}
    {parser : SseParser} {acc : Acc} {queue : List AssistantEvent}
    (h : s.step mapEvent wakes = .item last ⟨parser, acc, queue, true⟩ wakes')
    (brought : List AssistantEvent × Bool) :
    s.Brings mapEvent wakes brought ↔ (last :: queue, false) = brought := by
  rw [brings_item h]
  simp only [brings_terminated]
  constructor
  · rintro ⟨_, rfl, rfl⟩
    rfl
  · rintro rfl
    exact ⟨(queue, false), rfl, rfl⟩

/-- A failure stands in front of what is left in the queue, or loses it. -/
theorem brings_failed {s : StreamState} {wakes wakes' : List Wake} {e : ε}
    {parser : SseParser} {acc : Acc} {queue : List AssistantEvent}
    (h : s.step mapEvent wakes =
      match MapFailure.text? e with
      | some text => .item (.error text false) ⟨parser, acc, queue, true⟩ wakes'
      | none => .panicked)
    (brought : List AssistantEvent × Bool) :
    s.Brings mapEvent wakes brought ↔ failedWith e queue = brought := by
  unfold failedWith
  cases htext : MapFailure.text? e with
  | some text =>
    rw [htext] at h
    exact brings_last h brought
  | none =>
    rw [htext] at h
    exact brings_only (fun n => by simp only [collect, h]) brought

/-- One wake-up after another: what a stream brings is what its wake-ups bring. -/
theorem brings_iff (parser : SseParser) (acc : Acc) (wakes : List Wake)
    (brought : List AssistantEvent × Bool) :
    Brings mapEvent ⟨parser, acc, [], false⟩ wakes brought ↔
      outputs mapEvent parser acc wakes = some brought := by
  induction wakes generalizing parser acc brought with
  | nil =>
    simp only [outputs, reduceCtorEq, iff_false]
    rintro ⟨_ | n, hn⟩ <;> cases hn
  | cons wake wakes ih =>
    cases wake with
    | cancelled =>
      have hstep : step mapEvent ⟨parser, acc, [], false⟩ (.cancelled :: wakes) =
          .item (.error "cancelled" true) ⟨parser, acc, [], true⟩ wakes := rfl
      simp only [brings_last hstep, outputs, received, Option.some.injEq]
    | failed text =>
      have hstep : step mapEvent ⟨parser, acc, [], false⟩ (.failed text :: wakes) =
          .item (.error text false) ⟨parser, acc, [], true⟩ wakes := rfl
      simp only [brings_last hstep, outputs, received, Option.some.injEq]
    | chunk bytes =>
      have hprocess := processSseEvents_eq mapEvent ⟨(parser.feed bytes).2, acc, [], false⟩ false
        (parser.feed bytes).1
      rcases hmap : mapAll mapEvent acc (parser.feed bytes).1 with ⟨outs, acc', _ | e⟩
      · have hstep : step mapEvent ⟨parser, acc, [], false⟩ (.chunk bytes :: wakes) =
            step mapEvent ⟨(parser.feed bytes).2, acc', outs,
              outs.any AssistantEvent.isDone⟩ wakes := by
          simp only [step, hprocess, hmap, Option.elim, List.nil_append, Bool.false_or,
            Bool.false_eq_true, if_false]
        rw [brings_congr hstep]
        by_cases hdone : outs.any AssistantEvent.isDone = true
        · simp only [outputs, received, hmap, hdone, brings_terminated, if_true, Option.some.injEq]
        · rw [Bool.not_eq_true] at hdone
          simp only [outputs, received, hmap, hdone, brings_pending mapEvent _ _ _ _ outs, ih,
            Bool.false_eq_true, if_false, Option.map_eq_some_iff]
          constructor
          · rintro ⟨rest, rfl, hrest⟩
            exact ⟨rest, hrest, rfl⟩
          · rintro ⟨rest, hrest, rfl⟩
            exact ⟨rest, rfl, hrest⟩
      · have hstep : step mapEvent ⟨parser, acc, [], false⟩ (.chunk bytes :: wakes) =
            match MapFailure.text? e with
            | some text => .item (.error text false) ⟨(parser.feed bytes).2, acc', outs, true⟩ wakes
            | none => .panicked := by
          simp only [step, hprocess, hmap, Option.elim, failWith, List.nil_append,
            Bool.false_eq_true, if_false]
          cases MapFailure.text? e <;> rfl
        simp only [brings_failed hstep, outputs, received, hmap, Option.some.injEq]
    | ended =>
      have hprocess := processSseEvents_eq mapEvent ⟨parser, acc, [], false⟩ false parser.finish
      rcases hmap : mapAll mapEvent acc parser.finish with ⟨outs, acc', _ | e⟩
      · by_cases hdone : outs.any AssistantEvent.isDone = true
        · have hstep : step mapEvent ⟨parser, acc, [], false⟩ (.ended :: wakes) =
              step mapEvent ⟨parser, acc', outs, true⟩ wakes := by
            simp only [step, hprocess, hmap, Option.elim, List.nil_append, Bool.false_or, hdone,
              Bool.false_eq_true, if_false]
          rw [brings_congr hstep]
          simp only [outputs, received, hmap, brings_terminated, hdone, if_true, Option.some.injEq]
        · rw [Bool.not_eq_true] at hdone
          have hstep : step mapEvent ⟨parser, acc, [], false⟩ (.ended :: wakes) =
              .item (.error "stream ended without terminal event" false)
                ⟨parser, acc', outs, true⟩ wakes := by
            simp only [step, hprocess, hmap, Option.elim, List.nil_append, Bool.false_or, hdone,
              failWith, Bool.false_eq_true, if_false]
          simp only [brings_last hstep, outputs, received, hmap, hdone, Bool.false_eq_true,
            if_false, Option.some.injEq]
      · have hstep : step mapEvent ⟨parser, acc, [], false⟩ (.ended :: wakes) =
            match MapFailure.text? e with
            | some text => .item (.error text false) ⟨parser, acc', outs, true⟩ wakes
            | none => .panicked := by
          simp only [step, hprocess, hmap, Option.elim, failWith, List.nil_append,
            Bool.false_eq_true, if_false]
          cases MapFailure.text? e <;> rfl
        simp only [brings_failed hstep, outputs, received, hmap, Option.some.injEq]

theorem yields_iff (parser : SseParser) (acc : Acc) (wakes : List Wake)
    (events : List AssistantEvent) :
    Yields mapEvent ⟨parser, acc, [], false⟩ wakes events ↔
      outputs mapEvent parser acc wakes = some (events, false) :=
  brings_iff parser acc wakes (events, false)

end Outputs

end StreamState

theorem BatchEnd.behind_nil (r : BatchEnd ε) : r.behind [] = r := by
  cases r <;> rfl

theorem BatchEnd.continued_behind (r : BatchEnd ε) (before : List AssistantEvent)
    (more : List SseEvent) (next : Acc → BatchEnd ε) :
    (r.behind before).continued more next = (r.continued more next).behind before := by
  cases r with
  | unfinished events acc =>
    simp only [behind, continued]
    cases next acc <;> simp only [List.append_assoc]
  | refused events acc e => rfl
  | done events acc rest => rfl

theorem ending_append (acc : Acc) (sses more : List SseEvent) :
    ending mapEvent acc (sses ++ more) =
      (ending mapEvent acc sses).continued more fun acc => ending mapEvent acc more := by
  induction sses generalizing acc with
  | nil => exact (BatchEnd.behind_nil _).symm
  | cons sse rest ih =>
    simp only [List.cons_append, ending]
    cases mapEvent sse acc with
    | error e => rfl
    | ok r =>
      simp only [ih]
      split_ifs
      · rfl
      · rw [BatchEnd.continued_behind]

/-- Behind a `Done` the rest of the batch is mapped too. -/
theorem mapAll_eq (acc : Acc) (sses : List SseEvent) :
    mapAll mapEvent acc sses = (ending mapEvent acc sses).mapped mapEvent := by
  induction sses generalizing acc with
  | nil => rfl
  | cons sse rest ih =>
    simp only [mapAll, ending]
    cases mapEvent sse acc with
    | error e => rfl
    | ok r =>
      simp only [ih]
      split_ifs
      · simp only [BatchEnd.mapped, ih]
      · cases ending mapEvent r.2 rest <;>
          simp only [BatchEnd.mapped, BatchEnd.behind, List.append_assoc]

/-- The `Done` is the one that ends the stream. -/
theorem ending_any_isDone (acc : Acc) (sses : List SseEvent) :
    (ending mapEvent acc sses).events.any AssistantEvent.isDone =
      (ending mapEvent acc sses).isDone := by
  induction sses generalizing acc with
  | nil => rfl
  | cons sse rest ih =>
    simp only [ending]
    cases mapEvent sse acc with
    | error e => rfl
    | ok r =>
      by_cases hdone : r.1.any AssistantEvent.isDone = true
      · simp only [hdone, if_true, BatchEnd.events, BatchEnd.isDone]
      · have hbehind : ∀ e : BatchEnd ε, (e.behind r.1).events = r.1 ++ e.events ∧
            (e.behind r.1).isDone = e.isDone := by
          intro e
          cases e <;> exact ⟨rfl, rfl⟩
        simp only [hdone, Bool.false_eq_true, if_false, hbehind, List.any_append, ih,
          Bool.false_or]

variable {mapEvent}

theorem silent_iff (acc : Acc) (sses : List SseEvent) :
    silent mapEvent acc sses = true ↔
      (mapAll mapEvent acc sses).1 = [] ∧ (mapAll mapEvent acc sses).2.2 = none := by
  induction sses generalizing acc with
  | nil => simp only [silent, mapAll, and_self]
  | cons sse rest ih =>
    rcases hmap : mapEvent sse acc with e | ⟨_ | ⟨event, events⟩, acc'⟩
    · simp only [silent, mapAll, hmap, Bool.false_eq_true, reduceCtorEq, and_false]
    · simp only [silent, mapAll, hmap, ih, List.nil_append]
    · simp only [silent, mapAll, hmap, Bool.false_eq_true, List.cons_append, reduceCtorEq,
        false_and]

theorem silent_append {acc : Acc} {as bs : List SseEvent}
    (h : silent mapEvent acc (as ++ bs) = true) : silent mapEvent acc as = true := by
  induction as generalizing acc with
  | nil => rfl
  | cons sse rest ih =>
    rcases hmap : mapEvent sse acc with e | ⟨_ | ⟨event, events⟩, acc'⟩
    · simp only [List.cons_append, silent, hmap, Bool.false_eq_true] at h
    · simp only [List.cons_append, silent, hmap] at h ⊢
      exact ih h
    · simp only [List.cons_append, silent, hmap, Bool.false_eq_true] at h

/-- What a steady batch needs of its parts. -/
theorem steady_append {acc : Acc} {as bs : List SseEvent}
    (h : steady mapEvent acc (as ++ bs) = true) :
    steady mapEvent acc as = true ∧
      ∀ {events acc'}, ending mapEvent acc as = .unfinished events acc' →
        steady mapEvent acc' bs = true := by
  rw [steady, ending_append] at h
  rw [steady]
  generalize ending mapEvent acc as = first at h ⊢
  cases first with
  | unfinished events acc' =>
    refine ⟨rfl, ?_⟩
    rintro _ _ ⟨⟩
    rw [steady]
    cases hending : ending mapEvent acc' bs with
    | unfinished events' acc'' => rfl
    | refused events' acc'' e =>
      simp only [BatchEnd.continued, hending, BatchEnd.behind, BatchEnd.isOver, BatchEnd.clean,
        Bool.not_true, Bool.false_or, List.isEmpty_iff, List.append_eq_nil_iff] at h ⊢
      exact h.2
    | done events' acc'' rest =>
      simpa only [BatchEnd.continued, hending, BatchEnd.behind, BatchEnd.isOver,
        BatchEnd.clean] using h
  | refused events acc' e => exact ⟨h, fun h' => by cases h'⟩
  | done events acc' rest =>
    simp only [BatchEnd.continued, BatchEnd.isOver, BatchEnd.clean, Bool.not_true,
      Bool.false_or] at h ⊢
    exact ⟨silent_append h, fun h' => by cases h'⟩

namespace StreamState

variable [MapFailure ε]

theorem received_chunk (parser : SseParser) (acc : Acc) (bytes : List UInt8) :
    received mapEvent parser acc (.chunk bytes) =
      if (ending mapEvent acc (parser.feed bytes).1).isOver then
        ((ending mapEvent acc (parser.feed bytes).1).last mapEvent, none)
      else
        (((ending mapEvent acc (parser.feed bytes).1).events, false),
          some ((parser.feed bytes).2, (ending mapEvent acc (parser.feed bytes).1).acc)) := by
  have hdone := ending_any_isDone mapEvent acc (parser.feed bytes).1
  simp only [received, mapAll_eq]
  cases hending : ending mapEvent acc (parser.feed bytes).1 with
  | unfinished events acc' =>
    simp only [hending, BatchEnd.events, BatchEnd.isDone] at hdone
    simp only [BatchEnd.mapped, BatchEnd.isOver, BatchEnd.events, BatchEnd.acc, hdone]
    rfl
  | refused events acc' e => rfl
  | done events acc' rest =>
    simp only [hending, BatchEnd.events, BatchEnd.isDone] at hdone
    rcases hall : mapAll mapEvent acc' rest with ⟨more, acc'', _ | e⟩
    · simp only [BatchEnd.mapped, BatchEnd.isOver, BatchEnd.last, hall, List.any_append, hdone,
        Bool.true_or, if_true]
    · simp only [BatchEnd.mapped, BatchEnd.isOver, BatchEnd.last, hall, if_true]

theorem received_ended (parser : SseParser) (acc : Acc) :
    received mapEvent parser acc .ended =
      ((ending mapEvent acc parser.finish).last mapEvent, none) := by
  have hdone := ending_any_isDone mapEvent acc parser.finish
  simp only [received, mapAll_eq]
  cases hending : ending mapEvent acc parser.finish with
  | unfinished events acc' =>
    simp only [hending, BatchEnd.events, BatchEnd.isDone] at hdone
    simp only [BatchEnd.mapped, BatchEnd.last, hdone, Bool.false_eq_true, if_false]
  | refused events acc' e => rfl
  | done events acc' rest =>
    simp only [hending, BatchEnd.events, BatchEnd.isDone] at hdone
    rcases hall : mapAll mapEvent acc' rest with ⟨more, acc'', _ | e⟩
    · simp only [BatchEnd.mapped, BatchEnd.last, hall, List.any_append, hdone, Bool.true_or,
        if_true]
    · simp only [BatchEnd.mapped, BatchEnd.last, hall]

end StreamState

end Guigu
