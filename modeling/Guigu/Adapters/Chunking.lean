import Guigu.Adapters.StreamEvents

/-! Streams of one body, cut into chunks in any way: the events in their order, and the last one. -/
namespace Guigu

namespace OpenAi

variable {jsonError : String → String}

/-- A piece that is taken has an index and a function. -/
theorem mapToolCall_ok {tc : Json} {acc : Acc} {r : List AssistantEvent × Acc}
    (h : mapToolCall tc acc = .ok r) :
    ∃ index function located, Serde.getU64 "index" tc = some index ∧
      Serde.get "function" tc = some function ∧
      locate index ((Serde.getString "id" tc).getD "")
        ((Serde.getString "name" function).getD "") acc = .ok located ∧
      r = (located.1 ++ (mapArguments located.2.1
          ((Serde.getString "arguments" function).getD "") located.2.2).1,
        (mapArguments located.2.1
          ((Serde.getString "arguments" function).getD "") located.2.2).2) := by
  unfold mapToolCall at h
  cases hindex : Serde.getU64 "index" tc with
  | none => simp only [hindex, reduceCtorEq] at h
  | some index =>
    cases hfunction : Serde.get "function" tc with
    | none => simp only [hindex, hfunction, reduceCtorEq] at h
    | some function =>
      simp only [hindex, hfunction] at h
      obtain ⟨located, hlocate, rfl⟩ := Except.map_eq_ok.mp h
      exact ⟨index, function, located, rfl, rfl, hlocate, rfl⟩

theorem mapToolCalls_cons_ok {tc : Json} {tcs : List Json} {acc : Acc}
    {r : List AssistantEvent × Acc} (h : mapToolCalls (tc :: tcs) acc = .ok r) :
    ∃ first rest, mapToolCall tc acc = .ok first ∧ mapToolCalls tcs first.2 = .ok rest ∧
      r = (first.1 ++ rest.1, rest.2) := by
  rw [mapToolCalls] at h
  cases hfirst : mapToolCall tc acc with
  | error e => simp only [hfirst, reduceCtorEq] at h
  | ok first =>
    simp only [hfirst] at h
    obtain ⟨rest, hrest, rfl⟩ := Except.map_eq_ok.mp h
    exact ⟨first, rest, rfl, hrest, rfl⟩

theorem locate_plain {index : ℕ} {id name : String} {acc : Acc}
    {r : List AssistantEvent × ℕ × Acc} (h : locate index id name acc = .ok r) :
    ∀ e ∈ r.1, e.isTerminal = false := by
  unfold locate at h
  split_ifs at h
  · obtain ⟨acc', -, rfl⟩ := Except.map_eq_ok.mp h
    simp
  · split at h
    · cases h
      simp
    · cases h

theorem mapToolCall_plain {tc : Json} {acc : Acc} {r : List AssistantEvent × Acc}
    (h : mapToolCall tc acc = .ok r) : ∀ e ∈ r.1, e.isTerminal = false := by
  obtain ⟨index, function, located, -, -, hlocate, rfl⟩ := mapToolCall_ok h
  intro e he
  rcases List.mem_append.mp he with he | he
  · exact locate_plain hlocate e he
  · unfold mapArguments at he
    split_ifs at he
    · cases he
    · split at he
      · rw [List.mem_singleton.mp he]
        rfl
      · cases he

theorem mapToolCalls_plain {tcs : List Json} {acc : Acc} {r : List AssistantEvent × Acc}
    (h : mapToolCalls tcs acc = .ok r) : ∀ e ∈ r.1, e.isTerminal = false := by
  induction tcs generalizing acc r with
  | nil =>
    cases h
    simp
  | cons tc tcs ih =>
    obtain ⟨first, rest, hfirst, hrest, rfl⟩ := mapToolCalls_cons_ok h
    intro e he
    rcases List.mem_append.mp he with he | he
    · exact mapToolCall_plain hfirst e he
    · exact ih hrest e he

theorem mapChoice_plain {choice : Json} {acc : Acc} {r : List AssistantEvent × Acc}
    (h : mapChoice choice acc = .ok r) : ∀ e ∈ r.1, e.isTerminal = false := by
  obtain ⟨calls, hcalls, rfl⟩ := Except.map_eq_ok.mp h
  intro e he
  simp only [List.mem_append] at he
  rcases he with ((he | he) | he) | he
  · unfold mapText at he
    split at he
    · rw [List.mem_singleton.mp he]
      rfl
    · cases he
  · unfold mapThinking at he
    split at he
    · rw [List.mem_singleton.mp he]
      rfl
    · cases he
  · exact mapToolCalls_plain hcalls e he
  · unfold mapFinish at he
    split at he
    · cases he
    · split_ifs at he
      · obtain ⟨tc, -, rfl⟩ := List.mem_map.mp he
        rfl
      · cases he

theorem lone : Lone (fun _ => True) (mapEvent jsonError) := by
  have hchunk : ∀ data acc r, mapChunk jsonError data acc = .ok r →
      ∀ e ∈ r.1, e.isTerminal = false := by
    intro data acc r h
    unfold mapChunk at h
    split at h
    · cases h
    · obtain ⟨mapped, hmapped, rfl⟩ := Except.map_eq_ok.mp h
      split at hmapped
      · intro e he
        exact mapChoice_plain hmapped e he
      · cases hmapped
        simp
  intro sse acc events acc' _ h
  refine ⟨trivial, ?_⟩
  cases sse with
  | named event data => exact .inl (hchunk data acc _ h)
  | data data => exact .inl (hchunk data acc _ h)
  | done =>
    cases h
    exact .inr rfl

end OpenAi

namespace Anthropic

variable {jsonError : String → String}

theorem handleBlockStart_plain {v : Json} {acc : Acc} {r : List AssistantEvent × Acc}
    (h : handleBlockStart v acc = .ok r) : ∀ e ∈ r.1, e.isTerminal = false := by
  obtain ⟨index, -, h⟩ := Except.bind_eq_ok.mp h
  split_ifs at h
  obtain ⟨block, -, h⟩ := Except.bind_eq_ok.mp h
  obtain ⟨blockType, -, h⟩ := Except.bind_eq_ok.mp h
  unfold startBlock at h
  split_ifs at h
  · obtain ⟨id, -, h⟩ := Except.bind_eq_ok.mp h
    obtain ⟨name, -, h⟩ := Except.bind_eq_ok.mp h
    cases h
    simp
  · cases h
    simp
  · cases h
    simp

theorem handleBlockDelta_plain {v : Json} {acc : Acc} {r : List AssistantEvent × Acc}
    (h : handleBlockDelta v acc = .ok r) : ∀ e ∈ r.1, e.isTerminal = false := by
  obtain ⟨index, -, h⟩ := Except.bind_eq_ok.mp h
  obtain ⟨delta, -, h⟩ := Except.bind_eq_ok.mp h
  obtain ⟨deltaType, -, h⟩ := Except.bind_eq_ok.mp h
  split_ifs at h
  · obtain ⟨text, -, h⟩ := Except.bind_eq_ok.mp h
    split at h
    · cases h
      simp
    · cases h
  · obtain ⟨thinking, -, h⟩ := Except.bind_eq_ok.mp h
    split at h
    · cases h
      simp
    · cases h
  · obtain ⟨args, -, h⟩ := Except.bind_eq_ok.mp h
    split at h
    · obtain ⟨tc, -, h⟩ := Except.bind_eq_ok.mp h
      cases h
      simp
    · cases h

theorem handleBlockStop_plain {v : Json} {acc : Acc} {r : List AssistantEvent × Acc}
    (h : handleBlockStop v acc = .ok r) : ∀ e ∈ r.1, e.isTerminal = false := by
  obtain ⟨index, -, h⟩ := Except.bind_eq_ok.mp h
  split at h
  · obtain ⟨tc, -, h⟩ := Except.bind_eq_ok.mp h
    split_ifs at h
    cases h
    simp
  · cases h
    simp
  · cases h
    simp
  · cases h

theorem lone : Lone (fun _ => True) (mapEvent jsonError) := by
  have hhandle : ∀ eventType v acc events acc', handle eventType v acc = .ok (events, acc') →
      (∀ e ∈ events, e.isTerminal = false) ∨ events = [.done acc.buildMessage] := by
    intro eventType v acc events acc' h
    unfold handle at h
    split_ifs at h
    · exact .inl (handleBlockStart_plain h)
    · exact .inl (handleBlockDelta_plain h)
    · exact .inl (handleBlockStop_plain h)
    · cases h
      exact .inl (by simp)
    · cases h
      exact .inl (by simp)
    · cases h
      exact .inr rfl
    · cases h
      exact .inl (by simp)
  have hdispatch : ∀ eventType data acc events acc',
      dispatch jsonError eventType data acc = .ok (events, acc') →
      (∀ e ∈ events, e.isTerminal = false) ∨ events = [.done acc.buildMessage] := by
    intro eventType data acc events acc' h
    unfold dispatch at h
    split at h
    · cases h
    · exact hhandle _ _ _ _ _ h
  intro sse acc events acc' _ h
  refine ⟨trivial, ?_⟩
  cases sse with
  | named event data => exact hdispatch _ _ _ _ _ h
  | data data =>
    simp only [mapEvent] at h
    split at h
    · cases h
    · exact hdispatch _ _ _ _ _ h
  | done =>
    cases h
    exact .inr rfl

end Anthropic

theorem Adapter.lone (jsonError : String → String) :
    ∀ adapter : Adapter, Lone (fun _ => True) (adapter.mapEvent jsonError)
  | .openAi => OpenAi.lone
  | .anthropic => Anthropic.lone

/-- The message of a `Done` is the answer so far. -/
theorem Adapter.done_eq {adapter : Adapter} {jsonError : String → String} {sse : SseEvent}
    {acc acc' : Acc} {m : AssistantMessage}
    (h : adapter.mapEvent jsonError sse acc = .ok ([.done m], acc')) : m = acc.buildMessage := by
  obtain ⟨-, hplain | hlone⟩ := adapter.lone jsonError sse acc _ _ trivial h
  · exact absurd (hplain (.done m) List.mem_cons_self) (by simp)
  · simpa using hlone

section Batches

variable {ε : Type}

/-- Nothing is terminal in front of the end of a batch, and a `Done` stands last. -/
def BatchEnd.Placed : BatchEnd ε → Prop
  | .unfinished events _ | .refused events _ _ => ∀ e ∈ events, e.isTerminal = false
  | .done events _ _ =>
    ∃ front m, events = front ++ [.done m] ∧ ∀ e ∈ front, e.isTerminal = false

theorem BatchEnd.Placed.behind {r : BatchEnd ε} (h : r.Placed) {before : List AssistantEvent}
    (hbefore : ∀ e ∈ before, e.isTerminal = false) : (r.behind before).Placed := by
  have happend : ∀ events : List AssistantEvent, (∀ e ∈ events, e.isTerminal = false) →
      ∀ e ∈ before ++ events, e.isTerminal = false := by
    intro events hevents e he
    exact (List.mem_append.mp he).elim (hbefore e) (hevents e)
  cases r with
  | unfinished events acc => exact happend events h
  | refused events acc e => exact happend events h
  | done events acc rest =>
    obtain ⟨front, m, rfl, hfront⟩ := h
    exact ⟨before ++ front, m, (List.append_assoc _ _ _).symm, happend front hfront⟩

theorem ending_placed {mapEvent : MapEventFn ε} {inv : Acc → Prop} (hlone : Lone inv mapEvent)
    {acc : Acc} (hacc : inv acc) (sses : List SseEvent) : (ending mapEvent acc sses).Placed := by
  induction sses generalizing acc with
  | nil => exact List.forall_mem_nil _
  | cons sse rest ih =>
    rw [ending]
    cases hmap : mapEvent sse acc with
    | error e => exact List.forall_mem_nil _
    | ok r =>
      obtain ⟨hnext, hplain | hm⟩ := hlone sse acc r.1 r.2 hacc hmap
      · have hnone : r.1.any AssistantEvent.isDone = false := by
          rw [List.any_eq_false]
          intro e he
          have h := hplain e he
          rw [AssistantEvent.isTerminal, Bool.or_eq_false_iff] at h
          exact Bool.eq_false_iff.mp h.1
        simp only [hnone, Bool.false_eq_true, if_false]
        exact (ih hnext).behind hplain
      · simp only [hm, List.any_cons, AssistantEvent.isDone, Bool.true_or, if_true]
        exact ⟨[], acc.buildMessage, rfl, List.forall_mem_nil _⟩

/-! ### Cuts -/

namespace StreamState

variable [MapFailure ε] {mapEvent : MapEventFn ε}

/-- How a body comes to its end: with no more of it, or with an error in place of more. -/
def bodyEnd : Option String → Wake
  | none => .ended
  | some text => .failed text

variable (mapEvent) in
theorem received_bodyEnd (parser : SseParser) (acc : Acc) (failure : Option String) :
    (received mapEvent parser acc (bodyEnd failure)).2 = none := by
  cases failure with
  | none =>
    rw [bodyEnd, received_ended]
  | some text => rfl

variable (mapEvent)

/-- The events in their order: up to the first one that fails, or up to a `Done`. -/
def inOrder (parser : SseParser) (acc : Acc) (body : List UInt8) (failure : Option String) :
    List AssistantEvent × Bool :=
  match ending mapEvent acc (parser.feed body).1 with
  | .unfinished events acc =>
    let last := (received mapEvent (parser.feed body).2 acc (bodyEnd failure)).1
    (events ++ last.1, last.2)
  | .refused events _ e => (events ++ (failedWith e []).1, (failedWith e []).2)
  | .done events _ _ => (events, false)

variable {mapEvent}

/-- A body byte by byte brings its events in their order. -/
theorem outputs_bytes (parser : SseParser) (acc : Acc) (body : List UInt8)
    (failure : Option String) :
    outputs mapEvent parser acc (body.map (fun b => .chunk [b]) ++ [bodyEnd failure]) =
      some (inOrder mapEvent parser acc body failure) := by
  induction body generalizing parser acc with
  | nil =>
    rcases hend : received mapEvent parser acc (bodyEnd failure) with ⟨brought, _ | _⟩
    · simp only [List.map_nil, List.nil_append, outputs, hend, inOrder, SseParser.feed, ending]
    · have hnone := received_bodyEnd mapEvent parser acc failure
      rw [hend] at hnone
      cases hnone
  | cons b body ih =>
    have hone : parser.feed [b] = ((parser.feedByte b).1.toList, (parser.feedByte b).2) := by
      simp only [SseParser.feed, List.append_nil]
    have hsplit : parser.feed (b :: body) =
        ((parser.feedByte b).1.toList ++ ((parser.feedByte b).2.feed body).1,
          ((parser.feedByte b).2.feed body).2) := rfl
    simp only [List.map_cons, List.cons_append, outputs, received_chunk, hone, inOrder, hsplit,
      ending_append]
    -- A byte completes one event at most, so an error has nothing to overtake.
    cases (parser.feedByte b).1 with
    | none =>
      simp only [Option.toList_none, ending, BatchEnd.isOver, BatchEnd.continued, BatchEnd.events,
        BatchEnd.acc, BatchEnd.behind_nil, Bool.false_eq_true, if_false, ih, Option.map_some,
        List.nil_append, inOrder]
    | some sse =>
      simp only [Option.toList_some, ending]
      cases hmap : mapEvent sse acc with
      | error e => rfl
      | ok r =>
        by_cases hdone : r.1.any AssistantEvent.isDone = true
        · simp only [hdone, if_true, BatchEnd.isOver, BatchEnd.last, mapAll, BatchEnd.continued,
            List.append_nil]
        · simp only [hdone, if_false, BatchEnd.behind, BatchEnd.isOver, BatchEnd.events,
            BatchEnd.acc, BatchEnd.continued, List.append_nil, Bool.false_eq_true, ih,
            Option.map_some, inOrder]
          cases ending mapEvent r.2 ((parser.feedByte b).2.feed body).1 <;>
            simp only [List.append_assoc]

/-- A steady body brings its events in their order, whatever the cuts. -/
theorem outputs_steady (parser : SseParser) (acc : Acc) (chunks : List (List UInt8))
    (failure : Option String) (hsteady : steady mapEvent acc (parser.feed chunks.flatten).1) :
    outputs mapEvent parser acc (chunks.map .chunk ++ [bodyEnd failure]) =
      some (inOrder mapEvent parser acc chunks.flatten failure) := by
  induction chunks generalizing parser acc with
  | nil => exact outputs_bytes parser acc [] failure
  | cons bytes chunks ih =>
    simp only [List.flatten_cons, SseParser.feed_append] at hsteady
    obtain ⟨hclean, hrest⟩ := steady_append hsteady
    simp only [List.map_cons, List.cons_append, outputs, received_chunk, inOrder, List.flatten_cons,
      SseParser.feed_append, ending_append]
    cases hending : ending mapEvent acc (parser.feed bytes).1 with
    | unfinished events acc' =>
      simp only [BatchEnd.isOver, Bool.false_eq_true, if_false, BatchEnd.events, BatchEnd.acc,
        ih _ _ (hrest hending), Option.map_some, inOrder, BatchEnd.continued]
      cases ending mapEvent acc' ((parser.feed bytes).2.feed chunks.flatten).1 <;>
        simp only [BatchEnd.behind, List.append_assoc]
    | refused events acc' e =>
      simp only [steady, hending, BatchEnd.isOver, BatchEnd.clean, Bool.not_true, Bool.false_or,
        List.isEmpty_iff] at hclean
      simp only [BatchEnd.isOver, if_true, BatchEnd.last, BatchEnd.continued, hclean,
        List.nil_append]
    | done events acc' rest =>
      simp only [steady, hending, BatchEnd.isOver, BatchEnd.clean, Bool.not_true, Bool.false_or]
        at hclean
      have hsilent := (silent_iff acc' rest).mp hclean
      rcases hall : mapAll mapEvent acc' rest with ⟨more, acc'', found⟩
      rw [hall] at hsilent
      obtain ⟨rfl, rfl⟩ := hsilent
      simp only [BatchEnd.isOver, if_true, BatchEnd.last, hall, BatchEnd.continued, List.append_nil]

/-- In one piece only a steady body brings its events in their order. -/
theorem outputs_piece {inv : Acc → Prop} (hlone : Lone inv mapEvent) (parser : SseParser)
    {acc : Acc} (hacc : inv acc) (body : List UInt8) (failure : Option String) :
    outputs mapEvent parser acc [.chunk body, bodyEnd failure] =
        some (inOrder mapEvent parser acc body failure) ↔
      steady mapEvent acc (parser.feed body).1 := by
  constructor
  · have hplaced := ending_placed hlone hacc (parser.feed body).1
    simp only [outputs, received_chunk, inOrder, steady]
    generalize ending mapEvent acc (parser.feed body).1 = whole at hplaced ⊢
    cases whole with
    | unfinished events acc' => simp [BatchEnd.isOver]
    | refused events acc' e =>
      simp only [BatchEnd.isOver, if_true, BatchEnd.last, BatchEnd.clean, Option.some.injEq,
        Bool.not_true, Bool.false_or]
      intro h
      cases events with
      | nil => rfl
      | cons event events =>
        unfold failedWith at h
        cases htext : MapFailure.text? e with
        | none =>
          rw [htext] at h
          cases (Prod.mk.inj h).1
        | some text =>
          -- The error would stand first among events that are none.
          rw [htext] at h
          have hfirst := hplaced event List.mem_cons_self
          rw [← (List.cons.inj (Prod.mk.inj h).1).1] at hfirst
          exact absurd hfirst (by simp)
    | done events acc' rest =>
      simp only [BatchEnd.isOver, if_true, BatchEnd.last, BatchEnd.clean, Bool.not_true,
        Bool.false_or]
      rw [silent_iff]
      rcases mapAll mapEvent acc' rest with ⟨more, acc'', _ | e⟩
      · intro h
        exact ⟨List.append_right_eq_self.mp (Prod.mk.inj (Option.some.inj h)).1, rfl⟩
      · intro h
        have hfailed : failedWith e (events ++ more) = (events, false) := Option.some.inj h
        unfold failedWith at hfailed
        cases htext : MapFailure.text? e with
        | none =>
          rw [htext] at hfailed
          cases (Prod.mk.inj hfailed).2
        | some text =>
          rw [htext] at hfailed
          have hlength := congrArg List.length (Prod.mk.inj hfailed).1
          simp only [List.length_cons, List.length_append] at hlength
          omega
  · intro hsteady
    rw [← List.flatten_singleton (l := body)] at hsteady
    have h := outputs_steady parser acc [body] failure hsteady
    rwa [List.flatten_singleton] at h

/-- All cuts of a body bring the same if and only if nothing is handed out in front of the first
event that fails, or behind a `Done`. -/
theorem brings_alike_iff {inv : Acc → Prop} (hlone : Lone inv mapEvent) (model : String)
    (hacc : inv (.new model)) (body : List UInt8) (failure : Option String) :
    (∀ chunks chunks' : List (List UInt8), chunks.flatten = body → chunks'.flatten = body →
      ∃ brought,
        (start model).Brings mapEvent (chunks.map .chunk ++ [bodyEnd failure]) brought ∧
        (start model).Brings mapEvent (chunks'.map .chunk ++ [bodyEnd failure]) brought) ↔
      steady mapEvent (.new model) (SseParser.new.feed body).1 := by
  constructor
  · intro hagree
    obtain ⟨brought, hpiece, hbytes⟩ := hagree [body] (body.map fun b => [b]) (by simp)
      (List.flatMap_singleton' body)
    rw [start, brings_iff, List.map_map] at hbytes
    rw [start, brings_iff] at hpiece
    have hordered : outputs mapEvent .new (.new model)
        (body.map (fun b => .chunk [b]) ++ [bodyEnd failure]) =
        some (inOrder mapEvent .new (.new model) body failure) :=
      outputs_bytes .new (.new model) body failure
    rw [← outputs_piece hlone .new hacc]
    exact hpiece.trans (hbytes.symm.trans hordered)
  · rintro hsteady chunks chunks' hchunks hchunks'
    refine ⟨inOrder mapEvent .new (.new model) body failure, ?_, ?_⟩
    · rw [start, brings_iff, ← hchunks]
      exact outputs_steady _ _ _ _ (hchunks ▸ hsteady)
    · rw [start, brings_iff, ← hchunks']
      exact outputs_steady _ _ _ _ (hchunks' ▸ hsteady)

end StreamState

end Batches

/-! ### The last event -/

namespace StreamState

variable {mapEvent : MapEventFn ProviderError}

/-- A terminal event stands last, and nowhere else. -/
def Closed (events : List AssistantEvent) : Prop :=
  ∃ front last, events = front ++ [last] ∧ last.isTerminal = true ∧
    ∀ e ∈ front, e.isTerminal = false

theorem closed_terminal {e : AssistantEvent} (h : e.isTerminal = true)
    (events : List AssistantEvent) : Closed (e :: events) ↔ events = [] := by
  constructor
  · rintro ⟨front, last, hevents, -, hfront⟩
    cases front with
    | nil => exact (List.cons.inj hevents).2
    | cons e' front =>
      have hplain := hfront e' List.mem_cons_self
      rw [← (List.cons.inj hevents).1, h] at hplain
      cases hplain
  · rintro rfl
    exact ⟨[], e, rfl, h, List.forall_mem_nil _⟩

theorem closed_plain {front : List AssistantEvent} (hfront : ∀ e ∈ front, e.isTerminal = false)
    (events : List AssistantEvent) : Closed (front ++ events) ↔ Closed events := by
  constructor
  · induction front with
    | nil => exact id
    | cons e front ih =>
      rintro ⟨front', last, hevents, hlast, hfront'⟩
      have hplain := hfront e List.mem_cons_self
      apply ih fun e' he' => hfront e' (List.mem_cons_of_mem _ he')
      cases front' with
      | nil =>
        rw [(List.cons.inj hevents).1, hlast] at hplain
        cases hplain
      | cons e' front' =>
        exact ⟨front', last, (List.cons.inj hevents).2, hlast,
          fun e'' he'' => hfront' e'' (List.mem_cons_of_mem _ he'')⟩
  · rintro ⟨front', last, rfl, hlast, hfront'⟩
    refine ⟨front ++ front', last, (List.append_assoc _ _ _).symm, hlast, ?_⟩
    intro e he
    exact (List.mem_append.mp he).elim (hfront e) (hfront' e)

/-- A stream that ends with a batch is closed if and only if the batch is clean. -/
theorem closed_last {r : BatchEnd ProviderError} (h : r.Placed) :
    Closed (r.last mapEvent).1 ↔ r.clean mapEvent = true := by
  cases r with
  | unfinished events acc =>
    rw [BatchEnd.last, closed_terminal (by simp), BatchEnd.clean, List.isEmpty_iff]
  | refused events acc e =>
    show Closed (.error e.text false :: events) ↔ _
    rw [closed_terminal (by simp), BatchEnd.clean, List.isEmpty_iff]
  | done events acc rest =>
    obtain ⟨front, m, rfl, hfront⟩ := h
    rw [BatchEnd.clean, silent_iff]
    rcases hall : mapAll mapEvent acc rest with ⟨more, acc', _ | e⟩
    · have hlast : (BatchEnd.last mapEvent (.done (front ++ [.done m]) acc rest)).1 =
          front ++ .done m :: more := by
        simp only [BatchEnd.last, hall, List.append_assoc, List.singleton_append]
      rw [hlast, closed_plain hfront, closed_terminal (by simp)]
      simp only [and_true]
    · have hlast : (BatchEnd.last mapEvent (.done (front ++ [.done m]) acc rest)).1 =
          .error e.text false :: (front ++ [.done m] ++ more) := by
        simp only [BatchEnd.last, hall]
        rfl
      rw [hlast, closed_terminal (by simp)]
      simp

variable (mapEvent) in
/-- The wake-up that ends the stream hands out nothing in front of an error, or behind a `Done`. -/
def closes (parser : SseParser) (acc : Acc) : List Wake → Bool
  | [] | .cancelled :: _ | .failed _ :: _ => true
  | .chunk bytes :: wakes =>
    let r := ending mapEvent acc (parser.feed bytes).1
    if r.isOver then r.clean mapEvent else closes (parser.feed bytes).2 r.acc wakes
  | .ended :: _ => (ending mapEvent acc parser.finish).clean mapEvent

theorem closed_iff_closes (hlone : Lone (fun _ => True) mapEvent) {parser : SseParser} {acc : Acc}
    {wakes : List Wake} {events : List AssistantEvent}
    (h : outputs mapEvent parser acc wakes = some (events, false)) :
    Closed events ↔ closes mapEvent parser acc wakes = true := by
  induction wakes generalizing parser acc events with
  | nil => cases h
  | cons wake wakes ih =>
    cases wake with
    | cancelled =>
      cases h
      simp [closed_terminal, closes]
    | failed text =>
      cases h
      simp [closed_terminal, closes]
    | chunk bytes =>
      have hplaced : (ending mapEvent acc (parser.feed bytes).1).Placed :=
        ending_placed hlone trivial _
      simp only [outputs, received_chunk] at h
      simp only [closes]
      by_cases hover : (ending mapEvent acc (parser.feed bytes).1).isOver = true
      · simp only [hover, if_true, Option.some.injEq] at h ⊢
        rw [← closed_last hplaced, h]
      · simp only [hover, Bool.false_eq_true, if_false] at h ⊢
        obtain ⟨⟨rest, panicked⟩, hrest, hevents⟩ := Option.map_eq_some_iff.mp h
        obtain ⟨rfl, rfl⟩ := Prod.mk.inj hevents
        have hplain : ∀ e ∈ (ending mapEvent acc (parser.feed bytes).1).events,
            e.isTerminal = false := by
          cases hending : ending mapEvent acc (parser.feed bytes).1 with
          | unfinished events acc' =>
            rw [hending] at hplaced
            exact hplaced
          | refused events acc' e => exact absurd (congrArg BatchEnd.isOver hending) hover
          | done events acc' rest => exact absurd (congrArg BatchEnd.isOver hending) hover
        rw [closed_plain hplain]
        exact ih hrest
    | ended =>
      simp only [outputs, received_ended, Option.some.injEq] at h
      have hplaced : (ending mapEvent acc parser.finish).Placed := ending_placed hlone trivial _
      rw [closes, ← closed_last hplaced, h]

/-- A stream polled to its end has one terminal event, its last, if and only if the wake-up that
ends it hands out nothing in front of an error, or behind a `Done`. -/
theorem terminal_last_iff (adapter : Adapter) (jsonError : String → String) (model : String)
    {wakes : List Wake} {events : List AssistantEvent}
    (h : (start model).Yields (adapter.mapEvent jsonError) wakes events) :
    Closed events ↔ closes (adapter.mapEvent jsonError) .new (.new model) wakes = true :=
  closed_iff_closes (adapter.lone jsonError) ((yields_iff _ _ _ _).mp h)

theorem terminal_last_done :
    Closed [.done (Acc.new "m").buildMessage] ↔
      closes (Adapter.openAi.mapEvent fun _ => "") .new (.new "m")
        [.chunk (Utf8.encode "data: [DONE]\n\n".toList)] = true :=
  terminal_last_iff .openAi (fun _ => "") "m" ((yields_iff _ _ _ _).mpr (by decide +kernel))

/-- An error overtakes the `Done` in front of it. -/
theorem done_behind_error :
    ¬ ∀ events, (start "m").Yields (Adapter.openAi.mapEvent fun _ => "")
      [.chunk (Utf8.encode "data: [DONE]\n\ndata: x\n\n".toList)] events → Closed events := by
  intro hall
  have hevents : outputs (Adapter.openAi.mapEvent fun _ => "") .new (.new "m")
      [.chunk (Utf8.encode "data: [DONE]\n\ndata: x\n\n".toList)] =
      some ([.error "Parse error: " false, .done (Acc.new "m").buildMessage], false) := by
    decide +kernel
  have hclosed := hall _ ((yields_iff _ _ _ _).mpr hevents)
  rw [closed_terminal (by simp)] at hclosed
  cases hclosed

end StreamState

end Guigu
