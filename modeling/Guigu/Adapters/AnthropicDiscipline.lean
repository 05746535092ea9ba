import Guigu.Adapters.CallTrace

/-! What an Anthropic stream makes the adapter tell of calls. -/
namespace Guigu.Anthropic

open Lifecycle (Stage Disciplined disciplined_concat)

/-- What an event that is accepted is, and what it changes. -/
inductive Accepted (sse : SseEvent) (acc : Acc) : List AssistantEvent → Acc → Prop where
  | start {index : ℕ} {b : Block} (hstart : blockStart? sse = some (index, b))
      (hdelta : blockDelta? sse = none) (hstop : blockStop? sse = none)
      (hfree : acc.blockKind index = none) :
      Accepted sse acc b.starts ((acc.started b).2.noteBlock index (acc.started b).1)
  | delta {index : ℕ} {t : String} {seg : SegmentKind} {events : List AssistantEvent}
      (hstart : blockStart? sse = none) (hdelta : blockDelta? sse = some (index, t))
      (hstop : blockStop? sse = none) (hkind : acc.blockKind index = some seg)
      (hevents : ∀ p, acc.content seg = some p → events = [p.1.delta t]) :
      Accepted sse acc events (acc.extended t seg)
  | stopCall {index i : ℕ} {tc : ToolCallAcc} (hstart : blockStart? sse = none)
      (hdelta : blockDelta? sse = none) (hstop : blockStop? sse = some index)
      (hkind : acc.blockKind index = some (.toolCall i)) (htc : acc.toolCalls[i]? = some tc)
      (hdone : tc.done = false) : Accepted sse acc [.toolCallEnd tc.id] (acc.endToolCall tc.id)
  | stopOther {index : ℕ} {seg : SegmentKind} (hstart : blockStart? sse = none)
      (hdelta : blockDelta? sse = none) (hstop : blockStop? sse = some index)
      (hkind : acc.blockKind index = some seg) (hother : ∀ i, seg ≠ .toolCall i) :
      Accepted sse acc [] acc
  | other {events : List AssistantEvent} {acc' : Acc} (hstart : blockStart? sse = none)
      (hdelta : blockDelta? sse = none) (hstop : blockStop? sse = none)
      (hcalls : acc'.toolCalls = acc.toolCalls) (hkinds : acc'.blockKinds = acc.blockKinds)
      (hquiet : events.filterMap AssistantEvent.callStage? = []) : Accepted sse acc events acc'

theorem accepted_of_ok {jsonError : String → String} {sse : SseEvent} {acc : Acc}
    {r : List AssistantEvent × Acc} (h : mapEvent jsonError sse acc = .ok r) :
    Accepted sse acc r.1 r.2 := by
  obtain ⟨e, hevent, hhandle⟩ | ⟨hevent, rfl⟩ := mapEvent_ok h
  · unfold handle at hhandle
    split_ifs at hhandle with hstart hdelta hstop hmessage husage hdone
    · obtain ⟨index, b, hs, hfree, rfl⟩ := handleBlockStart_ok hhandle
      apply Accepted.start (by simp [blockStart?, hevent, hstart, hs]) ?_ ?_ hfree
      · simp [blockDelta?, hevent, hstart]
      · simp [blockStop?, hevent, hstart]
    · obtain ⟨index, t, seg, hd, hkind, hacc, hevents⟩ := handleBlockDelta_ok hhandle
      rw [hacc]
      apply Accepted.delta ?_ (by simp [blockDelta?, hevent, hdelta, hd]) ?_ hkind hevents
      · simp [blockStart?, hevent, hdelta]
      · simp [blockStop?, hevent, hdelta]
    · obtain ⟨index, seg, hindex, hkind, hcase⟩ := handleBlockStop_ok hhandle
      have hnostart : blockStart? sse = none := by simp [blockStart?, hevent, hstop]
      have hnodelta : blockDelta? sse = none := by simp [blockDelta?, hevent, hstop]
      have hstops : blockStop? sse = some index := by simp [blockStop?, hevent, hstop, hindex]
      obtain ⟨i, tc, rfl, htc, hopen, rfl⟩ | ⟨hother, rfl⟩ := hcase
      · exact .stopCall hnostart hnodelta hstops hkind htc hopen
      · exact .stopOther hnostart hnodelta hstops hkind hother
    all_goals
      cases hhandle
      apply Accepted.other
      · simp [blockStart?, hevent, hstart]
      · simp [blockDelta?, hevent, hdelta]
      · simp [blockStop?, hevent, hstop]
    · unfold messageStart
      split <;> rfl
    · unfold messageStart
      split <;> rfl
    · rfl
    · unfold messageDelta
      split <;> split <;> rfl
    · unfold messageDelta
      split <;> split <;> rfl
    all_goals rfl
  · apply Accepted.other
    · simp [blockStart?, hevent]
    · simp [blockDelta?, hevent]
    · simp [blockStop?, hevent]
    all_goals rfl

/-- No earlier call has the identifier of this one. -/
def FirstOfId (acc : Acc) (i : ℕ) : Prop := ∀ j < i, acc.idAt j ≠ acc.idAt i

instance (acc : Acc) (i : ℕ) : Decidable (FirstOfId acc i) :=
  inferInstanceAs (Decidable (∀ j < i, acc.idAt j ≠ acc.idAt i))

/-- No arguments come for a call whose block has been stopped, and no block is stopped again unless
it is a call that is the first of its identifier. -/
def Orderly (stopped : List ℕ) (acc : Acc) (sse : SseEvent) : Prop :=
  (∀ d ∈ blockDelta? sse, (callAt acc d.1).isSome → d.1 ∉ stopped) ∧
    ∀ k ∈ blockStop? sse, k ∈ stopped → ∃ i ∈ callAt acc k, FirstOfId acc i

instance (stopped : List ℕ) (acc : Acc) (sse : SseEvent) : Decidable (Orderly stopped acc sse) :=
  inferInstanceAs (Decidable ((∀ d ∈ blockDelta? sse, (callAt acc d.1).isSome → d.1 ∉ stopped) ∧
    ∀ k ∈ blockStop? sse, k ∈ stopped → ∃ i ∈ callAt acc k, FirstOfId acc i))

/-- The trace tells of the calls of the answer, and of the stops of their blocks. -/
structure Traced (stopped : List ℕ) (acc : Acc) (trace : List (ℕ × Stage)) : Prop where
  blocks : ∃ starts deltas, Blocks starts deltas acc
  started : ∀ i, (i, .start) ∈ trace ↔ i < acc.toolCalls.length
  ended : ∀ i, (i, .stop) ∈ trace ↔ ∃ k ∈ stopped, acc.blockKind k = some (.toolCall i)
  known : ∀ k ∈ stopped, ∃ seg, acc.blockKind k = some seg
  done : ∀ i, (i, .stop) ∈ trace → FirstOfId acc i → acc.doneAt i = true

theorem callAt_eq_some {acc : Acc} {index i : ℕ} :
    callAt acc index = some i ↔ acc.blockKind index = some (.toolCall i) := by
  unfold callAt
  split
  · rename_i j hj
    rw [hj]
    simp
  · rename_i hother
    constructor
    · intro h
      cases h
    · intro h
      exact absurd h (hother i)

theorem callAt_other {acc : Acc} {index : ℕ} {seg : SegmentKind}
    (hkind : acc.blockKind index = some seg) (hother : ∀ i, seg ≠ .toolCall i) :
    callAt acc index = none := by
  rw [Option.eq_none_iff_forall_ne_some]
  intro i hi
  exact hother i (Option.some.inj (hkind.symm.trans (callAt_eq_some.mp hi)))

namespace Traced

variable {jsonError : String → String} {sse : SseEvent} {stopped : List ℕ} {acc : Acc}
  {trace : List (ℕ × Stage)} {r : List AssistantEvent × Acc}

/-- Blocks that are calls have an entry in the answer. -/
theorem lt_length (ht : Traced stopped acc trace) {index i : ℕ}
    (hkind : acc.blockKind index = some (.toolCall i)) : i < acc.toolCalls.length := by
  obtain ⟨starts, deltas, hblocks⟩ := ht.blocks
  obtain ⟨p, hp⟩ := hblocks.held.present _ (hblocks.mem_segments hkind)
  exact Acc.lt_of_content hp

/-- A call is told to have ended when its block has been stopped. -/
theorem stop_iff (ht : Traced stopped acc trace) {index i : ℕ}
    (hkind : acc.blockKind index = some (.toolCall i)) :
    (i, .stop) ∈ trace ↔ index ∈ stopped := by
  obtain ⟨starts, deltas, hblocks⟩ := ht.blocks
  rw [ht.ended]
  constructor
  · rintro ⟨k, hk, hkind'⟩
    exact hblocks.kind_inj hkind' hkind ▸ hk
  · exact fun hmem => ⟨index, hmem, hkind⟩

theorem blockKind_noteBlock (acc : Acc) (b : Block) (index k : ℕ) :
    ((acc.started b).2.noteBlock index (acc.started b).1).blockKind k =
      if k = index then some (acc.started b).1 else acc.blockKind k := by
  rw [Acc.blockKind, Acc.noteBlock, lookAt_noteAt]
  cases b <;> rfl

theorem mem_start (b : Block) (i : ℕ) (stage : Stage) :
    (i, stage) ∈ startStages acc b ↔
      stage = .start ∧ (∃ id name, b = .toolUse id name) ∧ i = acc.toolCalls.length := by
  cases b <;> simp [startStages, and_comm]

theorem step_start (ht : Traced stopped acc trace) {index : ℕ} {b : Block}
    (hblocks : ∃ starts deltas,
      Blocks starts deltas ((acc.started b).2.noteBlock index (acc.started b).1))
    (hfree : acc.blockKind index = none) :
    Traced stopped ((acc.started b).2.noteBlock index (acc.started b).1)
      (trace ++ startStages acc b) := by
  have hold : ∀ k ∈ stopped, ((acc.started b).2.noteBlock index (acc.started b).1).blockKind k =
      acc.blockKind k := by
    intro k hk
    obtain ⟨seg, hseg⟩ := ht.known k hk
    rw [blockKind_noteBlock, if_neg]
    rintro rfl
    rw [hfree] at hseg
    cases hseg
  have hstop : ∀ i, (i, Stage.stop) ∈ trace ++ startStages acc b ↔ (i, .stop) ∈ trace := by
    intro i
    rw [List.mem_append, mem_start]
    simp
  constructor
  · exact hblocks
  · intro i
    have hlength := acc.length_started b
    rw [List.mem_append, mem_start, ht.started]
    show _ ↔ i < (acc.started b).2.toolCalls.length
    cases b with
    | toolUse id name =>
      simp only [hlength, Block.toolUse.injEq, true_and, exists_and_left, exists_eq', and_true]
      omega
    | _ => simp [hlength]
  · intro i
    rw [hstop, ht.ended]
    constructor
    · rintro ⟨k, hk, hkind⟩
      exact ⟨k, hk, (hold k hk).trans hkind⟩
    · rintro ⟨k, hk, hkind⟩
      exact ⟨k, hk, (hold k hk).symm.trans hkind⟩
  · intro k hk
    rw [hold k hk]
    exact ht.known k hk
  · intro i hi hfirst
    rw [hstop] at hi
    obtain ⟨k, -, hkind⟩ := (ht.ended i).mp hi
    have hlt := ht.lt_length hkind
    have hid : ∀ j ≤ i, (acc.started b).2.idAt j = acc.idAt j := by
      intro j hj
      rw [acc.idAt_started]
      cases b with
      | toolUse id name => exact if_neg (by omega)
      | _ => rfl
    show (acc.started b).2.doneAt i = true
    rw [acc.doneAt_started]
    apply ht.done i hi
    intro j hj
    rw [← hid j hj.le, ← hid i le_rfl]
    exact hfirst j hj

/-- Nothing is told of a stop, and no call changes but in its arguments. -/
theorem step_quiet (ht : Traced stopped acc trace) {acc' : Acc} {told : List (ℕ × Stage)}
    (hblocks : ∃ starts deltas, Blocks starts deltas acc')
    (hkinds : acc'.blockKind = acc.blockKind)
    (hlength : acc'.toolCalls.length = acc.toolCalls.length)
    (hids : ∀ i, acc'.idAt i = acc.idAt i) (hdone : ∀ i, acc'.doneAt i = acc.doneAt i)
    (htold : ∀ t ∈ told, t.2 = .use) : Traced stopped acc' (trace ++ told) := by
  have hmem : ∀ i stage, stage ≠ .use → ((i, stage) ∈ trace ++ told ↔ (i, stage) ∈ trace) := by
    intro i stage hstage
    rw [List.mem_append, or_iff_left]
    exact fun hmem => hstage (htold _ hmem)
  constructor
  · exact hblocks
  · intro i
    rw [hmem i .start nofun, hlength]
    exact ht.started i
  · intro i
    rw [hmem i .stop nofun, hkinds]
    exact ht.ended i
  · rw [hkinds]
    exact ht.known
  · intro i hi hfirst
    rw [hmem i .stop nofun] at hi
    rw [hdone]
    apply ht.done i hi
    intro j hj
    rw [← hids j, ← hids i]
    exact hfirst j hj

theorem step_stopCall (ht : Traced stopped acc trace) {index i : ℕ} {tc : ToolCallAcc}
    (hblocks : ∃ starts deltas, Blocks starts deltas (acc.endToolCall tc.id))
    (hkind : acc.blockKind index = some (.toolCall i)) (htc : acc.toolCalls[i]? = some tc) :
    Traced (stopped ++ [index]) (acc.endToolCall tc.id) (trace ++ [(i, .stop)]) := by
  constructor
  · exact hblocks
  · intro j
    rw [acc.length_endToolCall, ← ht.started]
    simp
  · intro j
    have hlast : (∃ k ∈ stopped ++ [index], acc.blockKind k = some (.toolCall j)) ↔
        (∃ k ∈ stopped, acc.blockKind k = some (.toolCall j)) ∨ j = i := by
      simp only [List.mem_append, List.mem_singleton, or_and_right, exists_or, exists_eq_left,
        hkind, Option.some.injEq, SegmentKind.toolCall.injEq]
      exact or_congr Iff.rfl eq_comm
    show _ ↔ ∃ k ∈ stopped ++ [index], acc.blockKind k = some (.toolCall j)
    rw [hlast, ← ht.ended]
    simp
  · intro k hk
    obtain hk | hk := List.mem_append.mp hk
    · exact ht.known k hk
    · exact ⟨_, List.mem_singleton.mp hk ▸ hkind⟩
  · intro j hj hfirst
    simp only [FirstOfId, acc.idAt_endToolCall] at hfirst
    rw [acc.doneAt_endToolCall, Bool.or_eq_true, decide_eq_true_iff]
    obtain hj | hj := List.mem_append.mp hj
    · exact .inl (ht.done j hj hfirst)
    · obtain ⟨rfl, -⟩ := Prod.mk.inj (List.mem_singleton.mp hj)
      have hlt := (List.getElem?_eq_some_iff.mp htc).1
      refine .inr ⟨hlt, (List.findIdx_eq hlt).mpr ⟨?_, ?_⟩⟩
      · rw [(List.getElem?_eq_some_iff.mp htc).2, decide_eq_true_iff]
      · intro k hk
        rw [decide_eq_false_iff_not]
        intro hid
        apply hfirst k hk
        rw [Acc.idAt, Acc.idAt, htc, List.getElem?_eq_getElem (hk.trans hlt), Option.map_some,
          Option.map_some, hid]

theorem step_stopOther (ht : Traced stopped acc trace) {index : ℕ} {seg : SegmentKind}
    (hkind : acc.blockKind index = some seg) (hother : ∀ i, seg ≠ .toolCall i) :
    Traced (stopped ++ [index]) acc trace := by
  refine ⟨ht.blocks, ht.started, ?_, ?_, ht.done⟩
  · intro i
    rw [ht.ended]
    constructor
    · rintro ⟨k, hk, hcall⟩
      exact ⟨k, List.mem_append_left _ hk, hcall⟩
    · rintro ⟨k, hk, hcall⟩
      obtain hk | hk := List.mem_append.mp hk
      · exact ⟨k, hk, hcall⟩
      · rw [List.mem_singleton.mp hk, hkind] at hcall
        exact absurd (Option.some.inj hcall) (hother i)
  · intro k hk
    obtain hk | hk := List.mem_append.mp hk
    · exact ht.known k hk
    · exact ⟨seg, List.mem_singleton.mp hk ▸ hkind⟩

theorem step_accepted {events : List AssistantEvent} {acc' : Acc} (ht : Traced stopped acc trace)
    (hblocks : ∃ starts deltas, Blocks starts deltas acc') (h : Accepted sse acc events acc') :
    Traced (stopped ++ (blockStop? sse).toList) acc' (trace ++ callStages sse acc) := by
  unfold callStages
  cases h with
  | start hstart hdelta hstop hfree =>
    rw [hstart, hdelta, hstop]
    simp only [Option.elim_some, Option.bind_none, Option.map_none, Option.toList_none,
      List.append_nil]
    exact ht.step_start hblocks hfree
  | @delta index t seg events hstart hdelta hstop hkind hevents =>
    rw [hstart, hdelta, hstop, Option.toList_none, List.append_nil]
    apply ht.step_quiet hblocks
    · cases seg <;> rfl
    · exact acc.length_extended t seg
    · exact acc.idAt_extended t seg
    · exact acc.doneAt_extended t seg
    · intro told htold
      obtain ⟨i, -, rfl⟩ : ∃ i, callAt acc index = some i ∧ (i, Stage.use) = told := by
        simpa using htold
      rfl
  | stopCall hstart hdelta hstop hkind htc hdone =>
    rw [hstart, hdelta, hstop]
    simp only [Option.elim_none, Option.bind_none, Option.map_none, Option.toList_none,
      List.append_nil, List.nil_append, Option.bind_some, callAt_eq_some.mpr hkind,
      Option.map_some, Option.toList_some]
    exact ht.step_stopCall hblocks hkind htc
  | stopOther hstart hdelta hstop hkind hother =>
    rw [hstart, hdelta, hstop]
    simp only [Option.elim_none, Option.bind_none, Option.map_none, Option.toList_none,
      List.append_nil, Option.bind_some, callAt_other hkind hother, Option.toList_some]
    exact ht.step_stopOther hkind hother
  | other hstart hdelta hstop hcalls hkinds hquiet =>
    rw [hstart, hdelta, hstop, Option.toList_none, List.append_nil]
    apply ht.step_quiet hblocks
    · funext k
      rw [Acc.blockKind, hkinds]
      rfl
    · rw [hcalls]
    · intro i
      rw [Acc.idAt, hcalls]
      rfl
    · intro i
      rw [Acc.doneAt, hcalls]
      rfl
    · simp

/-- The trace goes on with what is told for an event. -/
theorem step (ht : Traced stopped acc trace) (h : mapEvent jsonError sse acc = .ok r) :
    Traced (stopped ++ (blockStop? sse).toList) r.2 (trace ++ callStages sse acc) := by
  obtain ⟨starts, deltas, hblocks⟩ := ht.blocks
  exact ht.step_accepted ⟨_, _, (mapEvent_tracks h starts deltas hblocks).1⟩ (accepted_of_ok h)

theorem nodup_concat {index : ℕ} :
    (stopped ++ [index]).Nodup ↔ stopped.Nodup ∧ index ∉ stopped := by
  rw [← List.concat_eq_append, List.nodup_concat, and_comm]

theorem disciplined_accepted {events : List AssistantEvent} {acc' : Acc}
    (ht : Traced stopped acc trace) (h : Accepted sse acc events acc') :
    Disciplined (trace ++ callStages sse acc) ∧ (stopped ++ (blockStop? sse).toList).Nodup ↔
      (Disciplined trace ∧ stopped.Nodup) ∧ Orderly stopped acc sse := by
  unfold callStages Orderly
  cases h with
  | @start index b hstart hdelta hstop hfree =>
    rw [hstart, hdelta, hstop]
    have hbegin : Disciplined (trace ++ startStages acc b) ↔ Disciplined trace := by
      cases b with
      | toolUse id name => exact disciplined_concat.trans (by simp)
      | _ => simp [startStages]
    simp [hbegin]
  | @delta index t seg events hstart hdelta hstop hkind hevents =>
    rw [hstart, hdelta, hstop]
    cases hcall : callAt acc index with
    | none => simp [hcall]
    | some i =>
      have hblock := callAt_eq_some.mp hcall
      have hfirst := (ht.started i).mpr (ht.lt_length hblock)
      simp [hcall, disciplined_concat, hfirst, ht.stop_iff hblock, and_right_comm]
  | @stopCall index i tc hstart hdelta hstop hkind htc hdone =>
    rw [hstart, hdelta, hstop]
    have hfirst := (ht.started i).mpr (ht.lt_length hkind)
    -- a call that is the first of its identifier was marked as done by the stop of its block
    have hfresh : (index ∈ stopped → FirstOfId acc i) ↔ index ∉ stopped := by
      constructor
      · intro hcond hmem
        have hmarked := ht.done i ((ht.stop_iff hkind).mpr hmem) (hcond hmem)
        rw [Acc.doneAt, htc, Option.any_some, hdone] at hmarked
        cases hmarked
      · intro hnot hmem
        exact absurd hmem hnot
    simp only [Option.elim_none, Option.bind_none, Option.map_none, Option.toList_none,
      List.append_nil, List.nil_append, Option.bind_some, callAt_eq_some.mpr hkind,
      Option.map_some, Option.toList_some, nodup_concat, disciplined_concat, ht.stop_iff hkind]
    simp only [Option.mem_some_iff, forall_eq', callAt_eq_some.mpr hkind, exists_eq_left', hfresh]
    simp [hfirst, and_assoc]
  | stopOther hstart hdelta hstop hkind hother =>
    rw [hstart, hdelta, hstop]
    simp [callAt_other hkind hother, nodup_concat, and_assoc]
  | other hstart hdelta hstop hcalls hkinds hquiet =>
    rw [hstart, hdelta, hstop]
    simp

/-- Calls keep their places and their identifiers. -/
theorem idAt_accepted {events : List AssistantEvent} {acc' : Acc}
    (h : Accepted sse acc events acc') {i : ℕ} (hi : i < acc.toolCalls.length) :
    acc'.idAt i = acc.idAt i := by
  cases h with
  | @start index b hstart hdelta hstop hfree =>
    show (acc.started b).2.idAt i = acc.idAt i
    rw [acc.idAt_started]
    cases b with
    | toolUse id name => exact if_neg (by omega)
    | _ => rfl
  | @delta index t seg => exact acc.idAt_extended t seg i
  | @stopCall index j tc => exact acc.idAt_endToolCall tc.id i
  | stopOther => rfl
  | other hstart hdelta hstop hcalls => rw [Acc.idAt, Acc.idAt, hcalls]

theorem told_accepted {events : List AssistantEvent} {acc' : Acc} (ht : Traced stopped acc trace)
    (h : Accepted sse acc events acc') :
    events.filterMap AssistantEvent.callStage? = (callStages sse acc).map acc'.told ∧
      ∀ t ∈ callStages sse acc, t.1 < acc'.toolCalls.length := by
  unfold callStages
  cases h with
  | @start index b hstart hdelta hstop hfree =>
    rw [hstart, hdelta, hstop]
    cases b with
    | toolUse id name =>
      have hid : ((acc.started (.toolUse id name)).2.noteBlock index
          (acc.started (.toolUse id name)).1).idAt acc.toolCalls.length = some id := by
        show (acc.started (.toolUse id name)).2.idAt _ = _
        rw [acc.idAt_started]
        exact if_pos rfl
      have hlength : acc.toolCalls.length < ((acc.started (.toolUse id name)).2.noteBlock index
          (acc.started (.toolUse id name)).1).toolCalls.length := by
        show _ < (acc.started (.toolUse id name)).2.toolCalls.length
        rw [acc.length_started]
        exact Nat.lt_succ_self _
      simp [startStages, Block.starts, AssistantEvent.callStage?, Acc.told, hid, hlength]
    | _ => simp [startStages, Block.starts]
  | @delta index t seg events hstart hdelta hstop hkind hevents =>
    rw [hstart, hdelta, hstop]
    obtain ⟨starts, deltas, hblocks⟩ := ht.blocks
    obtain ⟨p, hp⟩ := hblocks.held.present _ (hblocks.mem_segments hkind)
    rw [hevents p hp]
    cases seg with
    | toolCall i =>
      obtain ⟨tc, htc, rfl⟩ := Option.map_eq_some_iff.mp hp
      have hid : (acc.extended t (.toolCall i)).idAt i = some tc.id := by
        rw [acc.idAt_extended, Acc.idAt, htc, Option.map_some]
      have hlength : i < (acc.extended t (.toolCall i)).toolCalls.length := by
        rw [acc.length_extended]
        exact ht.lt_length hkind
      simp [callAt_eq_some.mpr hkind, Block.delta, ToolCallAcc.piece, AssistantEvent.callStage?,
        Acc.told, hid, hlength]
    | text i =>
      obtain ⟨s, -, rfl⟩ := Option.map_eq_some_iff.mp hp
      simp [callAt_other hkind (by simp), Block.delta, AssistantEvent.callStage?]
    | thinking i =>
      obtain ⟨s, -, rfl⟩ := Option.map_eq_some_iff.mp hp
      simp [callAt_other hkind (by simp), Block.delta, AssistantEvent.callStage?]
  | @stopCall index i tc hstart hdelta hstop hkind htc hdone =>
    rw [hstart, hdelta, hstop]
    have hid : (acc.endToolCall tc.id).idAt i = some tc.id := by
      rw [acc.idAt_endToolCall, Acc.idAt, htc, Option.map_some]
    have hlength : i < (acc.endToolCall tc.id).toolCalls.length := by
      rw [acc.length_endToolCall]
      exact ht.lt_length hkind
    simp [callAt_eq_some.mpr hkind, AssistantEvent.callStage?, Acc.told, hid, hlength]
  | stopOther hstart hdelta hstop hkind hother =>
    rw [hstart, hdelta, hstop]
    simp [callAt_other hkind hother]
  | other hstart hdelta hstop hcalls hkinds hquiet =>
    rw [hstart, hdelta, hstop, hquiet]
    simp

theorem length_accepted {events : List AssistantEvent} {acc' : Acc}
    (h : Accepted sse acc events acc') : acc.toolCalls.length ≤ acc'.toolCalls.length := by
  cases h with
  | @start index b =>
    show _ ≤ (acc.started b).2.toolCalls.length
    rw [acc.length_started]
    cases b with
    | toolUse id name => exact Nat.le_succ _
    | _ => exact le_rfl
  | @delta index t seg => exact (acc.length_extended t seg).ge
  | @stopCall index j tc => exact (acc.length_endToolCall tc.id).ge
  | stopOther => exact le_rfl
  | other hstart hdelta hstop hcalls => rw [hcalls]

/-- The events tell of the calls of the trace. -/
theorem tells (ht : Traced stopped acc trace) (h : mapEvent jsonError sse acc = .ok r) :
    Tells acc r.1 (callStages sse acc) r.2 := by
  have haccepted := accepted_of_ok h
  obtain ⟨htold, hbound⟩ := ht.told_accepted haccepted
  exact ⟨htold, hbound, length_accepted haccepted, fun _ => idAt_accepted haccepted⟩

/-- The discipline is kept exactly by the events that are in order. -/
theorem disciplined_step (ht : Traced stopped acc trace) (h : mapEvent jsonError sse acc = .ok r) :
    Disciplined (trace ++ callStages sse acc) ∧ (stopped ++ (blockStop? sse).toList).Nodup ↔
      (Disciplined trace ∧ stopped.Nodup) ∧ Orderly stopped acc sse :=
  ht.disciplined_accepted (accepted_of_ok h)

end Traced

end Guigu.Anthropic
