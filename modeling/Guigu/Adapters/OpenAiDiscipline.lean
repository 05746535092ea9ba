import Guigu.Adapters.CallTrace

/-! What an OpenAI stream makes the adapter tell of calls. -/
namespace Guigu.OpenAi

open Serde
open Lifecycle (Stage Disciplined disciplined_concat disciplined_stops)

/-- The trace tells of the calls of the answer, and of those that are done. -/
structure Traced (acc : Acc) (trace : List (ℕ × Stage)) : Prop where
  started : ∀ i, (i, .start) ∈ trace ↔ i < acc.toolCalls.length
  ended : ∀ i, (i, .stop) ∈ trace ↔ acc.doneAt i = true

/-- The call of a provider's index is done. -/
def doneAtIndex (acc : Acc) (index : ℕ) : Bool := (acc.toolLocalIndex index).any acc.doneAt

/-- A piece has no arguments for a call that is done. -/
def PieceOrderly (tc : Json) (acc : Acc) : Prop :=
  ∀ index ∈ getU64 "index" tc, doneAtIndex acc index = true → argumentsOf tc = ""

instance (tc : Json) (acc : Acc) : Decidable (PieceOrderly tc acc) :=
  inferInstanceAs (Decidable (∀ index ∈ getU64 "index" tc, _ → _))

/-- What a piece that is taken is, and what it changes. -/
inductive Taken (tc : Json) (acc : Acc) : List AssistantEvent → Acc → Prop where
  | start {index : ℕ} {id name : String} {acc' : Acc} (hindex : getU64 "index" tc = some index)
      (hid : (getString "id" tc).getD "" = id) (hne : id ≠ "")
      (hfree : acc.toolLocalIndex index = none)
      (hcalls : acc'.toolCalls = (acc.started (.toolUse id name)).2.toolCalls)
      (htable : acc'.toolIndexMap = noteAt acc.toolIndexMap index acc.toolCalls.length) :
      Taken tc acc (.toolCallStart id name "" ::
          (mapArguments acc.toolCalls.length (argumentsOf tc) acc').1)
        (mapArguments acc.toolCalls.length (argumentsOf tc) acc').2
  | use {index i : ℕ} (hindex : getU64 "index" tc = some index)
      (hid : (getString "id" tc).getD "" = "") (hi : acc.toolLocalIndex index = some i) :
      Taken tc acc (mapArguments i (argumentsOf tc) acc).1 (mapArguments i (argumentsOf tc) acc).2

theorem taken_of_ok {tc : Json} {acc : Acc} {r : List AssistantEvent × Acc}
    (h : mapToolCall tc acc = .ok r) : Taken tc acc r.1 r.2 := by
  obtain ⟨index, function, located, hindex, hfunction, hlocate, rfl⟩ := mapToolCall_ok h
  have hargs : (getString "arguments" function).getD "" = argumentsOf tc := by
    rw [argumentsOf, hfunction, Option.bind_some]
  rw [hargs]
  obtain ⟨hne, hfree, rfl⟩ | ⟨hid, i, hi, rfl⟩ := locate_ok hlocate
  · exact .start hindex rfl hne hfree rfl rfl
  · exact .use hindex hid hi

section Arguments

variable {i : ℕ} {args : String} {acc : Acc}

theorem mapArguments_eq (i : ℕ) (args : String) (acc : Acc) :
    (mapArguments i args acc).2 = acc ∨
      (mapArguments i args acc).2 = acc.extended args (.toolCall i) := by
  unfold mapArguments
  split_ifs
  · exact .inl rfl
  · split
    · exact .inr rfl
    · exact .inl rfl

theorem idAt_mapArguments (i : ℕ) (args : String) (acc : Acc) (j : ℕ) :
    (mapArguments i args acc).2.idAt j = acc.idAt j := by
  obtain heq | heq := mapArguments_eq i args acc
  · rw [heq]
  · rw [heq, acc.idAt_extended]

theorem doneAt_mapArguments (i : ℕ) (args : String) (acc : Acc) (j : ℕ) :
    (mapArguments i args acc).2.doneAt j = acc.doneAt j := by
  obtain heq | heq := mapArguments_eq i args acc
  · rw [heq]
  · rw [heq, acc.doneAt_extended]

theorem length_mapArguments (i : ℕ) (args : String) (acc : Acc) :
    (mapArguments i args acc).2.toolCalls.length = acc.toolCalls.length := by
  obtain heq | heq := mapArguments_eq i args acc
  · rw [heq]
  · rw [heq, acc.length_extended]

theorem told_mapArguments (hi : i < acc.toolCalls.length) (args : String) :
    (mapArguments i args acc).1.filterMap AssistantEvent.callStage? =
      (useStages i args).map acc.told := by
  unfold mapArguments useStages
  split_ifs
  · rfl
  · rw [List.getElem?_eq_getElem hi]
    simp [AssistantEvent.callStage?, Acc.told, Acc.idAt, List.getElem?_eq_getElem hi]

end Arguments

/-- Every trace of the one answer goes on to one of the other, and keeps its discipline if the
condition holds. -/
def Leads (acc : Acc) (stages : List (ℕ × Stage)) (orderly : Prop) (acc' : Acc) : Prop :=
  ∀ trace, Traced acc trace → Traced acc' (trace ++ stages) ∧
    (Disciplined (trace ++ stages) ↔ Disciplined trace ∧ orderly)

namespace Leads

variable {acc acc' acc'' : Acc} {stages stages' : List (ℕ × Stage)} {orderly orderly' : Prop}

theorem congr (h : Leads acc stages orderly acc') (hiff : orderly ↔ orderly') :
    Leads acc stages orderly' acc' := by
  intro trace ht
  rw [← hiff]
  exact h trace ht

theorem trans (h : Leads acc stages orderly acc') (h' : Leads acc' stages' orderly' acc'') :
    Leads acc (stages ++ stages') (orderly ∧ orderly') acc'' := by
  intro trace ht
  obtain ⟨hnext, hiff⟩ := h trace ht
  obtain ⟨hlast, hiff'⟩ := h' _ hnext
  rw [← List.append_assoc, hiff', hiff, and_assoc]
  exact ⟨hlast, Iff.rfl⟩

theorem quiet (hlength : acc'.toolCalls.length = acc.toolCalls.length)
    (hdone : ∀ i, acc'.doneAt i = acc.doneAt i) : Leads acc [] True acc' := by
  intro trace ht
  rw [List.append_nil, and_true]
  refine ⟨⟨?_, ?_⟩, Iff.rfl⟩
  · rw [hlength]
    exact ht.started
  · intro i
    rw [hdone]
    exact ht.ended i

theorem start {id name : String}
    (hcalls : acc'.toolCalls = (acc.started (.toolUse id name)).2.toolCalls) :
    Leads acc [(acc.toolCalls.length, .start)] True acc' := by
  intro trace ht
  refine ⟨⟨?_, ?_⟩, disciplined_concat.trans (by simp)⟩
  · intro i
    rw [hcalls, acc.length_started, List.mem_append, ht.started]
    simp only [List.mem_singleton, Prod.mk.injEq, and_true]
    omega
  · intro i
    have hdone : acc'.doneAt i = acc.doneAt i := by
      rw [← acc.doneAt_started (.toolUse id name), Acc.doneAt, hcalls]
      rfl
    rw [hdone, ← ht.ended]
    simp

theorem use {i : ℕ} (hi : i < acc.toolCalls.length) (args : String) :
    Leads acc (useStages i args) (acc.doneAt i = true → args = "")
      (mapArguments i args acc).2 := by
  intro trace ht
  have hmem : ∀ j stage, stage ≠ .use →
      ((j, stage) ∈ trace ++ useStages i args ↔ (j, stage) ∈ trace) := by
    intro j stage hstage
    rw [List.mem_append, or_iff_left]
    unfold useStages
    split_ifs <;> simp [hstage]
  refine ⟨⟨?_, ?_⟩, ?_⟩
  · intro j
    rw [hmem j .start nofun, length_mapArguments]
    exact ht.started j
  · intro j
    rw [hmem j .stop nofun, doneAt_mapArguments]
    exact ht.ended j
  · unfold useStages
    split_ifs with hargs
    · simp [hargs]
    · have hstart := (ht.started i).mpr hi
      simp [disciplined_concat, hstart, ht.ended i, hargs]

end Leads

/-! ### Pieces -/

section Pieces

variable {tc : Json} {acc acc' : Acc} {events : List AssistantEvent}

theorem lt_length (hsound : Sound acc) {index i : ℕ} (hi : acc.toolLocalIndex index = some i) :
    i < acc.toolCalls.length := by
  obtain ⟨p, hp⟩ := hsound.held.present _ (hsound.indexed index i hi)
  exact Acc.lt_of_content hp

theorem Taken.leads (hsound : Sound acc) (h : Taken tc acc events acc') :
    Leads acc (pieceStages tc acc) (PieceOrderly tc acc) acc' := by
  unfold pieceStages callOf PieceOrderly doneAtIndex
  cases h with
  | @start index id name next hindex hid hne hfree hcalls htable =>
    have hlength : acc.toolCalls.length < next.toolCalls.length := by
      rw [hcalls, acc.length_started]
      exact Nat.lt_succ_self _
    have hopen : next.doneAt acc.toolCalls.length = false := by
      have hdone : next.doneAt acc.toolCalls.length = acc.doneAt acc.toolCalls.length := by
        rw [← acc.doneAt_started (.toolUse id name), Acc.doneAt, hcalls]
        rfl
      rw [hdone, Acc.doneAt, List.getElem?_eq_none le_rfl]
      rfl
    simp only [hindex, hid, hne, Option.bind_some, if_false]
    apply ((Leads.start hcalls).trans (.use hlength (argumentsOf tc))).congr
    simp [hopen, hfree]
  | @use index i hindex hid hi =>
    simp only [hindex, hid, hi, Option.bind_some, if_true, List.nil_append]
    apply (Leads.use (lt_length hsound hi) (argumentsOf tc)).congr
    simp [hi]

theorem tells_use {i : ℕ} (hi : i < acc.toolCalls.length) (args : String) :
    Tells acc (mapArguments i args acc).1 (useStages i args) (mapArguments i args acc).2 := by
  constructor
  · have hsame : (mapArguments i args acc).2.told = acc.told := by
      funext t
      rw [Acc.told, Acc.told, idAt_mapArguments]
    rw [hsame]
    exact told_mapArguments hi args
  · intro t ht
    rw [length_mapArguments]
    unfold useStages at ht
    split_ifs at ht with hargs
    · cases ht
    · rw [List.mem_singleton.mp ht]
      exact hi
  · exact (length_mapArguments i args acc).ge
  · exact fun j _ => idAt_mapArguments i args acc j

theorem tells_start {id name : String}
    (hcalls : acc'.toolCalls = (acc.started (.toolUse id name)).2.toolCalls) :
    Tells acc [.toolCallStart id name ""] [(acc.toolCalls.length, .start)] acc' := by
  have hid : ∀ i, acc'.idAt i = (acc.started (.toolUse id name)).2.idAt i := by
    intro i
    rw [Acc.idAt, hcalls]
    rfl
  have hlength : acc'.toolCalls.length = acc.toolCalls.length + 1 := by
    rw [hcalls, acc.length_started]
  constructor
  · simp [AssistantEvent.callStage?, Acc.told, hid, acc.idAt_started]
  · simp [hlength]
  · omega
  · intro i hi
    rw [hid, acc.idAt_started]
    exact if_neg (by omega)

theorem Taken.tells (hsound : Sound acc) (h : Taken tc acc events acc') :
    Tells acc events (pieceStages tc acc) acc' := by
  unfold pieceStages callOf
  cases h with
  | @start index id name next hindex hid hne hfree hcalls htable =>
    have hlength : acc.toolCalls.length < next.toolCalls.length := by
      rw [hcalls, acc.length_started]
      exact Nat.lt_succ_self _
    simp only [hindex, hid, hne, Option.bind_some, if_false]
    exact (tells_start hcalls).trans (tells_use hlength (argumentsOf tc))
  | @use index i hindex hid hi =>
    simp only [hindex, hid, hi, Option.bind_some, if_true, List.nil_append]
    exact tells_use (lt_length hsound hi) (argumentsOf tc)

/-- A piece makes no call done. -/
theorem Taken.doneAtIndex (h : Taken tc acc events acc') : doneAtIndex acc' = doneAtIndex acc := by
  funext k
  cases h with
  | @start index id name next hindex hid hne hfree hcalls htable =>
    have hdone : ∀ i, (mapArguments acc.toolCalls.length (argumentsOf tc) next).2.doneAt i =
        acc.doneAt i := by
      intro i
      rw [doneAt_mapArguments, ← acc.doneAt_started (.toolUse id name), Acc.doneAt, hcalls]
      rfl
    unfold OpenAi.doneAtIndex Acc.toolLocalIndex
    rw [toolIndexMap_mapArguments, htable, lookAt_noteAt, funext hdone]
    split_ifs with hk
    · have hnone : lookAt acc.toolIndexMap k = none := hk ▸ hfree
      rw [hnone, Option.any_some, Acc.doneAt, List.getElem?_eq_none le_rfl]
      rfl
    · rfl
  | @use index i hindex hid hi =>
    unfold OpenAi.doneAtIndex Acc.toolLocalIndex
    rw [toolIndexMap_mapArguments, funext (doneAt_mapArguments i (argumentsOf tc) acc)]

end Pieces

theorem mapToolCalls_leads {tcs : List Json} {acc : Acc} {r : List AssistantEvent × Acc}
    (hsound : Sound acc) (h : mapToolCalls tcs acc = .ok r) :
    Leads acc (piecesStages tcs acc) (∀ tc ∈ tcs, PieceOrderly tc acc) r.2 ∧
      Tells acc r.1 (piecesStages tcs acc) r.2 := by
  induction tcs generalizing acc r with
  | nil =>
    cases h
    exact ⟨(Leads.quiet rfl fun _ => rfl).congr (by simp), .refl acc⟩
  | cons tc tcs ih =>
    obtain ⟨first, rest, hfirst, hrest, rfl⟩ := mapToolCalls_cons_ok h
    have htaken := taken_of_ok hfirst
    obtain ⟨hleads, htells⟩ := ih (mapToolCall_tracks hfirst hsound).1 hrest
    rw [piecesStages, hfirst]
    refine ⟨((htaken.leads hsound).trans hleads).congr ?_, (htaken.tells hsound).trans htells⟩
    rw [List.forall_mem_cons]
    unfold PieceOrderly
    rw [htaken.doneAtIndex]

/-! ### The end of the calls -/

theorem mem_openCalls {acc : Acc} {i : ℕ} :
    i ∈ openCalls acc ↔ i < acc.toolCalls.length ∧ acc.doneAt i = false := by
  have hmem : i ∈ openCalls acc ↔ ∃ tc, acc.toolCalls[i]? = some tc ∧ tc.done = false := by
    simp [openCalls, List.mem_zipIdx_iff_getElem?]
  rw [hmem, Acc.doneAt]
  constructor
  · rintro ⟨tc, htc, hdone⟩
    exact ⟨(List.getElem?_eq_some_iff.mp htc).1, by rw [htc, Option.any_some, hdone]⟩
  · rintro ⟨hlt, hdone⟩
    rw [List.getElem?_eq_getElem hlt] at hdone ⊢
    exact ⟨_, rfl, hdone⟩

theorem openCalls_nodup (acc : Acc) : (openCalls acc).Nodup := by
  have hnodup : (acc.toolCalls.zipIdx.map Prod.snd).Nodup := by
    rw [List.zipIdx_map_snd]
    exact List.nodup_range'
  exact hnodup.sublist (List.filter_sublist.map _)

/-- The calls that are not done, each with its identifier. -/
theorem told_openCalls (acc : Acc) :
    (acc.toolCalls.filter fun tc => !tc.done).map (fun tc => (Stage.stop, tc.id)) =
      ((openCalls acc).map (·, Stage.stop)).map acc.told := by
  have hid : ∀ c ∈ acc.toolCalls.zipIdx.filter fun c => !c.1.done,
      (Stage.stop, c.1.id) = acc.told (c.2, .stop) := by
    intro c hc
    have hget := List.mem_zipIdx_iff_getElem?.mp (List.mem_filter.mp hc).1
    rw [Acc.told, Acc.idAt, hget]
    rfl
  rw [openCalls, List.map_map, List.map_map]
  calc (acc.toolCalls.filter fun tc => !tc.done).map (fun tc => (Stage.stop, tc.id))
      = ((acc.toolCalls.zipIdx.map Prod.fst).filter fun tc => !tc.done).map
          (fun tc => (Stage.stop, tc.id)) := by rw [List.zipIdx_map_fst]
    _ = (acc.toolCalls.zipIdx.filter fun c => !c.1.done).map
          (fun c => (Stage.stop, c.1.id)) := by
        rw [List.filter_map, List.map_map]
        rfl
    _ = _ := List.map_congr_left hid

theorem mapFinish_leads (choice : Json) (acc : Acc) :
    Leads acc (finishStages choice acc) True (mapFinish choice acc).2 ∧
      Tells acc (mapFinish choice acc).1 (finishStages choice acc) (mapFinish choice acc).2 := by
  unfold mapFinish finishStages
  cases hreason : getString "finish_reason" choice with
  | none => exact ⟨.quiet rfl fun _ => rfl, .refl acc⟩
  | some reason =>
    simp only [Option.some.injEq]
    split_ifs with hcalls
    · have hdone : ∀ i, Acc.doneAt { acc with
          toolCalls := acc.toolCalls.map fun tc => { tc with done := true }
          stopReason := some (mapStopReason reason) } i = true ↔ i < acc.toolCalls.length := by
        intro i
        rw [Acc.doneAt, List.getElem?_map]
        by_cases hi : i < acc.toolCalls.length <;> simp [hi]
      have hids : ∀ i, Acc.idAt { acc with
          toolCalls := acc.toolCalls.map fun tc => { tc with done := true }
          stopReason := some (mapStopReason reason) } i = acc.idAt i := by
        intro i
        rw [Acc.idAt, List.getElem?_map, Option.map_map]
        rfl
      constructor
      · intro trace ht
        refine ⟨⟨?_, ?_⟩, ?_⟩
        · intro i
          rw [List.length_map, ← ht.started]
          simp
        · intro i
          rw [hdone, List.mem_append, ht.ended]
          have hopen : (i, Stage.stop) ∈ (openCalls acc).map (·, Stage.stop) ↔
              i ∈ openCalls acc := by
            simp
          rw [hopen, mem_openCalls]
          have hlt := @Acc.doneAt_lt acc i
          cases hi : acc.doneAt i with
          | false => simp
          | true => simpa using hlt hi
        · rw [and_true]
          apply disciplined_stops (openCalls_nodup acc)
          intro i hi
          obtain ⟨hlt, hopen⟩ := mem_openCalls.mp hi
          exact ⟨(ht.started i).mpr hlt, by simp [ht.ended, hopen]⟩
      · constructor
        · have hsame : Acc.told { acc with
              toolCalls := acc.toolCalls.map fun tc => { tc with done := true }
              stopReason := some (mapStopReason reason) } = acc.told := by
            funext t
            rw [Acc.told, hids]
            rfl
          rw [hsame, ← told_openCalls, List.filterMap_map, ← List.filterMap_eq_map]
          rfl
        · intro t ht
          obtain ⟨i, hi, rfl⟩ := List.mem_map.mp ht
          rw [List.length_map]
          exact (mem_openCalls.mp hi).1
        · rw [List.length_map]
        · exact fun i _ => hids i
    · exact ⟨.quiet rfl fun _ => rfl, .quiet rfl rfl fun _ => rfl⟩

/-! ### Chunks -/

/-- No piece of the event has arguments for a call that is done. -/
def Orderly (acc : Acc) (sse : SseEvent) : Prop :=
  match sse with
  | .data data | .named _ data =>
    ∀ v ∈ fromStr data.toList, ∀ tc ∈ piecesOf v, PieceOrderly tc acc
  | .done => True

instance (acc : Acc) : (sse : SseEvent) → Decidable (Orderly acc sse)
  | .data data | .named _ data =>
    inferInstanceAs (Decidable (∀ v ∈ fromStr data.toList, ∀ tc ∈ piecesOf v, PieceOrderly tc acc))
  | .done => .isTrue trivial

theorem mapText_quiet (delta : Json) (acc : Acc) :
    (mapText delta acc).2.toolCalls = acc.toolCalls ∧
      (mapText delta acc).1.filterMap AssistantEvent.callStage? = [] := by
  unfold mapText
  split
  · unfold Acc.appendText
    split <;> exact ⟨rfl, rfl⟩
  · exact ⟨rfl, rfl⟩

theorem mapThinking_quiet (delta : Json) (acc : Acc) :
    (mapThinking delta acc).2.toolCalls = acc.toolCalls ∧
      (mapThinking delta acc).1.filterMap AssistantEvent.callStage? = [] := by
  unfold mapThinking
  split
  · unfold Acc.appendThinking
    split <;> exact ⟨rfl, rfl⟩
  · exact ⟨rfl, rfl⟩

/-- Nothing is told of calls, and they stay as they are. -/
theorem leads_quiet {acc acc' : Acc} {events : List AssistantEvent}
    (hcalls : acc'.toolCalls = acc.toolCalls)
    (hevents : events.filterMap AssistantEvent.callStage? = []) :
    Leads acc [] True acc' ∧ Tells acc events [] acc' := by
  have hlength : acc'.toolCalls.length = acc.toolCalls.length := by rw [hcalls]
  constructor
  · apply Leads.quiet hlength
    intro i
    rw [Acc.doneAt, Acc.doneAt, hcalls]
  · apply Tells.quiet hevents hlength
    intro i
    rw [Acc.idAt, Acc.idAt, hcalls]

theorem mapChoice_leads {choice : Json} {acc : Acc} {r : List AssistantEvent × Acc}
    (hsound : Sound acc) (h : mapChoice choice acc = .ok r) :
    Leads acc (choiceStages choice acc)
        (∀ tc ∈ ((get "tool_calls" ((get "delta" choice).getD .null)).bind array).getD [],
          PieceOrderly tc acc) r.2 ∧
      Tells acc r.1 (choiceStages choice acc) r.2 := by
  unfold mapChoice at h
  unfold choiceStages
  generalize (get "delta" choice).getD .null = delta at h ⊢
  obtain ⟨calls, hcalls, rfl⟩ := Except.map_eq_ok.mp h
  obtain ⟨htextCalls, htextEvents⟩ := mapText_quiet delta acc
  obtain ⟨hthinkingCalls, hthinkingEvents⟩ := mapThinking_quiet delta (mapText delta acc).2
  obtain ⟨htextLeads, htextTells⟩ := leads_quiet htextCalls htextEvents
  obtain ⟨hthinkingLeads, hthinkingTells⟩ := leads_quiet hthinkingCalls hthinkingEvents
  have htracks := (mapText_tracks delta acc).trans (mapThinking_tracks delta _)
  obtain ⟨hcallsLeads, hcallsTells⟩ := mapToolCalls_leads (htracks hsound).1 hcalls
  obtain ⟨hfinishLeads, hfinishTells⟩ := mapFinish_leads choice calls.2
  have hdone : doneAtIndex (mapThinking delta (mapText delta acc).2).2 = doneAtIndex acc := by
    funext index
    have hdoneAt : (mapThinking delta (mapText delta acc).2).2.doneAt = acc.doneAt := by
      funext i
      rw [Acc.doneAt, hthinkingCalls, htextCalls]
      rfl
    rw [doneAtIndex, hdoneAt, Acc.toolLocalIndex, toolIndexMap_mapThinking, toolIndexMap_mapText]
    rfl
  simp only [hcalls]
  constructor
  · apply (((htextLeads.trans hthinkingLeads).trans hcallsLeads).trans hfinishLeads).congr
    unfold PieceOrderly
    simp [hdone]
  · exact ((htextTells.trans hthinkingTells).trans hcallsTells).trans hfinishTells

theorem mapChunk_leads {jsonError : String → String} {data : String} {acc : Acc}
    {r : List AssistantEvent × Acc} (hsound : Sound acc) (h : mapChunk jsonError data acc = .ok r) :
    Leads acc (chunkStages data acc)
        (∀ v ∈ fromStr data.toList, ∀ tc ∈ piecesOf v, PieceOrderly tc acc) r.2 ∧
      Tells acc r.1 (chunkStages data acc) r.2 := by
  unfold mapChunk at h
  unfold chunkStages
  cases hread : fromStr data.toList with
  | none => simp only [hread, reduceCtorEq] at h
  | some v =>
    simp only [hread] at h
    obtain ⟨mapped, hmapped, rfl⟩ := Except.map_eq_ok.mp h
    obtain ⟨husageLeads, husageTells⟩ :
        Leads mapped.2 [] True (recordUsage v mapped.2) ∧
          Tells mapped.2 [] [] (recordUsage v mapped.2) := by
      apply leads_quiet ?_ rfl
      unfold recordUsage
      split <;> rfl
    rw [Option.bind_some]
    unfold piecesOf choiceOf
    cases hchoice : ((get "choices" v).bind array).bind List.head? with
    | none =>
      rw [hchoice] at hmapped
      cases hmapped
      exact ⟨husageLeads.congr (by simp [hchoice]), husageTells⟩
    | some choice =>
      rw [hchoice] at hmapped
      obtain ⟨hleads, htells⟩ := mapChoice_leads hsound hmapped
      have hleads' := hleads.trans husageLeads
      have htells' := htells.trans husageTells
      rw [List.append_nil] at hleads' htells'
      rw [List.append_nil] at htells'
      exact ⟨hleads'.congr (by simp [hchoice]), htells'⟩

theorem mapEvent_leads {jsonError : String → String} {sse : SseEvent} {acc : Acc}
    {r : List AssistantEvent × Acc} (hsound : Sound acc) (h : mapEvent jsonError sse acc = .ok r) :
    Leads acc (callStages sse acc) (Orderly acc sse) r.2 ∧
      Tells acc r.1 (callStages sse acc) r.2 := by
  cases sse with
  | named event data => exact mapChunk_leads hsound h
  | data data => exact mapChunk_leads hsound h
  | done =>
    cases h
    exact leads_quiet rfl rfl

end Guigu.OpenAi
