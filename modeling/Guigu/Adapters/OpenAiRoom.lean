import Guigu.Adapters.Room
import Guigu.Adapters.Accumulation

/-! When mapping an event of an OpenAI stream returns. -/
namespace Guigu

open Serde Panicking

namespace OpenAi

variable {room : ℕ} {acc : Acc}

/-- The index a piece is for, and whether it starts a call. -/
def pieceOf (tc : Json) : Option (ℕ × Bool) :=
  match getU64 "index" tc, get "function" tc with
  | some index, some _ => some (index, (getString "id" tc).getD "" ≠ "")
  | _, _ => none

/-- The indexes of the calls that pieces start, up to a piece that is refused: one that starts a
call that is known or is for one that is not. The answer says whether there is no such piece. -/
def newCalls (known : ℕ → Bool) : List Json → List ℕ × Bool
  | [] => ([], true)
  | tc :: tcs =>
    match pieceOf tc with
    | none => ([], false)
    | some (index, starts) =>
      if starts = known index then ([], false)
      else if starts then
        let r := newCalls (fun i => i = index || known i) tcs
        (index :: r.1, r.2)
      else newCalls known tcs

def known (acc : Acc) (index : ℕ) : Bool := (acc.toolLocalIndex index).isSome

/-- The provider's indexes lead to calls, and there is room for their table. -/
structure Tabled (room : ℕ) (acc : Acc) : Prop where
  sound : Sound acc
  short : acc.toolIndexMap.length ≤ tableEnd room

theorem mapToolIndex_free (id name : String) (j : ℕ) {index : ℕ}
    (hfree : acc.toolLocalIndex index = none) :
    (acc.startToolCall id name).2.mapToolIndex index j =
      .ok { (acc.startToolCall id name).2 with
        toolIndexMap := noteAt acc.toolIndexMap index j } := by
  have hlook : lookAt (acc.startToolCall id name).2.toolIndexMap index = none := hfree
  rw [Acc.mapToolIndex, hlook]
  rfl

theorem locate_follows (hshort : acc.toolIndexMap.length ≤ tableEnd room) (index : ℕ)
    (id name : String) :
    Follows (Handling.OpenAi.locate room index id name) acc
      (id ≠ "" → acc.toolLocalIndex index = none → index < tableEnd room)
      ((locate index id name acc).map fun r => ((r.1, r.2.1), r.2.2)) := by
  apply Follows.bind (outcome_get acc)
  unfold locate
  by_cases hid : id = ""
  · rw [if_neg (not_not.mpr hid), if_neg (not_not.mpr hid)]
    apply Follows.of_outcome fun hne => absurd hid hne
    cases acc.toolLocalIndex index <;> rfl
  rw [if_pos hid, if_pos hid]
  split_ifs with hknown
  · apply Follows.of_outcome ?_ rfl
    intro _ hfree
    simp [hfree] at hknown
  · have hfree : acc.toolLocalIndex index = none := by simpa using hknown
    dsimp only
    rw [mapToolIndex_free _ _ _ hfree]
    have hfits : index < tableEnd room ↔
        (id ≠ "" → acc.toolLocalIndex index = none → index < tableEnd room) := by
      simp [hid, hfree]
    refine (Follows.last (outcome_modifyGet _ acc) ?_ ?_).congr hfits
    · intro hfits
      exact outcome_bind_ok (Handling.mapToolIndex_returns hfits _ hfree)
    · intro hnot
      have hlen : (acc.startToolCall id name).2.toolIndexMap.length ≤ tableEnd room := hshort
      obtain ⟨p, hp⟩ := Handling.mapToolIndex_panics hlen hnot (acc.startToolCall id name).1
      exact ⟨p, outcome_bind_panic hp⟩

/-- There is room for the call that a piece starts. -/
def PieceFits (room : ℕ) (tc : Json) (acc : Acc) : Prop :=
  ∀ p ∈ pieceOf tc, p.2 = true → known acc p.1 = false → p.1 < tableEnd room

theorem mapToolCall_follows (hshort : acc.toolIndexMap.length ≤ tableEnd room) (tc : Json) :
    Follows (Handling.OpenAi.mapToolCall room tc) acc (PieceFits room tc acc)
      (mapToolCall tc acc) := by
  unfold mapToolCall PieceFits pieceOf
  cases hindex : getU64 "index" tc with
  | none =>
    apply Follows.of_outcome (by simp)
    rw [Handling.OpenAi.mapToolCall, hindex]
    rfl
  | some index =>
    cases hfunction : get "function" tc with
    | none =>
      apply Follows.of_outcome (by simp)
      rw [Handling.OpenAi.mapToolCall, hindex, hfunction]
      rfl
    | some function =>
      rw [Handling.OpenAi.mapToolCall, hindex, hfunction]
      apply Follows.bind (a := index) rfl
      apply Follows.bind (a := function) rfl
      have hmapped : ∀ located : Except ProviderError (List AssistantEvent × ℕ × Acc),
          (located.map fun r =>
            let a := mapArguments r.2.1 ((getString "arguments" function).getD "") r.2.2
            (r.1 ++ a.1, a.2)) =
          (located.map fun r => ((r.1, r.2.1), r.2.2)).map fun r =>
            let a := mapArguments r.1.2 ((getString "arguments" function).getD "") r.2
            (r.1.1 ++ a.1, a.2) := by
        intro located
        cases located <;> rfl
      dsimp only
      rw [hmapped]
      refine (Follows.map (g := fun located acc =>
        let a := mapArguments located.2 ((getString "arguments" function).getD "") acc
        (located.1 ++ a.1, a.2)) (locate_follows hshort index _ _) ?_).congr ?_
      · exact fun _ _ => rfl
      · simp [known]

/-- A piece that is taken starts a call that is not known, or is for one that is. -/
theorem mapToolCall_known {tc : Json} {r : List AssistantEvent × Acc}
    (h : mapToolCall tc acc = .ok r) :
    ∃ index starts, pieceOf tc = some (index, starts) ∧ starts ≠ known acc index ∧
      r.2.toolIndexMap =
        if starts then noteAt acc.toolIndexMap index acc.toolCalls.length
        else acc.toolIndexMap := by
  obtain ⟨index, function, located, hindex, hfunction, hlocate, rfl⟩ := mapToolCall_ok h
  refine ⟨index, (getString "id" tc).getD "" ≠ "", by rw [pieceOf, hindex, hfunction], ?_⟩
  rw [toolIndexMap_mapArguments]
  obtain ⟨hid, hfree, rfl⟩ | ⟨hid, i, hi, rfl⟩ := locate_ok hlocate
  · rw [decide_eq_true hid]
    exact ⟨by simp [known, hfree], rfl⟩
  · rw [hid]
    exact ⟨by simp [known, hi], rfl⟩

theorem mapToolCall_error {tc : Json} {e : ProviderError} (h : mapToolCall tc acc = .error e) :
    (∀ p ∈ pieceOf tc, p.2 = known acc p.1) ∧ ∃ text, e = .parse text := by
  unfold mapToolCall at h
  unfold pieceOf
  cases hindex : getU64 "index" tc with
  | none =>
    simp only [hindex, Except.error.injEq] at h
    exact ⟨by simp, _, h.symm⟩
  | some index =>
    cases hfunction : get "function" tc with
    | none =>
      simp only [hindex, hfunction, Except.error.injEq] at h
      exact ⟨by simp, _, h.symm⟩
    | some function =>
      simp only [hindex, hfunction, Option.mem_some_iff, forall_eq'] at h ⊢
      unfold locate at h
      split_ifs at h with hid hknown
      · cases h
        exact ⟨by simpa [known, hid] using hknown, _, rfl⟩
      · have hfree : acc.toolLocalIndex index = none := by simpa using hknown
        dsimp only at h
        rw [mapToolIndex_free _ _ _ hfree] at h
        cases h
      · cases hi : acc.toolLocalIndex index with
        | none =>
          simp only [hi] at h
          cases h
          exact ⟨by simp [known, hi, not_not.mp hid], _, rfl⟩
        | some i =>
          simp only [hi] at h
          cases h

theorem newCalls_refused {known : ℕ → Bool} {tc : Json} (tcs : List Json)
    (h : ∀ p ∈ pieceOf tc, p.2 = known p.1) : newCalls known (tc :: tcs) = ([], false) := by
  rw [newCalls]
  cases hpiece : pieceOf tc with
  | none => rfl
  | some p => exact if_pos (h p hpiece)

/-- A piece that is taken makes its call known. -/
theorem newCalls_taken (room : ℕ) {tc : Json} {r : List AssistantEvent × Acc} (tcs : List Json)
    (h : mapToolCall tc acc = .ok r) :
    (newCalls (known acc) (tc :: tcs)).2 = (newCalls (known r.2) tcs).2 ∧
      ((∀ i ∈ (newCalls (known acc) (tc :: tcs)).1, i < tableEnd room) ↔
        PieceFits room tc acc ∧ ∀ i ∈ (newCalls (known r.2) tcs).1, i < tableEnd room) := by
  obtain ⟨index, starts, hpiece, hne, htable⟩ := mapToolCall_known h
  have hknown : known r.2 =
      if starts then fun i => i = index || known acc i else known acc := by
    funext i
    unfold known Acc.toolLocalIndex
    rw [htable]
    cases starts with
    | false => rfl
    | true =>
      simp only [if_true, lookAt_noteAt]
      by_cases hi : i = index <;> simp [hi]
  rw [newCalls, hpiece]
  simp only
  rw [if_neg hne, hknown]
  unfold PieceFits
  cases starts with
  | false => simp [hpiece]
  | true =>
    have hfree : known acc index = false := by simpa using hne
    simp [hpiece, hfree]

theorem Tabled.mapToolCall {tc : Json} {r : List AssistantEvent × Acc} (hacc : Tabled room acc)
    (hfits : PieceFits room tc acc) (h : mapToolCall tc acc = .ok r) : Tabled room r.2 := by
  refine ⟨(mapToolCall_tracks h hacc.sound).1, ?_⟩
  obtain ⟨index, starts, hpiece, hne, htable⟩ := mapToolCall_known h
  rw [htable]
  split_ifs with hstarts
  · refine Handling.length_noteAt_le hacc.short (hfits _ hpiece hstarts ?_) _
    simpa [hstarts] using hne
  · exact hacc.short

/-- A property that every step of a chunk keeps, where there is room for the calls it starts. -/
structure Kept (room : ℕ) (inv : Acc → Prop) : Prop where
  tabled : ∀ {acc}, inv acc → Tabled room acc
  text : ∀ {acc} (delta : Json), inv acc → inv (mapText delta acc).2
  thinking : ∀ {acc} (delta : Json), inv acc → inv (mapThinking delta acc).2
  call : ∀ {acc tc r}, inv acc → PieceFits room tc acc → mapToolCall tc acc = .ok r → inv r.2
  finish : ∀ {acc} (choice : Json), inv acc → inv (mapFinish choice acc).2
  usage : ∀ {acc} (v : Json), inv acc → inv (recordUsage v acc)

theorem Tabled.tracks {acc' : Acc} {events : List AssistantEvent} (hacc : Tabled room acc)
    (htracks : Tracks acc events acc') (htable : acc'.toolIndexMap = acc.toolIndexMap) :
    Tabled room acc' :=
  ⟨(htracks hacc.sound).1, htable ▸ hacc.short⟩

theorem tabled_kept (room : ℕ) : Kept room (Tabled room) where
  tabled := id
  text delta hacc := hacc.tracks (mapText_tracks delta _) (toolIndexMap_mapText delta _)
  thinking delta hacc :=
    hacc.tracks (mapThinking_tracks delta _) (toolIndexMap_mapThinking delta _)
  call hacc hfits h := hacc.mapToolCall hfits h
  finish choice hacc := hacc.tracks (mapFinish_tracks choice _) (toolIndexMap_mapFinish choice _)
  usage v hacc := by
    unfold recordUsage
    split
    · exact hacc.tracks (.quiet ⟨rfl, rfl⟩ rfl (List.forall_mem_nil _)) rfl
    · exact hacc

variable {inv : Acc → Prop}

theorem mapToolCalls_leaves (hinv : Kept room inv) (tcs : List Json) (hacc : inv acc) :
    Leaves inv (Handling.OpenAi.mapToolCalls room tcs) acc
      (∀ i ∈ (newCalls (known acc) tcs).1, i < tableEnd room) (mapToolCalls tcs acc) := by
  induction tcs generalizing acc with
  | nil =>
    apply (Follows.of_outcome (by simp [newCalls]) rfl).leaves hacc
    rintro - r ⟨⟩
    exact hacc
  | cons tc tcs ih =>
    have hfirst := (mapToolCall_follows (hinv.tabled hacc).short tc).leaves hacc
      fun hfits _ h => hinv.call hacc hfits h
    have hcalls : mapToolCalls (tc :: tcs) acc = (mapToolCall tc acc).bind fun r =>
        (mapToolCalls tcs r.2).map fun rest => (r.1 ++ rest.1, rest.2) := by
      rw [mapToolCalls]
      cases mapToolCall tc acc <;> rfl
    rw [hcalls]
    refine (hfirst.bind (Q := fun r => ∀ i ∈ (newCalls (known r.2) tcs).1,
      i < tableEnd room) fun r hr hnext => (ih hnext).map (r.1 ++ ·)).congr ?_
    cases hmap : OpenAi.mapToolCall tc acc with
    | error e =>
      obtain ⟨hrefused, -⟩ := mapToolCall_error hmap
      have hfits : PieceFits room tc acc := by
        intro p hp hstarts hfree
        rw [← hrefused p hp, hstarts] at hfree
        cases hfree
      simp [newCalls_refused tcs hrefused, hfits]
    | ok r =>
      rw [(newCalls_taken room tcs hmap).2]
      simp

/-- Which of the pieces are taken can be told from them and the calls that are known. -/
theorem newCalls_isOk (tcs : List Json) (acc : Acc) :
    (newCalls (known acc) tcs).2 = true ↔ ∃ r, mapToolCalls tcs acc = .ok r := by
  induction tcs generalizing acc with
  | nil => simp [newCalls, mapToolCalls]
  | cons tc tcs ih =>
    rw [mapToolCalls]
    cases hmap : mapToolCall tc acc with
    | error e => simp [newCalls_refused tcs (mapToolCall_error hmap).1]
    | ok r =>
      rw [(newCalls_taken 0 tcs hmap).1, ih]
      cases hrest : mapToolCalls tcs r.2 <;> simp [hrest, Except.map]

theorem mapToolCalls_error {tcs : List Json} {e : ProviderError}
    (h : mapToolCalls tcs acc = .error e) : ∃ text, e = .parse text := by
  induction tcs generalizing acc with
  | nil => cases h
  | cons tc tcs ih =>
    rw [mapToolCalls] at h
    cases hmap : mapToolCall tc acc with
    | error e' =>
      simp only [hmap, Except.error.injEq] at h
      exact h ▸ (mapToolCall_error hmap).2
    | ok r =>
      simp only [hmap] at h
      cases hrest : mapToolCalls tcs r.2 with
      | error e' =>
        simp only [hrest, Except.map, Except.error.injEq] at h
        exact ih (h ▸ hrest)
      | ok rest => simp [hrest, Except.map] at h

/-- The tokens of an answer can be added up. -/
def UsageFits (v : Json) : Prop :=
  ∀ usage ∈ nonNull (get "usage" v),
    (getU64 "prompt_tokens" usage).getD 0 + (getU64 "completion_tokens" usage).getD 0 < 2 ^ 64

/-- There is room for the calls that a chunk starts, and its tokens can be added up unless one of
its pieces is refused. -/
def ChunkFits (room : ℕ) (v : Json) (acc : Acc) : Prop :=
  (∀ index ∈ (newCalls (known acc) (piecesOf v)).1, index < tableEnd room) ∧
    ((newCalls (known acc) (piecesOf v)).2 = true → UsageFits v)

def Fits (room : ℕ) (sse : SseEvent) (acc : Acc) : Prop :=
  match sse with
  | .data data | .named _ data => ∀ v ∈ fromStr data.toList, ChunkFits room v acc
  | .done => True

def chunkOf : SseEvent → Option Json
  | .data data | .named _ data => fromStr data.toList
  | .done => none

/-- There is room for the calls that an event starts. -/
def IndexesFit (room : ℕ) (sse : SseEvent) (acc : Acc) : Prop :=
  ∀ v ∈ chunkOf sse, ∀ index ∈ (newCalls (known acc) (piecesOf v)).1, index < tableEnd room

instance (sse : SseEvent) (acc : Acc) : Decidable (IndexesFit room sse acc) :=
  inferInstanceAs (Decidable (∀ v ∈ chunkOf sse,
    ∀ index ∈ (newCalls (known acc) (piecesOf v)).1, index < tableEnd room))

def TokensFit (sse : SseEvent) (acc : Acc) : Prop :=
  ∀ v ∈ chunkOf sse, (newCalls (known acc) (piecesOf v)).2 = true → UsageFits v

theorem fits_iff (sse : SseEvent) :
    Fits room sse acc ↔ IndexesFit room sse acc ∧ TokensFit sse acc := by
  have hchunk : Fits room sse acc ↔ ∀ v ∈ chunkOf sse, ChunkFits room v acc := by
    cases sse with
    | named event data => exact Iff.rfl
    | data data => exact Iff.rfl
    | done =>
      refine iff_of_true trivial ?_
      rintro v ⟨⟩
  rw [hchunk]
  exact ⟨fun h => ⟨fun v hv => (h v hv).1, fun v hv => (h v hv).2⟩,
    fun h v hv => ⟨h.1 v hv, h.2 v hv⟩⟩

theorem mapText_returns (delta : Json) (hsound : acc.Sound) :
    outcome (Handling.OpenAi.mapText delta) acc =
      .ok (.ok (mapText delta acc).1, (mapText delta acc).2) := by
  unfold Handling.OpenAi.mapText mapText
  cases nonEmpty (getString "content" delta) with
  | none => rfl
  | some text => exact outcome_bind_ok (Handling.appendText_returns hsound text)

theorem mapThinking_returns (delta : Json) (hsound : acc.Sound) :
    outcome (Handling.OpenAi.mapThinking delta) acc =
      .ok (.ok (mapThinking delta acc).1, (mapThinking delta acc).2) := by
  unfold Handling.OpenAi.mapThinking mapThinking
  cases nonEmpty (getString "reasoning_content" delta) with
  | none => rfl
  | some thinking => exact outcome_bind_ok (Handling.appendThinking_returns hsound thinking)

theorem known_mapThinking (delta : Json) (acc : Acc) :
    known (mapThinking delta (mapText delta acc).2).2 = known acc := by
  funext index
  unfold known Acc.toolLocalIndex
  rw [toolIndexMap_mapThinking, toolIndexMap_mapText]

theorem mapChoice_leaves (hinv : Kept room inv) (choice : Json) (hacc : inv acc) :
    Leaves inv (Handling.OpenAi.mapChoice room choice) acc
      (∀ index ∈ (newCalls (known acc) (((get "tool_calls"
        ((get "delta" choice).getD .null)).bind array).getD [])).1, index < tableEnd room)
      (mapChoice choice acc) := by
  unfold Handling.OpenAi.mapChoice mapChoice
  generalize hdelta : (get "delta" choice).getD .null = delta
  have htext : inv (mapText delta acc).2 := hinv.text delta hacc
  have hthinking : inv (mapThinking delta (mapText delta acc).2).2 := hinv.thinking delta htext
  have hcalls := mapToolCalls_leaves hinv (((get "tool_calls" delta).bind array).getD []) hthinking
  rw [known_mapThinking] at hcalls
  apply Leaves.after (mapText_returns delta (hinv.tabled hacc).sound.held)
  apply Leaves.after (mapThinking_returns delta (hinv.tabled htext).sound.held)
  refine (hcalls.bind (Q := fun _ => True) (g := fun calls => .ok
    (_ ++ _ ++ calls.1 ++ (mapFinish choice calls.2).1, (mapFinish choice calls.2).2)) ?_).congr
    (by simp)
  intro calls _ hnext
  apply (Follows.of_outcome trivial rfl).leaves hnext
  rintro - r ⟨⟩
  exact hinv.finish choice hnext

theorem mapUsage_returns {usage : Json}
    (h : (getU64 "prompt_tokens" usage).getD 0 + (getU64 "completion_tokens" usage).getD 0 <
      2 ^ 64) :
    outcome (Handling.OpenAi.mapUsage usage) acc = .ok (.ok (mapUsage usage), acc) := by
  apply outcome_bind_ok (Handling.addU64_returns ?_ acc)
  rw [Handling.toNat_tokens, Handling.toNat_tokens]
  exact h

theorem mapUsage_panics {usage : Json}
    (h : ¬ (getU64 "prompt_tokens" usage).getD 0 + (getU64 "completion_tokens" usage).getD 0 <
      2 ^ 64) :
    outcome (Handling.OpenAi.mapUsage usage) acc = .error .overflow := by
  apply outcome_bind_panic (Handling.addU64_panics ?_ acc)
  rw [Handling.toNat_tokens, Handling.toNat_tokens]
  exact h

theorem recordUsage_returns {v : Json} (h : UsageFits v) :
    outcome (Handling.OpenAi.recordUsage v) acc = .ok (.ok (), recordUsage v acc) := by
  unfold Handling.OpenAi.recordUsage recordUsage
  cases husage : nonNull (get "usage" v) with
  | none => rfl
  | some usage => exact outcome_bind_ok (mapUsage_returns (h usage husage))

theorem recordUsage_panics {v : Json} (h : ¬ UsageFits v) :
    outcome (Handling.OpenAi.recordUsage v) acc = .error .overflow := by
  unfold UsageFits at h
  unfold Handling.OpenAi.recordUsage
  cases husage : nonNull (get "usage" v) with
  | none => simp [husage] at h
  | some usage =>
    simp only [husage, Option.mem_some_iff, forall_eq'] at h
    exact outcome_bind_panic (mapUsage_panics h)

theorem recordUsage_leaves (hinv : Kept room inv) {v : Json} (hacc : inv acc)
    (events : List AssistantEvent) :
    Leaves inv (do
        Handling.OpenAi.recordUsage v
        return events : Handling (List AssistantEvent)) acc (UsageFits v)
      (.ok (events, recordUsage v acc)) := by
  constructor
  · intro h
    refine ⟨recordUsage v acc, outcome_bind_ok (recordUsage_returns h), ?_, hinv.usage v hacc⟩
    rintro r ⟨⟩
    rfl
  · intro h
    exact ⟨_, outcome_bind_panic (recordUsage_panics h)⟩

/-- What the first choice of a chunk is mapped to. -/
def mapFirstChoice (v : Json) (acc : Acc) : Mapped :=
  match choiceOf v with
  | some choice => mapChoice choice acc
  | none => .ok ([], acc)

theorem mapFirstChoice_leaves (hinv : Kept room inv) (v : Json) (hacc : inv acc) :
    Leaves inv (Handling.OpenAi.mapFirstChoice room v) acc
      (∀ index ∈ (newCalls (known acc) (piecesOf v)).1, index < tableEnd room)
      (mapFirstChoice v acc) := by
  unfold Handling.OpenAi.mapFirstChoice mapFirstChoice piecesOf choiceOf
  cases ((get "choices" v).bind array).bind List.head? with
  | some choice => exact mapChoice_leaves hinv choice hacc
  | none =>
    apply (Follows.of_outcome (by simp [newCalls]) rfl).leaves hacc
    rintro - r ⟨⟩
    exact hacc

theorem mapFirstChoice_isOk (v : Json) (acc : Acc) :
    (newCalls (known acc) (piecesOf v)).2 = true ↔ ∃ r, mapFirstChoice v acc = .ok r := by
  unfold mapFirstChoice piecesOf
  cases choiceOf v with
  | none => simp [newCalls]
  | some choice =>
    rw [Option.elim_some, ← known_mapThinking ((get "delta" choice).getD .null) acc, newCalls_isOk]
    simp only [mapChoice]
    cases mapToolCalls _ (mapThinking ((get "delta" choice).getD .null)
      (mapText ((get "delta" choice).getD .null) acc).2).2 <;> simp [Except.map]

theorem mapChunk_leaves (hinv : Kept room inv) (jsonError : String → String) (data : String)
    (hacc : inv acc) :
    Leaves inv (Handling.OpenAi.mapChunk room jsonError data) acc
      (∀ v ∈ fromStr data.toList, ChunkFits room v acc) (mapChunk jsonError data acc) := by
  unfold Handling.OpenAi.mapChunk mapChunk
  cases hread : fromStr data.toList with
  | none =>
    apply (Follows.of_outcome (by simp) rfl).leaves hacc
    rintro - r ⟨⟩
  | some v =>
    apply Leaves.after (a := v) rfl
    refine ((mapFirstChoice_leaves hinv v hacc).bind (Q := fun _ => UsageFits v)
      (g := fun r => .ok (r.1, recordUsage v r.2)) ?_).congr ?_
    · intro r _ hnext
      exact recordUsage_leaves hinv hnext r.1
    · simp only [Option.mem_some_iff, forall_eq', ChunkFits, mapFirstChoice_isOk]
      simp

theorem mapEvent_leaves (hinv : Kept room inv) (jsonError : String → String) (sse : SseEvent)
    (hacc : inv acc) :
    Leaves inv (Handling.OpenAi.mapEvent room jsonError sse) acc (Fits room sse acc)
      (mapEvent jsonError sse acc) := by
  cases sse with
  | named event data => exact mapChunk_leaves hinv jsonError data hacc
  | data data => exact mapChunk_leaves hinv jsonError data hacc
  | done =>
    apply (Follows.of_outcome trivial rfl).leaves hacc
    rintro - r ⟨⟩
    exact hacc

theorem handling_chunk (jsonError : String → String) {sse : SseEvent} {v : Json}
    (h : chunkOf sse = some v) (acc : Acc) :
    outcome (Handling.OpenAi.mapEvent room jsonError sse) acc =
      outcome (do
        let events ← Handling.OpenAi.mapFirstChoice room v
        Handling.OpenAi.recordUsage v
        return events) acc := by
  cases sse with
  | named event data | data data =>
    simp only [chunkOf] at h
    rw [Handling.OpenAi.mapEvent, Handling.OpenAi.mapChunk, h]
    rfl
  | done => cases h

theorem mapEvent_chunk (jsonError : String → String) {sse : SseEvent} {v : Json}
    (h : chunkOf sse = some v) (acc : Acc) :
    mapEvent jsonError sse acc =
      (mapFirstChoice v acc).map fun r => (r.1, recordUsage v r.2) := by
  cases sse with
  | named event data | data data =>
    simp only [chunkOf] at h
    rw [mapEvent, mapChunk, h]
    rfl
  | done => cases h

/-- A sum of tokens that is too large is a panic of its own. -/
theorem mapEvent_overflows (jsonError : String → String) {sse : SseEvent} (hacc : Tabled room acc)
    (hfits : IndexesFit room sse acc) (h : ¬ TokensFit sse acc) :
    outcome (Handling.OpenAi.mapEvent room jsonError sse) acc = .error .overflow := by
  unfold TokensFit at h
  push Not at h
  obtain ⟨v, hv, htaken, husage⟩ := h
  obtain ⟨r, hr⟩ := (mapFirstChoice_isOk v acc).mp htaken
  obtain ⟨next, hnext, -, -⟩ := (mapFirstChoice_leaves (tabled_kept room) v hacc).returns
    (hfits v hv)
  rw [hr] at hnext
  rw [handling_chunk jsonError hv acc, outcome_bind_ok hnext]
  exact outcome_bind_panic (recordUsage_panics husage)

/-- What an event is mapped to does not depend on its tokens. -/
theorem mapEvent_keeps (hinv : Kept room inv) {jsonError : String → String} {sse : SseEvent}
    {r : List AssistantEvent × Acc} (hacc : inv acc) (hfits : IndexesFit room sse acc)
    (h : mapEvent jsonError sse acc = .ok r) : inv r.2 := by
  cases hchunk : chunkOf sse with
  | some v =>
    rw [mapEvent_chunk jsonError hchunk acc] at h
    obtain ⟨first, hfirst, rfl⟩ := Except.map_eq_ok.mp h
    obtain ⟨next, -, hnext, hkeeps⟩ := (mapFirstChoice_leaves hinv v hacc).returns (hfits v hchunk)
    obtain rfl := hnext first hfirst
    exact hinv.usage v hkeeps
  | none =>
    cases sse with
    | named event data | data data =>
      simp only [chunkOf] at hchunk
      simp only [mapEvent, mapChunk, hchunk, reduceCtorEq] at h
    | done =>
      cases h
      exact hacc

theorem mapChunk_parseOnly (jsonError : String → String) (data : String) (acc : Acc) :
    ParseOnly (mapChunk jsonError data acc) := by
  unfold mapChunk
  split
  · exact .parse _
  · apply ParseOnly.map
    split
    · exact ParseOnly.map (fun _ => mapToolCalls_error) _
    · exact .ok _

end OpenAi

end Guigu
