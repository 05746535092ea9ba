import Guigu.Adapters.Handling
import Guigu.Adapters.Segments

/-! The single steps of the adapters: when they panic, and what they return. -/
namespace Guigu

open Serde Panicking

/-- The first index that a table cannot be grown to: with one more it has to be a number of the
machine, and there has to be room. -/
def tableEnd (room : ℕ) : ℕ := min room (2 ^ 64 - 1)

namespace Handling

variable {room i : ℕ} {acc : Acc}

section Growing

variable {α : Type} {xs : List (Option α)}

theorem reach_returns (h : i < tableEnd room) (xs : List (Option α)) (acc : Acc) :
    outcome (reach room xs i) acc =
      .ok (.ok (xs ++ List.replicate (i + 1 - xs.length) none), acc) := by
  unfold tableEnd at h
  unfold reach
  split_ifs with hlen
  · have hsum : outcome (addUsize i 1) acc = .ok (.ok (i + 1), acc) := by
      rw [addUsize, if_pos (by omega)]
      rfl
    rw [outcome_bind_ok hsum, resize, if_pos (by omega)]
    rfl
  · have hnone : i + 1 - xs.length = 0 := by omega
    rw [hnone, List.replicate_zero, List.append_nil]
    rfl

theorem reach_panics (hxs : xs.length ≤ tableEnd room) (h : ¬ i < tableEnd room) (acc : Acc) :
    ∃ p, outcome (reach room xs i) acc = .error p := by
  unfold reach
  rw [if_pos (by omega)]
  by_cases hsum : i + 1 < 2 ^ 64
  · have hok : outcome (addUsize i 1) acc = .ok (.ok (i + 1), acc) := by
      rw [addUsize, if_pos hsum]
      rfl
    refine ⟨.capacity, ?_⟩
    unfold tableEnd at h
    rw [outcome_bind_ok hok, resize, if_neg (by omega)]
    rfl
  · refine ⟨.overflow, outcome_bind_panic ?_⟩
    rw [addUsize, if_neg hsum]
    rfl

theorem store_returns (xs : List (Option α)) (i : ℕ) (a : α) (acc : Acc) :
    outcome (store (xs ++ List.replicate (i + 1 - xs.length) none) i a) acc =
      .ok (.ok (noteAt xs i a), acc) := by
  have hlong : i < (xs ++ List.replicate (i + 1 - xs.length) none).length := by
    simp only [List.length_append, List.length_replicate]
    omega
  rw [store, if_pos hlong]
  rfl

/-- What a table without an entry for the index has there once it is long enough. -/
theorem entry_returns (h : lookAt xs i = none) (acc : Acc) :
    outcome (entry (xs ++ List.replicate (i + 1 - xs.length) none) i) acc =
      .ok (.ok none, acc) := by
  have hnone : (xs ++ List.replicate (i + 1 - xs.length) none)[i]? = some none := by
    rw [List.getElem?_append]
    split_ifs with hlt
    · rw [lookAt, List.getElem?_eq_getElem hlt, Option.join_some] at h
      rw [List.getElem?_eq_getElem hlt, h]
    · rw [List.getElem?_replicate, if_pos (by omega)]
  rw [entry, hnone]
  rfl

theorem length_noteAt_le (hxs : xs.length ≤ tableEnd room) (h : i < tableEnd room) (a : α) :
    (noteAt xs i a).length ≤ tableEnd room := by
  simp only [noteAt, List.length_set, List.length_append, List.length_replicate]
  omega

end Growing

theorem noteBlock_returns (h : i < tableEnd room) (kind : SegmentKind) (acc : Acc) :
    outcome (noteBlock room i kind) acc = .ok (.ok (), acc.noteBlock i kind) := by
  rw [noteBlock, outcome_bind_ok (outcome_get acc), outcome_bind_ok (reach_returns h _ acc),
    outcome_bind_ok (store_returns _ i kind acc)]
  rfl

theorem noteBlock_panics (hlen : acc.blockKinds.length ≤ tableEnd room) (h : ¬ i < tableEnd room)
    (kind : SegmentKind) : ∃ p, outcome (noteBlock room i kind) acc = .error p := by
  obtain ⟨p, hp⟩ := reach_panics hlen h acc
  refine ⟨p, ?_⟩
  rw [noteBlock, outcome_bind_ok (outcome_get acc)]
  exact outcome_bind_panic hp

theorem mapToolIndex_returns (h : i < tableEnd room) (j : ℕ)
    (hfree : lookAt acc.toolIndexMap i = none) :
    outcome (mapToolIndex room i j) acc =
      .ok (.ok (), { acc with toolIndexMap := noteAt acc.toolIndexMap i j }) := by
  rw [mapToolIndex, outcome_bind_ok (outcome_get acc), outcome_bind_ok (reach_returns h _ acc),
    outcome_bind_ok (outcome_set _ _), outcome_bind_ok (entry_returns hfree _)]
  simp only
  rw [outcome_bind_ok (store_returns _ i j _)]
  rfl

theorem mapToolIndex_panics (hlen : acc.toolIndexMap.length ≤ tableEnd room)
    (h : ¬ i < tableEnd room) (j : ℕ) : ∃ p, outcome (mapToolIndex room i j) acc = .error p := by
  obtain ⟨p, hp⟩ := reach_panics hlen h acc
  refine ⟨p, ?_⟩
  rw [mapToolIndex, outcome_bind_ok (outcome_get acc)]
  exact outcome_bind_panic hp

theorem addU64_returns {a b : UInt64} (h : a.toNat + b.toNat < 2 ^ 64) (acc : Acc) :
    outcome (addU64 a b) acc = .ok (.ok (a + b), acc) := by
  rw [addU64, if_pos h]
  rfl

theorem addU64_panics {a b : UInt64} (h : ¬ a.toNat + b.toNat < 2 ^ 64) (acc : Acc) :
    outcome (addU64 a b) acc = .error .overflow := by
  rw [addU64, if_neg h]
  rfl

theorem appendTextBlock_returns (h : i < acc.texts.length) (text : String) :
    outcome (appendTextBlock i text) acc = .ok (.ok (), acc.appendTextBlock i text) := by
  rw [appendTextBlock, outcome_bind_ok (outcome_get acc), if_pos h]
  rfl

theorem appendThinkingBlock_returns (h : i < acc.thinkings.length) (thinking : String) :
    outcome (appendThinkingBlock i thinking) acc =
      .ok (.ok (), acc.appendThinkingBlock i thinking) := by
  rw [appendThinkingBlock, outcome_bind_ok (outcome_get acc), if_pos h]
  rfl

theorem appendArguments_returns (h : i < acc.toolCalls.length) (args : String) :
    outcome (appendArguments i args) acc = .ok (.ok (), acc.appendArguments i args) := by
  rw [appendArguments, outcome_bind_ok (outcome_get acc), if_pos h]
  rfl

/-- The first block of a kind, or else a new one. -/
theorem firstBlock_returns (first? : List SegmentKind → Option ℕ) (start : Acc → ℕ × Acc)
    (acc : Acc) :
    let r := match first? acc.segments with
      | some i => (i, acc)
      | none => start acc
    outcome (do
        match first? (← MonadState.get).segments with
        | some i => pure i
        | none => modifyGet start : Handling ℕ) acc = .ok (.ok r.1, r.2) := by
  rw [outcome_bind_ok (outcome_get acc)]
  cases first? acc.segments <;> rfl

/-- Segments are in bounds, and so is a new one. -/
theorem appendText_returns (hsound : acc.Sound) (text : String) :
    outcome (appendText text) acc = .ok (.ok (), acc.appendText text) := by
  have hblock := firstBlock_returns Acc.firstText? Acc.startTextBlock acc
  refine (outcome_bind_ok hblock).trans (appendTextBlock_returns ?_ text)
  cases hfirst : Acc.firstText? acc.segments with
  | some i =>
    obtain ⟨p, hp⟩ : ∃ p, acc.content (.text i) = some p :=
      hsound.first (fun seg j => by cases seg <;> simp) hfirst
    exact Acc.lt_of_content hp
  | none => simp [Acc.startTextBlock]

theorem appendThinking_returns (hsound : acc.Sound) (thinking : String) :
    outcome (appendThinking thinking) acc = .ok (.ok (), acc.appendThinking thinking) := by
  have hblock := firstBlock_returns Acc.firstThinking? Acc.startThinkingBlock acc
  refine (outcome_bind_ok hblock).trans (appendThinkingBlock_returns ?_ thinking)
  cases hfirst : Acc.firstThinking? acc.segments with
  | some i =>
    obtain ⟨p, hp⟩ : ∃ p, acc.content (.thinking i) = some p :=
      hsound.first (fun seg j => by cases seg <;> simp) hfirst
    exact Acc.lt_of_content hp
  | none => simp [Acc.startThinkingBlock]

theorem require_follows {α : Type} {found : Option α} {text : String} {fits : Prop}
    {f : α → Handling (List AssistantEvent)} {g : α → Anthropic.Mapped}
    (hmissing : found = none → fits) (hrest : ∀ a, found = some a → Follows (f a) acc fits (g a)) :
    Follows (require found text >>= f) acc fits (Guigu.Anthropic.demand found text >>= g) := by
  apply Follows.demand (g := g) ?_ hmissing hrest
  cases found <;> rfl

theorem refuse_follows {text : String} {fits : Prop} (hfits : fits) :
    Follows (refuse text : Handling (List AssistantEvent)) acc fits (.error (.parse text)) :=
  .of_outcome hfits rfl

theorem toNat_tokens (name : String) (v : Json) :
    (UInt64.ofNat ((getU64 name v).getD 0)).toNat = (getU64 name v).getD 0 := by
  cases h : getU64 name v with
  | none => rfl
  | some n => exact UInt64.toNat_ofNat_of_lt' (getU64_lt h)

end Handling

/-! ### Errors -/

/-- What is refused cannot be parsed. -/
def ParseOnly {α : Type} (result : Except ProviderError α) : Prop :=
  ∀ e, result = .error e → ∃ text, e = .parse text

namespace ParseOnly

variable {α β : Type}

theorem ok (a : α) : ParseOnly (.ok a) := by
  rintro e ⟨⟩

theorem parse (text : String) : ParseOnly (.error (.parse text) : Except ProviderError α) := by
  rintro e ⟨⟩
  exact ⟨text, rfl⟩

theorem map {result : Except ProviderError α} (h : ParseOnly result) (f : α → β) :
    ParseOnly (result.map f) := by
  cases result with
  | error e =>
    rintro e' ⟨⟩
    exact h e rfl
  | ok a => exact ok (f a)

theorem demand {found : Option α} {text : String} {f : α → Except ProviderError β}
    (h : ∀ a, ParseOnly (f a)) : ParseOnly (Anthropic.demand found text >>= f) := by
  cases found with
  | none => exact parse text
  | some a => exact h a

end ParseOnly

end Guigu
