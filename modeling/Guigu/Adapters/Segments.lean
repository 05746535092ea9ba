import Guigu.Adapters.Acc
import Guigu.Adapters.Pieces
import Mathlib.Data.List.Basic

/-! What an adapter has gathered, as pieces: one for each segment. -/
namespace Guigu

theorem getElem?_concat {α : Type*} (xs : List α) (a : α) (i : ℕ) :
    (xs ++ [a])[i]? = if i = xs.length then some a else xs[i]? := by
  rw [List.getElem?_append]
  split_ifs with hlt heq heq
  · omega
  · rfl
  · rw [heq, Nat.sub_self]
    rfl
  · rw [List.getElem?_eq_none (by simp; omega), List.getElem?_eq_none (by omega)]

def ToolCallAcc.piece (tc : ToolCallAcc) : Piece := (.toolUse tc.id tc.name, tc.arguments)

namespace Acc

def content (acc : Acc) : SegmentKind → Option Piece
  | .text i => acc.texts[i]?.map (.text, ·)
  | .thinking i => acc.thinkings[i]?.map (.thinking, ·)
  | .toolCall i => acc.toolCalls[i]?.map ToolCallAcc.piece

def pieces (acc : Acc) : List Piece := acc.segments.filterMap acc.content

theorem buildMessage_content (acc : Acc) :
    acc.buildMessage.content = acc.pieces.filterMap Piece.content? := by
  have hcontent : acc.content? = fun seg => (acc.content seg).bind Piece.content? := by
    funext seg
    cases seg with
    | text i =>
      cases h : acc.texts[i]? <;>
        simp [content?, content, Piece.content?, Block.content?, h, Option.filter]
      split_ifs <;> simp_all
    | thinking i =>
      cases h : acc.thinkings[i]? <;>
        simp [content?, content, Piece.content?, Block.content?, h, Option.filter]
      split_ifs <;> simp_all
    | toolCall i =>
      cases h : acc.toolCalls[i]? <;>
        simp [content?, content, ToolCallAcc.piece, Piece.content?, Block.content?, h]
  rw [buildMessage, pieces, List.filterMap_filterMap, hcontent]

/-- What has a content stands in the list of its kind. -/
theorem lt_of_content {acc : Acc} {seg : SegmentKind} {p : Piece} (h : acc.content seg = some p) :
    match seg with
    | .text i => i < acc.texts.length
    | .thinking i => i < acc.thinkings.length
    | .toolCall i => i < acc.toolCalls.length := by
  cases seg with
  | text i | thinking i | toolCall i =>
    obtain ⟨a, ha, -⟩ := Option.map_eq_some_iff.mp h
    exact (List.getElem?_eq_some_iff.mp ha).1

/-- No segment stands twice, and each has its content. -/
structure Sound (acc : Acc) : Prop where
  nodup : acc.segments.Nodup
  present : ∀ seg ∈ acc.segments, ∃ piece, acc.content seg = some piece

/-- The first segment of a kind has its content. -/
theorem Sound.first {acc : Acc} (h : acc.Sound) {kind : ℕ → SegmentKind}
    {index? : SegmentKind → Option ℕ} (hindex : ∀ seg i, index? seg = some i → seg = kind i) {i : ℕ}
    (hfirst : acc.segments.findSome? index? = some i) :
    ∃ piece, acc.content (kind i) = some piece := by
  obtain ⟨seg, hmem, hseg⟩ := List.exists_of_findSome?_eq_some hfirst
  obtain rfl := hindex seg i hseg
  exact h.present _ hmem

/-- The same pieces: nothing else of the answer counts for them. -/
structure Same (acc acc' : Acc) : Prop where
  segments : acc'.segments = acc.segments
  content : acc'.content = acc.content

theorem Same.pieces {acc acc' : Acc} (h : Same acc acc') : acc'.pieces = acc.pieces := by
  rw [Acc.pieces, Acc.pieces, h.segments, h.content]

theorem Same.sound {acc acc' : Acc} (h : Same acc acc') (hsound : acc.Sound) : acc'.Sound where
  nodup := h.segments ▸ hsound.nodup
  present := by
    rw [h.segments, h.content]
    exact hsound.present

/-- Whether a call is done does not count. -/
theorem same_of_calls {acc acc' : Acc} (hsegments : acc'.segments = acc.segments)
    (htexts : acc'.texts = acc.texts) (hthinkings : acc'.thinkings = acc.thinkings)
    (hcalls : ∀ i : ℕ, acc'.toolCalls[i]?.map ToolCallAcc.piece =
      acc.toolCalls[i]?.map ToolCallAcc.piece) : Same acc acc' where
  segments := hsegments
  content := by
    funext seg
    cases seg with
    | text i => rw [Acc.content, Acc.content, htexts]
    | thinking i => rw [Acc.content, Acc.content, hthinkings]
    | toolCall i => exact hcalls i

/-- A new piece, with its segment. -/
def started (acc : Acc) : Block → SegmentKind × Acc
  | .text => (.text acc.startTextBlock.1, acc.startTextBlock.2)
  | .thinking => (.thinking acc.startThinkingBlock.1, acc.startThinkingBlock.2)
  | .toolUse id name => (.toolCall (acc.startToolCall id name).1, (acc.startToolCall id name).2)

/-- The piece of a segment gets more text. -/
def extended (acc : Acc) (t : String) : SegmentKind → Acc
  | .text i => acc.appendTextBlock i t
  | .thinking i => acc.appendThinkingBlock i t
  | .toolCall i => acc.appendArguments i t

@[simp] theorem segments_started (acc : Acc) (b : Block) :
    (acc.started b).2.segments = acc.segments ++ [(acc.started b).1] := by
  cases b <;> rfl

@[simp] theorem segments_extended (acc : Acc) (t : String) (seg : SegmentKind) :
    (acc.extended t seg).segments = acc.segments := by
  cases seg <;> rfl

theorem content_started (acc : Acc) (b : Block) (seg : SegmentKind) :
    (acc.started b).2.content seg =
      if seg = (acc.started b).1 then some (b, "") else acc.content seg := by
  cases b <;> cases seg <;>
    simp [started, startTextBlock, startThinkingBlock, startToolCall, content, getElem?_concat] <;>
    split_ifs <;> rfl

theorem getElem?_modify_map {α : Type*} (xs : List α) (i j : ℕ) (f : α → α) (g : α → Piece)
    (t : String) (hf : ∀ a, g (f a) = ((g a).1, (g a).2 ++ t)) :
    (xs.modify i f)[j]?.map g =
      if j = i then (xs[i]?.map g).map fun p => (p.1, p.2 ++ t) else xs[j]?.map g := by
  rw [List.getElem?_modify]
  by_cases hji : j = i
  · subst hji
    cases xs[j]? <;> simp [hf]
  · simp only [if_neg hji, if_neg (Ne.symm hji)]
    cases xs[j]? <;> rfl

theorem content_extended (acc : Acc) (t : String) (seg seg' : SegmentKind) :
    (acc.extended t seg).content seg' =
      if seg' = seg then (acc.content seg).map fun p => (p.1, p.2 ++ t) else acc.content seg' := by
  cases seg with
  | text i =>
    cases seg' with
    | text j =>
      simp only [SegmentKind.text.injEq]
      exact getElem?_modify_map acc.texts i j _ _ t fun _ => rfl
    | _ => rfl
  | thinking i =>
    cases seg' with
    | thinking j =>
      simp only [SegmentKind.thinking.injEq]
      exact getElem?_modify_map acc.thinkings i j _ _ t fun _ => rfl
    | _ => rfl
  | toolCall i =>
    cases seg' with
    | toolCall j =>
      simp only [SegmentKind.toolCall.injEq]
      exact getElem?_modify_map acc.toolCalls i j _ _ t fun _ => rfl
    | _ => rfl

theorem block_text {acc : Acc} {seg : SegmentKind} {p : Piece} (h : acc.content seg = some p) :
    p.1 = .text ↔ ∃ i, seg = .text i := by
  cases seg <;> obtain ⟨_, _, rfl⟩ := Option.map_eq_some_iff.mp h <;> simp [ToolCallAcc.piece]

theorem block_thinking {acc : Acc} {seg : SegmentKind} {p : Piece}
    (h : acc.content seg = some p) : p.1 = .thinking ↔ ∃ i, seg = .thinking i := by
  cases seg <;> obtain ⟨_, _, rfl⟩ := Option.map_eq_some_iff.mp h <;> simp [ToolCallAcc.piece]

theorem content_fresh (acc : Acc) (b : Block) : acc.content (acc.started b).1 = none := by
  cases b <;> simp [started, startTextBlock, startThinkingBlock, startToolCall, content]

namespace Sound

variable {acc : Acc}

theorem fresh (h : acc.Sound) (b : Block) : (acc.started b).1 ∉ acc.segments := by
  intro hmem
  obtain ⟨piece, hpiece⟩ := h.present _ hmem
  rw [content_fresh] at hpiece
  cases hpiece

theorem started (h : acc.Sound) (b : Block) : (acc.started b).2.Sound where
  nodup := by
    rw [segments_started, List.nodup_append]
    refine ⟨h.nodup, by simp, ?_⟩
    rintro seg hseg _ hnew rfl
    exact h.fresh b (List.mem_singleton.mp hnew ▸ hseg)
  present := by
    intro seg hseg
    rw [content_started]
    split_ifs with hnew
    · exact ⟨_, rfl⟩
    · rw [segments_started, List.mem_append, List.mem_singleton] at hseg
      exact h.present seg (hseg.resolve_right hnew)

theorem pieces_started (h : acc.Sound) (b : Block) :
    (acc.started b).2.pieces = acc.pieces ++ [(b, "")] := by
  have hold : acc.segments.filterMap (acc.started b).2.content = acc.pieces := by
    apply List.filterMap_congr
    intro seg hseg
    have hne : seg ≠ (acc.started b).1 := fun heq => h.fresh b (heq ▸ hseg)
    rw [content_started, if_neg hne]
  have hnew : [(acc.started b).1].filterMap (acc.started b).2.content = [(b, "")] := by
    simp [content_started]
  rw [pieces, segments_started, List.filterMap_append, hold, hnew]

theorem extended (h : acc.Sound) (t : String) (seg : SegmentKind) : (acc.extended t seg).Sound where
  nodup := by
    rw [segments_extended]
    exact h.nodup
  present := by
    intro seg' hseg'
    rw [segments_extended] at hseg'
    obtain ⟨piece, hpiece⟩ := h.present seg' hseg'
    rw [content_extended]
    split_ifs with heq
    · rw [← heq, hpiece]
      exact ⟨_, rfl⟩
    · exact ⟨piece, hpiece⟩

theorem gathers_extended {single : Bool} (h : acc.Sound) (t : String) {seg : SegmentKind}
    (hseg : seg ∈ acc.segments) {p : Piece} (hpiece : acc.content seg = some p) :
    Gathers single acc.pieces [p.1.delta t] (acc.extended t seg).pieces := by
  obtain ⟨before, after, hsegments⟩ := List.append_of_mem hseg
  have hnodup := h.nodup
  rw [hsegments, List.nodup_append] at hnodup
  obtain ⟨-, hafter, hbefore⟩ := hnodup
  have hsame : ∀ segs : List SegmentKind, seg ∉ segs →
      segs.filterMap (acc.extended t seg).content = segs.filterMap acc.content := by
    intro segs hnot
    apply List.filterMap_congr
    intro seg' hseg'
    have hne : seg' ≠ seg := fun heq => hnot (heq ▸ hseg')
    rw [content_extended, if_neg hne]
  have hnew : (acc.extended t seg).content seg = some (p.1, p.2 ++ t) := by
    rw [content_extended, if_pos rfl, hpiece]
    rfl
  rw [pieces, pieces, segments_extended, hsegments, List.filterMap_append, List.filterMap_append,
    List.filterMap_cons_some hpiece, List.filterMap_cons_some hnew,
    hsame before fun hmem => hbefore _ hmem _ List.mem_cons_self rfl,
    hsame after (List.nodup_cons.mp hafter).1]
  exact .append

end Sound

end Acc

end Guigu
