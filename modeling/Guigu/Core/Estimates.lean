import Guigu.Core.Baselines
import Mathlib.Algebra.Order.BigOperators.Group.List
import Mathlib.Algebra.Order.Ring.Nat

/-! When the estimates of the context are exact. Lengths, sums and the recorded input are machine
integers that wrap around. -/
namespace Guigu

/-- A sum in machine integers only loses: it is exact when each summand is, and the whole is small
enough. -/
theorem add_sum_mod_eq_iff {α : Type*} {l : List α} {f g : α → ℕ} (h : ∀ x ∈ l, f x ≤ g x)
    {M : ℕ} (hM : 0 < M) (base : ℕ) :
    (base + (l.map f).sum) % M = base + (l.map g).sum ↔
      (∀ x ∈ l, f x = g x) ∧ base + (l.map g).sum < M := by
  have hle : (l.map f).sum ≤ (l.map g).sum := List.sum_le_sum h
  constructor
  · intro heq
    have hmod := Nat.mod_le (base + (l.map f).sum) M
    refine ⟨fun x hx => le_antisymm (h x hx) (not_lt.mp fun hlt => ?_), ?_⟩
    · have hsum : (l.map f).sum < (l.map g).sum := List.sum_lt_sum f g h ⟨x, hx, hlt⟩
      omega
    · rw [← heq]
      exact Nat.mod_lt _ hM
  · rintro ⟨heq, hlt⟩
    rw [List.map_congr_left heq]
    exact Nat.mod_eq_of_lt hlt

theorem UInt32.toNat_sum (l : List UInt32) :
    l.sum.toNat = (l.map UInt32.toNat).sum % 2 ^ 32 := by
  induction l with
  | nil => rfl
  | cons a l ih =>
    rw [List.sum_cons, UInt32.toNat_add, ih, List.map_cons, List.sum_cons, Nat.add_mod_mod]

theorem UInt64.toNat_sum (l : List UInt64) :
    l.sum.toNat = (l.map UInt64.toNat).sum % 2 ^ 64 := by
  induction l with
  | nil => rfl
  | cons a l ih =>
    rw [List.sum_cons, UInt64.toNat_add, ih, List.map_cons, List.sum_cons, Nat.add_mod_mod]

/-! ### Messages -/

/-- What counts in a message: its texts, each with whether it is an image. -/
def Message.pieces : Message → List (String × Bool)
  | .user u => u.content.map fun
      | .text t => (t, false)
      | .image img => (img.data, true)
  | .assistant a => a.content.flatMap fun
      | .text t => [(t, false)]
      | .thinking t => [(t, false)]
      | .toolCall c => [(c.name, false), (c.arguments, false)]
  | .toolResult t => (t.toolName, false) :: t.content.map fun
      | .text s => (s, false)
      | .image img => (img.data, true)

/-- A token for each four bytes and one more, and eight for an image. -/
def exactPieceTokens (p : String × Bool) : ℕ := p.1.utf8ByteSize / 4 + 1 + if p.2 then 8 else 0

def exactMessageTokens (m : Message) : ℕ := (m.pieces.map exactPieceTokens).sum

/-- A piece as it is counted in machine integers. -/
def pieceTokens (p : String × Bool) : UInt32 := estimateTokens p.1 + if p.2 then 8 else 0

theorem estimateMessageTokens_eq (m : Message) :
    estimateMessageTokens m = (m.pieces.map pieceTokens).sum := by
  cases m with
  | user u =>
    simp only [estimateMessageTokens, Message.pieces, List.map_map]
    refine congrArg List.sum (List.map_congr_left fun c _ => ?_)
    cases c with
    | text t => exact (UInt32.add_zero _).symm
    | image img => rfl
  | assistant a =>
    simp only [estimateMessageTokens, Message.pieces, List.flatMap_def, List.map_flatten,
      List.sum_flatten, List.map_map]
    refine congrArg List.sum (List.map_congr_left fun c _ => ?_)
    cases c <;> simp [pieceTokens]
  | toolResult t =>
    simp only [estimateMessageTokens, Message.pieces, List.map_cons, List.sum_cons, List.map_map]
    refine congrArg₂ (· + ·) (UInt32.add_zero _).symm
      (congrArg List.sum (List.map_congr_left fun c _ => ?_))
    cases c with
    | text s => exact (UInt32.add_zero _).symm
    | image img => rfl

theorem toNat_pieceTokens (p : String × Bool) :
    (pieceTokens p).toNat = p.1.utf8ByteSize % 2 ^ 32 / 4 + 1 + if p.2 then 8 else 0 := by
  obtain ⟨text, image⟩ := p
  have hmod := Nat.mod_lt text.utf8ByteSize (show 0 < 2 ^ 32 by decide)
  have htext : (estimateTokens text).toNat = text.utf8ByteSize % 2 ^ 32 / 4 + 1 := by
    unfold estimateTokens
    rw [UInt32.toNat_add, UInt32.toNat_div, UInt32.toNat_ofNat']
    show (_ / 4 + 1) % _ = _
    omega
  have hsurcharge : (if image then 8 else 0 : UInt32).toNat = if image then 8 else 0 := by
    cases image <;> rfl
  show (estimateTokens text + if image then 8 else 0).toNat =
    text.utf8ByteSize % 2 ^ 32 / 4 + 1 + if image then 8 else 0
  rw [UInt32.toNat_add, htext, hsurcharge]
  refine Nat.mod_eq_of_lt ?_
  split_ifs <;> omega

theorem pieceTokens_le (p : String × Bool) : (pieceTokens p).toNat ≤ exactPieceTokens p := by
  rw [toNat_pieceTokens, exactPieceTokens]
  have hmod := Nat.mod_le p.1.utf8ByteSize (2 ^ 32)
  omega

theorem pieceTokens_eq_iff (p : String × Bool) :
    (pieceTokens p).toNat = exactPieceTokens p ↔ p.1.utf8ByteSize < 2 ^ 32 := by
  rw [toNat_pieceTokens, exactPieceTokens]
  omega

/-- A message is counted exactly when its texts are short enough, and so are all of them
together. -/
structure Message.Countable (m : Message) : Prop where
  texts : ∀ p ∈ m.pieces, p.1.utf8ByteSize < 2 ^ 32
  sum : exactMessageTokens m < 2 ^ 32

theorem toNat_estimateMessageTokens (m : Message) : (estimateMessageTokens m).toNat =
    (0 + (m.pieces.map fun p => (pieceTokens p).toNat).sum) % 2 ^ 32 := by
  rw [estimateMessageTokens_eq, UInt32.toNat_sum, List.map_map, Nat.zero_add]
  rfl

theorem estimateMessageTokens_le (m : Message) :
    (estimateMessageTokens m).toNat ≤ exactMessageTokens m := by
  rw [toNat_estimateMessageTokens, Nat.zero_add]
  exact (Nat.mod_le _ _).trans (List.sum_le_sum fun p _ => pieceTokens_le p)

theorem estimateMessageTokens_eq_iff (m : Message) :
    (estimateMessageTokens m).toNat = exactMessageTokens m ↔ m.Countable := by
  have hexact : exactMessageTokens m = 0 + (m.pieces.map exactPieceTokens).sum :=
    (Nat.zero_add _).symm
  rw [toNat_estimateMessageTokens, hexact,
    add_sum_mod_eq_iff (fun p _ => pieceTokens_le p) (by decide), ← hexact]
  constructor
  · rintro ⟨htexts, hsum⟩
    exact ⟨fun p hp => (pieceTokens_eq_iff p).mp (htexts p hp), hsum⟩
  · rintro ⟨htexts, hsum⟩
    exact ⟨fun p hp => (pieceTokens_eq_iff p).mpr (htexts p hp), hsum⟩

/-! ### Contexts -/

/-- The messages that count: those behind the last usage, or all of them. -/
def countedMessages (ms : List Message) : List Message :=
  match lastUsage ms with
  | some (_, behind) => behind
  | none => ms

/-- What they are counted on: the recorded input, or the overhead. -/
def countedBase (ms : List Message) (fixedOverhead : UInt32) : ℕ :=
  match lastUsage ms with
  | some (input, _) => input.toNat
  | none => fixedOverhead.toNat

def exactTotal (ms : List Message) (fixedOverhead : UInt32) : ℕ :=
  countedBase ms fixedOverhead + ((countedMessages ms).map exactMessageTokens).sum

/-- `estimate_total(..).min(u32::MAX) as u32`. -/
def ContextBudget.estimate (b : ContextBudget) (messages : List Message) : UInt32 :=
  clampSize (estimateTotal messages b.fixedOverhead).toNat

/-- What the budget estimates, and what a compaction is triggered by, is the exact estimate. -/
structure EstimatesExactly (b : ContextBudget) (ms : List Message) : Prop where
  estimate : (b.estimate ms).toNat = min (exactTotal ms b.fixedOverhead) (2 ^ 32 - 1)
  trigger : (estimateTotal ms 0).toNat = exactTotal ms 0

/-- The messages that count can be counted, and so can all of them together. -/
structure WithinWidth (fixedOverhead : UInt32) (ms : List Message) : Prop where
  messages : ∀ m ∈ countedMessages ms, m.Countable
  total : exactTotal ms fixedOverhead < 2 ^ 64

theorem toNat_estimateTotal (ms : List Message) (fixedOverhead : UInt32) :
    (estimateTotal ms fixedOverhead).toNat = (countedBase ms fixedOverhead +
      ((countedMessages ms).map fun m => (estimateMessageTokens m).toNat).sum) % 2 ^ 64 := by
  have hsum (ms : List Message) : ((ms.map fun m => (estimateMessageTokens m).toUInt64).sum).toNat =
      (ms.map fun m => (estimateMessageTokens m).toNat).sum % 2 ^ 64 := by
    rw [UInt64.toNat_sum, List.map_map]
    rfl
  unfold estimateTotal countedBase countedMessages
  cases lastUsage ms with
  | some usage =>
    show (usage.1 + _).toNat = _
    rw [UInt64.toNat_add, hsum, Nat.add_mod_mod]
  | none =>
    show (fixedOverhead.toUInt64 + _).toNat = _
    rw [UInt64.toNat_add, hsum, Nat.add_mod_mod]
    rfl

theorem estimateTotal_eq_iff (ms : List Message) (fixedOverhead : UInt32) :
    (estimateTotal ms fixedOverhead).toNat = exactTotal ms fixedOverhead ↔
      WithinWidth fixedOverhead ms := by
  rw [toNat_estimateTotal, exactTotal,
    add_sum_mod_eq_iff (fun m _ => estimateMessageTokens_le m) (by decide)]
  constructor
  · rintro ⟨hmessages, htotal⟩
    exact ⟨fun m hm => (estimateMessageTokens_eq_iff m).mp (hmessages m hm), htotal⟩
  · rintro ⟨hmessages, htotal⟩
    exact ⟨fun m hm => (estimateMessageTokens_eq_iff m).mpr (hmessages m hm), htotal⟩

/-- The overhead adds less than `2 ^ 32`. -/
theorem exactTotal_zero_le (ms : List Message) (fixedOverhead : UInt32) :
    exactTotal ms 0 ≤ exactTotal ms fixedOverhead ∧
      exactTotal ms fixedOverhead < exactTotal ms 0 + 2 ^ 32 := by
  have hlt := fixedOverhead.toNat_lt
  unfold exactTotal countedBase
  cases lastUsage ms with
  | some usage =>
    simp only
    omega
  | none =>
    simp only [UInt32.toNat_zero]
    omega

theorem toNat_clampSize (n : ℕ) : (clampSize n).toNat = min n (2 ^ 32 - 1) := by
  unfold clampSize
  rw [UInt32.toNat_ofNat']
  exact Nat.mod_eq_of_lt (by omega)

/-- The estimates are exact when nothing that counts is too long or too much; the recorded input
is a number from outside. -/
theorem estimatesExactly_iff (b : ContextBudget) (ms : List Message) :
    EstimatesExactly b ms ↔ WithinWidth b.fixedOverhead ms := by
  have hoverhead := exactTotal_zero_le ms b.fixedOverhead
  have hestimate : (b.estimate ms).toNat =
      min (estimateTotal ms b.fixedOverhead).toNat (2 ^ 32 - 1) := toNat_clampSize _
  constructor
  · rintro ⟨hcapped, htrigger⟩
    obtain ⟨hmessages, htotal⟩ := (estimateTotal_eq_iff ms 0).mp htrigger
    refine ⟨hmessages, not_le.mp fun hwide => ?_⟩
    -- the overhead makes the sum wrap around, to less than the cap
    have hcounted : (estimateTotal ms b.fixedOverhead).toNat =
        exactTotal ms b.fixedOverhead % 2 ^ 64 := by
      rw [toNat_estimateTotal, exactTotal, List.map_congr_left fun m hm =>
        (estimateMessageTokens_eq_iff m).mpr (hmessages m hm)]
    omega
  · rintro ⟨hmessages, htotal⟩
    refine ⟨?_, ?_⟩
    · rw [hestimate, (estimateTotal_eq_iff ms b.fixedOverhead).mpr ⟨hmessages, htotal⟩]
    · exact (estimateTotal_eq_iff ms 0).mpr ⟨hmessages, hoverhead.1.trans_lt htotal⟩

/-- A recorded input at the end of its range starts again from nothing. -/
theorem estimatesExactly_recorded :
    ¬ ∀ (b : ContextBudget) (ms : List Message), EstimatesExactly b ms := by
  intro h
  have htrigger := (h ⟨0, 0, 0⟩ [answerTo (2 ^ 64 - 1), helloMessage]).trigger
  exact absurd htrigger (by decide +kernel)

end Guigu
