import Guigu.Core.Projection
import Mathlib.Data.List.Infix

/-! What a truncation keeps: the longest rest of whole turns that fits, or else the last turn. -/
namespace Guigu

/-- Whole turns at the end of the messages. -/
def TurnSuffix (rest ms : List Message) : Prop := rest <:+ ms ∧ beginsWithUser rest = true

/-- What is left when more and more turns are dropped. -/
def turnSuffixes (ms : List Message) : List (List Message) := ms.tails.filter beginsWithUser

def fitsIn (maxTokens : ℕ) (fixedOverhead : UInt32) (ms : List Message) : Bool :=
  decide ((estimateTotal ms fixedOverhead).toNat ≤ maxTokens)

/-- What the messages are truncated to, by whether they fit. -/
inductive Truncated (fits : List Message → Bool) (ms : List Message) : List Message → Prop
  | whole (h : fits ms = true) : Truncated fits ms ms
  | longest {rest : List Message} (hover : fits ms = false) (hrest : TurnSuffix rest ms)
    (h : fits rest = true)
    (hmax : ∀ longer, TurnSuffix longer ms → fits longer = true → longer.length ≤ rest.length) :
    Truncated fits ms rest
  | lastTurn {rest : List Message} (hover : fits ms = false) (hrest : TurnSuffix rest ms)
    (h : ∀ other, TurnSuffix other ms → fits other = false)
    (hmin : ∀ other, TurnSuffix other ms → rest.length ≤ other.length) :
    Truncated fits ms rest
  | noTurn (hover : fits ms = false) (h : ∀ other, ¬ TurnSuffix other ms) : Truncated fits ms ms

theorem mem_turnSuffixes {rest ms : List Message} :
    rest ∈ turnSuffixes ms ↔ TurnSuffix rest ms := by
  rw [turnSuffixes, List.mem_filter, List.mem_tails]
  rfl

theorem turnSuffixes_cons (m : Message) (ms : List Message) :
    turnSuffixes (m :: ms) =
      if m.isUser then (m :: ms) :: turnSuffixes ms else turnSuffixes ms := by
  rw [turnSuffixes, List.tails_cons, List.filter_cons]
  rfl

theorem pairwise_turnSuffixes (ms : List Message) :
    (turnSuffixes ms).Pairwise fun longer rest => rest.length < longer.length := by
  refine List.Pairwise.filter _ ?_
  induction ms with
  | nil => exact List.pairwise_singleton _ _
  | cons m ms ih =>
    rw [List.tails_cons]
    refine List.pairwise_cons.mpr ⟨fun rest hrest => ?_, ih⟩
    exact Nat.lt_succ_of_le ((List.mem_tails _ _).mp hrest).length_le

/-- The boundaries are where the turns begin. -/
theorem map_drop_userBoundaries (ms : List Message) :
    (userBoundaries ms).map ms.drop = turnSuffixes ms := by
  induction ms with
  | nil => rfl
  | cons m ms ih =>
    have hbehind : ((userBoundaries ms).map (· + 1)).map (m :: ms).drop = turnSuffixes ms := by
      rw [List.map_map, ← ih]
      rfl
    rw [userBoundaries_cons, turnSuffixes_cons, List.map_append, hbehind]
    split_ifs
    · rfl
    · rfl

/-- No boundary lies between a call and its result. -/
theorem firstFitting_eq {ms : List Message} {boundaries : List ℕ}
    (h : ∀ b ∈ boundaries, 0 < b → b ∈ userBoundaries ms) (maxTokens : ℕ)
    (fixedOverhead : UInt32) :
    firstFitting ms maxTokens fixedOverhead boundaries =
      (boundaries.map ms.drop).find? (fitsIn maxTokens fixedOverhead) := by
  induction boundaries with
  | nil => rfl
  | cons b boundaries ih =>
    obtain ⟨hb, hrest⟩ := List.forall_mem_cons.mp h
    have hsplit : 0 < b → ((ms[b - 1]?.bind fun prev =>
        ms[b]?.map fun next => isToolCallResultSplit prev next).getD false) = false := by
      intro hpos
      obtain ⟨-, huser⟩ := List.mem_filter.mp (hb hpos)
      rw [Option.any_eq_true] at huser
      obtain ⟨next, hnext, huser⟩ := huser
      rw [hnext]
      cases ms[b - 1]? with
      | none => rfl
      | some prev =>
        cases next with
        | user => exact Bool.and_false _
        | assistant | toolResult => cases huser
    simp only [firstFitting]
    rw [if_neg fun hcut => Bool.false_ne_true ((hsplit hcut.1).symm.trans hcut.2), List.map_cons,
      List.find?_cons, ih hrest]
    unfold fitsIn
    split_ifs with hfits
    · simp [hfits]
    · simp [hfits]

theorem drop_lastBoundary (ms : List Message) (n : ℕ) :
    ms.drop ((userBoundaries ms).getLastD n) =
      (turnSuffixes ms).getLast?.getD (ms.drop n) := by
  rw [← map_drop_userBoundaries, List.getLastD_eq_getLast?, List.getLast?_map, Option.getD_map]

/-- The truncation in terms of the turns that can be dropped. -/
theorem truncateToBudgetWithOverhead_eq (ms : List Message) (maxTokens : ℕ)
    (fixedOverhead : UInt32) :
    truncateToBudgetWithOverhead ms maxTokens fixedOverhead =
      if fitsIn maxTokens fixedOverhead ms then ms
      else ((turnSuffixes ms).find? (fitsIn maxTokens fixedOverhead)).getD
        ((turnSuffixes ms).getLast?.getD ms) := by
  unfold truncateToBudgetWithOverhead
  by_cases hfits : (estimateTotal ms fixedOverhead).toNat ≤ maxTokens
  · have hin : fitsIn maxTokens fixedOverhead ms = true := decide_eq_true hfits
    rw [if_pos hfits, if_pos hin]
  · have hover : fitsIn maxTokens fixedOverhead ms = false := decide_eq_false hfits
    rw [if_neg hfits, if_neg (Bool.eq_false_iff.mp hover)]
    cases ms with
    | nil => rfl
    | cons m ms =>
      cases huser : m.isUser with
      | true =>
        have hlast : (turnSuffixes (m :: ms)).getLast?.isSome = true := by
          rw [turnSuffixes_cons, if_pos huser, List.getLast?_isSome]
          exact List.cons_ne_nil _ _
        obtain ⟨last, hlast⟩ := Option.isSome_iff_exists.mp hlast
        simp only [if_pos, huser]
        rw [firstFitting_eq fun b hb _ => hb, map_drop_userBoundaries, drop_lastBoundary, hlast]
        cases (turnSuffixes (m :: ms)).find? (fitsIn maxTokens fixedOverhead) with
        | none => rfl
        | some rest => rfl
      | false =>
        have hboundaries : ∀ b ∈ 0 :: userBoundaries (m :: ms), 0 < b →
            b ∈ userBoundaries (m :: ms) := by
          intro b hb hpos
          rcases List.mem_cons.mp hb with rfl | hb
          · exact absurd hpos (lt_irrefl 0)
          · exact hb
        simp only [huser, Bool.false_eq_true, if_false]
        rw [firstFitting_eq hboundaries, List.map_cons, List.drop_zero, List.find?_cons, hover,
          map_drop_userBoundaries, List.getLastD_cons, drop_lastBoundary, List.drop_zero]
        cases (turnSuffixes (m :: ms)).find? (fitsIn maxTokens fixedOverhead) with
        | none => rfl
        | some rest => rfl

theorem truncated (fits : List Message → Bool) (ms : List Message) :
    Truncated fits ms (if fits ms then ms
      else ((turnSuffixes ms).find? fits).getD ((turnSuffixes ms).getLast?.getD ms)) := by
  cases hfits : fits ms with
  | true => exact .whole hfits
  | false =>
    have hsorted := pairwise_turnSuffixes ms
    rw [if_neg Bool.false_ne_true]
    cases hfind : (turnSuffixes ms).find? fits with
    | some rest =>
      obtain ⟨hrest, before, behind, hsplit, hbefore⟩ := List.find?_eq_some_iff_append.mp hfind
      have hmem : rest ∈ turnSuffixes ms := List.mem_of_find?_eq_some hfind
      refine .longest hfits (mem_turnSuffixes.mp hmem) hrest fun longer hlonger hin => ?_
      have hlonger := mem_turnSuffixes.mpr hlonger
      rw [hsplit] at hlonger hsorted
      rcases List.mem_append.mp hlonger with hlonger | hlonger
      · have hover := hbefore longer hlonger
        rw [hin] at hover
        cases hover
      · rcases List.mem_cons.mp hlonger with rfl | hlonger
        · exact le_rfl
        · have hbehind := (List.pairwise_append.mp hsorted).2.1
          exact ((List.pairwise_cons.mp hbehind).1 longer hlonger).le
    | none =>
      have hnone : ∀ other, TurnSuffix other ms → fits other = false := fun other hother =>
        Bool.eq_false_iff.mpr (List.find?_eq_none.mp hfind other (mem_turnSuffixes.mpr hother))
      cases hlast : (turnSuffixes ms).getLast? with
      | none =>
        refine .noTurn hfits fun other hother => ?_
        rw [List.getLast?_eq_none_iff] at hlast
        exact absurd (mem_turnSuffixes.mpr hother) (hlast ▸ List.not_mem_nil)
      | some rest =>
        obtain ⟨before, hsplit⟩ := List.getLast?_eq_some_iff.mp hlast
        have hmem : rest ∈ turnSuffixes ms := List.mem_of_getLast? hlast
        refine .lastTurn hfits (mem_turnSuffixes.mp hmem) hnone fun other hother => ?_
        have hother := mem_turnSuffixes.mpr hother
        rw [hsplit] at hother hsorted
        rcases List.mem_append.mp hother with hother | hother
        · exact ((List.pairwise_append.mp hsorted).2.2 other hother rest
            (List.mem_singleton_self _)).le
        · exact (congrArg List.length (List.mem_singleton.mp hother)).ge

namespace Truncated

variable {fits : List Message → Bool} {ms rest : List Message}

theorem suffix (h : Truncated fits ms rest) : rest <:+ ms := by
  cases h with
  | whole | noTurn => exact List.suffix_rfl
  | longest _ hrest | lastTurn _ hrest => exact hrest.1

theorem ne_nil (h : Truncated fits ms rest) (hms : ms ≠ []) : rest ≠ [] := by
  cases h with
  | whole | noTurn => exact hms
  | longest _ hrest | lastTurn _ hrest =>
    rintro rfl
    cases hrest.2

theorem getLast? (h : Truncated fits ms rest) (hms : ms ≠ []) : rest.getLast? = ms.getLast? := by
  have hrest := h.ne_nil hms
  obtain ⟨front, rfl⟩ := h.suffix
  rw [List.getLast?_append_of_ne_nil front hrest]

/-- What is left of the messages is left as it is. -/
theorem settled (h : Truncated fits ms rest) {again : List Message}
    (hagain : Truncated fits rest again) : again = rest := by
  cases hagain with
  | whole | noTurn => rfl
  | longest hover hsuffix hin =>
    cases h with
    | whole hfits => cases hfits.symm.trans hover
    | longest _ _ hfits => cases hfits.symm.trans hover
    | lastTurn _ hrest hnone =>
      cases hin.symm.trans (hnone again ⟨hsuffix.1.trans hrest.1, hsuffix.2⟩)
    | noTurn _ hnone => exact absurd hsuffix (hnone again)
  | lastTurn hover hsuffix =>
    cases h with
    | whole hfits => cases hfits.symm.trans hover
    | longest _ _ hfits => cases hfits.symm.trans hover
    | lastTurn _ hrest hnone hmin =>
      -- no turn begins behind the last one
      exact hsuffix.1.eq_of_length_le (hmin again ⟨hsuffix.1.trans hrest.1, hsuffix.2⟩)
    | noTurn _ hnone => exact absurd hsuffix (hnone again)

end Truncated

theorem truncateToBudgetWithOverhead_cases (ms : List Message) (maxTokens : ℕ)
    (fixedOverhead : UInt32) :
    Truncated (fitsIn maxTokens fixedOverhead) ms
      (truncateToBudgetWithOverhead ms maxTokens fixedOverhead) := by
  rw [truncateToBudgetWithOverhead_eq]
  exact truncated _ ms

/-- The messages stay if they fit; otherwise the longest rest of whole turns that fits is kept, or
the last turn when none fits. The last message stays, and what is kept stays the same when it is
truncated again. -/
theorem truncateToBudgetWithOverhead_truncated (ms : List Message) (maxTokens : ℕ)
    (fixedOverhead : UInt32) :
    Truncated (fitsIn maxTokens fixedOverhead) ms
        (truncateToBudgetWithOverhead ms maxTokens fixedOverhead) ∧
      (ms ≠ [] → truncateToBudgetWithOverhead ms maxTokens fixedOverhead ≠ [] ∧
        (truncateToBudgetWithOverhead ms maxTokens fixedOverhead).getLast? = ms.getLast?) ∧
      truncateToBudgetWithOverhead (truncateToBudgetWithOverhead ms maxTokens fixedOverhead)
        maxTokens fixedOverhead = truncateToBudgetWithOverhead ms maxTokens fixedOverhead := by
  have hms := truncateToBudgetWithOverhead_cases ms maxTokens fixedOverhead
  exact ⟨hms, fun hne => ⟨hms.ne_nil hne, hms.getLast? hne⟩,
    hms.settled (truncateToBudgetWithOverhead_cases _ maxTokens fixedOverhead)⟩

end Guigu
