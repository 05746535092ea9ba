import Mathlib.Data.Nat.Basic

/-! A broadcast channel that keeps its newest values only. A receiver that is too slow is told how
many values it has missed, and goes on with the oldest one that is left. -/
namespace Broadcast

structure Channel (α : Type*) where
  capacity : ℕ
  sent : List α
  deriving DecidableEq, Repr

inductive Received (α : Type*) where
  | value (a : α)
  | lagged (missed : ℕ)
  | empty
  deriving DecidableEq, Repr

namespace Channel

variable {α : Type*} (c : Channel α)

def send (a : α) : Channel α := { c with sent := c.sent ++ [a] }

/-- The position of the oldest value in the buffer. -/
def oldest : ℕ := c.sent.length - c.capacity

/-- What a receiver at `next` gets, and where it is afterwards. -/
def recv (next : ℕ) : Received α × ℕ :=
  if next < c.oldest then (.lagged (c.oldest - next), c.oldest)
  else
    match c.sent[next]? with
    | some a => (.value a, next + 1)
    | none => (.empty, next)

/-- The values that a receiver at `next` can still get. -/
def unread (next : ℕ) : List α := c.sent.drop (max next c.oldest)

/-- The value that the next one overwrites, unless the receiver has seen it. -/
def overwritten? (next : ℕ) : Option α :=
  if c.capacity ≤ c.sent.length ∧ next ≤ c.oldest then c.sent[c.oldest]? else none

variable {c} {next : ℕ}

/-- A send adds its value and takes the overwritten one away. -/
theorem unread_send (hc : 0 < c.capacity) (hnext : next ≤ c.sent.length) (a : α) :
    c.unread next ++ [a] = (c.overwritten? next).toList ++ (c.send a).unread next := by
  have hsent : (c.send a).sent = c.sent ++ [a] := rfl
  have hlen : (c.send a).sent.length = c.sent.length + 1 := by rw [hsent, List.length_append]; rfl
  have hold : (c.send a).oldest = c.sent.length + 1 - c.capacity := by
    show (c.send a).sent.length - c.capacity = _
    rw [hlen]
  have hpos : ∀ k ≤ c.sent.length, (c.send a).sent.drop k = c.sent.drop k ++ [a] :=
    fun k hk => by rw [hsent, List.drop_append_of_le_length hk]
  unfold unread overwritten?
  rw [hold]
  unfold oldest
  by_cases hfull : c.capacity ≤ c.sent.length ∧ next ≤ c.sent.length - c.capacity
  · obtain ⟨hcap, hbehind⟩ := hfull
    have hlt : c.sent.length - c.capacity < c.sent.length := by omega
    have hmax : max next (c.sent.length - c.capacity) = c.sent.length - c.capacity :=
      max_eq_right hbehind
    have hmax' : max next (c.sent.length + 1 - c.capacity) = c.sent.length - c.capacity + 1 := by
      omega
    rw [if_pos ⟨hcap, hbehind⟩, hmax, hmax', hpos _ (by omega), List.drop_eq_getElem_cons hlt,
      List.getElem?_eq_getElem hlt]
    rfl
  · have hsame : max next (c.sent.length + 1 - c.capacity) =
        max next (c.sent.length - c.capacity) := by
      omega
    have hle : max next (c.sent.length - c.capacity) ≤ c.sent.length := by omega
    rw [if_neg hfull, hsame, hpos _ hle]
    rfl

/-- What a receiver gets is the first of what it can get. -/
theorem recv_cases (c : Channel α) (next : ℕ) :
    (∃ a, c.recv next = (.value a, next + 1) ∧ next + 1 ≤ c.sent.length ∧
        c.unread next = a :: c.unread (next + 1)) ∨
      (∃ missed, c.recv next = (.lagged missed, c.oldest) ∧
        c.unread next = c.unread c.oldest) ∨
      c.recv next = (.empty, next) := by
  unfold recv
  split_ifs with hlag
  · refine .inr (.inl ⟨_, rfl, ?_⟩)
    rw [unread, unread, max_eq_right (le_of_lt hlag), max_self]
  · have hle := not_lt.mp hlag
    by_cases hend : next < c.sent.length
    · left
      refine ⟨c.sent[next], ?_, hend, ?_⟩
      · rw [List.getElem?_eq_getElem hend]
      · rw [unread, unread, max_eq_left hle, max_eq_left (by omega),
          List.drop_eq_getElem_cons hend]
    · right
      right
      rw [List.getElem?_eq_none (not_lt.mp hend)]

theorem recv_value {next' : ℕ} {a : α} (h : c.recv next = (.value a, next')) :
    next' = next + 1 ∧ c.sent[next]? = some a := by
  unfold recv at h
  split_ifs at h with hlag
  · cases h
  · split at h
    · rename_i b hget
      cases h
      exact ⟨rfl, hget⟩
    · cases h

theorem recv_lagged {next' missed : ℕ} (h : c.recv next = (.lagged missed, next')) :
    0 < missed ∧ next < next' ∧ next' ≤ c.sent.length := by
  unfold recv at h
  split_ifs at h with hlag
  · cases h
    exact ⟨Nat.sub_pos_of_lt hlag, hlag, Nat.sub_le _ _⟩
  · split at h
    · cases h
    · cases h

/-- A receiver does not go back. -/
theorem le_recv (c : Channel α) (next : ℕ) : next ≤ (c.recv next).2 := by
  unfold recv
  split_ifs with hlag
  · exact Nat.le_of_lt hlag
  · split
    · exact Nat.le_succ next
    · exact le_rfl

theorem length_le_send (c : Channel α) (a : α) : c.sent.length ≤ (c.send a).sent.length := by
  show _ ≤ (c.sent ++ [a]).length
  rw [List.length_append]
  exact Nat.le_add_right _ _

theorem oldest_le : c.oldest ≤ c.sent.length := Nat.sub_le _ _

end Channel

end Broadcast
