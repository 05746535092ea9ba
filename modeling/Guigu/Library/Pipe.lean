import Mathlib.Data.List.Infix

/-! A channel in two legs that keeps the order: a queue with one writer, and the stream it writes
to. The writer may break; what it held is lost then, and nothing follows it. -/
namespace Pipe

variable {α : Type*}

/-- What was put in is what was taken out, what is on the stream, what was lost with the writer and
what still waits for it. -/
def Conveys (put taken stream queue : List α) (broken : Prop) : Prop :=
  ∃ lost, put = taken ++ stream ++ lost ++ queue ∧ (lost ≠ [] → broken)

variable {put taken stream queue : List α} {broken broken' : Prop} {x : α}

theorem Conveys.empty : Conveys ([] : List α) [] [] [] broken := ⟨[], rfl, fun h => absurd rfl h⟩

namespace Conveys

/-- Nothing is out of order, and nothing is taken twice. -/
theorem taken_prefix (h : Conveys put taken stream queue broken) : taken <+: put := by
  obtain ⟨lost, rfl, -⟩ := h
  rw [List.append_assoc, List.append_assoc]
  exact List.prefix_append _ _

theorem mono (h : Conveys put taken stream queue broken) (hbroken : broken → broken') :
    Conveys put taken stream queue broken' := by
  obtain ⟨lost, hput, hlost⟩ := h
  exact ⟨lost, hput, fun hne => hbroken (hlost hne)⟩

theorem append (h : Conveys put taken stream queue broken) (xs : List α) :
    Conveys (put ++ xs) taken stream (queue ++ xs) broken := by
  obtain ⟨lost, rfl, hlost⟩ := h
  exact ⟨lost, List.append_assoc _ _ _, hlost⟩

theorem take (h : Conveys put taken (x :: stream) queue broken) :
    Conveys put (taken ++ [x]) stream queue broken := by
  obtain ⟨lost, rfl, hlost⟩ := h
  exact ⟨lost, by simp, hlost⟩

theorem write (h : Conveys put taken stream (x :: queue) broken) (hbroken : ¬broken) :
    Conveys put taken (stream ++ [x]) queue broken := by
  obtain ⟨lost, rfl, hlost⟩ := h
  have hnone : lost = [] := by
    by_contra hne
    exact hbroken (hlost hne)
  exact ⟨[], by simp [hnone], fun hne => absurd rfl hne⟩

/-- A writer that breaks takes the first of its queue with it. -/
theorem lose (h : Conveys put taken stream (x :: queue) broken) (hbroken : broken') :
    Conveys put taken stream queue broken' := by
  obtain ⟨lost, rfl, -⟩ := h
  exact ⟨lost ++ [x], by simp, fun _ => hbroken⟩

/-- The queue of a broken writer is dropped. -/
theorem drop (h : Conveys put taken stream queue broken) (hbroken : broken') :
    Conveys put taken stream [] broken' := by
  obtain ⟨lost, rfl, -⟩ := h
  exact ⟨lost ++ queue, by simp, fun _ => hbroken⟩

/-- While the writer works, nothing is missing. -/
theorem eq_of_not_broken (h : Conveys put taken stream queue broken) (hbroken : ¬broken) :
    put = taken ++ stream ++ queue := by
  obtain ⟨lost, rfl, hlost⟩ := h
  have hnone : lost = [] := by
    by_contra hne
    exact hbroken (hlost hne)
  rw [hnone, List.append_nil]

end Conveys

end Pipe
