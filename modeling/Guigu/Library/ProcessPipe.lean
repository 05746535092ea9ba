import Mathlib.Data.List.Basic

/-! A pipe that processes write into, which hands its end for writing on to the processes they
start, and its reader. What does not fit waits; the reader is at the end when nothing is left and no
process holds the pipe. -/

structure ProcessPipe (α : Type*) where
  /-- The processes that can write. -/
  holders : List ℕ
  /-- What has been written, all in all. -/
  written : List α
  buffered : List α
  read : List α
  /-- The reader has come to the end. -/
  ended : Bool

namespace ProcessPipe

variable {α : Type*}

/-- A pipe that one process holds. -/
def opened (process : ℕ) : ProcessPipe α := ⟨[process], [], [], [], false⟩

/-- A process writes as much as there is room for. -/
def write (capacity : ℕ) (p : ProcessPipe α) (process : ℕ) (data : List α) : ProcessPipe α :=
  if process ∈ p.holders then
    { p with
      written := p.written ++ data.take (capacity - p.buffered.length)
      buffered := p.buffered ++ data.take (capacity - p.buffered.length) }
  else p

/-- A process has started another one. -/
def fork (p : ProcessPipe α) (process started : ℕ) : ProcessPipe α :=
  if process ∈ p.holders then { p with holders := started :: p.holders } else p

def close (p : ProcessPipe α) (process : ℕ) : ProcessPipe α :=
  { p with holders := p.holders.filter (· ≠ process) }

/-- The reader takes some of what is there; without anything it waits for those that can write. -/
def drain (p : ProcessPipe α) (amount : ℕ) : ProcessPipe α :=
  if p.buffered ≠ [] then
    { p with read := p.read ++ p.buffered.take amount, buffered := p.buffered.drop amount }
  else if p.holders = [] then { p with ended := true }
  else p

@[simp] theorem drain_holders (p : ProcessPipe α) (amount : ℕ) :
    (p.drain amount).holders = p.holders := by
  unfold drain
  split_ifs <;> rfl

@[simp] theorem drain_written (p : ProcessPipe α) (amount : ℕ) :
    (p.drain amount).written = p.written := by
  unfold drain
  split_ifs <;> rfl

/-- Nothing is lost on the way, and behind the end nothing can come. -/
structure Sound (capacity : ℕ) (p : ProcessPipe α) : Prop where
  whole : p.written = p.read ++ p.buffered
  room : p.buffered.length ≤ capacity
  last : p.ended = true → p.buffered = [] ∧ p.holders = []

namespace Sound

variable {capacity : ℕ} {p : ProcessPipe α}

theorem opened (process : ℕ) : Sound capacity (opened process : ProcessPipe α) :=
  ⟨rfl, Nat.zero_le _, fun h => by cases h⟩

theorem write (h : Sound capacity p) (process : ℕ) (data : List α) :
    Sound capacity (p.write capacity process data) := by
  unfold ProcessPipe.write
  split_ifs with hholds
  · refine ⟨?_, ?_, fun hended => ?_⟩
    · rw [h.whole, List.append_assoc]
    · have hroom := h.room
      rw [List.length_append, List.length_take]
      omega
    · rw [(h.last hended).2] at hholds
      cases hholds
  · exact h

theorem fork (h : Sound capacity p) (process started : ℕ) :
    Sound capacity (p.fork process started) := by
  unfold ProcessPipe.fork
  split_ifs with hholds
  · refine ⟨h.whole, h.room, fun hended => ?_⟩
    rw [(h.last hended).2] at hholds
    cases hholds
  · exact h

theorem close (h : Sound capacity p) (process : ℕ) : Sound capacity (p.close process) := by
  refine ⟨h.whole, h.room, fun hended => ?_⟩
  obtain ⟨hempty, hnone⟩ := h.last hended
  refine ⟨hempty, ?_⟩
  rw [ProcessPipe.close, hnone]
  rfl

theorem drain (h : Sound capacity p) (amount : ℕ) : Sound capacity (p.drain amount) := by
  unfold ProcessPipe.drain
  split_ifs with hsome hnone
  · refine ⟨?_, ?_, fun hended => absurd (h.last hended).1 hsome⟩
    · rw [h.whole, List.append_assoc, List.take_append_drop]
    · exact Nat.le_trans (List.drop_sublist _ _).length_le h.room
  · exact ⟨h.whole, h.room, fun _ => ⟨not_not.mp hsome, hnone⟩⟩
  · exact h

/-- At the end everything has been read. -/
theorem read_eq (h : Sound capacity p) (hended : p.ended = true) : p.read = p.written := by
  rw [h.whole, (h.last hended).1, List.append_nil]

theorem buffered_drain (h : Sound capacity p) : (p.drain capacity).buffered = [] := by
  unfold ProcessPipe.drain
  split_ifs with hsome
  · exact List.drop_eq_nil_of_le h.room
  · exact not_not.mp hsome
  · exact not_not.mp hsome

/-- A pipe that no process holds any more comes to its end. -/
theorem ended_drain (h : Sound capacity p) (hnone : p.holders = []) :
    ((p.drain capacity).drain capacity).ended = true := by
  rw [ProcessPipe.drain, if_neg (not_not.mpr h.buffered_drain), if_pos (by rwa [drain_holders])]

/-- Behind a reader that takes all there is, there is room for as much as the pipe can hold. -/
theorem written_drain (h : Sound capacity p) {process : ℕ} (hholds : process ∈ p.holders)
    {data : List α} (hdata : data.length ≤ capacity) :
    ((p.drain capacity).write capacity process data).written = p.written ++ data := by
  rw [ProcessPipe.write, if_pos (by rwa [drain_holders])]
  simp only [drain_written, h.buffered_drain, List.length_nil, Nat.sub_zero,
    List.take_of_length_le hdata]

/-! Behind its end a pipe stays as it is. -/

theorem write_ended (h : Sound capacity p) (hended : p.ended = true) (process : ℕ)
    (data : List α) : p.write capacity process data = p := by
  rw [ProcessPipe.write, if_neg]
  rw [(h.last hended).2]
  exact List.not_mem_nil

theorem fork_ended (h : Sound capacity p) (hended : p.ended = true) (process started : ℕ) :
    p.fork process started = p := by
  rw [ProcessPipe.fork, if_neg]
  rw [(h.last hended).2]
  exact List.not_mem_nil

theorem close_ended (h : Sound capacity p) (hended : p.ended = true) (process : ℕ) :
    p.close process = p := by
  have hnone := (h.last hended).2
  cases p
  cases hnone
  rfl

theorem drain_ended (h : Sound capacity p) (hended : p.ended = true) (amount : ℕ) :
    p.drain amount = p := by
  obtain ⟨hempty, hnone⟩ := h.last hended
  rw [ProcessPipe.drain, if_neg (not_not.mpr hempty), if_pos hnone, ← hended]

end Sound

end ProcessPipe
