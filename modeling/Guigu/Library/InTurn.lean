import Mathlib.Data.List.Basic

/-! Calls that are made in turn, over a state that each of them may change, until one fails. -/
namespace InTurn

variable {η ε α σ : Type*} (call : η → σ → Except ε α × σ)

/-- All calls succeed, with these values. -/
inductive Passes : List η → σ → List α → σ → Prop
  | nil (s : σ) : Passes [] s [] s
  | cons {h : η} {hs : List η} {s s' t : σ} {a : α} {as : List α} :
      call h s = (.ok a, s') → Passes hs s' as t → Passes (h :: hs) s (a :: as) t

/-- The calls in front of one that fails succeed, with these values; no other is made. -/
inductive Halts : List η → σ → List α → ε → σ → Prop
  | here {h : η} {hs : List η} {s s' : σ} {e : ε} :
      call h s = (.error e, s') → Halts (h :: hs) s [] e s'
  | later {h : η} {hs : List η} {s s' t : σ} {a : α} {as : List α} {e : ε} :
      call h s = (.ok a, s') → Halts hs s' as e t → Halts (h :: hs) s (a :: as) e t

theorem passes_or_halts (hs : List η) (s : σ) :
    (∃ as t, Passes call hs s as t) ∨ ∃ as e t, Halts call hs s as e t := by
  induction hs generalizing s with
  | nil => exact .inl ⟨[], s, .nil s⟩
  | cons h hs ih =>
    cases hcall : call h s with
    | mk result s' =>
      cases result with
      | error e => exact .inr ⟨[], e, s', .here hcall⟩
      | ok a =>
        rcases ih s' with ⟨as, t, hpass⟩ | ⟨as, e, t, hhalt⟩
        · exact .inl ⟨a :: as, t, .cons hcall hpass⟩
        · exact .inr ⟨a :: as, e, t, .later hcall hhalt⟩

variable {call} {hs : List η} {s t : σ}

/-- The first call that fails, between those in front of it and the others. -/
theorem Halts.exists_split {as : List α} {e : ε} (h : Halts call hs s as e t) :
    ∃ front k back u, hs = front ++ k :: back ∧ Passes call front s as u ∧
      call k u = (.error e, t) := by
  induction h with
  | @here h hs s s' e hcall => exact ⟨[], h, hs, s, rfl, .nil s, hcall⟩
  | @later h hs s s' t a as e hcall _ ih =>
    obtain ⟨front, k, back, u, rfl, hpass, hfail⟩ := ih
    exact ⟨h :: front, k, back, u, rfl, .cons hcall hpass, hfail⟩

theorem Passes.halts_append {as : List α} {e : ε} {k : η} {u : σ} (h : Passes call hs s as u)
    (hfail : call k u = (.error e, t)) (back : List η) : Halts call (hs ++ k :: back) s as e t := by
  induction h with
  | nil s => exact .here hfail
  | cons hcall _ ih => exact .later hcall (ih hfail)

end InTurn
