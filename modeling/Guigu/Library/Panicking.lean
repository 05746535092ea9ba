import Mathlib.Init

/-! Code over a state that can return an error and can panic. An error keeps what the code has done
to the state; a panic leaves no state. -/

abbrev Panicking (π σ ε α : Type) : Type := ExceptT ε (StateT σ (Except π)) α

namespace Panicking

variable {π σ ε α β : Type}

/-- A panic, or what is returned, and the state behind it. -/
def outcome (m : Panicking π σ ε α) (s : σ) : Except π (Except ε α × σ) := m.run.run s

def panic (p : π) : Panicking π σ ε α := ExceptT.mk fun _ => .error p

/-- A part that must be there. -/
def demand (found : Option α) (e : ε) : Panicking π σ ε α :=
  match found with
  | some a => pure a
  | none => throw e

section Outcomes

variable {m : Panicking π σ ε α} {f : α → Panicking π σ ε β} {s t : σ}

@[simp] theorem outcome_pure (a : α) (s : σ) :
    outcome (pure a : Panicking π σ ε α) s = .ok (.ok a, s) := rfl

@[simp] theorem outcome_throw (e : ε) (s : σ) :
    outcome (throw e : Panicking π σ ε α) s = .ok (.error e, s) := rfl

@[simp] theorem outcome_panic (p : π) (s : σ) :
    outcome (panic p : Panicking π σ ε α) s = .error p := rfl

@[simp] theorem outcome_get (s : σ) : outcome (get : Panicking π σ ε σ) s = .ok (.ok s, s) := rfl

@[simp] theorem outcome_set (s t : σ) :
    outcome (set t : Panicking π σ ε PUnit) s = .ok (.ok ⟨⟩, t) := rfl

@[simp] theorem outcome_modifyGet (g : σ → α × σ) (s : σ) :
    outcome (modifyGet g : Panicking π σ ε α) s = .ok (.ok (g s).1, (g s).2) := rfl

@[simp] theorem outcome_modify (g : σ → σ) (s : σ) :
    outcome (modify g : Panicking π σ ε PUnit) s = .ok (.ok ⟨⟩, g s) := rfl

/-- The rest of the code goes on with what was returned. -/
theorem outcome_bind_ok {a : α} (h : outcome m s = .ok (.ok a, t)) :
    outcome (m >>= f) s = outcome (f a) t := by
  change (outcome m s).bind _ = _
  rw [h]
  rfl

theorem outcome_bind_error {e : ε} (h : outcome m s = .ok (.error e, t)) :
    outcome (m >>= f) s = .ok (.error e, t) := by
  change (outcome m s).bind _ = _
  rw [h]
  rfl

theorem outcome_bind_panic {p : π} (h : outcome m s = .error p) :
    outcome (m >>= f) s = .error p := by
  change (outcome m s).bind _ = _
  rw [h]
  rfl

end Outcomes

/-- What a mapping of the state makes of it: the state stays when the mapping refuses. -/
def kept (s : σ) : Except ε (α × σ) → Except ε α × σ
  | .ok r => (.ok r.1, r.2)
  | .error e => (.error e, s)

/-- The code panics unless the condition holds; where it holds, the code does what the mapping
says. -/
structure Follows (m : Panicking π σ ε α) (s : σ) (fits : Prop) (mapped : Except ε (α × σ)) :
    Prop where
  returns : fits → outcome m s = .ok (kept s mapped)
  panics : ¬ fits → ∃ p, outcome m s = .error p

namespace Follows

variable {m : Panicking π σ ε α} {f : α → Panicking π σ ε β} {s t : σ} {fits fits' : Prop}
  {mapped : Except ε (α × σ)}

theorem congr (h : Follows m s fits mapped) (hfits : fits ↔ fits') : Follows m s fits' mapped :=
  ⟨fun hholds => h.returns (hfits.mpr hholds), fun hnot => h.panics (mt hfits.mp hnot)⟩

/-- Code that cannot panic. -/
theorem of_outcome (hfits : fits) (h : outcome m s = .ok (kept s mapped)) :
    Follows m s fits mapped :=
  ⟨fun _ => h, fun hnot => absurd hfits hnot⟩

/-- A first step that only looks at the state. -/
theorem bind {a : α} {mapped : Except ε (β × σ)} (h : outcome m s = .ok (.ok a, s))
    (hrest : Follows (f a) s fits mapped) : Follows (m >>= f) s fits mapped := by
  constructor
  · intro hfits
    rw [outcome_bind_ok h]
    exact hrest.returns hfits
  · intro hnot
    rw [outcome_bind_ok h]
    exact hrest.panics hnot

/-- A part that is missing ends the code in the state it has found. -/
theorem demand {found : Option α} {e : ε} {g : α → Except ε (β × σ)}
    {mapped : Except ε (β × σ)} (hmapped : mapped = found.elim (.error e) g)
    (hmissing : found = none → fits) (hrest : ∀ a, found = some a → Follows (f a) s fits (g a)) :
    Follows (Panicking.demand found e >>= f) s fits mapped := by
  subst hmapped
  cases found with
  | none => exact of_outcome (hmissing rfl) rfl
  | some a => exact bind rfl (hrest a rfl)

/-- The state may be changed before the last step that can panic, when that step refuses
nothing. -/
theorem last {a : α} {b : β} {u : σ} (h : outcome m s = .ok (.ok a, t))
    (hreturns : fits → outcome (f a) t = .ok (.ok b, u))
    (hpanics : ¬ fits → ∃ p, outcome (f a) t = .error p) :
    Follows (m >>= f) s fits (.ok (b, u)) := by
  constructor
  · intro hfits
    rw [outcome_bind_ok h]
    exact hreturns hfits
  · intro hnot
    rw [outcome_bind_ok h]
    exact hpanics hnot

/-- The rest of the code neither panics nor refuses. -/
theorem map {g : α → σ → β × σ} (h : Follows m s fits mapped)
    (hrest : ∀ a t, outcome (f a) t = .ok (.ok (g a t).1, (g a t).2)) :
    Follows (m >>= f) s fits (mapped.map fun r => g r.1 r.2) := by
  constructor
  · intro hfits
    have houtcome := h.returns hfits
    cases mapped with
    | error e => exact outcome_bind_error houtcome
    | ok r => exact (outcome_bind_ok houtcome).trans (hrest r.1 r.2)
  · intro hnot
    obtain ⟨p, hp⟩ := h.panics hnot
    exact ⟨p, outcome_bind_panic hp⟩

end Follows

/-- Like `Follows`, but a refusal may leave another state: one of which the invariant is known. -/
structure Leaves (inv : σ → Prop) (m : Panicking π σ ε α) (s : σ) (fits : Prop)
    (mapped : Except ε (α × σ)) : Prop where
  returns : fits → ∃ t, outcome m s = .ok (mapped.map Prod.fst, t) ∧
    (∀ r, mapped = .ok r → t = r.2) ∧ inv t
  panics : ¬ fits → ∃ p, outcome m s = .error p

section Leaves

variable {inv : σ → Prop} {m : Panicking π σ ε α} {f : α → Panicking π σ ε β} {s : σ}
  {fits fits' : Prop} {mapped : Except ε (α × σ)}

theorem Leaves.congr (h : Leaves inv m s fits mapped) (hfits : fits ↔ fits') :
    Leaves inv m s fits' mapped :=
  ⟨fun hholds => h.returns (hfits.mpr hholds), fun hnot => h.panics (mt hfits.mp hnot)⟩

theorem Follows.leaves (h : Follows m s fits mapped) (hs : inv s)
    (hinv : fits → ∀ r, mapped = .ok r → inv r.2) : Leaves inv m s fits mapped := by
  refine ⟨fun hfits => ?_, h.panics⟩
  have houtcome := h.returns hfits
  cases mapped with
  | error e => exact ⟨s, houtcome, by simp, hs⟩
  | ok r => exact ⟨r.2, houtcome, by simp, hinv hfits r rfl⟩

/-- A first step that returns. -/
theorem Leaves.after {a : α} {t : σ} {mapped : Except ε (β × σ)} (h : outcome m s = .ok (.ok a, t))
    (hrest : Leaves inv (f a) t fits mapped) : Leaves inv (m >>= f) s fits mapped := by
  constructor
  · intro hfits
    rw [outcome_bind_ok h]
    exact hrest.returns hfits
  · intro hnot
    rw [outcome_bind_ok h]
    exact hrest.panics hnot

/-- Code that goes on behind other code has what it needs where the other code has, and where it
goes on at all. -/
theorem Leaves.bind {Q : α × σ → Prop} {g : α × σ → Except ε (β × σ)}
    (h : Leaves inv m s fits mapped)
    (hrest : ∀ r, mapped = .ok r → inv r.2 → Leaves inv (f r.1) r.2 (Q r) (g r)) :
    Leaves inv (m >>= f) s (fits ∧ ∀ r, mapped = .ok r → Q r) (mapped.bind g) := by
  constructor
  · rintro ⟨hfits, hgo⟩
    obtain ⟨t, houtcome, hstate, ht⟩ := h.returns hfits
    cases mapped with
    | error e => exact ⟨t, outcome_bind_error houtcome, nofun, ht⟩
    | ok r =>
      obtain rfl := hstate r rfl
      obtain ⟨u, hu⟩ := (hrest r rfl ht).returns (hgo r rfl)
      exact ⟨u, (outcome_bind_ok houtcome).trans hu.1, hu.2⟩
  · intro hnot
    by_cases hfits : fits
    · obtain ⟨t, houtcome, hstate, ht⟩ := h.returns hfits
      cases mapped with
      | error e => exact absurd ⟨hfits, nofun⟩ hnot
      | ok r =>
        obtain rfl := hstate r rfl
        have hstop : ¬ Q r := by
          intro hgo
          refine hnot ⟨hfits, ?_⟩
          rintro r' ⟨⟩
          exact hgo
        obtain ⟨p, hp⟩ := (hrest r rfl ht).panics hstop
        exact ⟨p, (outcome_bind_ok houtcome).trans hp⟩
    · obtain ⟨p, hp⟩ := h.panics hfits
      exact ⟨p, outcome_bind_panic hp⟩

theorem Leaves.map (h : Leaves inv m s fits mapped) (g : α → β) :
    Leaves inv (do return g (← m)) s fits (mapped.map fun r => (g r.1, r.2)) := by
  constructor
  · intro hfits
    obtain ⟨t, houtcome, hstate, ht⟩ := h.returns hfits
    cases mapped with
    | error e => exact ⟨t, outcome_bind_error houtcome, nofun, ht⟩
    | ok r =>
      refine ⟨t, outcome_bind_ok houtcome, ?_, ht⟩
      rintro r' ⟨⟩
      exact hstate r rfl
  · intro hnot
    obtain ⟨p, hp⟩ := h.panics hnot
    exact ⟨p, outcome_bind_panic hp⟩

end Leaves

/-! ### Refusals -/

section Refusals

variable {m : Panicking π σ ε α} {f : α → Panicking π σ ε β}

/-- An error comes from the first part of the code or from the rest of it. -/
theorem outcome_bind_refused {s t : σ} {e : ε} (h : outcome (m >>= f) s = .ok (.error e, t)) :
    outcome m s = .ok (.error e, t) ∨
      ∃ a u, outcome m s = .ok (.ok a, u) ∧ outcome (f a) u = .ok (.error e, t) := by
  cases hm : outcome m s with
  | error p =>
    rw [outcome_bind_panic hm] at h
    cases h
  | ok r =>
    obtain ⟨_ | a, u⟩ := r
    · rw [outcome_bind_error hm] at h
      cases h
      exact .inl rfl
    · rw [outcome_bind_ok hm] at h
      exact .inr ⟨a, u, rfl, h⟩

/-- The code returns no error. -/
def Accepts (m : Panicking π σ ε α) : Prop := ∀ s e t, outcome m s ≠ .ok (.error e, t)

/-- The code does nothing to the state. -/
def Looks (m : Panicking π σ ε α) : Prop := ∀ s r t, outcome m s = .ok (r, t) → t = s

/-- What the code does to the state is undone, or not done yet, where it returns an error. -/
def Clean (m : Panicking π σ ε α) : Prop := ∀ s e t, outcome m s = .ok (.error e, t) → t = s

namespace Accepts

theorem pure (a : α) : Accepts (Pure.pure a : Panicking π σ ε α) := by
  rintro s e t ⟨⟩

theorem panic (p : π) : Accepts (Panicking.panic p : Panicking π σ ε α) := by
  rintro s e t ⟨⟩

theorem get : Accepts (MonadState.get : Panicking π σ ε σ) := by
  rintro s e t ⟨⟩

theorem set (u : σ) : Accepts (MonadStateOf.set u : Panicking π σ ε PUnit) := by
  rintro s e t ⟨⟩

theorem modifyGet (g : σ → α × σ) :
    Accepts (MonadState.modifyGet g : Panicking π σ ε α) := by
  rintro s e t ⟨⟩

theorem bind (hm : Accepts m) (hf : ∀ a, Accepts (f a)) : Accepts (m >>= f) := by
  intro s e t h
  obtain hfirst | ⟨a, u, -, hrest⟩ := outcome_bind_refused h
  · exact hm s e t hfirst
  · exact hf a u e t hrest

/-- A check that is no error but a panic. -/
theorem checked {c : Prop} [Decidable c] (hm : Accepts m) (p : π) :
    Accepts (if c then m else Panicking.panic p) := by
  split
  · exact hm
  · exact panic p

theorem clean (hm : Accepts m) : Clean m := fun s e t h => absurd h (hm s e t)

end Accepts

namespace Looks

theorem get : Looks (MonadState.get : Panicking π σ ε σ) := by
  rintro s r t ⟨⟩
  rfl

theorem throw (e : ε) : Looks (MonadExcept.throw e : Panicking π σ ε α) := by
  rintro s r t ⟨⟩
  rfl

theorem demand (found : Option α) (e : ε) :
    Looks (Panicking.demand found e : Panicking π σ ε α) := by
  cases found <;> rintro s r t ⟨⟩ <;> rfl

theorem clean (hm : Looks m) : Clean m := fun s e t h => hm s (.error e) t h

/-- What only looks can stand in front. -/
theorem bind (hm : Looks m) (hf : ∀ a, Clean (f a)) : Clean (m >>= f) := by
  intro s e t h
  obtain hfirst | ⟨a, u, hlook, hrest⟩ := outcome_bind_refused h
  · exact hm s (.error e) t hfirst
  · rw [hf a u e t hrest]
    exact hm s (.ok a) u hlook

end Looks

end Refusals

end Panicking
