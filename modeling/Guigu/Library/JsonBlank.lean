import Guigu.Library.JsonRoundTrip

/-! Line ends behind a JSON text do not matter to the reader. -/
namespace Json

/-- What is left of a literal has no control characters. -/
def Scan.Regular (sc : Scan) : Prop := ∀ rest v, sc.mode = .literal rest v → Printable rest

theorem regular_deliver (s : List Frame) (v : Json) : (deliver s v).Regular := by
  cases s with
  | nil => exact fun rest w h => by cases h
  | cons f s => cases f <;> exact fun rest w h => by cases h

theorem regular_startValue {s : List Frame} {c : Char} {sc : Scan}
    (h : startValue s c = some sc) : sc.Regular := by
  have hlit : ∀ (text : List Char) (v : Json), Printable text →
      Scan.Regular ⟨s, .literal text v⟩ := by
    intro text v ht rest w hm
    cases hm
    exact ht
  unfold startValue at h
  split_ifs at h
  · cases h; exact fun rest w hm => by cases hm
  · cases h; exact fun rest w hm => by cases hm
  · cases h; exact fun rest w hm => by cases hm
  · cases h; exact hlit _ _ (printable_of_all rfl)
  · cases h; exact hlit _ _ (printable_of_all rfl)
  · cases h; exact hlit _ _ (printable_of_all rfl)
  · obtain ⟨st, -, rfl⟩ := Option.map_eq_some_iff.mp h
    exact fun rest w hm => by cases hm

theorem Scan.Regular.stepEnd {sc sc' : Scan} {c : Char} (h : sc.Regular)
    (hstep : sc.stepEnd c = some sc') : sc'.Regular := by
  by_cases hw : isWhitespace c = true
  · rw [Scan.stepEnd, if_pos hw] at hstep
    exact Option.some.inj hstep ▸ h
  rw [Scan.stepEnd, if_neg hw] at hstep
  obtain ⟨stack, mode⟩ := sc
  cases mode with
  | itemEnd done =>
    simp only at hstep
    split at hstep
    · cases hstep; exact fun rest w hm => by cases hm
    · split_ifs at hstep
      exact Option.some.inj hstep ▸ regular_deliver _ _
  | fieldEnd done =>
    simp only at hstep
    split at hstep
    · cases hstep; exact fun rest w hm => by cases hm
    · split_ifs at hstep
      exact Option.some.inj hstep ▸ regular_deliver _ _
  | _ => cases hstep

theorem Scan.Regular.step {sc sc' : Scan} {c : Char} (h : sc.Regular)
    (hstep : sc.step c = some sc') : sc'.Regular := by
  obtain ⟨stack, mode⟩ := sc
  cases mode with
  | value =>
    simp only [Scan.step] at hstep
    split_ifs at hstep
    · exact Option.some.inj hstep ▸ h
    · exact regular_startValue hstep
  | firstItem =>
    simp only [Scan.step] at hstep
    split_ifs at hstep
    · exact Option.some.inj hstep ▸ h
    · exact Option.some.inj hstep ▸ regular_deliver _ _
    · exact regular_startValue hstep
  | firstKey =>
    simp only [Scan.step] at hstep
    split_ifs at hstep
    · exact Option.some.inj hstep ▸ h
    · cases hstep; exact fun rest w hm => by cases hm
    · exact Option.some.inj hstep ▸ regular_deliver _ _
  | nextKey done =>
    simp only [Scan.step] at hstep
    split_ifs at hstep
    · exact Option.some.inj hstep ▸ h
    · cases hstep; exact fun rest w hm => by cases hm
  | colon done k =>
    simp only [Scan.step] at hstep
    split_ifs at hstep
    · exact Option.some.inj hstep ▸ h
    · cases hstep; exact fun rest w hm => by cases hm
  | string key text st =>
    simp only [Scan.step] at hstep
    obtain ⟨r, -, rfl⟩ := Option.map_eq_some_iff.mp hstep
    cases r with
    | close =>
      cases key with
      | none => exact regular_deliver _ _
      | some done => exact fun rest w hm => by cases hm
    | _ => exact fun rest w hm => by cases hm
  | number text st =>
    simp only [Scan.step] at hstep
    cases hn : st.step c with
    | some st' =>
      rw [hn] at hstep
      cases hstep
      exact fun rest w hm => by cases hm
    | none =>
      rw [hn] at hstep
      obtain ⟨n, -, hend⟩ := Option.bind_eq_some_iff.mp hstep
      exact (regular_deliver _ _).stepEnd hend
  | literal rest v =>
    have hr := h rest v rfl
    cases rest with
    | nil => cases hstep
    | cons d ds =>
      simp only [Scan.step] at hstep
      split_ifs at hstep
      · exact Option.some.inj hstep ▸ regular_deliver _ _
      · cases hstep
        intro rest w hm
        cases hm
        exact (List.forall_mem_cons.mp hr).2
  | itemEnd done => exact h.stepEnd hstep
  | fieldEnd done => exact h.stepEnd hstep
  | finished v => exact h.stepEnd hstep

theorem Scan.Regular.run {sc sc' : Scan} {cs : List Char} (h : sc.Regular)
    (hrun : sc.run cs = some sc') : sc'.Regular := by
  induction cs generalizing sc with
  | nil => exact Option.some.inj hrun ▸ h
  | cons c cs ih =>
    obtain ⟨mid, hmid, hrest⟩ := Option.bind_eq_some_iff.mp hrun
    exact ih (h.step hmid) hrest

theorem finish_deliver (s : List Frame) (v : Json) :
    (deliver s v).finish = if s = [] then some v else none := by
  cases s with
  | nil => rfl
  | cons f s => cases f <;> simp [deliver, Scan.finish]

theorem StrState.step_lineEnd (st : StrState) {c : Char} (hc : c = '\n' ∨ c = '\r') :
    st.step c = none := by
  have hx : hexVal c = none := by rcases hc with rfl | rfl <;> decide
  cases st with
  | hex k acc => simp [StrState.step, hx]
  | low u k acc => simp [StrState.step, hx]
  | _ => rcases hc with rfl | rfl <;> simp +decide [StrState.step]

/-- A line end adds nothing to what was read. -/
theorem Scan.Regular.finish_step {sc : Scan} (h : sc.Regular) {c : Char}
    (hc : c = '\n' ∨ c = '\r') : (sc.step c).bind Scan.finish = sc.finish := by
  have hw : isWhitespace c = true := by rcases hc with rfl | rfl <;> decide
  have hctl : c.toNat < 32 := by rcases hc with rfl | rfl <;> decide
  obtain ⟨stack, mode⟩ := sc
  cases mode with
  | string key text st =>
    cases stack <;> simp [Scan.step, st.step_lineEnd hc, Scan.finish]
  | number text st =>
    simp only [Scan.step, NumState.step_control st hctl]
    cases hn : Numeral.ofChars? text with
    | none => cases stack <;> simp [Scan.finish, hn]
    | some n =>
      have hend : (deliver stack (.num n)).stepEnd c = some (deliver stack (.num n)) := by
        simp [Scan.stepEnd, hw]
      rw [Option.bind_some, hend, Option.bind_some, finish_deliver]
      cases stack <;> simp [Scan.finish, hn]
  | literal rest v =>
    have hr := h rest v rfl
    cases rest with
    | nil => cases stack <;> rfl
    | cons d ds =>
      have hne : c ≠ d := by
        rintro rfl
        exact hr.not_mem hctl List.mem_cons_self
      cases stack <;> simp [Scan.step, hne, Scan.finish]
  | _ => simp [Scan.step, Scan.stepEnd, hw]

theorem parse_append_lineEnd {c : Char} (hc : c = '\n' ∨ c = '\r') (cs : List Char) :
    parse (cs ++ [c]) = parse cs := by
  rw [parse, parse, Scan.run_append]
  cases hrun : Scan.init.run cs with
  | none => rfl
  | some sc =>
    have hinit : Scan.init.Regular := fun rest w hm => by cases hm
    have hreg := hinit.run hrun
    rw [Option.bind_some, Option.bind_some, Scan.run_cons, ← hreg.finish_step hc]
    cases sc.step c <;> rfl

end Json
