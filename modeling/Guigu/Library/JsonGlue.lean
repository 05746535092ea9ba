import Guigu.Library.JsonRoundTrip

/-! Where the text of an object is cut short, no text of another object behind it makes a value
of the whole. -/
namespace Json

/-- Between the parts of a container. -/
def Mode.within : Mode → Bool
  | .firstItem | .firstKey | .nextKey _ | .colon _ _ | .itemEnd _ | .fieldEnd _ => true
  | .string key _ _ => key.isSome
  | .value | .number _ _ | .literal _ _ | .finished _ => false

/-- The rest of a literal opens no object. -/
def Mode.spelt : Mode → Prop
  | .literal rest _ => '{' ∉ rest
  | _ => True

/-- Some container is still open. -/
structure Scan.Inside (sc : Scan) : Prop where
  within : sc.stack ≠ [] ∨ sc.mode.within = true
  spelt : sc.mode.spelt

namespace Scan.Inside

theorem finish {sc : Scan} (h : sc.Inside) : sc.finish = none := by
  obtain ⟨stack, mode⟩ := sc
  cases stack with
  | cons f s => cases mode <;> rfl
  | nil =>
    have hmode : mode.within = true := h.within.resolve_left (by simp)
    cases mode with
    | finished v => cases hmode
    | number text st => cases hmode
    | _ => rfl

theorem deliver {s : List Frame} (hs : s ≠ []) (v : Json) : (Json.deliver s v).Inside := by
  cases s with
  | nil => exact absurd rfl hs
  | cons f s =>
    cases f with
    | arr done => exact ⟨.inr rfl, trivial⟩
    | obj done key => exact ⟨.inr rfl, trivial⟩

/-- A complete value leaves its container open, or everything is complete. -/
theorem of_deliver (s : List Frame) (v : Json) :
    (Json.deliver s v).Inside ∨ ∃ w, Json.deliver s v = ⟨[], .finished w⟩ := by
  by_cases hs : s = []
  · rw [hs]
    exact .inr ⟨v, rfl⟩
  · exact .inl (deliver hs v)

theorem startValue {s : List Frame} (hs : s ≠ []) {c : Char} {sc : Scan}
    (h : Json.startValue s c = some sc) : sc.Inside := by
  unfold Json.startValue at h
  split_ifs at h
  · exact Option.some.inj h ▸ ⟨.inl hs, trivial⟩
  · exact Option.some.inj h ▸ ⟨.inl hs, trivial⟩
  · exact Option.some.inj h ▸ ⟨.inl hs, trivial⟩
  iterate 3
    · obtain rfl := Option.some.inj h
      refine ⟨.inl hs, ?_⟩
      show '{' ∉ _
      decide
  · obtain ⟨st, -, rfl⟩ := Option.map_eq_some_iff.mp h
    exact ⟨.inl hs, trivial⟩

theorem stepEnd {sc sc' : Scan} (h : sc.Inside) {c : Char} (hstep : sc.stepEnd c = some sc') :
    sc'.Inside ∨ ∃ v, sc' = ⟨[], .finished v⟩ := by
  obtain ⟨stack, mode⟩ := sc
  rw [Scan.stepEnd] at hstep
  by_cases hw : isWhitespace c
  · rw [if_pos hw] at hstep
    exact .inl (Option.some.inj hstep ▸ h)
  rw [if_neg hw] at hstep
  cases mode with
  | itemEnd done =>
    simp only at hstep
    split_ifs at hstep
    · exact .inl (Option.some.inj hstep ▸ ⟨.inl (List.cons_ne_nil _ _), trivial⟩)
    · exact Option.some.inj hstep ▸ of_deliver _ _
  | fieldEnd done =>
    simp only at hstep
    split_ifs at hstep
    · exact .inl (Option.some.inj hstep ▸ ⟨.inr rfl, trivial⟩)
    · exact Option.some.inj hstep ▸ of_deliver _ _
  | _ => cases hstep

/-- The next character leaves a container open, or completes the outermost value. -/
theorem step {sc sc' : Scan} (h : sc.Inside) {c : Char} (hstep : sc.step c = some sc') :
    sc'.Inside ∨ ∃ v, sc' = ⟨[], .finished v⟩ := by
  obtain ⟨stack, mode⟩ := sc
  have hstack : mode.within = false → stack ≠ [] := fun hm =>
    h.within.resolve_right (by rw [hm]; exact Bool.false_ne_true)
  cases mode with
  | value =>
    simp only [Scan.step] at hstep
    split_ifs at hstep
    · exact .inl (Option.some.inj hstep ▸ h)
    · exact .inl (startValue (hstack rfl) hstep)
  | firstItem =>
    simp only [Scan.step] at hstep
    split_ifs at hstep
    · exact .inl (Option.some.inj hstep ▸ h)
    · exact Option.some.inj hstep ▸ of_deliver _ _
    · exact .inl (startValue (List.cons_ne_nil _ _) hstep)
  | firstKey =>
    simp only [Scan.step] at hstep
    split_ifs at hstep
    · exact .inl (Option.some.inj hstep ▸ h)
    · exact .inl (Option.some.inj hstep ▸ ⟨.inr rfl, trivial⟩)
    · exact Option.some.inj hstep ▸ of_deliver _ _
  | nextKey done =>
    simp only [Scan.step] at hstep
    split_ifs at hstep
    · exact .inl (Option.some.inj hstep ▸ h)
    · exact .inl (Option.some.inj hstep ▸ ⟨.inr rfl, trivial⟩)
  | colon done k =>
    simp only [Scan.step] at hstep
    split_ifs at hstep
    · exact .inl (Option.some.inj hstep ▸ h)
    · exact .inl (Option.some.inj hstep ▸ ⟨.inl (List.cons_ne_nil _ _), trivial⟩)
  | string key text st =>
    simp only [Scan.step] at hstep
    obtain ⟨r, -, rfl⟩ := Option.map_eq_some_iff.mp hstep
    cases r with
    | close =>
      cases key with
      | none => exact .inl (deliver (hstack rfl) _)
      | some done => exact .inl ⟨.inr rfl, trivial⟩
    | more st' => exact .inl ⟨h.within, trivial⟩
    | char d => exact .inl ⟨h.within, trivial⟩
  | number text st =>
    simp only [Scan.step] at hstep
    cases hn : st.step c with
    | some st' =>
      rw [hn] at hstep
      exact .inl (Option.some.inj hstep ▸ ⟨.inl (hstack rfl), trivial⟩)
    | none =>
      rw [hn] at hstep
      obtain ⟨n, -, hend⟩ := Option.bind_eq_some_iff.mp hstep
      exact (deliver (hstack rfl) _).stepEnd hend
  | literal rest v =>
    have hspelt : '{' ∉ rest := h.spelt
    cases rest with
    | nil => cases hstep
    | cons d ds =>
      simp only [Scan.step] at hstep
      split_ifs at hstep
      · exact .inl (Option.some.inj hstep ▸ deliver (hstack rfl) _)
      · obtain rfl := Option.some.inj hstep
        exact .inl ⟨.inl (hstack rfl), fun hmem => hspelt (List.mem_cons_of_mem d hmem)⟩
  | itemEnd done => exact h.stepEnd hstep
  | fieldEnd done => exact h.stepEnd hstep
  | finished v => exact h.stepEnd hstep

end Scan.Inside

/-- A complete value stays as it is, whatever follows. -/
theorem run_finished {v : Json} {cs : List Char} {sc : Scan}
    (h : Scan.run ⟨[], .finished v⟩ cs = some sc) : sc = ⟨[], .finished v⟩ := by
  induction cs with
  | nil => exact (Option.some.inj h).symm
  | cons c cs ih =>
    rw [Scan.run_cons, step_finished] at h
    split_ifs at h
    · exact ih h
    · cases h

theorem Scan.Inside.run {sc sc' : Scan} (h : sc.Inside) {cs : List Char}
    (hrun : sc.run cs = some sc') : sc'.Inside ∨ ∃ v, sc' = ⟨[], .finished v⟩ := by
  induction cs generalizing sc with
  | nil => exact .inl (Option.some.inj hrun ▸ h)
  | cons c cs ih =>
    obtain ⟨mid, hmid, hrest⟩ := Option.bind_eq_some_iff.mp hrun
    rcases h.step hmid with hin | ⟨v, rfl⟩
    · exact ih hin hrest
    · exact .inr ⟨v, run_finished hrest⟩

/-- A run within a container that does not end in a complete value never had one. -/
theorem Scan.Inside.of_append {sc sc' mid : Scan} (h : sc.Inside) {as bs : List Char}
    (hrun : sc.run (as ++ bs) = some sc') (hend : ∀ v, sc' ≠ ⟨[], .finished v⟩)
    (hmid : sc.run as = some mid) : mid.Inside := by
  rcases h.run hmid with hin | ⟨v, rfl⟩
  · exact hin
  · rw [Scan.run_append, hmid, Option.bind_some] at hrun
    exact absurd (run_finished hrun) (hend v)

/-- The text of an object is handed over as a whole. -/
theorem run_render_obj (s : List Frame) (fs : List (String × Json)) :
    Scan.run ⟨s, .value⟩ (render (.obj fs)) = some (deliver s (.obj fs)) := by
  cases fs with
  | nil => rfl
  | cons f fs =>
    obtain ⟨k, v⟩ := f
    obtain ⟨sc, hrun, hset⟩ := run_renderField s [] (k, v)
    have hopen : startValue s '{' = some ⟨s, .firstKey⟩ := rfl
    rw [render, run_value_cons s (by decide), hopen, Option.bind_some, renderField,
      List.append_assoc, run_firstKey_renderString, ← List.append_assoc, ← renderField,
      Scan.run_append, hrun, Option.bind_some]
    exact run_renderFields s fs [(k, v)] sc hset

/-- The text of an object whose first name starts with a letter. -/
structure ObjText (text : List Char) : Prop where
  object : ∃ fs, text = render (.obj fs)
  letter : ∃ c rest, text = '{' :: '"' :: c :: rest ∧ c.isAlpha = true

theorem deliver_ne_finished {s : List Frame} (hs : s ≠ []) (v w : Json) :
    deliver s v ≠ ⟨[], .finished w⟩ := by
  cases s with
  | nil => exact absurd rfl hs
  | cons f s =>
    cases f with
    | arr done => exact fun h => by cases h
    | obj done key => exact fun h => by cases h

theorem ObjText.run_value {text q : List Char} (h : ObjText text) (hq : q <+: text)
    {s : List Frame} (hs : s ≠ []) {sc : Scan} (hrun : Scan.run ⟨s, .value⟩ q = some sc) :
    sc.Inside := by
  obtain ⟨fs, hfs⟩ := h.object
  obtain ⟨rest, hrest⟩ := hq
  have hstart : Scan.Inside ⟨s, .value⟩ := ⟨.inl hs, trivial⟩
  have hall := run_render_obj s fs
  rw [← hfs, ← hrest] at hall
  exact hstart.of_append hall (deliver_ne_finished hs _) hrun

theorem letter_ne {c d : Char} (hc : c.isAlpha = true) (hd : d.isAlpha = false) : c ≠ d := by
  rintro rfl
  rw [hc] at hd
  cases hd

theorem letter_not_whitespace {c : Char} (hc : c.isAlpha = true) : isWhitespace c = false := by
  have h1 : c ≠ ' ' := letter_ne hc (by decide)
  have h2 : c ≠ '\t' := letter_ne hc (by decide)
  have h3 : c ≠ '\n' := letter_ne hc (by decide)
  have h4 : c ≠ '\r' := letter_ne hc (by decide)
  simp [isWhitespace, h1, h2, h3, h4]

theorem stepEnd_letter (sc : Scan) {c : Char} (hc : c.isAlpha = true) : sc.stepEnd c = none := by
  have h1 : c ≠ ',' := letter_ne hc (by decide)
  have h2 : c ≠ ']' := letter_ne hc (by decide)
  have h3 : c ≠ '}' := letter_ne hc (by decide)
  rw [Scan.stepEnd, letter_not_whitespace hc, if_neg Bool.false_ne_true]
  cases sc.mode <;> simp only [h1, h2, h3, ↓reduceIte]

/-- Behind a complete string stands no letter. -/
theorem closeString_letter {s : List Frame} {key : Option (List (String × Json))}
    (hs : key.isSome = true ∨ s ≠ []) (text : List Char) {c : Char} (hc : c.isAlpha = true) :
    (closeString s text key).step c = none := by
  cases key with
  | none =>
    have hne : s ≠ [] := hs.resolve_left (by simp)
    cases s with
    | nil => exact absurd rfl hne
    | cons f s =>
      cases f with
      | arr done => exact stepEnd_letter _ hc
      | obj done key => exact stepEnd_letter _ hc
  | some done =>
    have hcolon : c ≠ ':' := letter_ne hc (by decide)
    simp only [closeString, Scan.step, letter_not_whitespace hc, hcolon, Bool.false_eq_true,
      ↓reduceIte]

/-- Only a plain part of a string goes on with a brace. -/
theorem StrState.step_brace {st : StrState} {r : StrStep} (h : st.step '{' = some r) :
    r = .char '{' := by
  cases st with
  | plain => exact (Option.some.inj h).symm
  | slash => cases h
  | hex digits acc => cases h
  | high unit => cases h
  | highSlash unit => cases h
  | low unit digits acc => cases h

/-- Within a container, a front part of the text of an object never gets out: it is read as a
nested object, or as a part of a string that ends in front of its first name. -/
theorem Scan.Inside.glue {sc sc' : Scan} (h : sc.Inside) {text q : List Char} (ht : ObjText text)
    (hq : q <+: text) (hrun : sc.run q = some sc') : sc'.Inside := by
  cases q with
  | nil => exact Option.some.inj hrun ▸ h
  | cons b q =>
    obtain ⟨c, rest, htext, hc⟩ := ht.letter
    have hb : b = '{' := by
      rw [htext] at hq
      exact (List.cons_prefix_cons.mp hq).1
    subst hb
    obtain ⟨stack, mode⟩ := sc
    have hstack : mode.within = false → stack ≠ [] := fun hm =>
      h.within.resolve_right (by rw [hm]; exact Bool.false_ne_true)
    obtain ⟨mid, hmid, hrest⟩ := Option.bind_eq_some_iff.mp hrun
    cases mode with
    | value => exact ht.run_value hq (hstack rfl) hrun
    | firstItem =>
      rw [run_firstItem_cons stack (by decide) (by decide)] at hrun
      exact ht.run_value hq (List.cons_ne_nil _ _) hrun
    | string key known st =>
      obtain ⟨r, hr, rfl⟩ := Option.map_eq_some_iff.mp hmid
      obtain rfl := StrState.step_brace hr
      rw [htext, List.cons_prefix_cons] at hq
      cases q with
      | nil => exact Option.some.inj hrest ▸ ⟨h.within, trivial⟩
      | cons d q =>
        obtain ⟨rfl, hq'⟩ := List.cons_prefix_cons.mp hq.2
        have hclose : (closeString stack (known ++ ['{']) key).run q = some sc' := hrest
        cases q with
        | nil =>
          rw [← Option.some.inj hclose]
          cases key with
          | none => exact .deliver (hstack rfl) _
          | some done => exact ⟨.inr rfl, trivial⟩
        | cons e q =>
          obtain ⟨rfl, -⟩ := List.cons_prefix_cons.mp hq'
          have hopen : key.isSome = true ∨ stack ≠ [] := h.within.symm
          rw [Scan.run_cons, closeString_letter hopen _ hc] at hclose
          cases hclose
    | number known st =>
      have hnum : st.step '{' = none := by cases st <;> rfl
      simp only [Scan.step, hnum] at hmid
      obtain ⟨n, -, hend⟩ := Option.bind_eq_some_iff.mp hmid
      cases stack with
      | nil => cases hend
      | cons f s => cases f <;> cases hend
    | literal known v =>
      have hspelt : '{' ∉ known := h.spelt
      cases known with
      | nil => cases hmid
      | cons d ds =>
        have hne : '{' ≠ d := fun heq => hspelt (heq ▸ List.mem_cons_self)
        simp only [Scan.step, if_pos hne] at hmid
        cases hmid
    | firstKey | nextKey | colon | itemEnd | fieldEnd | finished => cases hmid

/-- Cut short behind its first character, the text of an object leaves it open. -/
theorem ObjText.inside_of_prefix {text q : List Char} (h : ObjText text) (hq : q <+: text)
    (hnil : q ≠ []) (hne : q ≠ text) {sc : Scan} (hrun : Scan.init.run q = some sc) :
    sc.Inside := by
  cases q with
  | nil => exact absurd rfl hnil
  | cons b q =>
    obtain ⟨c, rest, htext, -⟩ := h.letter
    have hb : b = '{' := by
      rw [htext] at hq
      exact (List.cons_prefix_cons.mp hq).1
    subst hb
    have hfirst : Scan.run ⟨[], .firstKey⟩ q = some sc := hrun
    have hstart : Scan.Inside ⟨[], .firstKey⟩ := ⟨.inr rfl, trivial⟩
    rcases hstart.run hfirst with hin | ⟨v, rfl⟩
    · exact hin
    · -- a complete value would be the whole text
      obtain ⟨fs, hfs⟩ := h.object
      rw [hfs] at hq hne
      have hparse : parse ('{' :: q) = some v := by
        rw [parse, hrun]
        rfl
      rw [parse_prefix_obj hq hne] at hparse
      cases hparse

/-- A text that leaves a container open wherever it can be read at all. -/
def Dangling (cs : List Char) : Prop := ∀ sc, Scan.init.run cs = some sc → sc.Inside

theorem Dangling.parse {cs : List Char} (h : Dangling cs) : parse cs = none := by
  rw [Json.parse]
  cases hrun : Scan.init.run cs with
  | none => rfl
  | some sc => exact (h sc hrun).finish

theorem Dangling.append {cs text q : List Char} (h : Dangling cs) (ht : ObjText text)
    (hq : q <+: text) : Dangling (cs ++ q) := by
  intro sc hrun
  rw [Scan.run_append] at hrun
  obtain ⟨mid, hmid, hrest⟩ := Option.bind_eq_some_iff.mp hrun
  exact (h mid hmid).glue ht hq hrest

theorem ObjText.dangling_of_prefix {text q : List Char} (h : ObjText text) (hq : q <+: text)
    (hnil : q ≠ []) (hne : q ≠ text) : Dangling q :=
  fun _ hrun => h.inside_of_prefix hq hnil hne hrun

/-- Nothing follows the text of an object. -/
theorem ObjText.dangling_append {text q : List Char} (h : ObjText text) {c : Char}
    (hc : isWhitespace c = false) : Dangling (text ++ c :: q) := by
  intro sc hrun
  obtain ⟨fs, hfs⟩ := h.object
  have hall : Scan.init.run text = some ⟨[], .finished (.obj fs)⟩ := by
    rw [hfs]
    exact run_render_obj [] fs
  rw [Scan.run_append, hall, Option.bind_some, Scan.run_cons, step_finished, hc] at hrun
  cases hrun

end Json
