import Guigu.Library.JsonScan

/-! Reading back what the compact writer wrote, and why no proper prefix of an object's text
is a value. -/
namespace Json

theorem hexVal_hexDigit : ∀ d < 16, hexVal (hexDigit d) = some d := by decide

/-- Reading the escape of a character appends that character. -/
theorem run_escape (s : List Frame) (key : Option (List (String × Json))) (text : List Char)
    (c : Char) :
    Scan.run ⟨s, .string key text .plain⟩ (escape c) =
      some ⟨s, .string key (text ++ [c]) .plain⟩ := by
  by_cases h : c ∈ ['"', '\\', '\n', '\r', '\t', '\x08', '\x0c']
  · simp only [List.mem_cons, List.not_mem_nil, or_false] at h
    rcases h with rfl | rfl | rfl | rfl | rfl | rfl | rfl <;> rfl
  simp only [List.mem_cons, List.not_mem_nil, or_false, not_or] at h
  obtain ⟨hq, hb, hn, hr, ht, hbs, hff⟩ := h
  by_cases hc : c.toNat < 32
  · have h1 := hexVal_hexDigit (c.toNat / 16) (by omega)
    have h2 := hexVal_hexDigit (c.toNat % 16) (by omega)
    have he : escape c =
        ['\\', 'u', '0', '0', hexDigit (c.toNat / 16), hexDigit (c.toNat % 16)] := by
      simp [escape, hq, hb, hn, hr, ht, hbs, hff, hc]
    have hz : hexVal '0' = some 0 := by decide
    have hv : 16 * (c.toNat / 16) + c.toNat % 16 = c.toNat := by omega
    have hlow : ¬ (0xD800 ≤ c.toNat ∧ c.toNat ≤ 0xDBFF) := by omega
    have hhigh : ¬ (0xDC00 ≤ c.toNat ∧ c.toNat ≤ 0xDFFF) := by omega
    rw [he]
    simp [Scan.run, Scan.step, StrState.step, hz, h1, h2, hv, Char.ofNat_toNat, hlow, hhigh]
  · have he : escape c = [c] := by simp [escape, hq, hb, hn, hr, ht, hbs, hff, hc]
    rw [he]
    simp [Scan.run, Scan.step, StrState.step, hq, hb, hc]

theorem run_escapes (s : List Frame) (key : Option (List (String × Json))) (text cs : List Char) :
    Scan.run ⟨s, .string key text .plain⟩ (cs.flatMap escape) =
      some ⟨s, .string key (text ++ cs) .plain⟩ := by
  induction cs generalizing text with
  | nil => simp
  | cons c cs ih =>
    rw [List.flatMap_cons, Scan.run_append, run_escape, Option.bind_some, ih]
    simp

/-- A string literal, from behind its opening quote. -/
theorem run_stringBody (s : List Frame) (key : Option (List (String × Json))) (t : String) :
    Scan.run ⟨s, .string key [] .plain⟩ (t.toList.flatMap escape ++ ['"']) =
      some (closeString s t.toList key) := by
  rw [Scan.run_append, run_escapes, Option.bind_some]
  rfl

/-- The characters that may stand behind a value inside a container. -/
def IsDelimiter (c : Char) : Prop := c = ',' ∨ c = ']' ∨ c = '}'

/-- The scanner has read a value and behaves as if it had been handed over: a number is only
handed over once its token is known to end. -/
def Settled (sc target : Scan) : Prop :=
  (∀ c, IsDelimiter c → sc.step c = target.stepEnd c) ∧ sc.finish = target.finish

theorem deliver_step (s : List Frame) (v : Json) (c : Char) :
    (deliver s v).step c = (deliver s v).stepEnd c := by
  cases s with
  | nil => rfl
  | cons f s => cases f <;> rfl

theorem settled_deliver (s : List Frame) (v : Json) : Settled (deliver s v) (deliver s v) :=
  ⟨fun c _ => deliver_step s v c, rfl⟩

/-- No delimiter continues a number token. -/
theorem NumState.step_delimiter (st : NumState) {c : Char} (h : IsDelimiter c) :
    st.step c = none := by
  rcases h with rfl | rfl | rfl <;> cases st <;> decide

theorem settled_number (s : List Frame) (n : Numeral) (st : NumState) :
    Settled ⟨s, .number n.text st⟩ (deliver s (.num n)) := by
  refine ⟨fun c hc => ?_, ?_⟩
  · simp [Scan.step, NumState.step_delimiter st hc]
  · cases s with
    | nil => simp [Scan.finish, deliver]
    | cons f s => cases f <;> simp [Scan.finish, deliver]

theorem run_numberText (s : List Frame) (text cs : List Char) {st st' : NumState}
    (h : st.run cs = some st') :
    Scan.run ⟨s, .number text st⟩ cs = some ⟨s, .number (text ++ cs) st'⟩ := by
  induction cs generalizing text st with
  | nil =>
    cases h
    simp
  | cons c cs ih =>
    simp only [NumState.run, Option.bind_eq_some_iff] at h
    obtain ⟨mid, hmid, hrest⟩ := h
    rw [Scan.run_cons]
    simp only [Scan.step, hmid, Option.bind_some]
    rw [ih _ hrest]
    simp

/-- A number token starts with a sign or a digit, hence with no other opening character. -/
theorem NumState.start_step {c : Char} {st : NumState} (h : NumState.start.step c = some st) :
    c = '-' ∨ c.isDigit = true := by
  simp only [NumState.step] at h
  split_ifs at h with h1 h2 h3
  · exact Or.inl h1
  · exact Or.inr (h2 ▸ by decide)
  · exact Or.inr h3

theorem start_ne {c d : Char} {st : NumState} (h : NumState.start.step c = some st)
    (hd : ¬ (d = '-' ∨ d.isDigit = true)) : c ≠ d := by
  rintro rfl
  exact hd (NumState.start_step h)

theorem startValue_number (s : List Frame) {c : Char} {st : NumState}
    (h : NumState.start.step c = some st) : startValue s c = some ⟨s, .number [c] st⟩ := by
  have h1 : c ≠ '"' := start_ne h (by decide)
  have h2 : c ≠ '[' := start_ne h (by decide)
  have h3 : c ≠ '{' := start_ne h (by decide)
  have h4 : c ≠ 't' := start_ne h (by decide)
  have h5 : c ≠ 'f' := start_ne h (by decide)
  have h6 : c ≠ 'n' := start_ne h (by decide)
  simp [startValue, h1, h2, h3, h4, h5, h6, h]

theorem start_not_whitespace {c : Char} {st : NumState}
    (h : NumState.start.step c = some st) : isWhitespace c = false := by
  have h1 : c ≠ ' ' := start_ne h (by decide)
  have h2 : c ≠ '\t' := start_ne h (by decide)
  have h3 : c ≠ '\n' := start_ne h (by decide)
  have h4 : c ≠ '\r' := start_ne h (by decide)
  simp [isWhitespace, h1, h2, h3, h4]

theorem Numeral.exists_cons (n : Numeral) : ∃ c cs st st', n.text = c :: cs ∧
    NumState.start.step c = some st ∧ st.run cs = some st' := by
  have hv := n.valid
  cases ht : n.text with
  | nil =>
    rw [ht] at hv
    exact absurd hv (by decide)
  | cons c cs =>
    rw [isNumber, ht, NumState.run] at hv
    cases hs : NumState.start.step c with
    | none => simp [hs] at hv
    | some st =>
      cases hr : st.run cs with
      | none => simp [hs, hr] at hv
      | some st' => exact ⟨c, cs, st, st', rfl, hs, hr⟩

theorem run_numeral (s : List Frame) (n : Numeral) :
    ∃ sc, Scan.run ⟨s, .value⟩ n.text = some sc ∧ Settled sc (deliver s (.num n)) := by
  obtain ⟨c, cs, st, st', ht, hc, hcs⟩ := n.exists_cons
  refine ⟨⟨s, .number n.text st'⟩, ?_, settled_number s n st'⟩
  rw [ht, Scan.run_cons]
  simp only [Scan.step, start_not_whitespace hc, Bool.false_eq_true, ↓reduceIte,
    startValue_number s hc, Option.bind_some]
  exact run_numberText s [c] cs hcs

/-- The state behind a value decides the step on a delimiter, wherever it came from. -/
theorem Settled.run_cons {sc target : Scan} (h : Settled sc target) {c : Char}
    (hc : IsDelimiter c) (cs : List Char) :
    sc.run (c :: cs) = (target.stepEnd c).bind (·.run cs) := by
  rw [Scan.run_cons, h.1 c hc]

theorem run_value_cons (s : List Frame) {c : Char} (hc : isWhitespace c = false)
    (cs : List Char) : Scan.run ⟨s, .value⟩ (c :: cs) = (startValue s c).bind (·.run cs) := by
  simp [Scan.run_cons, Scan.step, hc]

/-- An item that does not close the array starts it as any other value would. -/
theorem run_firstItem_cons (s : List Frame) {c : Char} (hc : isWhitespace c = false)
    (hb : c ≠ ']') (cs : List Char) :
    Scan.run ⟨s, .firstItem⟩ (c :: cs) = Scan.run ⟨.arr [] :: s, .value⟩ (c :: cs) := by
  simp [Scan.run_cons, Scan.step, hc, hb]

/-- The first character of a rendered value neither is blank nor closes anything. -/
theorem render_head (j : Json) :
    ∃ c cs, render j = c :: cs ∧ isWhitespace c = false ∧ c ≠ ']' := by
  cases j with
  | null => exact ⟨_, _, rfl, by decide, by decide⟩
  | bool b => cases b <;> exact ⟨_, _, rfl, by decide, by decide⟩
  | num n =>
    obtain ⟨c, cs, st, st', ht, hc, -⟩ := n.exists_cons
    exact ⟨c, cs, ht, start_not_whitespace hc, start_ne hc (by decide)⟩
  | str s => exact ⟨_, _, rfl, by decide, by decide⟩
  | arr vs => cases vs <;> exact ⟨_, _, rfl, by decide, by decide⟩
  | obj fs => cases fs <;> exact ⟨_, _, rfl, by decide, by decide⟩

theorem run_firstItem_render (s : List Frame) (j : Json) (cs : List Char) :
    Scan.run ⟨s, .firstItem⟩ (render j ++ cs) =
      Scan.run ⟨.arr [] :: s, .value⟩ (render j ++ cs) := by
  obtain ⟨c, ds, hr, hw, hb⟩ := render_head j
  rw [hr]
  exact run_firstItem_cons s hw hb _

theorem run_firstKey_renderString (s : List Frame) (k : String) (cs : List Char) :
    Scan.run ⟨s, .firstKey⟩ (renderString k ++ cs) =
      Scan.run ⟨s, .nextKey []⟩ (renderString k ++ cs) := rfl

/-- A member's name and colon, from where a name is expected. -/
theorem run_key (s : List Frame) (done : List (String × Json)) (k : String) (cs : List Char) :
    Scan.run ⟨s, .nextKey done⟩ (renderString k ++ ':' :: cs) =
      Scan.run ⟨.obj done k :: s, .value⟩ cs := by
  have hopen : Scan.step ⟨s, .nextKey done⟩ '"' = some ⟨s, .string (some done) [] .plain⟩ := rfl
  rw [renderString, List.cons_append, Scan.run_cons, hopen, Option.bind_some, Scan.run_append,
    run_stringBody, Option.bind_some]
  simp only [closeString, String.ofList_toList]
  rfl

mutual
/-- Reading a rendered value hands exactly that value over. -/
theorem run_render (s : List Frame) : ∀ j : Json,
    ∃ sc, Scan.run ⟨s, .value⟩ (render j) = some sc ∧ Settled sc (deliver s j)
  | .null => ⟨_, rfl, settled_deliver s _⟩
  | .bool true => ⟨_, rfl, settled_deliver s _⟩
  | .bool false => ⟨_, rfl, settled_deliver s _⟩
  | .num n => run_numeral s n
  | .str t => by
    refine ⟨deliver s (.str t), ?_, settled_deliver s _⟩
    have hopen : startValue s '"' = some ⟨s, .string none [] .plain⟩ := rfl
    rw [render, renderString, run_value_cons s (by decide), hopen, Option.bind_some,
      run_stringBody]
    simp [closeString]
  | .arr [] => ⟨_, rfl, settled_deliver s _⟩
  | .arr (v :: vs) => by
    refine ⟨deliver s (.arr (v :: vs)), ?_, settled_deliver s _⟩
    obtain ⟨sc, hrun, hset⟩ := run_render (.arr [] :: s) v
    have hopen : startValue s '[' = some ⟨s, .firstItem⟩ := rfl
    rw [render, run_value_cons s (by decide), hopen, Option.bind_some, run_firstItem_render,
      Scan.run_append, hrun, Option.bind_some]
    exact run_renderItems s vs [v] sc hset
  | .obj [] => ⟨_, rfl, settled_deliver s _⟩
  | .obj (f :: fs) => by
    refine ⟨deliver s (.obj (f :: fs)), ?_, settled_deliver s _⟩
    obtain ⟨sc, hrun, hset⟩ := run_renderField s [] f
    have hopen : startValue s '{' = some ⟨s, .firstKey⟩ := rfl
    rw [render, run_value_cons s (by decide), hopen, Option.bind_some]
    obtain ⟨k, v⟩ := f
    rw [renderField, List.append_assoc, run_firstKey_renderString, ← List.append_assoc,
      ← renderField, Scan.run_append, hrun, Option.bind_some]
    exact run_renderFields s fs [(k, v)] sc hset

/-- The rest of an array, behind a value read as its last item so far. -/
theorem run_renderItems (s : List Frame) : ∀ (vs done : List Json) (sc : Scan),
    Settled sc ⟨s, .itemEnd done⟩ →
      sc.run (renderItems vs) = some (deliver s (.arr (done ++ vs)))
  | [], done, sc, hset => by
    rw [renderItems, hset.run_cons (Or.inr (Or.inl rfl)), List.append_nil]
    rfl
  | v :: vs, done, sc, hset => by
    obtain ⟨sc', hrun, hset'⟩ := run_render (.arr done :: s) v
    have hcomma : Scan.stepEnd ⟨s, .itemEnd done⟩ ',' = some ⟨.arr done :: s, .value⟩ := rfl
    rw [renderItems, hset.run_cons (Or.inl rfl), hcomma, Option.bind_some, Scan.run_append,
      hrun, Option.bind_some, run_renderItems s vs (done ++ [v]) sc' hset', List.append_assoc]
    rfl

/-- The rest of an object, behind a member read as its last one so far. -/
theorem run_renderFields (s : List Frame) : ∀ (fs done : List (String × Json)) (sc : Scan),
    Settled sc ⟨s, .fieldEnd done⟩ →
      sc.run (renderFields fs) = some (deliver s (.obj (done ++ fs)))
  | [], done, sc, hset => by
    rw [renderFields, hset.run_cons (Or.inr (Or.inr rfl)), List.append_nil]
    rfl
  | f :: fs, done, sc, hset => by
    obtain ⟨sc', hrun, hset'⟩ := run_renderField s done f
    have hcomma : Scan.stepEnd ⟨s, .fieldEnd done⟩ ',' = some ⟨s, .nextKey done⟩ := rfl
    rw [renderFields, hset.run_cons (Or.inl rfl), hcomma, Option.bind_some, Scan.run_append,
      hrun, Option.bind_some, run_renderFields s fs (done ++ [f]) sc' hset', List.append_assoc]
    rfl

theorem run_renderField (s : List Frame) (done : List (String × Json)) :
    ∀ f : String × Json, ∃ sc, Scan.run ⟨s, .nextKey done⟩ (renderField f) = some sc ∧
      Settled sc ⟨s, .fieldEnd (done ++ [f])⟩
  | (k, v) => by
    obtain ⟨sc, hrun, hset⟩ := run_render (.obj done k :: s) v
    refine ⟨sc, ?_, hset⟩
    rw [renderField, run_key, hrun]
end

theorem parse_render (j : Json) : parse (render j) = some j := by
  obtain ⟨sc, hrun, hset⟩ := run_render [] j
  rw [parse, Scan.init, hrun, Option.bind_some, hset.2]
  rfl

theorem render_injective {i j : Json} (h : render i = render j) : i = j := by
  have := parse_render i
  rw [h, parse_render] at this
  exact (Option.some.inj this).symm

instance : DecidableEq Json := fun i j =>
  decidable_of_iff (render i = render j) ⟨render_injective, congrArg render⟩

/-- Outside every container with a value already complete, or complete up to more digits. -/
def Scan.Outside (sc : Scan) : Prop :=
  sc.stack = [] ∧ ((∃ v, sc.mode = .finished v) ∨ ∃ text st, sc.mode = .number text st)

theorem Scan.Outside.of_finish {sc : Scan} {v : Json} (h : sc.finish = some v) : sc.Outside := by
  obtain ⟨stack, mode⟩ := sc
  cases stack with
  | cons f s => cases mode <;> simp [Scan.finish] at h
  | nil =>
    cases mode with
    | finished w => exact ⟨rfl, Or.inl ⟨w, rfl⟩⟩
    | number text st => exact ⟨rfl, Or.inr ⟨text, st, rfl⟩⟩
    | _ => simp [Scan.finish] at h

/-- Behind a complete outermost value only blanks may stand. -/
theorem step_finished (v : Json) (c : Char) :
    Scan.step ⟨[], .finished v⟩ c = if isWhitespace c then some ⟨[], .finished v⟩ else none := by
  simp only [Scan.step, Scan.stepEnd]

theorem Scan.Outside.step {sc sc' : Scan} {c : Char} (h : sc.Outside)
    (hstep : sc.step c = some sc') : sc'.Outside := by
  obtain ⟨stack, mode⟩ := sc
  obtain ⟨hs, ⟨v, hm⟩ | ⟨text, st, hm⟩⟩ := h
  · obtain rfl : stack = [] := hs
    obtain rfl : mode = .finished v := hm
    rw [step_finished] at hstep
    split_ifs at hstep with hw
    exact Option.some.inj hstep ▸ ⟨rfl, Or.inl ⟨v, rfl⟩⟩
  · obtain rfl : stack = [] := hs
    obtain rfl : mode = .number text st := hm
    simp only [Scan.step] at hstep
    cases hn : st.step c with
    | some st' =>
      rw [hn] at hstep
      exact Option.some.inj hstep ▸ ⟨rfl, Or.inr ⟨_, _, rfl⟩⟩
    | none =>
      rw [hn] at hstep
      obtain ⟨n, -, hend⟩ := Option.bind_eq_some_iff.mp hstep
      rw [← deliver_step] at hend
      rw [deliver, step_finished] at hend
      split_ifs at hend with hw
      exact Option.some.inj hend ▸ ⟨rfl, Or.inl ⟨_, rfl⟩⟩

theorem Scan.Outside.run {sc sc' : Scan} {cs : List Char} (h : sc.Outside)
    (hrun : sc.run cs = some sc') : sc'.Outside := by
  induction cs generalizing sc with
  | nil => exact Option.some.inj hrun ▸ h
  | cons c cs ih =>
    obtain ⟨mid, hmid, hrest⟩ := Option.bind_eq_some_iff.mp hrun
    exact ih (h.step hmid) hrest

theorem Scan.Outside.step_brace {sc : Scan} (h : sc.Outside) : sc.step '}' = none := by
  obtain ⟨stack, mode⟩ := sc
  obtain ⟨hs, ⟨v, hm⟩ | ⟨text, st, hm⟩⟩ := h
  · obtain rfl : stack = [] := hs
    obtain rfl : mode = .finished v := hm
    rfl
  · obtain rfl : stack = [] := hs
    obtain rfl : mode = .number text st := hm
    simp only [Scan.step, NumState.step_delimiter st (c := '}') (Or.inr (Or.inr rfl))]
    cases Numeral.ofChars? text <;> rfl

/-- No text that is a value becomes one again by text that ends in a brace. -/
theorem parse_append_brace {p : List Char} {v : Json} (h : parse p = some v) (mid : List Char) :
    parse (p ++ (mid ++ ['}'])) = none := by
  obtain ⟨sc, hrun, hfin⟩ := Option.bind_eq_some_iff.mp h
  rw [parse, Scan.run_append, hrun, Option.bind_some, Scan.run_append]
  cases hmid : sc.run mid with
  | none => rfl
  | some sc' =>
    have hout := (Scan.Outside.of_finish hfin).run hmid
    rw [Option.bind_some, Scan.run_cons, hout.step_brace]
    rfl

theorem renderFields_ends (fs : List (String × Json)) : ∃ cs, renderFields fs = cs ++ ['}'] := by
  induction fs with
  | nil => exact ⟨[], rfl⟩
  | cons f fs ih =>
    obtain ⟨cs, hcs⟩ := ih
    exact ⟨',' :: (renderField f ++ cs), by simp [renderFields, hcs]⟩

theorem render_obj_ends (fs : List (String × Json)) : ∃ cs, render (.obj fs) = cs ++ ['}'] := by
  cases fs with
  | nil => exact ⟨['{'], rfl⟩
  | cons f fs =>
    obtain ⟨cs, hcs⟩ := renderFields_ends fs
    exact ⟨'{' :: (renderField f ++ cs), by simp [render, hcs]⟩

/-- Cut anywhere short of its end, the text of an object is no value. -/
theorem parse_prefix_obj {fs : List (String × Json)} {p : List Char}
    (hp : p <+: render (.obj fs)) (hne : p ≠ render (.obj fs)) : parse p = none := by
  obtain ⟨rest, hrest⟩ := hp
  obtain ⟨cs, hcs⟩ := render_obj_ends fs
  rcases List.eq_nil_or_concat rest with rfl | ⟨mid, c, rfl⟩
  · exact absurd (by simpa using hrest) hne
  have hlast : c = '}' := by
    rw [hcs, List.concat_eq_append, ← List.append_assoc] at hrest
    simpa using (List.append_inj' hrest rfl).2
  subst hlast
  cases hv : parse p with
  | none => rfl
  | some v =>
    have := parse_append_brace hv mid
    rw [← List.concat_eq_append, hrest, parse_render] at this
    cases this

/-- No control characters. -/
def Printable (cs : List Char) : Prop := ∀ c ∈ cs, 32 ≤ c.toNat

theorem printable_of_all {cs : List Char} (h : (cs.all fun c => 32 ≤ c.toNat) = true) :
    Printable cs := fun c hc => of_decide_eq_true (List.all_eq_true.mp h c hc)

theorem Printable.append {as bs : List Char} (ha : Printable as) (hb : Printable bs) :
    Printable (as ++ bs) := fun c hc => (List.mem_append.mp hc).elim (ha c) (hb c)

theorem Printable.cons {c : Char} {cs : List Char} (hc : 32 ≤ c.toNat) (h : Printable cs) :
    Printable (c :: cs) := List.forall_mem_cons.mpr ⟨hc, h⟩

theorem Printable.not_mem {cs : List Char} (h : Printable cs) {c : Char} (hc : c.toNat < 32) :
    c ∉ cs := fun hmem => absurd (h c hmem) (by omega)

theorem NumState.step_control (st : NumState) {c : Char} (hc : c.toNat < 32) :
    st.step c = none := by
  have hne : ∀ d : Char, 32 ≤ d.toNat → c ≠ d := by
    rintro d hd rfl
    omega
  have hdigit : c.isDigit = false := by
    rw [← Bool.not_eq_true]
    intro h
    have : 48 ≤ c.toNat := (Char.isDigit_iff_toNat.mp h).1
    omega
  have h1 := hne '-' (by decide)
  have h2 := hne '0' (by decide)
  have h3 := hne '.' (by decide)
  have h4 := hne 'e' (by decide)
  have h5 := hne 'E' (by decide)
  have h6 := hne '+' (by decide)
  cases st <;> simp [NumState.step, h1, h2, h3, h4, h5, h6, hdigit]

theorem NumState.printable_of_run {st st' : NumState} {cs : List Char}
    (h : st.run cs = some st') : Printable cs := by
  induction cs generalizing st with
  | nil => exact fun c hc => absurd hc (by simp)
  | cons c cs ih =>
    obtain ⟨mid, hmid, hrest⟩ := Option.bind_eq_some_iff.mp h
    refine Printable.cons ?_ (ih hrest)
    by_contra hc
    rw [NumState.step_control st (by omega)] at hmid
    cases hmid

theorem Numeral.printable (n : Numeral) : Printable n.text := by
  obtain ⟨c, cs, st, st', ht, hc, hcs⟩ := n.exists_cons
  have hrun : NumState.start.run n.text = some st' := by
    rw [ht, NumState.run, hc]
    exact hcs
  exact NumState.printable_of_run hrun

theorem printable_hexDigit : ∀ d < 16, 32 ≤ (hexDigit d).toNat := by decide

theorem printable_escape (c : Char) : Printable (escape c) := by
  unfold escape
  split_ifs with h1 h2 h3 h4 h5 h6 h7 h8
  iterate 7 (· exact printable_of_all rfl)
  · have ha := printable_hexDigit (c.toNat / 16) (by omega)
    have hb := printable_hexDigit (c.toNat % 16) (by omega)
    exact (show Printable ['\\', 'u', '0', '0'] from printable_of_all rfl).append
      ((Printable.cons ha (Printable.cons hb (fun c hc => absurd hc (by simp)))))
  · exact Printable.cons (by omega) fun c hc => absurd hc (by simp)

theorem printable_renderString (s : String) : Printable (renderString s) := by
  refine Printable.cons (by decide) (Printable.append (fun c hc => ?_) (printable_of_all rfl))
  obtain ⟨d, -, hd⟩ := List.mem_flatMap.mp hc
  exact printable_escape d c hd

mutual
/-- The compact text of a value is a single line. -/
theorem printable_render : ∀ j : Json, Printable (render j)
  | .null => printable_of_all rfl
  | .bool true => printable_of_all rfl
  | .bool false => printable_of_all rfl
  | .num n => n.printable
  | .str s => printable_renderString s
  | .arr [] => printable_of_all rfl
  | .arr (v :: vs) =>
    Printable.cons (by decide) ((printable_render v).append (printable_renderItems vs))
  | .obj [] => printable_of_all rfl
  | .obj (f :: fs) =>
    Printable.cons (by decide) ((printable_renderField f).append (printable_renderFields fs))

theorem printable_renderItems : ∀ vs : List Json, Printable (renderItems vs)
  | [] => printable_of_all rfl
  | v :: vs => Printable.cons (by decide) ((printable_render v).append (printable_renderItems vs))

theorem printable_renderFields : ∀ fs : List (String × Json), Printable (renderFields fs)
  | [] => printable_of_all rfl
  | f :: fs =>
    Printable.cons (by decide) ((printable_renderField f).append (printable_renderFields fs))

theorem printable_renderField : ∀ f : String × Json, Printable (renderField f)
  | (k, v) =>
    (printable_renderString k).append (Printable.cons (by decide) (printable_render v))
end

end Json
