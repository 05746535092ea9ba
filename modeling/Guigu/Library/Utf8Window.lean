import Guigu.Library.Utf8
import Mathlib.Tactic.SplitIfs

/-! Windows on the bytes of a text, read with replacement characters: what becomes of the characters
in them and of those that are cut. -/
namespace Utf8

/-- A character as it comes out of a window: as it is, with a replacement for its front that the
window ends behind, or with one for each of its bytes that the window begins behind. -/
def windowText : List Char → ℕ → ℕ → List Char
  | [], _, _ => []
  | c :: cs, start, stop =>
    if start = 0 then
      if c.utf8Size ≤ stop then c :: windowText cs 0 (stop - c.utf8Size)
      else if stop = 0 then []
      else ['\uFFFD']
    else if c.utf8Size ≤ start then
      windowText cs (start - c.utf8Size) (stop - c.utf8Size)
    else
      List.replicate (min stop c.utf8Size - start) '\uFFFD' ++ windowText cs 0 (stop - c.utf8Size)

theorem encodeChar_begins {bs : List UInt8} {c : Char}
    (h : bs.toByteArray.utf8DecodeChar? 0 = some c) : String.utf8EncodeChar c <+: bs := by
  have he := String.toByteArray_utf8EncodeChar_of_utf8DecodeChar?_eq_some h
  have htake : String.utf8EncodeChar c = bs.take c.utf8Size := by
    rw [← List.toByteArray_inj, he]
    apply ByteArray.ext
    simp [List.data_toByteArray]
  rw [htake]
  exact List.take_prefix _ _

/-- The first byte of a character continues none. -/
theorem head_encodeChar (c : Char) :
    ∃ b bs, String.utf8EncodeChar c = b :: bs ∧ isContinuation b = false := by
  have hlarge : ∀ n : ℕ, 192 ≤ n → n < 256 → isContinuation (UInt8.ofNat n) = false := by
    intro n hn hlt
    have hval : (UInt8.ofNat n).toNat = n := by
      rw [UInt8.toNat_ofNat']
      omega
    have hnot : ¬UInt8.ofNat n ≤ 0xBF := by
      rw [UInt8.le_iff_toNat_le, hval]
      show ¬n ≤ 191
      omega
    simp [isContinuation, hnot]
  rw [String.utf8EncodeChar]
  split_ifs with h1 h2 h3
  · refine ⟨_, _, rfl, ?_⟩
    have hval : (UInt8.ofNat c.val.toNat).toNat = c.val.toNat := by
      rw [UInt8.toNat_ofNat']
      omega
    have hnot : ¬(0x80 : UInt8) ≤ UInt8.ofNat c.val.toNat := by
      rw [UInt8.le_iff_toNat_le, hval]
      show ¬128 ≤ _
      omega
    rw [isContinuation, decide_eq_false hnot, Bool.false_and]
  · exact ⟨_, _, rfl, hlarge _ (by omega) (by omega)⟩
  · exact ⟨_, _, rfl, hlarge _ (by omega) (by omega)⟩
  · exact ⟨_, _, rfl, hlarge _ (by omega) (by omega)⟩

theorem toNat_ofNat_of_lt {n : ℕ} (h : n < 256) : (UInt8.ofNat n).toNat = n := by
  rw [UInt8.toNat_ofNat']
  omega

theorem isContinuation_ofNat {n : ℕ} (hlow : 128 ≤ n) (hhigh : n ≤ 191) :
    isContinuation (UInt8.ofNat n) = true := by
  have hval := toNat_ofNat_of_lt (show n < 256 by omega)
  rw [isContinuation, Bool.and_eq_true, decide_eq_true_eq, decide_eq_true_eq,
    UInt8.le_iff_toNat_le, UInt8.le_iff_toNat_le, hval]
  exact ⟨hlow, hhigh⟩

/-- Every other byte continues one. -/
theorem isContinuation_of_mem_tail {c : Char} {b : UInt8}
    (h : b ∈ (String.utf8EncodeChar c).tail) : isContinuation b = true := by
  have hbyte : ∀ n : ℕ, isContinuation (UInt8.ofNat (n % 64 + 128)) = true :=
    fun n => isContinuation_ofNat (by omega) (by omega)
  rw [String.utf8EncodeChar] at h
  split_ifs at h <;> simp only [List.tail_cons, List.mem_cons, List.not_mem_nil, or_false] at h
  · rw [h]
    exact hbyte _
  · rcases h with rfl | rfl
    · exact hbyte _
    · exact hbyte _
  · rcases h with rfl | rfl | rfl
    · exact hbyte _
    · exact hbyte _
    · exact hbyte _

/-- Whether a second byte fits a first one is a matter of numbers. -/
theorem secondFits_ofNat {m n : ℕ} (hm : m < 256) (hlow : 128 ≤ n) (hhigh : n ≤ 191)
    (h0 : m = 0xE0 → 160 ≤ n) (hd : m = 0xED → n ≤ 159) (hf0 : m = 0xF0 → 144 ≤ n)
    (hf4 : m = 0xF4 → n ≤ 143) : secondFits (UInt8.ofNat m) (UInt8.ofNat n) = true := by
  have hn' := toNat_ofNat_of_lt (show n < 256 by omega)
  have heq : ∀ k : UInt8, UInt8.ofNat m = k → m = k.toNat := by
    rintro k rfl
    exact (toNat_ofNat_of_lt hm).symm
  have hwithin : ∀ low high : UInt8, low.toNat ≤ n → n ≤ high.toNat →
      (decide (low ≤ UInt8.ofNat n) && decide (UInt8.ofNat n ≤ high)) = true := by
    intro low high hle hge
    rw [Bool.and_eq_true, decide_eq_true_eq, decide_eq_true_eq, UInt8.le_iff_toNat_le,
      UInt8.le_iff_toNat_le, hn']
    exact ⟨hle, hge⟩
  rw [secondFits]
  split_ifs with h1 h2 h3 h4
  · exact hwithin _ _ (h0 (heq _ h1)) hhigh
  · exact hwithin _ _ hlow (hd (heq _ h2))
  · exact hwithin _ _ (hf0 (heq _ h3)) hhigh
  · exact hwithin _ _ hlow (hf4 (heq _ h4))
  · exact isContinuation_ofNat hlow hhigh

theorem one_le_brokenLength (b : UInt8) (bs : List UInt8) : 1 ≤ brokenLength b bs := by
  rw [brokenLength]
  split_ifs <;> omega

/-- A first byte of a long character and a second one that fits are broken together. -/
theorem brokenLength_ofNat {m : ℕ} {bs : List UInt8} (hlow : 0xE0 ≤ m) (hhigh : m ≤ 0xF4)
    (hfits : secondFits (UInt8.ofNat m) (bs.getD 0 0) = true) :
    brokenLength (UInt8.ofNat m) bs =
      if m < 0xF0 || !isContinuation (bs.getD 1 0) then 2 else 3 := by
  have hm := toNat_ofNat_of_lt (show m < 256 by omega)
  have h1 : ¬UInt8.ofNat m < 0xE0 := by
    rw [UInt8.lt_iff_toNat_lt, hm]
    show ¬m < 224
    omega
  have h2 : ¬0xF4 < UInt8.ofNat m := by
    rw [UInt8.lt_iff_toNat_lt, hm]
    show ¬244 < m
    omega
  have h3 : UInt8.ofNat m < 0xF0 ↔ m < 0xF0 := by
    rw [UInt8.lt_iff_toNat_lt, hm]
    exact Iff.rfl
  rw [brokenLength, decide_eq_false h1, decide_eq_false h2, hfits, decide_eq_decide.mpr h3]
  rfl

/-- A character that is cut off is broken as a whole. -/
theorem length_le_brokenLength {c : Char} {b : UInt8} {bs rest : List UInt8}
    (h : String.utf8EncodeChar c = (b :: bs) ++ rest) (hrest : rest ≠ []) :
    (b :: bs).length ≤ brokenLength b bs := by
  have hmore := List.length_pos_iff.mpr hrest
  have hsize := congrArg List.length h
  have hvalid : c.val.toNat < 0xD800 ∨ 0xDFFF < c.val.toNat ∧ c.val.toNat < 0x110000 := c.valid
  cases bs with
  | nil => exact one_le_brokenLength b []
  | cons b' bs =>
    rw [List.cons_append, List.cons_append] at h
    rw [String.utf8EncodeChar] at h hsize
    split_ifs at h hsize with h1 h2 h3 <;>
      simp only [List.length_cons, List.length_nil, List.length_append] at hsize
    · omega
    · omega
    · have hbs : bs = [] := List.eq_nil_of_length_eq_zero (by omega)
      rw [List.cons.injEq, List.cons.injEq] at h
      obtain ⟨hb, hb', -⟩ := h
      rw [hbs, ← hb, ← hb', brokenLength_ofNat (by omega) (by omega)]
      · split_ifs
        · exact Nat.le_refl _
        · exact Nat.le_succ _
      · exact secondFits_ofNat (by omega) (by omega) (by omega) (by omega) (by omega) (by omega)
          (by omega)
    · rw [List.cons.injEq, List.cons.injEq] at h
      obtain ⟨hb, hb', h⟩ := h
      rw [← hb, ← hb', brokenLength_ofNat (by omega) (by omega)]
      · cases bs with
        | nil =>
          split_ifs
          · exact Nat.le_refl _
          · exact Nat.le_succ _
        | cons b'' bs =>
          have hbs : bs = [] := by
            rw [List.length_cons] at hsize
            exact List.eq_nil_of_length_eq_zero (by omega)
          rw [List.cons_append, List.cons.injEq] at h
          rw [hbs, if_neg]
          · exact Nat.le_refl _
          · rw [List.getD_cons_succ, List.getD_cons_zero, ← h.1,
              isContinuation_ofNat (by omega) (by omega)]
            simp only [Bool.not_true, Bool.or_false, decide_eq_true_eq]
            omega
      · exact secondFits_ofNat (by omega) (by omega) (by omega) (by omega) (by omega) (by omega)
          (by omega)

/-! ### Decoding with replacements -/

/-- More fuel than bytes changes nothing. -/
theorem decodeLossyAux_fuel {n m : ℕ} {bs : List UInt8} (hn : bs.length ≤ n) (hm : bs.length ≤ m) :
    decodeLossyAux n bs = decodeLossyAux m bs := by
  induction n generalizing m bs with
  | zero =>
    have hb : bs = [] := List.eq_nil_of_length_eq_zero (by omega)
    subst hb
    cases m <;> rfl
  | succ n ih =>
    cases bs with
    | nil => cases m <;> rfl
    | cons b bs =>
      obtain ⟨m, rfl⟩ : ∃ k, m = k + 1 := ⟨m - 1, by simp only [List.length_cons] at hm; omega⟩
      have hbroken := one_le_brokenLength b bs
      simp only [List.length_cons] at hn hm
      simp only [decodeLossyAux]
      split
      · rename_i c _
        have hc := c.utf8Size_pos
        rw [ih (m := m)] <;> simp only [List.length_drop, List.length_cons] <;> omega
      · rw [ih (m := m)] <;> simp only [List.length_drop, List.length_cons] <;> omega

@[simp] theorem decodeLossy_nil : decodeLossy [] = [] := rfl

theorem decodeLossy_cons_of_some {b : UInt8} {bs : List UInt8} {c : Char}
    (h : (b :: bs).toByteArray.utf8DecodeChar? 0 = some c) :
    decodeLossy (b :: bs) = c :: decodeLossy ((b :: bs).drop c.utf8Size) := by
  have hc := c.utf8Size_pos
  have hlength : ((b :: bs).drop c.utf8Size).length ≤ bs.length := by
    rw [List.length_drop, List.length_cons]
    omega
  rw [decodeLossy, List.length_cons, decodeLossyAux, h]
  exact congrArg (c :: ·) (decodeLossyAux_fuel hlength (Nat.le_refl _))

theorem decodeLossy_cons_of_none {b : UInt8} {bs : List UInt8}
    (h : (b :: bs).toByteArray.utf8DecodeChar? 0 = none) :
    decodeLossy (b :: bs) = '\uFFFD' :: decodeLossy ((b :: bs).drop (brokenLength b bs)) := by
  have hbroken := one_le_brokenLength b bs
  have hlength : ((b :: bs).drop (brokenLength b bs)).length ≤ bs.length := by
    rw [List.length_drop, List.length_cons]
    omega
  rw [decodeLossy, List.length_cons, decodeLossyAux, h]
  exact congrArg ('\uFFFD' :: ·) (decodeLossyAux_fuel hlength (Nat.le_refl _))

/-- A whole character comes out as it is. -/
theorem decodeLossy_encodeChar (c : Char) (bs : List UInt8) :
    decodeLossy (String.utf8EncodeChar c ++ bs) = c :: decodeLossy bs := by
  obtain ⟨b, tl, hb⟩ := List.exists_cons_of_ne_nil (String.utf8EncodeChar_ne_nil (c := c))
  have hdecode : ((b :: tl) ++ bs).toByteArray.utf8DecodeChar? 0 = some c := by
    rw [← hb, List.toByteArray_append]
    exact ByteArray.utf8DecodeChar?_utf8EncodeChar_append
  have hdrop : ((b :: tl) ++ bs).drop c.utf8Size = bs := by
    rw [← hb, ← String.length_utf8EncodeChar, List.drop_left]
  rw [hb, List.cons_append] at *
  rw [decodeLossy_cons_of_some hdecode, hdrop]

/-- A byte that continues a character, without it. -/
theorem decodeLossy_continuation {b : UInt8} (h : isContinuation b = true) (bs : List UInt8) :
    decodeLossy (b :: bs) = '�' :: decodeLossy bs := by
  have hnone : (b :: bs).toByteArray.utf8DecodeChar? 0 = none := by
    by_contra hsome
    obtain ⟨c, hc⟩ := Option.ne_none_iff_exists'.mp hsome
    obtain ⟨b', bs', hbytes, hfirst⟩ := head_encodeChar c
    have hprefix := encodeChar_begins hc
    rw [hbytes, List.cons_prefix_cons] at hprefix
    rw [← hprefix.1, hfirst] at h
    cases h
  have hbroken : brokenLength b bs = 1 := by
    have hlt : b < 0xE0 := by
      rw [isContinuation, Bool.and_eq_true, decide_eq_true_eq, decide_eq_true_eq] at h
      exact UInt8.lt_of_le_of_lt h.2 (by decide)
    rw [brokenLength, decide_eq_true hlt]
    rfl
  rw [decodeLossy_cons_of_none hnone, hbroken, List.drop_one, List.tail_cons]

theorem decodeLossy_continuations {bs : List UInt8} (h : ∀ b ∈ bs, isContinuation b = true)
    (rest : List UInt8) :
    decodeLossy (bs ++ rest) = List.replicate bs.length '�' ++ decodeLossy rest := by
  induction bs with
  | nil => rfl
  | cons b bs ih =>
    obtain ⟨hb, hbs⟩ := List.forall_mem_cons.mp h
    rw [List.cons_append, decodeLossy_continuation hb, ih hbs]
    rfl

/-- The front of a character, which goes on behind the end. -/
theorem decodeLossy_front {c : Char} {bs rest : List UInt8}
    (h : String.utf8EncodeChar c = bs ++ rest) (hbs : bs ≠ []) (hrest : rest ≠ []) :
    decodeLossy bs = ['�'] := by
  cases bs with
  | nil => exact absurd rfl hbs
  | cons b bs =>
    have hnone : (b :: bs).toByteArray.utf8DecodeChar? 0 = none := by
      by_contra hsome
      obtain ⟨c', hc'⟩ := Option.ne_none_iff_exists'.mp hsome
      have hprefix : encode [c'] <+: encode [c] := by
        rw [encode_cons, encode_cons, encode_nil, List.append_nil, List.append_nil, h]
        exact (encodeChar_begins hc').trans (List.prefix_append _ _)
      have hsame := prefix_of_encode_prefix hprefix
      rw [List.cons_prefix_cons] at hsame
      have hlength := (encodeChar_begins hc').length_le
      rw [hsame.1, h, List.length_append] at hlength
      have hmore := List.length_pos_iff.mpr hrest
      omega
    rw [decodeLossy_cons_of_none hnone, List.drop_eq_nil_of_le (length_le_brokenLength h hrest),
      decodeLossy_nil]

/-- What comes out of a window on the bytes of a text, character by character. -/
theorem decodeLossy_window (cs : List Char) {start stop : ℕ} (h : start ≤ stop) :
    decodeLossy (((encode cs).take stop).drop start) = windowText cs start stop := by
  induction cs generalizing start stop with
  | nil => simp [windowText]
  | cons c cs ih =>
    have hsize : (String.utf8EncodeChar c).length = c.utf8Size := String.length_utf8EncodeChar ..
    have htake : (encode (c :: cs)).take stop =
        (String.utf8EncodeChar c).take stop ++ (encode cs).take (stop - c.utf8Size) := by
      rw [encode_cons, List.take_append, hsize]
    rw [htake, windowText]
    split_ifs with hstart hwhole hstop hbehind
    · rw [hstart, List.drop_zero, List.take_of_length_le (by omega), decodeLossy_encodeChar]
      have hrest := ih (Nat.zero_le (stop - c.utf8Size))
      rw [List.drop_zero] at hrest
      rw [hrest]
    · rw [hstart, hstop]
      simp
    · have hbehind : stop - c.utf8Size = 0 := by omega
      rw [hstart, hbehind, List.take_zero, List.append_nil, List.drop_zero]
      refine decodeLossy_front (List.take_append_drop stop _).symm ?_ ?_
      · rw [ne_eq, ← List.length_eq_zero_iff, List.length_take]
        omega
      · rw [ne_eq, List.drop_eq_nil_iff]
        omega
    · rw [List.take_of_length_le (by omega), List.drop_append, hsize,
        List.drop_eq_nil_of_le (by omega), List.nil_append]
      exact ih (by omega)
    · have hinside : start ≤ ((String.utf8EncodeChar c).take stop).length := by
        rw [List.length_take]
        omega
      have hcontinue : ∀ b ∈ ((String.utf8EncodeChar c).take stop).drop start,
          isContinuation b = true := by
        intro b hb
        refine isContinuation_of_mem_tail (c := c) ?_
        rw [← List.drop_one]
        obtain ⟨k, hk⟩ : ∃ k, start = 1 + k := ⟨start - 1, by omega⟩
        rw [hk, ← List.drop_drop] at hb
        exact (List.take_sublist stop _).drop 1 |>.subset (List.mem_of_mem_drop hb)
      have hlength : (((String.utf8EncodeChar c).take stop).drop start).length =
          min stop c.utf8Size - start := by
        rw [List.length_drop, List.length_take, hsize]
      have hrest := ih (Nat.zero_le (stop - c.utf8Size))
      rw [List.drop_zero] at hrest
      rw [List.drop_append_of_le_length hinside, decodeLossy_continuations hcontinue, hlength,
        hrest]

/-! ### Windows that follow one another -/

/-- The position is one between two characters. -/
def IsBoundary (cs : List Char) (p : ℕ) : Prop :=
  ∃ front back, cs = front ++ back ∧ (encode front).length = p

/-- What comes out of the windows from a position over the stops to the end. -/
def windows (cs : List Char) : ℕ → List ℕ → List Char
  | start, [] => windowText cs start (encode cs).length
  | start, stop :: stops => windowText cs start stop ++ windows cs stop stops

/-- How many characters begin in front of the position. -/
def begun : List Char → ℕ → ℕ
  | [], _ => 0
  | c :: cs, p => if p = 0 then 0 else begun cs (p - c.utf8Size) + 1

/-- How many bytes in the window belong to a character that begins in front of it. -/
def orphans : List Char → ℕ → ℕ → ℕ
  | [], _, _ => 0
  | c :: cs, start, stop =>
    if start = 0 then 0
    else if c.utf8Size ≤ start then orphans cs (start - c.utf8Size) (stop - c.utf8Size)
    else min stop c.utf8Size - start

theorem length_encode_cons (c : Char) (cs : List Char) :
    (encode (c :: cs)).length = c.utf8Size + (encode cs).length := by
  rw [encode_cons, List.length_append, String.length_utf8EncodeChar]

theorem begun_zero (cs : List Char) : begun cs 0 = 0 := by
  cases cs <;> rfl

theorem begun_length (cs : List Char) : begun cs (encode cs).length = cs.length := by
  induction cs with
  | nil => rfl
  | cons c cs ih =>
    have hpos := c.utf8Size_pos
    rw [begun, length_encode_cons, if_neg (by omega), Nat.add_sub_cancel_left, ih]
    rfl

/-- A window shows the characters that begin in it, and one more for each orphan. -/
theorem length_windowText (cs : List Char) {start stop : ℕ} (h : start ≤ stop) :
    (windowText cs start stop).length + begun cs start = begun cs stop + orphans cs start stop := by
  induction cs generalizing start stop with
  | nil => rfl
  | cons c cs ih =>
    have hpos := c.utf8Size_pos
    rw [windowText, begun, begun, orphans]
    split_ifs with hstart hwhole hstop hstop hbehind hstop
    · omega
    · have hrest := ih (Nat.zero_le (stop - c.utf8Size))
      rw [begun_zero] at hrest
      have horphans : orphans cs 0 (stop - c.utf8Size) = 0 := by cases cs <;> rfl
      rw [List.length_cons]
      omega
    · rfl
    · have hnone : stop - c.utf8Size = 0 := by omega
      rw [hnone, begun_zero]
      rfl
    · omega
    · have hrest := ih (show start - c.utf8Size ≤ stop - c.utf8Size by omega)
      omega
    · omega
    · have hrest := ih (Nat.zero_le (stop - c.utf8Size))
      have horphans : orphans cs 0 (stop - c.utf8Size) = 0 := by cases cs <;> rfl
      have hnone : start - c.utf8Size = 0 := by omega
      rw [begun_zero] at hrest
      rw [List.length_append, List.length_replicate, hnone, begun_zero]
      omega

theorem isBoundary_zero (cs : List Char) : IsBoundary cs 0 := ⟨[], cs, rfl, rfl⟩

theorem isBoundary_length (cs : List Char) : IsBoundary cs (encode cs).length :=
  ⟨cs, [], (List.append_nil cs).symm, rfl⟩

theorem IsBoundary.cons {cs : List Char} {p : ℕ} (c : Char) (h : IsBoundary cs p) :
    IsBoundary (c :: cs) (c.utf8Size + p) := by
  obtain ⟨front, back, rfl, rfl⟩ := h
  exact ⟨c :: front, back, rfl, length_encode_cons c front⟩

/-- Without an orphan a window is empty, or it begins between two characters. -/
theorem isBoundary_of_orphans {cs : List Char} {start stop : ℕ} (h : start ≤ stop)
    (hstop : stop ≤ (encode cs).length) (hnone : orphans cs start stop = 0) :
    start = stop ∨ IsBoundary cs start := by
  induction cs generalizing start stop with
  | nil =>
    rw [encode_nil, List.length_nil] at hstop
    exact Or.inl (by omega)
  | cons c cs ih =>
    have hpos := c.utf8Size_pos
    rw [length_encode_cons] at hstop
    rw [orphans] at hnone
    split_ifs at hnone with hstart hbehind
    · rw [hstart]
      exact Or.inr (isBoundary_zero _)
    · rcases ih (by omega) (by omega) hnone with heq | hboundary
      · exact Or.inl (by omega)
      · have hcons := hboundary.cons c
        rw [show c.utf8Size + (start - c.utf8Size) = start by omega] at hcons
        exact Or.inr hcons
    · exact Or.inl (by omega)

/-- The stops follow one another from the start to the end of the bytes. -/
def Ascending (cs : List Char) : ℕ → List ℕ → Prop
  | start, [] => start ≤ (encode cs).length
  | start, stop :: stops => start ≤ stop ∧ Ascending cs stop stops

theorem Ascending.le_length {cs : List Char} {start : ℕ} {stops : List ℕ}
    (h : Ascending cs start stops) : start ≤ (encode cs).length := by
  induction stops generalizing start with
  | nil => exact h
  | cons stop stops ih => exact Nat.le_trans h.1 (ih h.2)

/-- No character is missing from the windows. -/
theorem length_le_windows {cs : List Char} {start : ℕ} {stops : List ℕ}
    (h : Ascending cs start stops) :
    cs.length ≤ (windows cs start stops).length + begun cs start := by
  induction stops generalizing start with
  | nil =>
    have hlast := length_windowText cs h.le_length
    rw [begun_length] at hlast
    rw [windows]
    omega
  | cons stop stops ih =>
    have hfirst := length_windowText cs h.1
    have hrest := ih h.2
    rw [windows, List.length_append]
    omega

/-- Where the windows show no character twice, they part the text between its characters. -/
theorem isBoundary_of_windows {cs : List Char} {start : ℕ} {stops : List ℕ}
    (h : Ascending cs start stops)
    (hlength : (windows cs start stops).length + begun cs start = cs.length) :
    IsBoundary cs start ∧ ∀ p ∈ stops, IsBoundary cs p := by
  induction stops generalizing start with
  | nil =>
    have hlast := length_windowText cs h.le_length
    rw [begun_length] at hlast
    rw [windows] at hlength
    refine ⟨?_, by simp⟩
    rcases isBoundary_of_orphans h.le_length (Nat.le_refl _) (by omega) with heq | hboundary
    · rw [heq]
      exact isBoundary_length cs
    · exact hboundary
  | cons stop stops ih =>
    have hfirst := length_windowText cs h.1
    have hrest := length_le_windows h.2
    rw [windows, List.length_append] at hlength
    obtain ⟨hstop, hstops⟩ := ih h.2 (by omega)
    refine ⟨?_, List.forall_mem_cons.mpr ⟨hstop, hstops⟩⟩
    rcases isBoundary_of_orphans h.1 h.2.le_length (by omega) with heq | hboundary
    · rw [heq]
      exact hstop
    · exact hboundary

theorem windowText_behind (front back : List Char) (stop : ℕ) :
    windowText (front ++ back) (encode front).length stop =
      windowText back 0 (stop - (encode front).length) := by
  induction front generalizing stop with
  | nil => rfl
  | cons c front ih =>
    have hpos := c.utf8Size_pos
    rw [List.cons_append, windowText, length_encode_cons, if_neg (by omega), if_pos (by omega),
      Nat.add_sub_cancel_left, ih, Nat.sub_sub]

theorem windowText_front (front back : List Char) :
    windowText (front ++ back) 0 (encode front).length = front := by
  induction front with
  | nil => cases back <;> simp [windowText, Nat.ne_of_gt (Char.utf8Size_pos _)]
  | cons c front ih =>
    rw [List.cons_append, windowText, length_encode_cons, if_pos rfl, if_pos (by omega),
      Nat.add_sub_cancel_left, ih]

/-- Between its characters the text is parted without a trace. -/
theorem windows_of_isBoundary (front back : List Char) {stops : List ℕ}
    (h : Ascending (front ++ back) (encode front).length stops)
    (hstops : ∀ p ∈ stops, IsBoundary (front ++ back) p) :
    windows (front ++ back) (encode front).length stops = back := by
  induction stops generalizing front back with
  | nil =>
    rw [windows, windowText_behind, encode_append, List.length_append, Nat.add_sub_cancel_left]
    have hwhole := windowText_front back []
    rwa [List.append_nil] at hwhole
  | cons stop stops ih =>
    obtain ⟨⟨front', back', hsame, hlength⟩, hstops⟩ := List.forall_mem_cons.mp hstops
    have hle := h.1
    have hfront : encode front <+: encode (front ++ back) := by
      rw [encode_append]
      exact List.prefix_append _ _
    have hfront' : encode front' <+: encode (front ++ back) := by
      rw [hsame, encode_append]
      exact List.prefix_append _ _
    have hbytes : encode front <+: encode front' :=
      List.prefix_of_prefix_length_le hfront hfront' (by omega)
    obtain ⟨middle, rfl⟩ := prefix_of_encode_prefix hbytes
    rw [List.append_assoc, List.append_cancel_left_eq] at hsame
    subst hsame
    have hascending := h.2
    rw [← hlength, ← List.append_assoc] at hascending
    rw [← List.append_assoc] at hstops
    have hrest := ih _ _ hascending hstops
    rw [List.append_assoc, hlength] at hrest
    rw [windows, hrest, windowText_behind, ← hlength, encode_append, List.length_append,
      Nat.add_sub_cancel_left, windowText_front]

/-- The windows give the text back if and only if they part it between its characters. -/
theorem windows_eq_iff {cs : List Char} {stops : List ℕ} (h : Ascending cs 0 stops) :
    windows cs 0 stops = cs ↔ ∀ p ∈ stops, IsBoundary cs p := by
  constructor
  · intro heq
    refine (isBoundary_of_windows h ?_).2
    rw [heq, begun_zero, Nat.add_zero]
  · exact windows_of_isBoundary [] cs h

end Utf8
