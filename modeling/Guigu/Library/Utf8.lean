import Mathlib.Data.List.Basic

/-! UTF-8 text as lists of bytes: encoding, the strict decoder, and where a cut may fall. -/
namespace Utf8

/-- The bytes of a text. -/
def encode (cs : List Char) : List UInt8 := cs.flatMap String.utf8EncodeChar

/-- The first argument bounds the characters still to read; every character takes a byte. -/
def decodeAux : ℕ → List UInt8 → Option (List Char)
  | _, [] => some []
  | 0, _ :: _ => none
  | n + 1, b :: bs =>
    ((b :: bs).toByteArray.utf8DecodeChar? 0).bind fun c =>
      (decodeAux n ((b :: bs).drop c.utf8Size)).map (c :: ·)

/-- The text of a byte string, when the whole of it is valid UTF-8. -/
def decode (bs : List UInt8) : Option (List Char) := decodeAux bs.length bs

/-- The byte may stand behind the first one of a character. -/
def isContinuation (b : UInt8) : Bool := 0x80 ≤ b && b ≤ 0xBF

/-- Which second byte may follow a first one. -/
def secondFits (b next : UInt8) : Bool :=
  if b = 0xE0 then 0xA0 ≤ next && next ≤ 0xBF
  else if b = 0xED then 0x80 ≤ next && next ≤ 0x9F
  else if b = 0xF0 then 0x90 ≤ next && next ≤ 0xBF
  else if b = 0xF4 then 0x80 ≤ next && next ≤ 0x8F
  else isContinuation next

/-- How many bytes at the front are the beginning of one character that does not go on. -/
def brokenLength (b : UInt8) (bs : List UInt8) : ℕ :=
  if b < 0xE0 || 0xF4 < b || !secondFits b (bs.getD 0 0) then 1
  else if b < 0xF0 || !isContinuation (bs.getD 1 0) then 2
  else 3

/-- As `decodeAux`, with one replacement character for each broken one. -/
def decodeLossyAux : ℕ → List UInt8 → List Char
  | _, [] => []
  | 0, _ :: _ => []
  | n + 1, b :: bs =>
    match (b :: bs).toByteArray.utf8DecodeChar? 0 with
    | some c => c :: decodeLossyAux n ((b :: bs).drop c.utf8Size)
    | none => '\uFFFD' :: decodeLossyAux n ((b :: bs).drop (brokenLength b bs))

def decodeLossy (bs : List UInt8) : List Char := decodeLossyAux bs.length bs

@[simp] theorem encode_nil : encode [] = [] := rfl

@[simp] theorem encode_cons (c : Char) (cs : List Char) :
    encode (c :: cs) = String.utf8EncodeChar c ++ encode cs := rfl

@[simp] theorem encode_append (as bs : List Char) : encode (as ++ bs) = encode as ++ encode bs := by
  simp [encode]

@[simp] theorem decode_nil : decode [] = some [] := rfl

/-- The decoder reads back one encoded character and leaves the rest. -/
theorem decodeAux_encodeChar (c : Char) (bs : List UInt8) (n : ℕ) :
    decodeAux (n + 1) (String.utf8EncodeChar c ++ bs) = (decodeAux n bs).map (c :: ·) := by
  obtain ⟨b, tl, hb⟩ := List.exists_cons_of_ne_nil (String.utf8EncodeChar_ne_nil (c := c))
  have hd : ((b :: tl) ++ bs).toByteArray.utf8DecodeChar? 0 = some c := by
    rw [← hb, List.toByteArray_append]
    exact ByteArray.utf8DecodeChar?_utf8EncodeChar_append
  have hl : ((b :: tl) ++ bs).drop c.utf8Size = bs := by
    rw [← hb, ← String.length_utf8EncodeChar, List.drop_left]
  rw [hb]
  rw [List.cons_append] at hd hl ⊢
  simp only [decodeAux, hd, Option.bind_some, hl]

/-- Enough fuel reads a text in front of any bytes. -/
theorem decodeAux_encode_append (cs : List Char) (bs : List UInt8) (n : ℕ) :
    decodeAux (cs.length + n) (encode cs ++ bs) = (decodeAux n bs).map (cs ++ ·) := by
  induction cs with
  | nil => simp
  | cons c cs ih =>
    have hn : (c :: cs).length + n = (cs.length + n) + 1 := by simp only [List.length_cons]; omega
    rw [hn, encode_cons, List.append_assoc, decodeAux_encodeChar, ih, Option.map_map]
    rfl

theorem decodeAux_sound {n : ℕ} {bs : List UInt8} {cs : List Char}
    (h : decodeAux n bs = some cs) : encode cs = bs := by
  induction n generalizing bs cs with
  | zero =>
    cases bs with
    | nil => cases h; rfl
    | cons b bs => cases h
  | succ n ih =>
    cases bs with
    | nil => cases h; rfl
    | cons b bs =>
      simp only [decodeAux, Option.bind_eq_some_iff, Option.map_eq_some_iff] at h
      obtain ⟨c, hc, cs', hcs, rfl⟩ := h
      have hsize := ByteArray.le_size_of_utf8DecodeChar?_eq_some hc
      have he := String.toByteArray_utf8EncodeChar_of_utf8DecodeChar?_eq_some hc
      have htake : String.utf8EncodeChar c = (b :: bs).take c.utf8Size := by
        rw [← List.toByteArray_inj, he]
        apply ByteArray.ext
        simp [List.data_toByteArray]
      rw [encode_cons, ih hcs, htake, List.take_append_drop]

/-- More fuel than bytes changes nothing. -/
theorem decodeAux_fuel {n m : ℕ} {bs : List UInt8} (hn : bs.length ≤ n) (hm : bs.length ≤ m) :
    decodeAux n bs = decodeAux m bs := by
  induction n generalizing m bs with
  | zero =>
    have hb : bs = [] := List.eq_nil_of_length_eq_zero (by omega)
    subst hb
    cases m <;> rfl
  | succ n ih =>
    cases bs with
    | nil => cases m <;> rfl
    | cons b bs =>
      obtain ⟨m, rfl⟩ : ∃ k, m = k + 1 := ⟨m - 1, by simp only [List.length_cons] at hm; omega⟩
      simp only [decodeAux]
      congr 1
      funext c
      have hc := c.utf8Size_pos
      simp only [List.length_cons] at hn hm
      rw [ih (m := m) (by simp only [List.length_drop, List.length_cons]; omega)
        (by simp only [List.length_drop, List.length_cons]; omega)]

theorem length_le_encode (cs : List Char) : cs.length ≤ (encode cs).length := by
  induction cs with
  | nil => simp
  | cons c cs ih =>
    have hc := c.utf8Size_pos
    simp only [encode_cons, List.length_cons, List.length_append, String.length_utf8EncodeChar]
    omega

/-- A valid text in front of any bytes is read off first. -/
theorem decode_encode_append (cs : List Char) (bs : List UInt8) :
    decode (encode cs ++ bs) = (decode bs).map (cs ++ ·) := by
  have hl := length_le_encode cs
  rw [decode, decodeAux_fuel (m := cs.length + (encode cs ++ bs).length) (Nat.le_refl _) (by omega),
    decodeAux_encode_append, decode,
    decodeAux_fuel (m := bs.length) (by simp only [List.length_append]; omega) (Nat.le_refl _)]

@[simp] theorem decode_encode (cs : List Char) : decode (encode cs) = some cs := by
  simpa using decode_encode_append cs []

/-- The decoder accepts exactly the encoded texts. -/
theorem decode_eq_some {bs : List UInt8} {cs : List Char} :
    decode bs = some cs ↔ encode cs = bs := by
  constructor
  · exact decodeAux_sound
  · rintro rfl
    exact decode_encode cs

/-- Behind a valid text, validity is a matter of the remaining bytes alone. -/
theorem decode_append_isSome {as bs : List UInt8} (ha : (decode as).isSome) :
    (decode (as ++ bs)).isSome = (decode bs).isSome := by
  obtain ⟨cs, hcs⟩ := Option.isSome_iff_exists.mp ha
  rw [← decode_eq_some.mp hcs, decode_encode_append, Option.isSome_map]

/-- The line feed byte occurs in the encoding of the line feed only. -/
theorem lineFeed_mem_encodeChar (c : Char) : 10 ∈ String.utf8EncodeChar c ↔ c = '\n' := by
  constructor
  · intro h
    have hv : c.val.toNat = 10 := by
      simp only [String.utf8EncodeChar] at h
      split at h
      · simp only [List.mem_singleton, ← UInt8.toNat_inj, UInt8.toNat_ofNat'] at h
        have : (10 : UInt8).toNat = 10 := rfl
        omega
      all_goals
        exfalso
        revert h
        split <;> (try split) <;>
          simp only [List.mem_cons, List.not_mem_nil, or_false, ← UInt8.toNat_inj,
            UInt8.toNat_ofNat', show (10 : UInt8).toNat = 10 from rfl] <;> omega
    apply Char.ext
    apply UInt32.toNat_inj.mp
    exact hv
  · rintro rfl
    decide

theorem lineFeed_mem_encode (cs : List Char) : 10 ∈ encode cs ↔ '\n' ∈ cs := by
  simp [encode, List.mem_flatMap, lineFeed_mem_encodeChar]

/-- Cut between characters, the bytes of a text are the bytes of its front part. -/
theorem prefix_of_encode_prefix {cs ds : List Char} (h : encode cs <+: encode ds) : cs <+: ds := by
  obtain ⟨rest, hrest⟩ := h
  have hd : decode (encode ds) = (decode rest).map (cs ++ ·) := by
    rw [← hrest, decode_encode_append]
  rw [decode_encode] at hd
  obtain ⟨es, -, hes⟩ := Option.map_eq_some_iff.mp hd.symm
  exact ⟨es, hes⟩

/-- A text splits at its first line feed into two texts. -/
theorem split_lineFeed {text rest : List UInt8} {cs : List Char} (h10 : 10 ∉ text)
    (h : decode (text ++ 10 :: rest) = some cs) :
    ∃ ds es, decode text = some ds ∧ decode rest = some es := by
  have henc := decode_eq_some.mp h
  have hmem : '\n' ∈ cs := by
    rw [← lineFeed_mem_encode, henc]
    simp
  obtain ⟨ds, es, rfl, hds⟩ := List.eq_append_cons_of_mem hmem
  have hn : String.utf8EncodeChar '\n' = [10] := by decide
  rw [encode_append, encode_cons, hn, List.singleton_append] at henc
  have hds' : 10 ∉ encode ds := fun hm => hds ((lineFeed_mem_encode ds).mp hm)
  have hfront : ∀ {as bs : List UInt8}, 10 ∉ as → (as ++ 10 :: bs).takeWhile (· ≠ 10) = as := by
    intro as bs has
    have hne : ∀ a ∈ as, decide (a ≠ 10) = true := fun a ha =>
      decide_eq_true fun he => has (he ▸ ha)
    rw [List.takeWhile_append_of_pos hne]
    simp
  have htext : encode ds = text := by
    have hfirst : (encode ds ++ 10 :: encode es).takeWhile (· ≠ 10) = encode ds := hfront hds'
    rw [← hfirst, henc, hfront h10]
  rw [htext] at henc
  have hrest : encode es = rest := (List.cons.inj (List.append_cancel_left henc)).2
  exact ⟨ds, es, decode_eq_some.mpr htext, decode_eq_some.mpr hrest⟩

/-- Every byte of a character but the first one is above the ASCII bytes. -/
theorem le_of_mem_tail_encodeChar {c : Char} {b : UInt8}
    (h : b ∈ (String.utf8EncodeChar c).tail) : 128 ≤ b.toNat := by
  have hbyte : ∀ n : ℕ, 128 ≤ (UInt8.ofNat (n % 64 + 128)).toNat := by
    intro n
    rw [UInt8.toNat_ofNat']
    omega
  rw [String.utf8EncodeChar] at h
  split_ifs at h <;> simp only [List.tail_cons, List.mem_cons, List.not_mem_nil, or_false] at h
  · rw [h]
    exact hbyte _
  · rcases h with rfl | rfl
    · exact hbyte _
    · exact hbyte _
  · rcases h with rfl | rfl | rfl
    · exact hbyte _
    · exact hbyte _
    · exact hbyte _

/-- A text splits in front of every ASCII byte. -/
theorem split_ascii {b : UInt8} (hb : b.toNat < 128) {text rest : List UInt8} {cs : List Char}
    (h : decode (text ++ b :: rest) = some cs) :
    ∃ ds es, decode text = some ds ∧ decode (b :: rest) = some es ∧ cs = ds ++ es := by
  have henc := decode_eq_some.mp h
  clear h
  induction cs generalizing text with
  | nil =>
    have hlen := congrArg List.length henc
    simp at hlen
  | cons c cs ih =>
    rw [encode_cons, List.append_eq_append_iff] at henc
    rcases henc with ⟨more, htext, hcs⟩ | ⟨more, hchar, hrest⟩
    · obtain ⟨ds, es, hds, hes, rfl⟩ := ih hcs
      refine ⟨c :: ds, es, ?_, hes, rfl⟩
      rw [decode_eq_some, encode_cons, decode_eq_some.mp hds, htext]
    · cases text with
      | nil =>
        refine ⟨[], c :: cs, rfl, ?_, rfl⟩
        rw [List.nil_append] at hchar
        rw [decode_eq_some, encode_cons, hrest, hchar]
      | cons a text =>
        cases more with
        | nil =>
          refine ⟨[c], cs, ?_, ?_, rfl⟩
          · rw [decode_eq_some, encode_cons, hchar]
            simp
          · rw [decode_eq_some, ← List.nil_append (encode cs), ← hrest]
        | cons m more =>
          -- the ASCII byte would stand in the middle of a character
          obtain ⟨rfl, -⟩ := List.cons.inj hrest
          have hmem : b ∈ (String.utf8EncodeChar c).tail := by
            rw [hchar]
            simp
          have := le_of_mem_tail_encodeChar hmem
          omega

end Utf8
