import Mathlib.Algebra.Ring.Nat
import Mathlib.Data.List.DropRight
import Mathlib.Data.List.Basic

/-! A stream that is read in pieces, the lines a buffered reader makes of it, and what trimming a
line leaves. -/

/-- What is buffered, and the pieces that further reads bring; an empty one would be the end. -/
structure BufReader where
  buffer : List UInt8
  chunks : List { c : List UInt8 // c ≠ [] }

namespace BufReader

def remaining (r : BufReader) : List UInt8 := r.buffer ++ r.chunks.flatMap (·.1)

/-- `read_until`, with the bytes it has taken so far. -/
def readUntilAux (delim : UInt8) (line buffer : List UInt8) :
    List { c : List UInt8 // c ≠ [] } → List UInt8 × BufReader
  | [] =>
    if delim ∈ buffer then
      (line ++ buffer.takeWhile (· ≠ delim) ++ [delim],
        ⟨(buffer.dropWhile (· ≠ delim)).tail, []⟩)
    else (line ++ buffer, ⟨[], []⟩)
  | c :: cs =>
    if delim ∈ buffer then
      (line ++ buffer.takeWhile (· ≠ delim) ++ [delim],
        ⟨(buffer.dropWhile (· ≠ delim)).tail, c :: cs⟩)
    else readUntilAux delim (line ++ buffer) c.1 cs

def readUntil (delim : UInt8) (r : BufReader) : List UInt8 × BufReader :=
  readUntilAux delim [] r.buffer r.chunks

variable {delim : UInt8} {text rest : List UInt8}

theorem takeWhile_delim (h : delim ∉ text) (rest : List UInt8) :
    (text ++ delim :: rest).takeWhile (· ≠ delim) = text ∧
      (text ++ delim :: rest).dropWhile (· ≠ delim) = delim :: rest := by
  induction text with
  | nil => simp
  | cons b text ih =>
    obtain ⟨hb, htext⟩ : b ≠ delim ∧ delim ∉ text := by
      rw [List.mem_cons, not_or] at h
      exact ⟨Ne.symm h.1, h.2⟩
    simpa [hb] using ih htext

theorem takeWhile_append_of_mem {buffer : List UInt8} (h : delim ∈ buffer) (more : List UInt8) :
    (buffer ++ more).takeWhile (· ≠ delim) = buffer.takeWhile (· ≠ delim) ∧
      ((buffer ++ more).dropWhile (· ≠ delim)).tail =
        (buffer.dropWhile (· ≠ delim)).tail ++ more := by
  obtain ⟨front, back, rfl, hfront⟩ := List.eq_append_cons_of_mem h
  rw [List.append_assoc, List.cons_append, (takeWhile_delim hfront _).1,
    (takeWhile_delim hfront _).1, (takeWhile_delim hfront _).2, (takeWhile_delim hfront _).2]
  exact ⟨rfl, rfl⟩

/-- However the stream is cut, the line goes up to the first delimiter, or to the end. -/
theorem readUntilAux_eq (line buffer : List UInt8) (chunks : List { c : List UInt8 // c ≠ [] })
    {bytes : List UInt8} (hbytes : buffer ++ chunks.flatMap (·.1) = bytes) :
    (readUntilAux delim line buffer chunks).1 =
        line ++ (if delim ∈ bytes then bytes.takeWhile (· ≠ delim) ++ [delim] else bytes) ∧
      (readUntilAux delim line buffer chunks).2.remaining =
        if delim ∈ bytes then (bytes.dropWhile (· ≠ delim)).tail else [] := by
  induction chunks generalizing line buffer bytes with
  | nil =>
    rw [List.flatMap_nil, List.append_nil] at hbytes
    rw [readUntilAux, hbytes]
    split_ifs
    · simp [remaining]
    · simp [remaining]
  | cons c cs ih =>
    rw [readUntilAux]
    by_cases hmem : delim ∈ buffer
    · obtain ⟨htake, hdrop⟩ := takeWhile_append_of_mem hmem ((c :: cs).flatMap (·.1))
      have hall : delim ∈ bytes := hbytes ▸ List.mem_append_left _ hmem
      rw [if_pos hmem, if_pos hall, if_pos hall, ← hbytes, htake, hdrop, List.append_assoc]
      exact ⟨rfl, rfl⟩
    · have hbuffer : ∀ b ∈ buffer, decide (b ≠ delim) = true :=
        fun b hb => decide_eq_true fun hd => hmem (hd ▸ hb)
      obtain ⟨hline, hremaining⟩ := ih (line ++ buffer) c.1 rfl
      rw [if_neg hmem, hline, hremaining, ← hbytes]
      simp only [List.flatMap_cons, List.mem_append, hmem, false_or,
        List.takeWhile_append_of_pos hbuffer, List.dropWhile_append_of_pos hbuffer]
      refine ⟨?_, trivial⟩
      split_ifs
      · simp
      · simp

/-- A line that is ended. -/
theorem readUntil_ended {r : BufReader} (h : delim ∉ text)
    (hr : r.remaining = text ++ delim :: rest) :
    (r.readUntil delim).1 = text ++ [delim] ∧ (r.readUntil delim).2.remaining = rest := by
  have hmem : delim ∈ text ++ delim :: rest := by simp
  obtain ⟨hline, hremaining⟩ := readUntilAux_eq [] r.buffer r.chunks hr
  rw [if_pos hmem, (takeWhile_delim h rest).1] at hline
  rw [if_pos hmem, (takeWhile_delim h rest).2] at hremaining
  exact ⟨hline, hremaining⟩

/-- What is behind the last line. -/
theorem readUntil_unended {r : BufReader} (h : delim ∉ r.remaining) :
    (r.readUntil delim).1 = r.remaining ∧ (r.readUntil delim).2.remaining = [] := by
  obtain ⟨hline, hremaining⟩ := readUntilAux_eq [] r.buffer r.chunks (Eq.refl r.remaining)
  rw [if_neg h] at hline hremaining
  exact ⟨hline, hremaining⟩

/-- Reading loses no byte. -/
theorem readUntil_append (delim : UInt8) (r : BufReader) :
    (r.readUntil delim).1 ++ (r.readUntil delim).2.remaining = r.remaining := by
  by_cases h : delim ∈ r.remaining
  · obtain ⟨text, rest, hr, htext⟩ := List.eq_append_cons_of_mem h
    obtain ⟨hline, hremaining⟩ := readUntil_ended htext hr
    rw [hline, hremaining, hr, List.append_assoc]
    rfl
  · obtain ⟨hline, hremaining⟩ := readUntil_unended h
    rw [hline, hremaining, List.append_nil]

end BufReader

/-- `char::is_whitespace`. -/
def Char.isWhiteSpace (c : Char) : Bool :=
  [0x20, 0x85, 0xA0, 0x1680, 0x2028, 0x2029, 0x202F, 0x205F, 0x3000].contains c.toNat ||
    (0x09 ≤ c.toNat && c.toNat ≤ 0x0D) || (0x2000 ≤ c.toNat && c.toNat ≤ 0x200A)

/-- `str::trim`. -/
def trimWhiteSpace (cs : List Char) : List Char :=
  (cs.dropWhile Char.isWhiteSpace).rdropWhile Char.isWhiteSpace

/-- Nothing is trimmed from the front of a text that begins with a visible character. -/
theorem trimWhiteSpace_cons {c : Char} (hc : c.isWhiteSpace = false) (cs : List Char) :
    trimWhiteSpace (c :: cs) = (c :: cs).rdropWhile Char.isWhiteSpace := by
  rw [trimWhiteSpace, List.dropWhile_cons, hc]
  rfl

theorem trimWhiteSpace_prefix {c : Char} (hc : c.isWhiteSpace = false) (cs : List Char) :
    trimWhiteSpace (c :: cs) ≠ [] ∧ trimWhiteSpace (c :: cs) <+: c :: cs := by
  rw [trimWhiteSpace_cons hc]
  refine ⟨?_, List.rdropWhile_prefix _ _⟩
  intro hnil
  have hall := (List.rdropWhile_eq_nil_iff).mp hnil c List.mem_cons_self
  rw [hc] at hall
  cases hall

/-- A text between visible characters loses only the blanks behind it. -/
theorem trimWhiteSpace_append_blank {c d : Char} {cs front blank : List Char}
    (hc : c.isWhiteSpace = false) (hd : d.isWhiteSpace = false) (hends : c :: cs = front ++ [d])
    (hblank : ∀ b ∈ blank, b.isWhiteSpace = true) :
    trimWhiteSpace (c :: cs ++ blank) = c :: cs := by
  have hreverse : ∀ b ∈ blank.reverse, b.isWhiteSpace = true :=
    fun b hb => hblank b (List.mem_reverse.mp hb)
  rw [List.cons_append, trimWhiteSpace_cons hc, List.rdropWhile, ← List.cons_append,
    List.reverse_append, List.dropWhile_append_of_pos hreverse, hends, List.reverse_append,
    List.reverse_singleton, List.singleton_append, List.dropWhile_cons, hd]
  simp
