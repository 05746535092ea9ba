import Mathlib.Algebra.Ring.Nat
import Mathlib.Data.List.Basic

/-! Newline-framed logs as byte strings: splitting at line feeds, a log cut at an arbitrary
byte, and scanning the lines up to the first one that is not a record. -/
namespace Lines

/-- One line as a buffered reader returns it: the bytes before the line feed, and whether
the line feed was there. Only the last line of a file may lack it. -/
structure Line where
  body : List UInt8
  terminated : Bool
  deriving DecidableEq, Repr

/-- What the line occupies in the file. -/
def Line.bytes (l : Line) : List UInt8 := if l.terminated then l.body ++ [10] else l.body

theorem Line.bytes_ended (text : List UInt8) : (⟨text, true⟩ : Line).bytes = text ++ [10] := rfl

def split : List UInt8 → List Line
  | [] => []
  | b :: bs =>
    if b = 10 then ⟨[], true⟩ :: split bs
    else match split bs with
      | [] => [⟨[b], false⟩]
      | l :: ls => ⟨b :: l.body, l.terminated⟩ :: ls

@[simp] theorem split_nil : split [] = [] := rfl

theorem split_frame {body : List UInt8} (h : 10 ∉ body) (rest : List UInt8) :
    split (body ++ 10 :: rest) = ⟨body, true⟩ :: split rest := by
  induction body with
  | nil => simp [split]
  | cons b body ih =>
    obtain ⟨hb, hbody⟩ : b ≠ 10 ∧ 10 ∉ body := by
      simp only [List.mem_cons, not_or] at h
      exact ⟨Ne.symm h.1, h.2⟩
    rw [List.cons_append, split, if_neg hb, ih hbody]

theorem split_unterminated {tail : List UInt8} (h : 10 ∉ tail) (hne : tail ≠ []) :
    split tail = [⟨tail, false⟩] := by
  induction tail with
  | nil => exact absurd rfl hne
  | cons b tail ih =>
    obtain ⟨hb, htail⟩ : b ≠ 10 ∧ 10 ∉ tail := by
      simp only [List.mem_cons, not_or] at h
      exact ⟨Ne.symm h.1, h.2⟩
    cases tail with
    | nil => simp [split, hb]
    | cons c tail => rw [split, if_neg hb, ih htail (by simp)]

/-- Splitting loses no byte. -/
theorem split_bytes (bs : List UInt8) : (split bs).flatMap Line.bytes = bs := by
  induction bs with
  | nil => rfl
  | cons b bs ih =>
    rw [split]
    split_ifs with hb
    · simp [Line.bytes, ih, hb]
    · cases hs : split bs with
      | nil => rw [hs] at ih; simp [Line.bytes, ← ih]
      | cons l ls =>
        rw [hs, List.flatMap_cons] at ih
        simp only [List.flatMap_cons]
        rw [← ih]
        cases ht : l.terminated <;> simp [Line.bytes, ht]

/-- A file is a piece without a line feed, or a line in front of a file. -/
theorem line_induction {motive : List UInt8 → Prop}
    (unended : ∀ tail, 10 ∉ tail → motive tail)
    (ended : ∀ text rest, 10 ∉ text → motive rest → motive (text ++ 10 :: rest))
    (bs : List UInt8) : motive bs := by
  induction hn : bs.length using Nat.strongRecOn generalizing bs with
  | _ n ih =>
    by_cases h : 10 ∈ bs
    · obtain ⟨text, rest, rfl, h10⟩ := List.eq_append_cons_of_mem h
      refine ended text rest h10 (ih rest.length ?_ rest rfl)
      rw [← hn, List.length_append, List.length_cons]
      omega
    · exact unended bs h

/-- The bytes behind the last line feed. -/
def fragment : List UInt8 → List UInt8
  | [] => []
  | b :: bs => if 10 ∈ bs then fragment bs else if b = 10 then bs else b :: bs

theorem fragment_of_not_mem {bs : List UInt8} (h : 10 ∉ bs) : fragment bs = bs := by
  cases bs with
  | nil => rfl
  | cons b bs =>
    simp only [List.mem_cons, not_or] at h
    rw [fragment, if_neg h.2, if_neg (Ne.symm h.1)]

theorem fragment_frame (text rest : List UInt8) :
    fragment (text ++ 10 :: rest) = fragment rest := by
  induction text with
  | nil =>
    by_cases h : 10 ∈ rest
    · simp [fragment, h]
    · simp [fragment, h, fragment_of_not_mem h]
  | cons b text ih => rw [List.cons_append, fragment, if_pos (by simp), ih]

section Log
variable {ρ : Type*} (body : ρ → List UInt8)

/-- A complete log: every record on a line of its own, each line ended. -/
def frames (rs : List ρ) : List UInt8 := rs.flatMap fun r => body r ++ [10]

@[simp] theorem frames_nil : frames body [] = [] := rfl

@[simp] theorem frames_cons (r : ρ) (rs : List ρ) :
    frames body (r :: rs) = body r ++ 10 :: frames body rs := by
  simp [frames]

@[simp] theorem frames_append (as bs : List ρ) :
    frames body (as ++ bs) = frames body as ++ frames body bs := by
  simp [frames]

theorem frames_singleton (r : ρ) : frames body [r] = body r ++ [10] := by simp

/-- The records whose whole lines lie within the first `n` bytes. -/
def within : List ρ → ℕ → List ρ
  | [], _ => []
  | r :: rs, n =>
    if (body r).length + 1 ≤ n then r :: within rs (n - ((body r).length + 1)) else []

/-- The record whose line the cut at `n` falls into. -/
def cutRecord : List ρ → ℕ → Option ρ
  | [], _ => none
  | r :: rs, n =>
    if (body r).length + 1 ≤ n then cutRecord rs (n - ((body r).length + 1)) else some r

/-- What a cut at `n` leaves of the line it falls into. -/
def torn : List ρ → ℕ → List UInt8
  | [], _ => []
  | r :: rs, n =>
    if (body r).length + 1 ≤ n then torn rs (n - ((body r).length + 1)) else (body r).take n

theorem take_frames (rs : List ρ) (n : ℕ) :
    (frames body rs).take n = frames body (within body rs n) ++ torn body rs n := by
  induction rs generalizing n with
  | nil => simp [within, torn]
  | cons r rs ih =>
    rw [within, torn]
    split_ifs with hn
    · have hsplit : frames body (r :: rs) = (body r ++ [10]) ++ frames body rs := by simp
      rw [hsplit, List.take_append, ih, List.take_of_length_le (by simpa using hn)]
      simp
    · rw [frames_cons, List.take_append_of_le_length (by omega)]
      simp

theorem torn_prefix (rs : List ρ) (n : ℕ) :
    torn body rs n = [] ∨ ∃ r, cutRecord body rs n = some r ∧ torn body rs n <+: body r := by
  induction rs generalizing n with
  | nil => exact Or.inl rfl
  | cons r rs ih =>
    rw [torn, cutRecord]
    split_ifs with hn
    · exact ih _
    · exact Or.inr ⟨r, rfl, List.take_prefix _ _⟩

theorem within_prefix (rs : List ρ) (n : ℕ) : within body rs n <+: rs := by
  induction rs generalizing n with
  | nil => exact List.prefix_refl _
  | cons r rs ih =>
    rw [within]
    split_ifs with hn
    · exact (List.prefix_cons_inj r).mpr (ih _)
    · exact List.nil_prefix

/-- The cut line is the one behind the complete lines. -/
theorem within_cutRecord_prefix {rs : List ρ} {n : ℕ} {r : ρ} (h : cutRecord body rs n = some r) :
    within body rs n ++ [r] <+: rs := by
  induction rs generalizing n with
  | nil => cases h
  | cons s rs ih =>
    rw [cutRecord] at h
    rw [within]
    split_ifs at h ⊢ with hn
    · exact (List.prefix_cons_inj s).mpr (ih h)
    · cases h
      simp

end Log

/-- What a reader makes of one line. -/
inductive Verdict (ρ : Type*) where
  | record (r : ρ)
  | garbage
  | undecodable

def Verdict.record? {ρ : Type*} : Verdict ρ → Option ρ
  | .record r => some r
  | _ => none

section Scan
variable {ρ : Type*} (judge : Line → Verdict ρ)

/-- Collect the records up to the first line that is not one; a line that is no text at all
makes the whole read fail. -/
def scan : List Line → Option (List (Line × ρ))
  | [] => some []
  | l :: ls =>
    match judge l with
    | .record r => (scan ls).map ((l, r) :: ·)
    | .garbage => some []
    | .undecodable => none

def scanBytes (bs : List UInt8) : Option (List (Line × ρ)) := scan judge (split bs)

/-- A log whose records are judged to be themselves. -/
def Readable (body : ρ → List UInt8) (r : ρ) : Prop :=
  10 ∉ body r ∧ judge ⟨body r, true⟩ = .record r

variable {judge} {body : ρ → List UInt8}

theorem scanBytes_frames_append {rs : List ρ} (h : ∀ r ∈ rs, Readable judge body r)
    (tail : List UInt8) :
    scanBytes judge (frames body rs ++ tail) =
      (scanBytes judge tail).map (rs.map (fun r => (⟨body r, true⟩, r)) ++ ·) := by
  induction rs with
  | nil => simp
  | cons r rs ih =>
    obtain ⟨hr, hrs⟩ := List.forall_mem_cons.mp h
    rw [frames_cons, List.append_assoc, List.cons_append, scanBytes, split_frame hr.1, scan, hr.2]
    change Option.map _ (scanBytes judge (frames body rs ++ tail)) = _
    rw [ih hrs, Option.map_map]
    rfl

theorem scanBytes_frames {rs : List ρ} (h : ∀ r ∈ rs, Readable judge body r) :
    scanBytes judge (frames body rs) = some (rs.map fun r => (⟨body r, true⟩, r)) := by
  have := scanBytes_frames_append h []
  simpa [scanBytes, scan] using this

/-- A last line without its line feed is judged on its own. -/
theorem scanBytes_unterminated {tail : List UInt8} (h : 10 ∉ tail) (hne : tail ≠ []) :
    scanBytes judge tail = match judge ⟨tail, false⟩ with
      | .record r => some [(⟨tail, false⟩, r)]
      | .garbage => some []
      | .undecodable => none := by
  rw [scanBytes, split_unterminated h hne, scan]
  cases judge ⟨tail, false⟩ <;> rfl

/-- A sequence of complete lines, each of them a record. -/
inductive Complete (judge : Line → Verdict ρ) : List UInt8 → List ρ → Prop
  | nil : Complete judge [] []
  | cons {text bs : List UInt8} {r : ρ} {rs : List ρ} : 10 ∉ text →
      judge ⟨text, true⟩ = .record r → Complete judge bs rs →
      Complete judge (text ++ 10 :: bs) (r :: rs)

theorem Complete.append {as bs : List UInt8} {rs ss : List ρ} (ha : Complete judge as rs)
    (hb : Complete judge bs ss) : Complete judge (as ++ bs) (rs ++ ss) := by
  induction ha with
  | nil => exact hb
  | @cons text as r rs h10 hj _ ih =>
    rw [List.append_assoc, List.cons_append]
    exact .cons h10 hj ih

theorem complete_frame {r : ρ} (h : Readable judge body r) :
    Complete judge (body r ++ [10]) [r] := .cons h.1 h.2 .nil

theorem complete_frames {rs : List ρ} (h : ∀ r ∈ rs, Readable judge body r) :
    Complete judge (frames body rs) rs := by
  induction rs with
  | nil => exact .nil
  | cons r rs ih =>
    obtain ⟨hr, hrs⟩ := List.forall_mem_cons.mp h
    rw [frames_cons]
    exact .cons hr.1 hr.2 (ih hrs)

/-- The scan reads complete lines first, whatever stands behind them. -/
theorem Complete.scan {bs : List UInt8} {rs : List ρ} (h : Complete judge bs rs) :
    ∃ ls : List (Line × ρ), ls.map Prod.snd = rs ∧ ls.flatMap (·.1.bytes) = bs ∧ ∀ tail,
      scanBytes judge (bs ++ tail) = (scanBytes judge tail).map (ls ++ ·) := by
  induction h with
  | nil => exact ⟨[], rfl, rfl, fun tail => by simp⟩
  | @cons text bs r rs h10 hj _ ih =>
    obtain ⟨ls, hls, hbytes, hscan⟩ := ih
    refine ⟨(⟨text, true⟩, r) :: ls, by simp [hls], by simp [Line.bytes_ended, hbytes],
      fun tail => ?_⟩
    rw [List.append_assoc, List.cons_append, scanBytes, split_frame h10, Lines.scan, hj]
    change Option.map _ (scanBytes judge (bs ++ tail)) = _
    rw [hscan, Option.map_map]
    rfl

theorem Complete.scanBytes_eq {bs : List UInt8} {rs : List ρ} (h : Complete judge bs rs) :
    ∃ ls, scanBytes judge bs = some ls ∧ ls.map Prod.snd = rs := by
  obtain ⟨ls, hls, -, hscan⟩ := h.scan
  refine ⟨ls, ?_, hls⟩
  have hnil : scanBytes judge [] = some [] := rfl
  simpa [hnil] using hscan []

/-- A file of complete lines contains every front part of complete lines. -/
theorem Complete.prefix_of_append {bs rest : List UInt8} {rs ss : List ρ}
    (h : Complete judge bs rs) (hs : Complete judge (bs ++ rest) ss) : rs <+: ss := by
  obtain ⟨ls, rfl, -, hscan⟩ := h.scan
  obtain ⟨ks, hks, rfl⟩ := hs.scanBytes_eq
  rw [hscan, Option.map_eq_some_iff] at hks
  obtain ⟨more, -, rfl⟩ := hks
  rw [List.map_append]
  exact List.prefix_append _ _

/-- A line that is scanned holds a record, or ends the scan. -/
theorem scan_cons_some {l : Line} {ls : List Line} {ps : List (Line × ρ)}
    (h : scan judge (l :: ls) = some ps) :
    (∃ r qs, judge l = .record r ∧ scan judge ls = some qs ∧ ps = (l, r) :: qs) ∨ ps = [] := by
  rw [scan] at h
  cases hj : judge l with
  | record r =>
    rw [hj] at h
    obtain ⟨qs, hqs, rfl⟩ := Option.map_eq_some_iff.mp h
    exact .inl ⟨r, qs, rfl, hqs, rfl⟩
  | garbage =>
    rw [hj] at h
    exact .inr (Option.some.inj h).symm
  | undecodable =>
    rw [hj] at h
    cases h

theorem scan_judge {ls : List Line} {ps : List (Line × ρ)} (h : scan judge ls = some ps) :
    ∀ p ∈ ps, judge p.1 = .record p.2 := by
  induction ls generalizing ps with
  | nil =>
    cases h
    simp
  | cons l ls ih =>
    obtain ⟨r, qs, hj, hqs, rfl⟩ | rfl := scan_cons_some h
    · exact List.forall_mem_cons.mpr ⟨hj, ih hqs⟩
    · exact List.forall_mem_nil _

/-- The scanned lines are a front part of the lines. -/
theorem scan_prefix {ls : List Line} {ps : List (Line × ρ)} (h : scan judge ls = some ps) :
    ps.map Prod.fst <+: ls := by
  induction ls generalizing ps with
  | nil =>
    cases h
    exact List.prefix_refl _
  | cons l ls ih =>
    obtain ⟨r, qs, -, hqs, rfl⟩ | rfl := scan_cons_some h
    · exact (List.prefix_cons_inj l).mpr (ih hqs)
    · exact List.nil_prefix

/-- The scanned lines are a front part of the file. -/
theorem scanBytes_prefix {bs : List UInt8} {ls : List (Line × ρ)}
    (h : scanBytes judge bs = some ls) : ∃ rest, bs = ls.flatMap (·.1.bytes) ++ rest := by
  obtain ⟨more, hmore⟩ := scan_prefix h
  refine ⟨more.flatMap Line.bytes, ?_⟩
  rw [← split_bytes bs, ← hmore, List.flatMap_append, List.flatMap_map]

/-- Cut back to the scanned lines. -/
theorem take_scanned {bs : List UInt8} {ls : List (Line × ρ)} (h : scanBytes judge bs = some ls) :
    bs.take (ls.map fun l => l.1.bytes.length).sum = ls.flatMap (·.1.bytes) := by
  obtain ⟨rest, hrest⟩ := scanBytes_prefix h
  have hlen : (ls.map fun l => l.1.bytes.length).sum = (ls.flatMap (·.1.bytes)).length := by
    rw [List.length_flatMap]
  rw [hlen]
  conv_lhs => rw [hrest]
  exact List.take_left

/-- Where no whole record lacks its line feed, the scanned lines are complete ones. -/
theorem scanBytes_complete_of_fragment {bs : List UInt8} {ls : List (Line × ρ)}
    (hf : fragment bs = [] ∨ (judge ⟨fragment bs, false⟩).record? = none)
    (h : scanBytes judge bs = some ls) :
    Complete judge (ls.flatMap (·.1.bytes)) (ls.map Prod.snd) := by
  induction bs using line_induction generalizing ls with
  | unended tail h10 =>
    rw [fragment_of_not_mem h10] at hf
    rcases eq_or_ne tail [] with rfl | hne
    · cases h
      exact .nil
    rw [scanBytes_unterminated h10 hne] at h
    cases hj : judge ⟨tail, false⟩ with
    | record r =>
      have := hf.resolve_left hne
      rw [hj] at this
      cases this
    | garbage =>
      rw [hj] at h
      cases h
      exact .nil
    | undecodable =>
      rw [hj] at h
      cases h
  | ended text rest h10 ih =>
    rw [fragment_frame] at hf
    rw [scanBytes, split_frame h10, scan] at h
    cases hj : judge ⟨text, true⟩ with
    | record r =>
      rw [hj] at h
      obtain ⟨ks, hks, rfl⟩ := Option.map_eq_some_iff.mp h
      have := Complete.cons h10 hj (ih hf hks)
      simpa [Line.bytes_ended] using this
    | garbage =>
      rw [hj] at h
      cases h
      exact .nil
    | undecodable =>
      rw [hj] at h
      cases h

theorem Complete.fragment_eq_nil {bs : List UInt8} {rs : List ρ} (h : Complete judge bs rs) :
    fragment bs = [] := by
  induction h with
  | nil => rfl
  | cons _ _ _ ih => rw [fragment_frame, ih]

/-- Complete are the bytes that end in a line feed and are scanned to their end. -/
theorem exists_complete_iff {bs : List UInt8} : (∃ rs, Complete judge bs rs) ↔
    fragment bs = [] ∧ (scanBytes judge bs).map (·.flatMap (·.1.bytes)) = some bs := by
  constructor
  · rintro ⟨rs, h⟩
    obtain ⟨ls, -, hbytes, hall⟩ := h.scan
    have hscan := hall []
    have hnil : scanBytes judge [] = some [] := rfl
    simp only [List.append_nil, hnil, Option.map_some] at hscan
    exact ⟨h.fragment_eq_nil, by rw [hscan, Option.map_some, hbytes]⟩
  · rintro ⟨hended, hscan⟩
    obtain ⟨ls, hls, hbytes⟩ := Option.map_eq_some_iff.mp hscan
    refine ⟨ls.map Prod.snd, ?_⟩
    have hcomplete := scanBytes_complete_of_fragment (.inl hended) hls
    rwa [hbytes] at hcomplete

instance (bs : List UInt8) : Decidable (∃ rs, Complete judge bs rs) :=
  decidable_of_iff _ exists_complete_iff.symm

end Scan

end Lines
