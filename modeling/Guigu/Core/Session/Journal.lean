import Guigu.Core.Session.StorageRuns
import Guigu.Library.JsonGlue

/-! A file that records are written to one behind the other, any of their lines cut short: once a
line is, nothing that is written behind it is ever read. -/
namespace Guigu

open Lines

theorem SessionRecord.objText (r : SessionRecord) : Json.ObjText r.text := by
  refine ⟨⟨r.members, rfl⟩, ?_⟩
  cases r with
  | message e => exact ⟨'i', _, rfl, by decide⟩
  | laneHead h => exact ⟨'l', _, rfl, by decide⟩

/-- A front part of a record's line that is not empty starts with an ASCII byte. -/
theorem SessionRecord.body_prefix_cons (r : SessionRecord) {b : UInt8} {q : FileBytes}
    (hq : b :: q <+: r.body) : b.toNat < 128 := by
  obtain ⟨c, rest, htext, -⟩ := r.objText.letter
  have hbrace : String.utf8EncodeChar '{' = [123] := by decide
  rw [SessionRecord.body, htext, Utf8.encode_cons, hbrace, List.singleton_append,
    List.cons_prefix_cons] at hq
  rw [hq.1]
  decide

theorem SessionRecord.body_ne_nil (r : SessionRecord) : r.body ≠ [] := by
  obtain ⟨c, rest, htext, -⟩ := r.objText.letter
  rw [SessionRecord.body, htext]
  simp

/-- A last line that no record behind it turns into a record. -/
structure Broken (tail : FileBytes) : Prop where
  nonempty : tail ≠ []
  unended : 10 ∉ tail
  dangling : ∀ cs, Utf8.decode tail = some cs → Json.Dangling cs

theorem Broken.judge {tail : FileBytes} (h : Broken tail) (ended : Bool) :
    (judge ⟨tail, ended⟩).record? = none := by
  unfold Guigu.judge judgeLine
  cases hd : Utf8.decode tail with
  | none => rfl
  | some cs =>
    have hnone : SessionRecord.fromStr cs = none := by
      rw [SessionRecord.fromStr, Serde.fromStr_eq_none (h.dangling cs hd).parse]
      rfl
    simp only [hnone]
    rfl

theorem Broken.append {tail : FileBytes} (h : Broken tail) {r : SessionRecord} {q : FileBytes}
    (hq : q <+: r.body) : Broken (tail ++ q) := by
  refine ⟨by simp [h.nonempty], ?_, ?_⟩
  · rw [List.mem_append, not_or]
    exact ⟨h.unended, fun hmem => r.lineFeed_not_mem (hq.subset hmem)⟩
  · intro cs hd
    cases q with
    | nil =>
      rw [List.append_nil] at hd
      exact h.dangling cs hd
    | cons b q =>
      obtain ⟨ds, es, hds, hes, rfl⟩ := Utf8.split_ascii (r.body_prefix_cons hq) hd
      rw [← Utf8.decode_eq_some.mp hes] at hq
      exact (h.dangling ds hds).append r.objText (Utf8.prefix_of_encode_prefix hq)

/-- A line cut short is broken. -/
theorem broken_of_prefix {r : SessionRecord} {q : FileBytes} (hq : q <+: r.body) (hnil : q ≠ [])
    (hne : q ≠ r.body) : Broken q := by
  refine ⟨hnil, fun hmem => r.lineFeed_not_mem (hq.subset hmem), ?_⟩
  intro cs hd
  have henc := Utf8.decode_eq_some.mp hd
  rw [← henc] at hq hnil hne
  apply r.objText.dangling_of_prefix (Utf8.prefix_of_encode_prefix hq)
  · rintro rfl
    exact hnil rfl
  · rintro rfl
    exact hne rfl

/-- Two records on one line are broken. -/
theorem broken_glued (r : SessionRecord) {r' : SessionRecord} {q : FileBytes}
    (hq : q <+: r'.body) (hnil : q ≠ []) : Broken (r.body ++ q) := by
  obtain ⟨c, rest, htext, -⟩ := r.objText.letter
  refine ⟨by simp [hnil], ?_, ?_⟩
  · rw [List.mem_append, not_or]
    exact ⟨r.lineFeed_not_mem, fun hmem => r'.lineFeed_not_mem (hq.subset hmem)⟩
  · intro cs hd
    cases q with
    | nil => exact absurd rfl hnil
    | cons b q =>
      obtain ⟨ds, es, hds, hes, rfl⟩ := Utf8.split_ascii (r'.body_prefix_cons hq) hd
      have hd' : Utf8.decode r.body = some r.text := Utf8.decode_encode _
      rw [hd'] at hds
      obtain rfl := Option.some.inj hds
      rw [← Utf8.decode_eq_some.mp hes] at hq
      have hpre := Utf8.prefix_of_encode_prefix hq
      obtain ⟨d, rest', htext', -⟩ := r'.objText.letter
      cases es with
      | nil => cases Utf8.decode_eq_some.mp hes
      | cons e es =>
        rw [htext', List.cons_prefix_cons] at hpre
        rw [hpre.1]
        exact r.objText.dangling_append (by decide)

/-- What stands behind the complete lines once a line lacks its line feed, and what is still read
of it. -/
inductive Ending : FileBytes → List SessionRecord → Prop
  | unended (r : SessionRecord) : Ending r.body (SessionRecord.fromStr r.text).toList
  | broken {tail : FileBytes} : Broken tail → Ending tail []
  | sealed {text rest : FileBytes} : 10 ∉ text → (judge ⟨text, true⟩).record? = none →
      Ending (text ++ 10 :: rest) []

/-- Complete lines, and something no reader gets past. -/
def Damaged (file : FileBytes) (rs more : List SessionRecord) : Prop :=
  ∃ front tail, file = front ++ tail ∧ CompleteFile front rs ∧ Ending tail more

theorem take_line (r : SessionRecord) (k : ℕ) :
    r.line.take k <+: r.body ∨ r.line.take k = r.line := by
  rw [SessionRecord.line]
  by_cases hk : k ≤ r.body.length
  · rw [List.take_append_of_le_length hk]
    exact .inl (List.take_prefix _ _)
  · right
    apply List.take_of_length_le
    rw [List.length_append, List.length_singleton]
    omega

theorem Broken.seal {tail : FileBytes} (h : Broken tail) (rest : FileBytes) :
    Ending (tail ++ 10 :: rest) [] := .sealed h.unended (h.judge true)

/-- Nothing is read behind a line without its line feed, whatever is written there. -/
theorem Ending.write {tail : FileBytes} {more : List SessionRecord} (h : Ending tail more)
    (r : SessionRecord) (k : ℕ) :
    ∃ more', (more' = [] ∨ more' = more) ∧ Ending (tail ++ r.line.take k) more' := by
  by_cases hnil : r.line.take k = []
  · refine ⟨more, .inr rfl, ?_⟩
    rw [hnil, List.append_nil]
    exact h
  refine ⟨[], .inl rfl, ?_⟩
  cases h with
  | unended r₀ =>
    rcases take_line r k with hq | hall
    · exact .broken (broken_glued r₀ hq hnil)
    · rw [hall, SessionRecord.line, ← List.append_assoc]
      exact (broken_glued r₀ (List.prefix_refl _) r.body_ne_nil).seal []
  | broken hb =>
    rcases take_line r k with hq | hall
    · exact .broken (hb.append hq)
    · rw [hall, SessionRecord.line, ← List.append_assoc]
      exact (hb.append (List.prefix_refl _)).seal []
  | @sealed text rest h10 hj =>
    rw [List.append_assoc, List.cons_append]
    exact .sealed h10 hj

theorem Damaged.write {file : FileBytes} {rs more : List SessionRecord} (h : Damaged file rs more)
    (r : SessionRecord) (k : ℕ) :
    ∃ more', (more' = [] ∨ more' = more) ∧ Damaged (file ++ r.line.take k) rs more' := by
  obtain ⟨front, tail, rfl, hfront, hend⟩ := h
  obtain ⟨more', hmore, hend'⟩ := hend.write r k
  exact ⟨more', hmore, front, _, List.append_assoc _ _ _, hfront, hend'⟩

/-- What one line makes of a file of complete lines: nothing, one more record, or damage that at
most this record is read behind. -/
theorem CompleteFile.write {file : FileBytes} {rs : List SessionRecord} (h : CompleteFile file rs)
    (r : SessionRecord) (k : ℕ) :
    r.line.take k = [] ∨
      (∃ r', SessionRecord.fromStr r.text = some r' ∧
        CompleteFile (file ++ r.line.take k) (rs ++ [r'])) ∨
      ∃ more, (more = [] ∨ more = (SessionRecord.fromStr r.text).toList) ∧
        Damaged (file ++ r.line.take k) rs more := by
  rcases take_line r k with hq | hall
  · by_cases hnil : r.line.take k = []
    · exact .inl hnil
    right
    right
    by_cases hbody : r.line.take k = r.body
    · rw [hbody]
      exact ⟨_, .inr rfl, file, r.body, rfl, h, .unended r⟩
    · exact ⟨[], .inl rfl, file, _, rfl, h, .broken ( broken_of_prefix hq hnil hbody)⟩
  · right
    rw [hall]
    have hline := judge_line r true
    cases hread : SessionRecord.fromStr r.text with
    | none =>
      rw [hread] at hline
      refine .inr ⟨[], .inl rfl, file, r.line, rfl, h, ?_⟩
      have hsealed : Ending (r.body ++ [10]) [] := by
        apply Ending.sealed r.lineFeed_not_mem
        rw [hline]
        rfl
      exact hsealed
    | some r' =>
      rw [hread] at hline
      exact .inl ⟨r', rfl, Complete.append h (.cons r.lineFeed_not_mem hline .nil)⟩

theorem scan_no_record {l : Line} {ls : List Line} (h : (judge l).record? = none)
    {ps : List (Line × SessionRecord)} (hscan : scan judge (l :: ls) = some ps) : ps = [] := by
  obtain ⟨r, qs, hj, -, -⟩ | hnil := scan_cons_some hscan
  · rw [hj] at h
    cases h
  · exact hnil

/-- Of what stands behind the legible lines nothing is read, or all of it. -/
theorem Ending.scan {tail : FileBytes} {more : List SessionRecord} (h : Ending tail more)
    {ps : List (Line × SessionRecord)} (hscan : scanBytes judge tail = some ps) :
    ps.map Prod.snd = more ∧ (ps = [] ∨ ps.flatMap (·.1.bytes) = tail) := by
  cases h with
  | unended r =>
    rw [scanBytes_unterminated r.lineFeed_not_mem r.body_ne_nil, judge_line] at hscan
    cases hread : SessionRecord.fromStr r.text with
    | none =>
      rw [hread] at hscan
      rw [← Option.some.inj hscan]
      exact ⟨rfl, .inl rfl⟩
    | some r' =>
      rw [hread] at hscan
      rw [← Option.some.inj hscan]
      exact ⟨rfl, .inr (List.append_nil _)⟩
  | broken hb =>
    rw [scanBytes, split_unterminated hb.unended hb.nonempty] at hscan
    rw [scan_no_record (hb.judge false) hscan]
    exact ⟨rfl, .inl rfl⟩
  | sealed h10 hj =>
    rw [scanBytes, split_frame h10] at hscan
    rw [scan_no_record hj hscan]
    exact ⟨rfl, .inl rfl⟩

/-- A damaged file is read up to the damage, if at all. -/
theorem Damaged.readRecords {file : FileBytes} {rs more records : List SessionRecord}
    (h : Damaged file rs more) (hread : readRecords file = .ok records) :
    records = rs ++ more := by
  obtain ⟨front, tail, rfl, hfront, hend⟩ := h
  obtain ⟨ls, hls, -, hscan⟩ := Complete.scan hfront
  rw [Guigu.readRecords, judgeLine_stripReturn, hscan] at hread
  cases htail : scanBytes judge tail with
  | none =>
    rw [htail] at hread
    cases hread
  | some ps =>
    rw [htail] at hread
    rw [← Except.ok.inj hread, List.map_append, hls, (hend.scan htail).1]

theorem CompleteFile.readRecords {file : FileBytes} {rs : List SessionRecord}
    (h : CompleteFile file rs) : readRecords file = .ok rs := by
  obtain ⟨ls, hls, rfl⟩ := Complete.scanBytes_eq h
  exact readRecords_eq hls

/-- What the readers find in a file, whole or damaged, unless its last bytes are no text. -/
inductive Journal : FileBytes → List SessionRecord → Prop
  | complete {file : FileBytes} {rs : List SessionRecord} : CompleteFile file rs → Journal file rs
  | damaged {file : FileBytes} {rs more : List SessionRecord} : Damaged file rs more →
      Journal file (rs ++ more)

theorem Journal.readRecords {file : FileBytes} {rs records : List SessionRecord}
    (h : Journal file rs) (hread : readRecords file = .ok records) : records = rs := by
  cases h with
  | complete hfile =>
    rw [hfile.readRecords] at hread
    exact (Except.ok.inj hread).symm
  | damaged hfile => exact hfile.readRecords hread

/-- Another line adds at most its record, and may take one away that lacks its line feed. -/
theorem Journal.write {file : FileBytes} {rs : List SessionRecord} (h : Journal file rs)
    (r : SessionRecord) (k : ℕ) :
    ∃ rs', Journal (file ++ r.line.take k) rs' ∧
      (rs' <+: rs ∨ ∃ r', r.Resembles r' ∧ rs' = rs ++ [r']) := by
  cases h with
  | complete hfile =>
    rcases hfile.write r k with hnil | ⟨r', hread, hfile'⟩ | ⟨more, hmore, hfile'⟩
    · rw [hnil, List.append_nil]
      exact ⟨rs, .complete hfile, .inl (List.prefix_refl _)⟩
    · exact ⟨_, .complete hfile', .inr ⟨r', SessionRecord.resembles_of_fromStr hread, rfl⟩⟩
    · refine ⟨_, .damaged hfile', ?_⟩
      rcases hmore with rfl | rfl
      · left
        simp
      · cases hread : SessionRecord.fromStr r.text with
        | none =>
          left
          simp
        | some r' => exact .inr ⟨r', SessionRecord.resembles_of_fromStr hread, rfl⟩
  | @damaged rs more hfile =>
    obtain ⟨more', hcut, hfile'⟩ := hfile.write r k
    refine ⟨_, .damaged hfile', .inl ?_⟩
    rcases hcut with rfl | rfl
    · rw [List.append_nil]
      exact List.prefix_append _ _
    · exact List.prefix_refl _

theorem Journal.line {file : FileBytes} {rs : List SessionRecord} (h : Journal file rs)
    (r : SessionRecord) :
    ∃ rs', Journal (file ++ r.line) rs' ∧
      (rs' <+: rs ∨ ∃ r', r.Resembles r' ∧ rs' = rs ++ [r']) := by
  have hall := h.write r r.line.length
  rwa [List.take_length] at hall

/-- Cutting a file back to its legible lines takes no record away. -/
theorem Journal.repair {file : FileBytes} {rs : List SessionRecord} (h : Journal file rs)
    {ls : List (Line × SessionRecord)} (hscan : scanBytes judge file = some ls) :
    ls.map Prod.snd = rs ∧ Journal (ls.flatMap (·.1.bytes)) rs := by
  have hread : Guigu.readRecords file = .ok (ls.map Prod.snd) := readRecords_eq hscan
  refine ⟨h.readRecords hread, ?_⟩
  cases h with
  | complete hfile =>
    obtain ⟨ks, -, hbytes, hall⟩ := Complete.scan hfile
    have hks := hall []
    rw [List.append_nil, hscan] at hks
    obtain rfl : ls = ks := by simpa [scanBytes, Lines.scan] using hks
    rw [hbytes]
    exact .complete hfile
  | @damaged rs more hfile =>
    obtain ⟨front, tail, rfl, hfront, hend⟩ := hfile
    obtain ⟨ks, -, hbytes, hall⟩ := Complete.scan hfront
    rw [hall] at hscan
    obtain ⟨ps, hps, rfl⟩ := Option.map_eq_some_iff.mp hscan
    rw [List.flatMap_append, hbytes]
    obtain ⟨rfl, rfl | htail⟩ := hend.scan hps
    · rw [List.flatMap_nil, List.map_nil, List.append_nil, List.append_nil]
      exact .complete hfront
    · rw [htail]
      exact .damaged ⟨front, tail, rfl, hfront, hend⟩

/-- Complete lines are read up to the first one that is no record. -/
theorem exists_journal (rs : List SessionRecord) :
    ∃ rs', Journal (logBytes rs) rs' ∧ (nodeIds rs').Sublist (nodeIds rs) := by
  induction rs using List.reverseRecOn with
  | nil => exact ⟨[], .complete .nil, List.Sublist.refl _⟩
  | append_singleton rs r ih =>
    obtain ⟨rs', hfile, hsub⟩ := ih
    obtain ⟨rs'', hfile', hrs⟩ := hfile.line r
    rw [logBytes_append, logBytes_singleton, nodeIds_append]
    refine ⟨rs'', hfile', ?_⟩
    rcases hrs with ⟨more, rfl⟩ | ⟨r', hlike, rfl⟩
    · rw [nodeIds_append] at hsub
      exact ((List.sublist_append_left _ _).trans hsub).trans (List.sublist_append_left _ _)
    · rw [nodeIds_append, hlike.nodeIds]
      exact hsub.append (List.Sublist.refl _)

end Guigu
