import Guigu.Core.Session.Jsonl
import Guigu.Core.Session.Reduce
import Guigu.Library.JsonBlank

/-! What the two readers of the file make of complete lines and of a torn last line. -/
namespace Guigu

open Lines

theorem SessionRecord.printable (r : SessionRecord) : Json.Printable r.text :=
  Json.printable_render _

theorem SessionRecord.lineFeed_not_mem (r : SessionRecord) : 10 ∉ r.body := by
  rw [SessionRecord.body, Utf8.lineFeed_mem_encode]
  exact r.printable.not_mem (by decide)

theorem SessionRecord.fromStr_append {c : Char} (hc : c = '\n' ∨ c = '\r') (cs : List Char) :
    SessionRecord.fromStr (cs ++ [c]) = SessionRecord.fromStr cs := by
  rw [SessionRecord.fromStr, SessionRecord.fromStr, Serde.fromStr, Serde.fromStr,
    Json.parse_append_lineEnd hc]

theorem fromStr_stripReturn (l : Line) (cs : List Char) :
    SessionRecord.fromStr (stripReturn l cs) = SessionRecord.fromStr cs := by
  rw [stripReturn]
  split_ifs with h
  · have hcs : cs = cs.dropLast ++ ['\r'] := by
      rw [List.dropLast_append_getLast?]
      simpa using h.2
    rw [hcs, SessionRecord.fromStr_append (Or.inr rfl), List.dropLast_concat]
  · rfl

theorem fromStr_trimEndReturns (cs : List Char) :
    SessionRecord.fromStr (trimEndReturns cs) = SessionRecord.fromStr cs := by
  induction cs using List.reverseRecOn with
  | nil => rfl
  | append_singleton cs c ih =>
    by_cases hc : c = '\n' ∨ c = '\r'
    · have htrim : trimEndReturns (cs ++ [c]) = trimEndReturns cs := by
        simp [trimEndReturns, hc]
      rw [htrim, ih, SessionRecord.fromStr_append hc]
    · have htrim : trimEndReturns (cs ++ [c]) = cs ++ [c] := by
        simp [trimEndReturns, hc]
      rw [htrim]

/-- What a line is, whichever line ends the reader strips from it. -/
def judge : Line → Verdict SessionRecord := judgeLine fun _ cs => cs

theorem judgeLine_stripReturn : judgeLine stripReturn = judge := by
  funext l
  simp only [judge, judgeLine, fromStr_stripReturn]

theorem judgeLine_trimEndReturns : judgeLine (fun _ => trimEndReturns) = judge := by
  funext l
  simp only [judge, judgeLine, fromStr_trimEndReturns]

theorem judge_body {r : SessionRecord} (h : r.Legible) (ended : Bool) :
    judge ⟨r.body, ended⟩ = .record r := by
  have hd : Utf8.decode r.body = some r.text := Utf8.decode_encode _
  have hl : SessionRecord.fromStr r.text = some r := h
  simp only [judge, judgeLine, hd, hl]

theorem SessionRecord.Legible.readable {r : SessionRecord} (h : r.Legible) :
    Readable judge SessionRecord.body r := ⟨r.lineFeed_not_mem, judge_body h true⟩

/-- A record's text cut short is a text, but no record. -/
theorem judge_torn {r : SessionRecord} {t : FileBytes} (hp : t <+: r.body) (hne : t ≠ r.body)
    {cs : List Char} (hd : Utf8.decode t = some cs) (ended : Bool) :
    judge ⟨t, ended⟩ = .garbage := by
  have henc := Utf8.decode_eq_some.mp hd
  have hpre : cs <+: r.text := Utf8.prefix_of_encode_prefix (by rw [henc]; exact hp)
  have hcs : cs ≠ r.text := by
    rintro rfl
    exact hne henc.symm
  have hnone : SessionRecord.fromStr cs = none := by
    rw [SessionRecord.fromStr, Serde.fromStr_eq_none (Json.parse_prefix_obj hpre hcs)]
    rfl
  simp only [judge, judgeLine, hd, hnone]

/-- The lines of complete records with their records. -/
def completeLines (rs : List SessionRecord) : List (Line × SessionRecord) :=
  rs.map fun r => (⟨r.body, true⟩, r)

theorem scanBytes_complete {rs : List SessionRecord}
    (h : ∀ r ∈ rs, r.Legible) :
    scanBytes judge (frames SessionRecord.body rs) = some (completeLines rs) :=
  scanBytes_frames fun r hr => (h r hr).readable

theorem scanBytes_append_tail {rs : List SessionRecord}
    (h : ∀ r ∈ rs, r.Legible) {tail : FileBytes} (h10 : 10 ∉ tail) (hne : tail ≠ []) :
    scanBytes judge (frames SessionRecord.body rs ++ tail) =
      match judge ⟨tail, false⟩ with
      | .record r => some (completeLines rs ++ [(⟨tail, false⟩, r)])
      | .garbage => some (completeLines rs)
      | .undecodable => none := by
  rw [scanBytes_frames_append fun r hr => (h r hr).readable,
    scanBytes_unterminated h10 hne]
  cases judge ⟨tail, false⟩ <;> simp [completeLines]

/-- A torn line that is not all of a record's text is dropped. -/
theorem scanBytes_torn {rs : List SessionRecord}
    (h : ∀ r ∈ rs, r.Legible) {r : SessionRecord} {tail : FileBytes} (hp : tail <+: r.body)
    (hne : tail ≠ r.body) (hd : (Utf8.decode tail).isSome) :
    scanBytes judge (frames SessionRecord.body rs ++ tail) =
      some (completeLines rs) := by
  rcases eq_or_ne tail [] with rfl | hnil
  · rw [List.append_nil]
    exact scanBytes_complete h
  · obtain ⟨cs, hcs⟩ := Option.isSome_iff_exists.mp hd
    rw [scanBytes_append_tail h (fun hm => r.lineFeed_not_mem (hp.subset hm)) hnil,
      judge_torn hp hne hcs]

/-- All of a record's text counts as the record, its line feed missing or not. -/
theorem scanBytes_full {rs : List SessionRecord}
    (h : ∀ r ∈ rs, r.Legible) {r : SessionRecord} (hr : r.Legible) :
    scanBytes judge (frames SessionRecord.body rs ++ r.body) =
      some (completeLines rs ++ [(⟨r.body, false⟩, r)]) := by
  have hnil : r.body ≠ [] := by
    intro hb
    have hj := judge_body hr false
    rw [hb] at hj
    have hd : Utf8.decode [] = some [] := rfl
    have hf : SessionRecord.fromStr [] = none := rfl
    simp only [judge, judgeLine, hd, hf] at hj
    cases hj
  rw [scanBytes_append_tail h r.lineFeed_not_mem hnil, judge_body hr]

/-- Bytes that are no text at all make the whole read fail. -/
theorem scanBytes_undecodable {rs : List SessionRecord}
    (h : ∀ r ∈ rs, r.Legible) {tail : FileBytes} (h10 : 10 ∉ tail)
    (hd : Utf8.decode tail = none) :
    scanBytes judge (frames SessionRecord.body rs ++ tail) = none := by
  have hnil : tail ≠ [] := by
    rintro rfl
    cases hd
  rw [scanBytes_append_tail h h10 hnil]
  simp only [judge, judgeLine, hd]

theorem readRecords_eq {file : FileBytes} {rs : List (Line × SessionRecord)}
    (h : scanBytes judge file = some rs) :
    readRecords file = .ok (rs.map Prod.snd) := by
  simp only [readRecords, judgeLine_stripReturn, h]

theorem snd_completeLines (rs : List SessionRecord) : (completeLines rs).map Prod.snd = rs := by
  simp [completeLines, Function.comp_def]

/-- The file of a complete log. -/
def logBytes (rs : List SessionRecord) : FileBytes := frames SessionRecord.body rs

theorem logBytes_append (as bs : List SessionRecord) :
    logBytes (as ++ bs) = logBytes as ++ logBytes bs := frames_append _ _ _

theorem logBytes_singleton (r : SessionRecord) : logBytes [r] = r.line :=
  frames_singleton _ _

/-- A complete log is a text. -/
theorem decode_logBytes (rs : List SessionRecord) : (Utf8.decode (logBytes rs)).isSome := by
  have henc : logBytes rs = Utf8.encode (rs.flatMap fun r => r.text ++ ['\n']) := by
    induction rs with
    | nil => rfl
    | cons r rs ih =>
      have hn : String.utf8EncodeChar '\n' = [10] := by decide
      rw [← List.singleton_append, logBytes_append, ih, logBytes_singleton]
      simp [SessionRecord.line, SessionRecord.body, hn]
  rw [henc, Utf8.decode_encode]
  rfl

theorem decode_logBytes_append (rs : List SessionRecord) (tail : FileBytes) :
    (Utf8.decode (logBytes rs ++ tail)).isSome = (Utf8.decode tail).isSome :=
  Utf8.decode_append_isSome (decode_logBytes rs)

theorem readRecords_logBytes {rs : List SessionRecord} (h : ∀ r ∈ rs, r.Legible) :
    readRecords (logBytes rs) = .ok rs := by
  rw [logBytes, readRecords_eq (scanBytes_complete h),
    snd_completeLines]

theorem readRecords_torn {rs : List SessionRecord} (h : ∀ r ∈ rs, r.Legible) {r : SessionRecord}
    {tail : FileBytes} (hp : tail <+: r.body) (hne : tail ≠ r.body)
    (hd : (Utf8.decode tail).isSome) : readRecords (logBytes rs ++ tail) = .ok rs := by
  rw [logBytes, readRecords_eq (scanBytes_torn h hp hne hd),
    snd_completeLines]

theorem readRecords_full {rs : List SessionRecord} (h : ∀ r ∈ rs, r.Legible) {r : SessionRecord}
    (hr : r.Legible) : readRecords (logBytes rs ++ r.body) = .ok (rs ++ [r]) := by
  rw [logBytes, readRecords_eq (scanBytes_full h hr),
    List.map_append, snd_completeLines]
  rfl

theorem readRecords_undecodable {rs : List SessionRecord} (h : ∀ r ∈ rs, r.Legible)
    {tail : FileBytes} (h10 : 10 ∉ tail) (hd : Utf8.decode tail = none) :
    readRecords (logBytes rs ++ tail) = .error .io := by
  rw [logBytes, readRecords, judgeLine_stripReturn, scanBytes_undecodable h h10 hd]

theorem entriesOf_append (as bs : List SessionRecord) :
    entriesOf (as ++ bs) = entriesOf as ++ entriesOf bs := List.filterMap_append

/-- The identifiers of the message nodes, in file order. -/
def nodeIds (rs : List SessionRecord) : List NodeId := (entriesOf rs).map (·.id)

theorem nodeIds_append (as bs : List SessionRecord) :
    nodeIds (as ++ bs) = nodeIds as ++ nodeIds bs := by
  rw [nodeIds, entriesOf_append, List.map_append]
  rfl

theorem SessionRecord.Resembles.nodeIds {r r' : SessionRecord} (h : r.Resembles r') :
    nodeIds [r'] = nodeIds [r] := by
  cases h with
  | message hid => exact congrArg (fun i => [i]) hid
  | laneHead lh => rfl

/-- What an ended line with the text of a record is taken for. -/
theorem judge_line (r : SessionRecord) (ended : Bool) :
    judge ⟨r.body, ended⟩ = (SessionRecord.fromStr r.text).elim .garbage .record := by
  have hdecode : Utf8.decode r.body = some r.text := Utf8.decode_encode _
  simp only [judge, judgeLine, hdecode]
  cases SessionRecord.fromStr r.text <;> rfl

@[simp] theorem laneHeads_message (records : List SessionRecord) (e : SessionEntry) :
    laneHeads (records ++ [.message e]) = laneHeads records := by
  rw [laneHeads, List.filterMap_append]
  exact congrArg _ (List.append_nil _)

/-- The last record of a lane counts. -/
@[simp] theorem laneHeads_laneHead (records : List SessionRecord) (h : LaneHeadRecord) :
    laneHeads (records ++ [.laneHead h]) =
      Function.update (laneHeads records) h.laneId (some h.head) := by
  rw [laneHeads, List.filterMap_append, List.foldl_append]
  rfl

theorem laneHeads_mem {records : List SessionRecord} {laneId : LaneId} {head : Option NodeId}
    (h : laneHeads records laneId = some head) :
    laneId ∈ (records.filterMap SessionRecord.head?).map (·.laneId) := by
  induction records using List.reverseRecOn with
  | nil => cases h
  | append_singleton records r ih =>
    rw [List.filterMap_append, List.map_append, List.mem_append]
    cases r with
    | message e =>
      rw [laneHeads_message] at h
      exact Or.inl (ih h)
    | laneHead lh =>
      rw [laneHeads_laneHead, Function.update_apply] at h
      split_ifs at h with hown
      · exact Or.inr (by simp [SessionRecord.head?, hown])
      · exact Or.inl (ih h)

theorem cursorAfter_lt {records : List SessionRecord} {next : NodeId}
    (h : cursorAfter records = .ok next) : ∀ e ∈ entriesOf records, e.id < next := by
  intro e he
  unfold cursorAfter at h
  cases hm : ((entriesOf records).map (·.id)).max? with
  | none =>
    have hnil : entriesOf records = [] := by simpa using hm
    rw [hnil] at he
    cases he
  | some m =>
    simp only [hm] at h
    split_ifs at h
    cases h
    obtain ⟨-, hle⟩ := List.max?_eq_some_iff.mp hm
    exact Nat.lt_succ_of_le (hle _ (List.mem_map_of_mem he))

/-- The cursor behind a log whose identifiers leave room is above every identifier. -/
theorem cursorAfter_ok {records : List SessionRecord}
    (h : ∀ e ∈ entriesOf records, e.id < maxNodeId) :
    ∃ next, cursorAfter records = .ok next ∧ next ≤ maxNodeId ∧
      ∀ e ∈ entriesOf records, e.id < next := by
  cases hm : ((entriesOf records).map (·.id)).max? with
  | none =>
    have hnil : entriesOf records = [] := by simpa using hm
    exact ⟨0, by simp only [cursorAfter, hm], by decide, by simp [hnil]⟩
  | some m =>
    obtain ⟨hin, hle⟩ := List.max?_eq_some_iff.mp hm
    obtain ⟨e, he, rfl⟩ := List.mem_map.mp hin
    have hlt := h e he
    refine ⟨e.id + 1, ?_, hlt, fun r hr => Nat.lt_succ_of_le (hle _ (List.mem_map_of_mem hr))⟩
    simp only [cursorAfter, hm, if_neg (Nat.ne_of_lt hlt)]

/-- A load that succeeds gives the tree of the entries and a cursor of its machine type. -/
theorem loadRecords_ok {records : List SessionRecord} {sessionId : String}
    {next next' : NodeId} {tree : SessionTree}
    (h : loadRecords records sessionId next = .ok (tree, next')) :
    (∃ root, tree = treeOf (entriesOf records) sessionId root) ∧
      ((∀ e ∈ entriesOf records, e.id ≤ maxNodeId) → next ≤ maxNodeId → next' ≤ maxNodeId) := by
  unfold loadRecords at h
  cases hred : reduceFor (entriesOf records) sessionId with
  | error e =>
    simp only [hred] at h
    cases h
  | ok t =>
    obtain ⟨root, rfl⟩ := reduceFor_treeOf hred
    simp only [hred] at h
    cases hlast : (treeOf (entriesOf records) sessionId root).nodes.getLast? with
    | none =>
      simp only [hlast] at h
      cases h
      exact ⟨⟨root, rfl⟩, fun _ hle => hle⟩
    | some last =>
      simp only [hlast] at h
      split_ifs at h with hmax
      cases h
      refine ⟨⟨root, rfl⟩, fun hids hle => max_le hle ?_⟩
      obtain ⟨e, he, rfl⟩ := mem_treeOf.mp (List.mem_of_getLast? hlast)
      exact Nat.lt_of_le_of_ne (hids e he) hmax

/-- A log that grew node by node, with identifiers below the last one, loads as its tree. -/
theorem loadRecords_grown {records : List SessionRecord} (h : GrownLog (entriesOf records))
    (hids : ∀ e ∈ entriesOf records, e.id < maxNodeId) (sessionId : String) (next : NodeId) :
    ∃ root next', reduceFor (entriesOf records) sessionId =
        .ok (treeOf (entriesOf records) sessionId root) ∧
      loadRecords records sessionId next =
        .ok (treeOf (entriesOf records) sessionId root, next') ∧ next ≤ next' := by
  obtain ⟨root, hred⟩ := reduceFor_grown h sessionId
  cases hlast : (treeOf (entriesOf records) sessionId root).nodes.getLast? with
  | none =>
    exact ⟨root, next, hred, by simp only [loadRecords, hred, hlast], le_refl _⟩
  | some last =>
    obtain ⟨e, he, rfl⟩ := mem_treeOf.mp (List.mem_of_getLast? hlast)
    have hne : (treeNode (entriesOf records) e).id ≠ maxNodeId := Nat.ne_of_lt (hids e he)
    exact ⟨root, max next ((treeNode (entriesOf records) e).id + 1), hred,
      by simp only [loadRecords, hred, hlast, if_neg hne], le_max_left _ _⟩

end Guigu
