import Guigu.Core.Session.JsonlRead
import Guigu.Library.Runs

/-! Processes that open one session file, append to it and crash, in any order. -/
namespace Guigu

open Lines

/-- The file, the storages the running processes hold, and every record whose write
returned `Ok`, oldest first. -/
structure SessionFile where
  file : FileBytes
  storages : ℕ → Option JsonlSessionStorage
  acked : List SessionRecord

/-- A crash in the middle of a write is a torn write followed by the end of its process. -/
inductive StorageAction where
  | openFile (process : ℕ) (sessionId : String)
  | append (process : ℕ) (parentId : Option NodeId) (message : Message) (out : WriteOutcome)
  | appendLaneHead (process : ℕ) (laneId : LaneId) (head : Option NodeId) (out : WriteOutcome)
  | load (process : ℕ)
  | exit (process : ℕ)

/-- One call of one process; `locked` tells how the file is opened. The file is there before it is
opened: nobody creates it here. -/
def SessionFile.step (locked : Bool) (s : SessionFile) : StorageAction → SessionFile
  | .openFile p sessionId =>
    let opened := if locked then openLocked (some s.file) sessionId
      else openStorage (some s.file) sessionId
    { s with file := opened.2, storages := Function.update s.storages p opened.1.toOption }
  | .append p parentId message out =>
    match s.storages p with
    | none => s
    | some st =>
      let r := Guigu.append st s.file parentId message out
      { file := r.2.2
        storages := Function.update s.storages p (some r.2.1)
        acked := s.acked ++
          (r.1.toOption.map fun id => .message ⟨id, parentId, message⟩).toList }
  | .appendLaneHead p laneId head out =>
    match s.storages p with
    | none => s
    | some _ =>
      let r := Guigu.appendLaneHead s.file laneId head out
      { s with
        file := r.2
        acked := s.acked ++ (r.1.toOption.map fun _ => .laneHead ⟨laneId, head⟩).toList }
  | .load p =>
    match s.storages p with
    | none => s
    | some st =>
      match Guigu.load st s.file with
      | .error _ => s
      | .ok (_, st') => { s with storages := Function.update s.storages p (some st') }
  | .exit p => { s with storages := Function.update s.storages p none }

/-- Nobody runs yet; `rs` are the records on file, with a torn line behind them. -/
def SessionFile.crashed (rs : List SessionRecord) (tail : FileBytes) : SessionFile :=
  ⟨logBytes rs ++ tail, fun _ => none, rs⟩

/-- Every line of the file is a complete record. -/
def CompleteFile (file : FileBytes) (rs : List SessionRecord) : Prop :=
  Complete judge file rs

theorem completeFile_logBytes {rs : List SessionRecord} (h : ∀ r ∈ rs, r.Legible) :
    CompleteFile (logBytes rs) rs :=
  complete_frames fun r hr => (h r hr).readable

theorem CompleteFile.append_line {file : FileBytes} {rs : List SessionRecord}
    (h : CompleteFile file rs) {r : SessionRecord} (hr : r.Legible) :
    CompleteFile (file ++ r.line) (rs ++ [r]) :=
  h.append (complete_frame hr.readable)

/-- Every line of a text is a text. -/
theorem scanBytes_isSome {bs : FileBytes} (h : (Utf8.decode bs).isSome) :
    (scanBytes judge bs).isSome := by
  induction bs using line_induction with
  | unended tail h10 =>
    rcases eq_or_ne tail [] with rfl | hne
    · rfl
    · obtain ⟨cs, hcs⟩ := Option.isSome_iff_exists.mp h
      rw [scanBytes_unterminated h10 hne]
      simp only [judge, judgeLine, hcs]
      cases SessionRecord.fromStr cs <;> rfl
  | ended text rest h10 ih =>
    obtain ⟨cs, hcs⟩ := Option.isSome_iff_exists.mp h
    obtain ⟨ds, es, hds, hes⟩ := Utf8.split_lineFeed h10 hcs
    rw [scanBytes, split_frame h10, scan]
    simp only [judge, judgeLine, hds]
    cases SessionRecord.fromStr ds with
    | none => rfl
    | some r =>
      have := ih (Option.isSome_iff_exists.mpr ⟨es, hes⟩)
      simp only [Option.isSome_map]
      exact this

/-- Identifiers on file fit their machine type. -/
theorem SessionEntry.ofJson_id_lt {j : Json} {e : SessionEntry}
    (h : SessionEntry.ofJson j = some e) : e.id < 2 ^ 64 := by
  obtain ⟨fs, -, hfs⟩ := Option.bind_eq_some_iff.mp h
  split at hfs
  · rename_i id parentId message
    obtain ⟨n, hn, hrest⟩ := Option.bind_eq_some_iff.mp hfs
    obtain ⟨p, -, hrest⟩ := Option.bind_eq_some_iff.mp hrest
    obtain ⟨m, -, he⟩ := Option.bind_eq_some_iff.mp hrest
    obtain rfl := Option.some.inj he
    obtain ⟨j', -, hj'⟩ := Option.bind_eq_some_iff.mp hn
    cases j' with
    | num k =>
      obtain ⟨-, hlt⟩ := Option.filter_eq_some_iff.mp hj'
      simpa using hlt
    | _ => cases hj'
  · cases hfs

theorem judge_id_lt {l : Line} {e : SessionEntry} (h : judge l = .record (.message e)) :
    e.id < 2 ^ 64 := by
  simp only [judge, judgeLine] at h
  split at h
  · cases h
  · split at h
    · rename_i r hr
      cases h
      obtain ⟨j, -, hj⟩ := Option.bind_eq_some_iff.mp hr
      rw [SessionRecord.ofJson] at hj
      cases he : SessionEntry.ofJson j with
      | some e' =>
        rw [he] at hj
        cases hj
        exact SessionEntry.ofJson_id_lt he
      | none =>
        rw [he] at hj
        obtain ⟨h', -, heq⟩ := Option.map_eq_some_iff.mp hj
        cases heq
    · cases h

theorem scanBytes_id_lt {file : FileBytes} {ls : List (Line × SessionRecord)}
    (h : scanBytes judge file = some ls) : ∀ e ∈ entriesOf (ls.map Prod.snd), e.id < 2 ^ 64 := by
  intro e he
  obtain ⟨r, hr, hre⟩ := List.mem_filterMap.mp he
  obtain ⟨p, hp, rfl⟩ := List.mem_map.mp hr
  have hj := scan_judge h p hp
  cases hp2 : p.2 with
  | message e' =>
    rw [hp2] at hre hj
    cases hre
    exact judge_id_lt hj
  | laneHead h' =>
    rw [hp2] at hre
    cases hre

theorem cursorAfter_le {rs : List SessionRecord} {n : NodeId} (h : cursorAfter rs = .ok n)
    (hlt : ∀ e ∈ entriesOf rs, e.id < 2 ^ 64) : n ≤ maxNodeId := by
  unfold cursorAfter at h
  cases hm : ((entriesOf rs).map (·.id)).max? with
  | none =>
    rw [hm] at h
    cases h
    exact Nat.zero_le _
  | some m =>
    rw [hm] at h
    simp only at h
    split_ifs at h with hmax
    cases h
    obtain ⟨e, he, rfl⟩ := List.mem_map.mp (List.max?_mem hm)
    have hle : e.id ≤ maxNodeId := Nat.le_pred_of_lt (hlt e he)
    exact Nat.lt_of_le_of_ne hle hmax

theorem readRecords_scan {file : FileBytes} {rs : List SessionRecord}
    (h : readRecords file = .ok rs) :
    ∃ ls, scanBytes judge file = some ls ∧ ls.map Prod.snd = rs := by
  rw [readRecords, judgeLine_stripReturn] at h
  cases hs : scanBytes judge file with
  | none =>
    rw [hs] at h
    cases h
  | some ls =>
    rw [hs] at h
    exact ⟨ls, rfl, Except.ok.inj h⟩

/-- The locked repair cuts the file back to the lines it can read. -/
theorem refreshCursorLocked_scan {s : JsonlSessionStorage} {file : FileBytes}
    {ls : List (Line × SessionRecord)} (h : scanBytes judge file = some ls) :
    refreshCursorLocked s file =
      ((cursorAfter (ls.map Prod.snd)).map fun floor => { s with nextId := max s.nextId floor },
        ls.flatMap (·.1.bytes)) := by
  have hcut : (if (ls.map fun l => l.1.bytes.length).sum < file.length
      then file.take (ls.map fun l => l.1.bytes.length).sum else file) =
        ls.flatMap (·.1.bytes) := by
    rw [← take_scanned h]
    split_ifs with hlt
    · rfl
    · rw [List.take_of_length_le (not_lt.mp hlt)]
  simp only [refreshCursorLocked, readRecordsWithExtent, judgeLine_trimEndReturns, h, hcut]
  cases cursorAfter (ls.map Prod.snd) <;> rfl

theorem refreshCursorLocked_none {s : JsonlSessionStorage} {file : FileBytes}
    (h : scanBytes judge file = none) : refreshCursorLocked s file = (.error .io, file) := by
  simp only [refreshCursorLocked, readRecordsWithExtent, judgeLine_trimEndReturns, h]

/-- The three ways a claimed append goes. -/
theorem appendClaimed_cases (s : JsonlSessionStorage) (file : FileBytes)
    (parentId : Option NodeId) (message : Message) (out : WriteOutcome) :
    (s.nextId = maxNodeId ∧
      appendClaimed s file parentId message out = (.error .idExhausted, s, file)) ∨
    (s.nextId ≠ maxNodeId ∧ out = .done ∧ appendClaimed s file parentId message out =
      (.ok s.nextId, { s with nextId := s.nextId + 1 },
        file ++ (SessionRecord.message ⟨s.nextId, parentId, message⟩).line)) ∨
    ∃ k, s.nextId ≠ maxNodeId ∧ out = .torn k ∧ appendClaimed s file parentId message out =
      (.error .io, { s with nextId := s.nextId + 1 },
        file ++ (SessionRecord.message ⟨s.nextId, parentId, message⟩).line.take k) := by
  by_cases hmax : s.nextId = maxNodeId
  · exact Or.inl ⟨hmax, by simp [appendClaimed, claimNextId, hmax]⟩
  · refine Or.inr ?_
    cases out with
    | done => exact Or.inl ⟨hmax, rfl, by simp [appendClaimed, claimNextId, hmax, writeLine,
        Except.map]⟩
    | torn k => exact Or.inr ⟨k, hmax, rfl, by simp [appendClaimed, claimNextId, hmax, writeLine,
        Except.map]⟩

/-- Every running storage was opened the same way and has a cursor of its machine type. -/
def SessionFile.CursorsOk (locked : Bool) (s : SessionFile) : Prop :=
  ∀ p st, s.storages p = some st → st.fileLock = locked ∧ st.nextId ≤ maxNodeId

theorem SessionFile.CursorsOk.update {locked : Bool} {s s' : SessionFile} {p : ℕ}
    {o : Option JsonlSessionStorage} (h : s.CursorsOk locked)
    (hs : s'.storages = Function.update s.storages p o)
    (ho : ∀ st ∈ o, st.fileLock = locked ∧ st.nextId ≤ maxNodeId) : s'.CursorsOk locked := by
  intro q st hst
  rw [hs, Function.update_apply] at hst
  split_ifs at hst
  · exact ho st hst
  · exact h q st hst

theorem openStorage_cursor {file : FileBytes} {sessionId : String} {st : JsonlSessionStorage}
    (h : (openStorage (some file) sessionId).1 = .ok st) :
    st.fileLock = false ∧ st.nextId ≤ maxNodeId := by
  simp only [openStorage, Option.getD_some] at h
  cases hr : readRecords file with
  | error e =>
    rw [hr] at h
    cases h
  | ok rs =>
    rw [hr] at h
    obtain ⟨ls, hls, rfl⟩ := readRecords_scan hr
    cases hc : cursorAfter (ls.map Prod.snd) with
    | error e =>
      simp only [hc] at h
      cases h
    | ok n =>
      simp only [hc] at h
      cases h
      exact ⟨rfl, cursorAfter_le hc (scanBytes_id_lt hls)⟩

theorem openFile_cursor {locked : Bool} {file : FileBytes} {sessionId : String}
    {st : JsonlSessionStorage}
    (h : (if locked then openLocked (some file) sessionId
      else openStorage (some file) sessionId).1.toOption = some st) :
    st.fileLock = locked ∧ st.nextId ≤ maxNodeId := by
  cases locked with
  | false =>
    simp only [Bool.false_eq_true, ↓reduceIte] at h
    cases ho : (openStorage (some file) sessionId).1 with
    | error e =>
      rw [ho] at h
      cases h
    | ok st' =>
      rw [ho] at h
      cases h
      exact openStorage_cursor ho
  | true =>
    simp only [↓reduceIte, openLocked] at h
    cases ho : (openStorage (some file) sessionId).1 with
    | error e =>
      rw [ho] at h
      cases h
    | ok st' =>
      rw [ho] at h
      cases h
      exact ⟨rfl, (openStorage_cursor ho).2⟩

/-- Opening an existing file leaves its bytes alone. -/
theorem openFile_file (locked : Bool) (file : FileBytes) (sessionId : String) :
    (if locked then openLocked (some file) sessionId
      else openStorage (some file) sessionId).2 = file := by
  cases locked <;> rfl

theorem load_ok {st st' : JsonlSessionStorage} {file : FileBytes} {tree : SessionTree}
    (h : Guigu.load st file = .ok (tree, st')) :
    ∃ ls root, scanBytes judge file = some ls ∧
      tree = treeOf (entriesOf (ls.map Prod.snd)) st.sessionId root ∧
      st'.fileLock = st.fileLock ∧ (st.nextId ≤ maxNodeId → st'.nextId ≤ maxNodeId) := by
  unfold Guigu.load at h
  cases hr : readRecords file with
  | error e =>
    simp only [hr] at h
    cases h
  | ok rs =>
    obtain ⟨ls, hls, rfl⟩ := readRecords_scan hr
    simp only [hr] at h
    cases hl : loadRecords (ls.map Prod.snd) st.sessionId st.nextId with
    | error e =>
      rw [hl] at h
      cases h
    | ok r =>
      rw [hl] at h
      cases h
      obtain ⟨⟨root, htree⟩, hnext⟩ := loadRecords_ok hl
      refine ⟨ls, root, hls, htree, rfl, fun hle => ?_⟩
      exact hnext (fun e he => Nat.le_pred_of_lt (scanBytes_id_lt hls e he)) hle

/-- A load may raise a cursor, and does nothing else. -/
theorem SessionFile.step_load {locked : Bool} {s : SessionFile} (h : s.CursorsOk locked) (p : ℕ) :
    (s.step locked (.load p)).CursorsOk locked ∧ (s.step locked (.load p)).file = s.file ∧
      (s.step locked (.load p)).acked = s.acked := by
  cases hst : s.storages p with
  | none =>
    have hs : s.step locked (.load p) = s := by simp only [SessionFile.step, hst]
    rw [hs]
    exact ⟨h, rfl, rfl⟩
  | some st =>
    obtain ⟨hlock, hle⟩ := h p st hst
    cases hl : Guigu.load st s.file with
    | error e =>
      have hs : s.step locked (.load p) = s := by simp only [SessionFile.step, hst, hl]
      rw [hs]
      exact ⟨h, rfl, rfl⟩
    | ok r =>
      obtain ⟨-, -, -, -, hlock', hle'⟩ := load_ok hl
      have hs : s.step locked (.load p) =
          { s with storages := Function.update s.storages p (some r.2) } := by
        simp only [SessionFile.step, hst, hl]
      rw [hs]
      exact ⟨h.update rfl fun st' hst' => by cases hst'; exact ⟨hlock'.trans hlock, hle' hle⟩,
        rfl, rfl⟩

/-- A lane head goes to the end of the file, whole or cut short. -/
theorem SessionFile.step_appendLaneHead (locked : Bool) (s : SessionFile) (p : ℕ)
    (laneId : LaneId) (head : Option NodeId) (out : WriteOutcome) :
    (s.storages p = none ∧ s.step locked (.appendLaneHead p laneId head out) = s) ∨
    (∃ st, s.storages p = some st ∧ out = .done ∧
      s.step locked (.appendLaneHead p laneId head out) =
        { s with
          file := s.file ++ (SessionRecord.laneHead ⟨laneId, head⟩).line
          acked := s.acked ++ [.laneHead ⟨laneId, head⟩] }) ∨
    ∃ st k, s.storages p = some st ∧ out = .torn k ∧
      s.step locked (.appendLaneHead p laneId head out) =
        { s with file := s.file ++ (SessionRecord.laneHead ⟨laneId, head⟩).line.take k } := by
  cases hst : s.storages p with
  | none => exact Or.inl ⟨rfl, by simp only [SessionFile.step, hst]⟩
  | some st =>
    cases out with
    | done =>
      refine Or.inr (Or.inl ⟨st, rfl, rfl, ?_⟩)
      simp only [SessionFile.step, hst, Guigu.appendLaneHead, writeLine, Except.toOption,
        Option.map_some, Option.toList_some]
    | torn k =>
      refine Or.inr (Or.inr ⟨st, k, rfl, rfl, ?_⟩)
      simp only [SessionFile.step, hst, Guigu.appendLaneHead, writeLine, Except.toOption,
        Option.map_none, Option.toList_none, List.append_nil]

end Guigu
