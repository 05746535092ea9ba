import Guigu.Core.Session.Durability
import Guigu.Core.Session.Shared
import Guigu.Core.Session.SharedFile

/-! The shared storage over the bytes of its file does what the one over its records does, as long
as every write that returns `Ok` can be read back, and every other one leaves a part of its line
that is read as nothing. -/
namespace Guigu

open Lines

/-- Complete lines, and perhaps something behind them that lacks a line feed or is no record: it is
read as nothing. -/
def Holds (file : FileBytes) (rs : List SessionRecord) : Prop :=
  ∃ front rest, file = front ++ rest ∧ CompleteFile front rs ∧ (rest = [] ∨ Ending rest []) ∧
    (Utf8.decode rest).isSome

/-- A write that fails leaves less than the text of its record. -/
def WriteOutcome.Partial (r : SessionRecord) : WriteOutcome → Prop
  | .done => True
  | .torn k => k < r.body.length

/-- A write that returns `Ok` finds complete lines only and can be read back; another one leaves
some characters of its line. -/
def SafeWrite (file : FileBytes) (r : SessionRecord) (out : WriteOutcome) : Prop :=
  WriteSafe file r out ∧ out.Partial r

theorem Holds.readRecords {file : FileBytes} {rs : List SessionRecord} (h : Holds file rs) :
    readRecords file = .ok rs := by
  obtain ⟨front, rest, rfl, hfront, hrest, hdecode⟩ := h
  obtain ⟨ls, rfl, -, hscan⟩ := Complete.scan hfront
  have hnone : scanBytes judge rest = some [] := by
    rcases hrest with rfl | hending
    · rfl
    · obtain ⟨ps, hps⟩ := Option.isSome_iff_exists.mp (scanBytes_isSome hdecode)
      obtain ⟨hnil, -⟩ := hending.scan hps
      rw [hps, List.map_eq_nil_iff.mp hnil]
  have hall : scanBytes judge (front ++ rest) = some ls := by
    rw [hscan, hnone]
    simp
  exact readRecords_eq hall

theorem Holds.of_complete {file : FileBytes} {rs : List SessionRecord} (h : CompleteFile file rs) :
    Holds file rs := ⟨file, [], (List.append_nil _).symm, h, .inl rfl, rfl⟩

theorem Holds.torn {file : FileBytes} {rs : List SessionRecord} (h : Holds file rs)
    {r : SessionRecord} {k : ℕ} (hsafe : SafeWrite file r (.torn k)) :
    Holds (file ++ r.line.take k) rs := by
  obtain ⟨front, rest, rfl, hfront, hrest, hdecode⟩ := h
  obtain ⟨htext, hk⟩ := hsafe
  have hk' : k < r.body.length := hk
  have htake : r.line.take k = r.body.take k := List.take_append_of_le_length hk'.le
  have hpart : r.line.take k <+: r.body := htake ▸ List.take_prefix _ _
  refine ⟨front, rest ++ r.line.take k, List.append_assoc _ _ _, hfront, ?_, ?_⟩
  · rcases hrest with rfl | hending
    · by_cases hnil : r.line.take k = []
      · exact .inl hnil
      · right
        refine .broken ( broken_of_prefix hpart hnil fun hall => ?_)
        have hlength := congrArg List.length hall
        rw [List.nil_append, htake, List.length_take] at hlength
        omega
    · obtain ⟨more, hmore, hending'⟩ := hending.write r k
      rw [or_self_iff.mp hmore] at hending'
      exact .inr hending'
  · rw [Utf8.decode_append_isSome hdecode]
    exact htext

theorem Holds.done {file : FileBytes} {rs : List SessionRecord} (h : Holds file rs)
    {r : SessionRecord} (hsafe : SafeWrite file r .done) :
    CompleteFile (file ++ r.line) (rs ++ [r]) := by
  obtain ⟨⟨⟨all, hall⟩, hlegible⟩, -⟩ := hsafe
  obtain rfl : all = rs := by
    have hread := hall.readRecords
    rw [h.readRecords] at hread
    exact (Except.ok.inj hread).symm
  exact hall.append_line hlegible

instance (file : FileBytes) : Decidable (∃ rs, CompleteFile file rs) :=
  inferInstanceAs (Decidable (∃ rs, Complete judge file rs))

instance (file : FileBytes) (r : SessionRecord) : (out : WriteOutcome) →
    Decidable (SafeWrite file r out)
  | .done => inferInstanceAs (Decidable (((∃ rs, CompleteFile file rs) ∧ r.Legible) ∧ True))
  | .torn k => inferInstanceAs (Decidable ((Utf8.decode (r.line.take k)).isSome ∧
    k < r.body.length))

/-- Whether a write fails. -/
def WriteOutcome.fails : WriteOutcome → Bool
  | .done => false
  | .torn _ => true

/-- Which write of a combined append fails. -/
def WriteOutcome.fault : WriteOutcome → WriteOutcome → WriteFault
  | .torn _, _ => .message
  | .done, .torn _ => .head
  | .done, .done => .clean

namespace SharedFile

/-- The storage with the records of its file. -/
def withRecords (st : SharedFile) (records : List SessionRecord) : SharedSessionStorage :=
  ⟨st.inner.sessionId, records, st.inner.nextId, st.headStore, st.headCommitted⟩

/-- What is read of the file is what the other storage keeps. -/
structure Shows (st : SharedFile) (file : FileBytes) (t : SharedSessionStorage) : Prop where
  unlocked : st.inner.fileLock = false
  view : st.withRecords t.records = t
  holds : Holds file t.records

/-- Both writes of a combined append are safe. -/
def SafeAppend (st : SharedFile) (file : FileBytes) (laneId : LaneId) (parentId : Option NodeId)
    (message : Message) (out headOut : WriteOutcome) : Prop :=
  let r : SessionRecord := .message ⟨st.inner.nextId, parentId, message⟩
  st.inner.nextId ≠ maxNodeId → SafeWrite file r out ∧
    (out = .done → st.headStore = true →
      SafeWrite (file ++ r.line) (.laneHead ⟨laneId, some st.inner.nextId⟩) headOut)

/-- A first head that has to be written is. -/
def SafePersist (st : SharedFile) (file : FileBytes) (laneId : LaneId) (head : Option NodeId)
    (out : WriteOutcome) : Prop :=
  laneId ∉ st.headCommitted → st.headStore = true → SafeWrite file (.laneHead ⟨laneId, head⟩) out

instance (st : SharedFile) (file : FileBytes) (laneId : LaneId) (parentId : Option NodeId)
    (message : Message) (out headOut : WriteOutcome) :
    Decidable (st.SafeAppend file laneId parentId message out headOut) :=
  inferInstanceAs (Decidable (_ → _ ∧ (_ → _ → _)))

instance (st : SharedFile) (file : FileBytes) (laneId : LaneId) (head : Option NodeId)
    (out : WriteOutcome) : Decidable (st.SafePersist file laneId head out) :=
  inferInstanceAs (Decidable (_ → _ → _))

/-- To open the file is to open the records that are read of it. -/
theorem reopen_eq (file : FileBytes) (sessionId : String) (headStore : Bool) :
    reopen file sessionId headStore = (match readRecords file with
      | .error e => .error e
      | .ok records => (cursorAfter records).map fun next =>
        ⟨⟨sessionId, next, false⟩, headStore, []⟩) := by
  simp only [reopen, openStorage, Option.getD_some]
  cases readRecords file with
  | error e => rfl
  | ok records =>
    simp only
    cases cursorAfter records <;> rfl

/-- A snapshot is one of the records that are read of the file. -/
theorem snapshot_eq (st : SharedFile) (file : FileBytes) :
    st.snapshot file = (match readRecords file with
      | .error e => .error e
      | .ok records => (st.withRecords records).snapshot.map fun r =>
        (r.1, { st with inner := { st.inner with nextId := r.2.nextId } })) := by
  unfold snapshot Guigu.load
  cases hread : readRecords file with
  | error e => rfl
  | ok records =>
    simp only [SharedSessionStorage.snapshot, SharedSessionStorage.load, withRecords]
    cases loadRecords records st.inner.sessionId st.inner.nextId with
    | error e => rfl
    | ok r =>
      cases hstore : st.headStore with
      | false =>
        simp only [Except.map, loadLaneHeads, SharedSessionStorage.loadLaneHeads, hstore,
          Bool.false_eq_true, ↓reduceIte]
      | true =>
        simp only [Except.map, loadLaneHeads, SharedSessionStorage.loadLaneHeads, hstore,
          ↓reduceIte, Guigu.loadLaneHeads, hread]

namespace Shows

variable {st : SharedFile} {file : FileBytes} {t : SharedSessionStorage}

theorem readRecords (h : st.Shows file t) : Guigu.readRecords file = .ok t.records :=
  h.holds.readRecords

theorem eq_withRecords (h : st.Shows file t) :
    ∃ records, t = st.withRecords records ∧ Holds file records :=
  ⟨t.records, h.view.symm, h.holds⟩

/-- Without a lock nothing is repaired. -/
theorem append_eq (h : st.Shows file t) (parentId : Option NodeId) (message : Message)
    (out : WriteOutcome) : Guigu.append st.inner file parentId message out =
      appendClaimed st.inner file parentId message out := by
  simp only [Guigu.append, h.unlocked, Bool.false_eq_true, ↓reduceIte]

/-- An append does the same to the file and to the records. -/
theorem append (h : st.Shows file t) {parentId : Option NodeId} {message : Message}
    {out : WriteOutcome}
    (hsafe : st.inner.nextId ≠ maxNodeId →
      SafeWrite file (.message ⟨st.inner.nextId, parentId, message⟩) out) :
    (st.append file parentId message out).1 = (t.append parentId message out.fails).1 ∧
      (st.append file parentId message out).2.1.Shows (st.append file parentId message out).2.2
        (t.append parentId message out.fails).2 := by
  obtain ⟨records, rfl, hholds⟩ := h.eq_withRecords
  rcases appendClaimed_cases st.inner file parentId message out with
    ⟨hmax, hc⟩ | ⟨hne, rfl, hc⟩ | ⟨k, hne, rfl, hc⟩
  · have hmax' : (st.withRecords records).nextId = maxNodeId := hmax
    simp only [SharedFile.append, h.append_eq, hc, SharedSessionStorage.append, if_pos hmax']
    exact ⟨trivial, h⟩
  · have hne' : (st.withRecords records).nextId ≠ maxNodeId := hne
    simp only [SharedFile.append, h.append_eq, hc, SharedSessionStorage.append, if_neg hne',
      WriteOutcome.fails, Bool.false_eq_true, ↓reduceIte]
    exact ⟨rfl, h.unlocked, rfl, .of_complete (hholds.done (hsafe hne))⟩
  · have hne' : (st.withRecords records).nextId ≠ maxNodeId := hne
    simp only [SharedFile.append, h.append_eq, hc, SharedSessionStorage.append, if_neg hne',
      WriteOutcome.fails, ↓reduceIte]
    exact ⟨trivial, h.unlocked, rfl, hholds.torn (hsafe hne)⟩

/-- A head that is written. -/
theorem commitHead (h : st.Shows file t) {laneId : LaneId} {head : Option NodeId}
    (hsafe : SafeWrite file (.laneHead ⟨laneId, head⟩) .done) :
    (st.appendLaneHead file laneId head .done).1 = .ok () ∧
      (st.appendLaneHead file laneId head .done).2.1.Shows
        (st.appendLaneHead file laneId head .done).2.2 (t.commitHead laneId head) := by
  obtain ⟨records, rfl, hholds⟩ := h.eq_withRecords
  exact ⟨rfl, h.unlocked, rfl, .of_complete (hholds.done hsafe)⟩

/-- A head that is cut short. -/
theorem tornHead (h : st.Shows file t) {laneId : LaneId} {head : Option NodeId} {k : ℕ}
    (hsafe : SafeWrite file (.laneHead ⟨laneId, head⟩) (.torn k)) :
    (st.appendLaneHead file laneId head (.torn k)).1 = .error .io ∧
      (st.appendLaneHead file laneId head (.torn k)).2.1.Shows
        (st.appendLaneHead file laneId head (.torn k)).2.2 t :=
  ⟨rfl, h.unlocked, h.view, h.holds.torn hsafe⟩

theorem headStore_eq (h : st.Shows file t) : t.headStore = st.headStore := by
  obtain ⟨records, rfl, -⟩ := h.eq_withRecords
  rfl

theorem headCommitted_eq (h : st.Shows file t) : t.headCommitted = st.headCommitted := by
  obtain ⟨records, rfl, -⟩ := h.eq_withRecords
  rfl

/-- An append that returns has written its line. -/
theorem append_ok (h : st.Shows file t) {parentId : Option NodeId} {message : Message}
    {out : WriteOutcome} {id : NodeId} {st' : SharedFile} {file' : FileBytes}
    (hok : st.append file parentId message out = (.ok id, st', file')) :
    out = .done ∧ id = st.inner.nextId ∧ st.inner.nextId ≠ maxNodeId ∧
      file' = file ++ (SessionRecord.message ⟨st.inner.nextId, parentId, message⟩).line := by
  rcases appendClaimed_cases st.inner file parentId message out with
    ⟨hmax, hc⟩ | ⟨hne, rfl, hc⟩ | ⟨k, hne, rfl, hc⟩
  · simp only [SharedFile.append, h.append_eq, hc] at hok
    cases hok
  · simp only [SharedFile.append, h.append_eq, hc] at hok
    cases hok
    exact ⟨rfl, rfl, hne, rfl⟩
  · simp only [SharedFile.append, h.append_eq, hc] at hok
    cases hok

/-- So does an append with the head of its lane. -/
theorem appendWithHead (h : st.Shows file t) {laneId : LaneId} {parentId : Option NodeId}
    {message : Message} {out headOut : WriteOutcome}
    (hsafe : st.SafeAppend file laneId parentId message out headOut) :
    (st.appendWithHead file laneId parentId message out headOut).1 =
        (t.appendWithHead laneId parentId message (out.fault headOut)).1 ∧
      (st.appendWithHead file laneId parentId message out headOut).2.1.Shows
        (st.appendWithHead file laneId parentId message out headOut).2.2
        (t.appendWithHead laneId parentId message (out.fault headOut)).2 := by
  obtain ⟨hsame, hshows⟩ := h.append (fun hne => (hsafe hne).1)
  have hfails : decide (out.fault headOut = .message) = out.fails := by
    cases out <;> cases headOut <;> rfl
  simp only [SharedSessionStorage.appendWithHead, hfails, SharedFile.appendWithHead]
  generalize hx : st.append file parentId message out = x at hsame hshows
  generalize t.append parentId message out.fails = y at hsame hshows
  obtain ⟨r, st', file'⟩ := x
  obtain ⟨r', t'⟩ := y
  obtain rfl : r = r' := hsame
  have hshows' : st'.Shows file' t' := hshows
  cases r with
  | error e => exact ⟨rfl, hshows'⟩
  | ok id =>
    obtain ⟨rfl, rfl, hne, rfl⟩ := h.append_ok hx
    have hkept : st'.headStore = st.headStore := congrArg (fun x => x.2.1.headStore) hx.symm
    simp only [hshows'.headStore_eq]
    cases hstore : st'.headStore with
    | false =>
      simp only [Bool.false_eq_true, ↓reduceIte]
      exact ⟨trivial, hshows'⟩
    | true =>
      have hhead := (hsafe hne).2 rfl (hkept.symm.trans hstore)
      simp only [↓reduceIte]
      cases headOut with
      | done =>
        obtain ⟨hok, hcommitted⟩ := hshows'.commitHead hhead
        exact ⟨congrArg (Except.map _) hok, hcommitted⟩
      | torn k =>
        obtain ⟨hfailed, hsame⟩ := hshows'.tornHead hhead
        exact ⟨congrArg (Except.map _) hfailed, hsame⟩

theorem persistInitialHead (h : st.Shows file t) {laneId : LaneId} {head : Option NodeId}
    {out : WriteOutcome} (hsafe : st.SafePersist file laneId head out) :
    (st.persistInitialHead file laneId head out).1 =
        (t.persistInitialHead laneId head out.fails).1 ∧
      (st.persistInitialHead file laneId head out).2.1.Shows
        (st.persistInitialHead file laneId head out).2.2
        (t.persistInitialHead laneId head out.fails).2 := by
  simp only [SharedFile.persistInitialHead, SharedSessionStorage.persistInitialHead,
    h.headStore_eq, h.headCommitted_eq]
  split_ifs with hmem hstore hfails
  · exact ⟨rfl, h⟩
  · cases out with
    | done => cases hfails
    | torn k => exact h.tornHead (hsafe hmem hstore)
  · cases out with
    | done => exact h.commitHead (hsafe hmem hstore)
    | torn k => exact absurd rfl hfails
  · obtain ⟨records, rfl, hholds⟩ := h.eq_withRecords
    exact ⟨rfl, h.unlocked, rfl, hholds⟩

/-- What is opened shows what is read. -/
theorem reopen {sessionId : String} {headStore : Bool} {st : SharedFile}
    {records : List SessionRecord} (hholds : Holds file records)
    (hopen : SharedFile.reopen file sessionId headStore = .ok st) :
    SharedSessionStorage.reopen sessionId records headStore = .ok (st.withRecords records) ∧
      st.Shows file (st.withRecords records) := by
  rw [reopen_eq, hholds.readRecords] at hopen
  simp only [SharedSessionStorage.reopen]
  cases hnext : cursorAfter records with
  | error e =>
    simp only [hnext] at hopen
    cases hopen
  | ok next =>
    simp only [hnext] at hopen
    obtain rfl := Except.ok.inj hopen
    exact ⟨rfl, rfl, rfl, hholds⟩

end Shows

end SharedFile

/-- Append behind the head; only success moves the head. -/
def LaneWriter.appendTo (w : LaneWriter) (st : SharedFile) (file : FileBytes) (message : Message)
    (out headOut : WriteOutcome) :
    Except SessionError NodeId × LaneWriter × SharedFile × FileBytes :=
  match st.appendWithHead file w.laneId w.head message out headOut with
  | (.error e, written) => (.error e, w, written)
  | (.ok id, written) => (.ok id, { w with head := some id }, written)

theorem LaneWriter.appendTo_shows {w : LaneWriter} {st : SharedFile} {file : FileBytes}
    {t : SharedSessionStorage} (h : st.Shows file t) {message : Message}
    {out headOut : WriteOutcome}
    (hsafe : st.SafeAppend file w.laneId w.head message out headOut) :
    (w.appendTo st file message out headOut).1 =
        (w.append t message (out.fault headOut)).1 ∧
      (w.appendTo st file message out headOut).2.1 =
        (w.append t message (out.fault headOut)).2.1 ∧
      (w.appendTo st file message out headOut).2.2.1.Shows
        (w.appendTo st file message out headOut).2.2.2
        (w.append t message (out.fault headOut)).2.2 := by
  obtain ⟨hsame, hshows⟩ := h.appendWithHead hsafe
  simp only [LaneWriter.appendTo, LaneWriter.append]
  generalize st.appendWithHead file w.laneId w.head message out headOut = x at hsame hshows
  generalize t.appendWithHead w.laneId w.head message (out.fault headOut) = y at hsame hshows
  obtain ⟨r, written⟩ := x
  obtain ⟨r', t'⟩ := y
  obtain rfl : r = r' := hsame
  cases r with
  | error e => exact ⟨rfl, rfl, hshows⟩
  | ok id => exact ⟨rfl, rfl, hshows⟩

end Guigu
