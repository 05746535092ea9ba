import Guigu.Core.Session.LockedFile
import Guigu.Core.Session.Journal

/-! The identifiers in a session file that every process opens with the lock: in what is read of
it, and in all of it as long as a write goes through or leaves nothing but a cursor that is
ahead. -/
namespace Guigu

open Lines Runs

def WriteOutcome.Whole : WriteOutcome → Prop
  | .done => True
  | .torn k => k = 0

def StorageAction.Whole : StorageAction → Prop
  | .append _ _ _ out | .appendLaneHead _ _ _ out => out.Whole
  | .openFile _ _ | .load _ | .exit _ => True

instance (out : WriteOutcome) : Decidable out.Whole := by
  cases out <;> unfold WriteOutcome.Whole <;> infer_instance

instance (a : StorageAction) : Decidable a.Whole := by
  cases a <;> unfold StorageAction.Whole <;> infer_instance

/-- Some record is read from the line of this one. -/
def SessionRecord.reads (r : SessionRecord) : Bool := (SessionRecord.fromStr r.text).isSome

/-- The records the readers reach. -/
def readable (rs : List SessionRecord) : List SessionRecord := rs.takeWhile SessionRecord.reads

/-- The file holds the lines of `rs`, whose identifiers increase; the readers see a front part of
them, and the message of an append that returned `Ok` is one of them, if its line is read as a
record at all. -/
def SessionFile.Ordered (s : SessionFile) : Prop :=
  ∃ rs read, s.file = logBytes rs ∧ (nodeIds rs).Pairwise (· < ·) ∧
    readRecords s.file = .ok read ∧ nodeIds read <+: nodeIds rs ∧
    ∀ e, .message e ∈ s.acked → (SessionRecord.message e).reads = true → .message e ∈ rs

/-- Whatever is read of the file, its identifiers increase. -/
def SessionFile.Increasing (s : SessionFile) : Prop :=
  ∀ records, readRecords s.file = .ok records → (nodeIds records).Pairwise (· < ·)

/-- What an append returns is the identifier in the line it leaves at the end of the file. -/
def SessionFile.Stores (s : SessionFile) : StorageAction → Prop
  | .append p parentId message out => ∀ st id, s.storages p = some st →
    (append st s.file parentId message out).1 = .ok id →
    ∃ front, (append st s.file parentId message out).2.2 =
      front ++ (SessionRecord.message ⟨id, parentId, message⟩).line
  | _ => True

theorem readable_prefix (rs : List SessionRecord) : readable rs <+: rs := List.takeWhile_prefix _

theorem nodeIds_readable_prefix (rs : List SessionRecord) :
    nodeIds (readable rs) <+: nodeIds rs := by
  obtain ⟨more, hmore⟩ := readable_prefix rs
  refine ⟨nodeIds more, ?_⟩
  rw [← nodeIds_append, hmore]

/-- More lines never take records away. -/
theorem readable_append_prefix (rs more : List SessionRecord) :
    readable rs <+: readable (rs ++ more) := by
  unfold readable
  rw [List.takeWhile_append]
  split_ifs with hall
  · rw [List.takeWhile_eq_self_iff.mpr]
    · exact List.prefix_append _ _
    · intro r hr
      have hsame : rs.takeWhile SessionRecord.reads = rs :=
        List.IsPrefix.eq_of_length ( readable_prefix rs) hall
      rw [← hsame] at hr
      exact List.mem_takeWhile_imp hr
  · exact List.prefix_refl _

/-- The readers reach the lines up to the first one that is no record. -/
theorem scanBytes_logBytes (rs : List SessionRecord) :
    ∃ ls, scanBytes judge (logBytes rs) = some ls ∧
      ls.flatMap (·.1.bytes) = logBytes (readable rs) ∧
      nodeIds (ls.map Prod.snd) = nodeIds (readable rs) := by
  induction rs with
  | nil => exact ⟨[], rfl, rfl, rfl⟩
  | cons r rs ih =>
    obtain ⟨ls, hls, hbytes, hnodes⟩ := ih
    have hcut : logBytes (r :: rs) = r.body ++ 10 :: logBytes rs := by
      rw [← List.singleton_append, logBytes_append, logBytes_singleton, SessionRecord.line,
        List.append_assoc]
      rfl
    rw [hcut, scanBytes, split_frame r.lineFeed_not_mem, scan, judge_line]
    unfold readable
    rw [List.takeWhile_cons]
    cases hread : SessionRecord.fromStr r.text with
    | none =>
      have hno : r.reads = false := by rw [SessionRecord.reads, hread]; rfl
      simp only [hno, Bool.false_eq_true, ↓reduceIte]
      exact ⟨[], rfl, rfl, rfl⟩
    | some r' =>
      have hyes : r.reads = true := by rw [SessionRecord.reads, hread]; rfl
      rw [scanBytes] at hls
      simp only [hyes, ↓reduceIte, hls, Option.map_some]
      refine ⟨_, rfl, ?_, ?_⟩
      · rw [List.flatMap_cons, hbytes, ← List.singleton_append, logBytes_append,
          logBytes_singleton]
        rfl
      · have hone := (SessionRecord.resembles_of_fromStr hread).nodeIds
        rw [List.map_cons, ← List.singleton_append, nodeIds_append, hnodes, hone,
          ← nodeIds_append, List.singleton_append]
        rfl

/-- What the locked calls keep true: the file holds lines with increasing identifiers, and the
readers reach every acknowledged message. -/
structure OrderedInv (s : SessionFile) : Prop where
  cursors : s.CursorsOk true
  lines : ∃ rs, s.file = logBytes rs ∧ (nodeIds rs).Pairwise (· < ·) ∧
    ∀ e, .message e ∈ s.acked → (SessionRecord.message e).reads = true →
      .message e ∈ readable rs

theorem OrderedInv.ordered {s : SessionFile} (h : OrderedInv s) : s.Ordered := by
  obtain ⟨rs, hfile, horder, hacked⟩ := h.lines
  obtain ⟨ls, hls, -, hnodes⟩ := scanBytes_logBytes rs
  refine ⟨rs, ls.map Prod.snd, hfile, horder, ?_, ?_, ?_⟩
  · rw [hfile]
    exact readRecords_eq hls
  · rw [hnodes]
    exact nodeIds_readable_prefix rs
  · intro e he hreads
    exact List.IsPrefix.subset ( readable_prefix rs) (hacked e he hreads)

/-- The repair takes away what the readers do not reach. -/
theorem OrderedInv.repaired {s : SessionFile} (h : OrderedInv s)
    {ls : List (Line × SessionRecord)} (hscan : scanBytes judge s.file = some ls) :
    ∃ rs, ls.flatMap (·.1.bytes) = logBytes rs ∧ nodeIds (ls.map Prod.snd) = nodeIds rs ∧
      (nodeIds rs).Pairwise (· < ·) ∧ readable rs = rs ∧
      ∀ e, .message e ∈ s.acked → (SessionRecord.message e).reads = true → .message e ∈ rs := by
  obtain ⟨rs, hfile, horder, hacked⟩ := h.lines
  obtain ⟨ks, hks, hbytes, hnodes⟩ := scanBytes_logBytes rs
  rw [hfile, hks] at hscan
  obtain rfl := Option.some.inj hscan
  refine ⟨readable rs, hbytes, hnodes, ?_, ?_, hacked⟩
  · exact horder.sublist (List.IsPrefix.sublist ( nodeIds_readable_prefix rs))
  · exact List.takeWhile_eq_self_iff.mpr fun r hr => List.mem_takeWhile_imp hr

theorem OrderedInv.append {s : SessionFile} (h : OrderedInv s) {p : ℕ}
    {parentId : Option NodeId} {message : Message} {out : WriteOutcome} (hwhole : out.Whole) :
    OrderedInv (s.step true (.append p parentId message out)) := by
  obtain ⟨hcursors, hstep⟩ := SessionFile.step_append_locked h.cursors p parentId message out
  generalize s.step true (.append p parentId message out) = s' at hcursors hstep
  refine ⟨hcursors, ?_⟩
  cases hstep with
  | failed hf hk =>
    rw [hk]
    rcases hf with hf | ⟨ls, hscan, hf⟩
    · rw [hf]
      exact h.lines
    · obtain ⟨rs, hbytes, -, horder, hall, hacked⟩ := h.repaired hscan
      refine ⟨rs, hf.trans hbytes, horder, ?_⟩
      rw [hall]
      exact hacked
  | @torn k _ ls id hscan _ hf hk =>
    obtain rfl : k = 0 := hwhole
    rw [List.take_zero, List.append_nil] at hf
    rw [hk]
    obtain ⟨rs, hbytes, -, horder, hall, hacked⟩ := h.repaired hscan
    refine ⟨rs, hf.trans hbytes, horder, ?_⟩
    rw [hall]
    exact hacked
  | @done _ ls id hscan _ habove hf hk =>
    obtain ⟨rs, hbytes, hnodes, horder, hall, hacked⟩ := h.repaired hscan
    have hbelow : ∀ i ∈ nodeIds rs, i < id := by
      rw [← hnodes]
      intro i hi
      obtain ⟨e, he, rfl⟩ := List.mem_map.mp hi
      exact habove e he
    refine ⟨rs ++ [.message ⟨id, parentId, message⟩], ?_, ?_, ?_⟩
    · rw [hf, hbytes, logBytes_append, logBytes_singleton]
    · rw [nodeIds_append]
      refine List.pairwise_append.mpr ⟨horder, List.pairwise_singleton _ _, ?_⟩
      intro i hi j hj
      have hj' : j ∈ [id] := hj
      rw [List.mem_singleton.mp hj']
      exact hbelow i hi
    · intro e he hreads
      have hreach := readable_append_prefix rs [.message ⟨id, parentId, message⟩]
      rw [hk, List.mem_append, List.mem_singleton] at he
      rcases he with he | he
      · rw [hall] at hreach
        exact hreach.subset (hacked e he hreads)
      · -- everything in front of the new line is read, and so is the new line
        rw [readable, List.takeWhile_append_of_pos (List.takeWhile_eq_self_iff.mp hall),
          ← he, List.takeWhile_cons, if_pos hreads]
        exact List.mem_append_right _ List.mem_cons_self

theorem OrderedInv.appendLaneHead {s : SessionFile} (h : OrderedInv s) {p : ℕ} {laneId : LaneId}
    {head : Option NodeId} {out : WriteOutcome} (hwhole : out.Whole) :
    OrderedInv (s.step true (.appendLaneHead p laneId head out)) := by
  rcases SessionFile.step_appendLaneHead true s p laneId head out with
    ⟨-, hs⟩ | ⟨st, -, rfl, hs⟩ | ⟨st, k, -, rfl, hs⟩
  · rw [hs]
    exact h
  · obtain ⟨rs, hfile, horder, hacked⟩ := h.lines
    have hentries : entriesOf (rs ++ [.laneHead ⟨laneId, head⟩]) = entriesOf rs := by
      rw [entriesOf_append]
      exact List.append_nil _
    rw [hs]
    refine ⟨h.cursors, rs ++ [.laneHead ⟨laneId, head⟩], ?_, ?_, ?_⟩
    · show s.file ++ _ = _
      rw [hfile, logBytes_append, logBytes_singleton]
    · rw [nodeIds, hentries]
      exact horder
    · intro e he hreads
      rw [List.mem_append, List.mem_singleton] at he
      rcases he with he | he
      · exact List.IsPrefix.subset ( readable_append_prefix rs _) (hacked e he hreads)
      · cases he
  · obtain rfl : k = 0 := hwhole
    rw [hs, List.take_zero, List.append_nil]
    exact h

theorem OrderedInv.step {s : SessionFile} {a : StorageAction} (h : OrderedInv s)
    (ha : a.Whole) : OrderedInv (s.step true a) := by
  cases a with
  | append p parentId message out => exact h.append ha
  | appendLaneHead p laneId head out => exact h.appendLaneHead ha
  | openFile p sessionId => exact ⟨h.cursors.update rfl fun st hst => openFile_cursor hst, h.lines⟩
  | load p =>
    obtain ⟨hcursors, hfile, hacked⟩ := SessionFile.step_load h.cursors p
    refine ⟨hcursors, ?_⟩
    rw [hfile, hacked]
    exact h.lines
  | exit p => exact ⟨h.cursors.update rfl fun st hst => (by cases hst), h.lines⟩

/-- What every locked call keeps, however its write ends. -/
structure IncreasingInv (s : SessionFile) : Prop where
  cursors : s.CursorsOk true
  lines : ∃ rs, Journal s.file rs ∧ (nodeIds rs).Pairwise (· < ·)

theorem IncreasingInv.increasing {s : SessionFile} (h : IncreasingInv s) : s.Increasing := by
  obtain ⟨rs, hfile, horder⟩ := h.lines
  intro records hread
  rw [hfile.readRecords hread]
  exact horder

/-- Of a line whose identifier, if it has one, is the largest, nothing or the record is read. -/
theorem increasing_write {rs rs' : List SessionRecord} {r : SessionRecord}
    (horder : (nodeIds rs).Pairwise (· < ·)) (habove : ∀ i ∈ nodeIds rs, ∀ j ∈ nodeIds [r], i < j)
    (hrs : rs' <+: rs ∨ ∃ r', r.Resembles r' ∧ rs' = rs ++ [r']) :
    (nodeIds rs').Pairwise (· < ·) := by
  rcases hrs with ⟨more, rfl⟩ | ⟨r', hlike, rfl⟩
  · rw [nodeIds_append] at horder
    exact horder.sublist (List.sublist_append_left _ _)
  · rw [nodeIds_append, hlike.nodeIds, List.pairwise_append]
    refine ⟨horder, ?_, habove⟩
    cases r with
    | message e => exact List.pairwise_singleton _ _
    | laneHead lh => exact .nil

theorem IncreasingInv.append {s : SessionFile} (h : IncreasingInv s) (p : ℕ)
    (parentId : Option NodeId) (message : Message) (out : WriteOutcome) :
    IncreasingInv (s.step true (.append p parentId message out)) := by
  obtain ⟨hcursors, hstep⟩ := SessionFile.step_append_locked h.cursors p parentId message out
  generalize s.step true (.append p parentId message out) = s' at hcursors hstep
  refine ⟨hcursors, ?_⟩
  obtain ⟨rs, hfile, horder⟩ := h.lines
  have hbelow : ∀ {ls : List (Line × SessionRecord)} {id : NodeId},
      scanBytes judge s.file = some ls → (∀ e ∈ entriesOf (ls.map Prod.snd), e.id < id) →
      ∀ i ∈ nodeIds rs, ∀ j ∈ nodeIds [.message ⟨id, parentId, message⟩], i < j := by
    intro ls id hscan habove i hi j hj
    rw [← (hfile.repair hscan).1] at hi
    obtain ⟨e, he, rfl⟩ := List.mem_map.mp hi
    have hj' : j ∈ [id] := hj
    rw [List.mem_singleton.mp hj']
    exact habove e he
  cases hstep with
  | failed hf hk =>
    rcases hf with hf | ⟨ls, hscan, hf⟩
    · exact ⟨rs, hf ▸ hfile, horder⟩
    · exact ⟨rs, hf ▸ (hfile.repair hscan).2, horder⟩
  | @torn k _ ls id hscan habove hf hk =>
    obtain ⟨rs', hfile', hrs⟩ :=
      (hfile.repair hscan).2.write (.message ⟨id, parentId, message⟩) k
    exact ⟨rs', hf ▸ hfile', increasing_write horder (hbelow hscan habove) hrs⟩
  | @done _ ls id hscan _ habove hf hk =>
    obtain ⟨rs', hfile', hrs⟩ := (hfile.repair hscan).2.line (.message ⟨id, parentId, message⟩)
    exact ⟨rs', hf ▸ hfile', increasing_write horder (hbelow hscan habove) hrs⟩

theorem IncreasingInv.step {s : SessionFile} (h : IncreasingInv s) (a : StorageAction) :
    IncreasingInv (s.step true a) := by
  cases a with
  | append p parentId message out => exact h.append p parentId message out
  | appendLaneHead p laneId head out =>
    obtain ⟨rs, hfile, horder⟩ := h.lines
    have hnone : ∀ i ∈ nodeIds rs, ∀ j ∈ nodeIds [.laneHead ⟨laneId, head⟩], i < j := by
      intro i _ j hj
      cases hj
    rcases SessionFile.step_appendLaneHead true s p laneId head out with
      ⟨-, hs⟩ | ⟨st, -, -, hs⟩ | ⟨st, k, -, -, hs⟩
    · rw [hs]
      exact h
    · obtain ⟨rs', hfile', hrs⟩ := hfile.line (.laneHead ⟨laneId, head⟩)
      rw [hs]
      exact ⟨h.cursors, rs', hfile', increasing_write horder hnone hrs⟩
    · obtain ⟨rs', hfile', hrs⟩ := hfile.write (.laneHead ⟨laneId, head⟩) k
      rw [hs]
      exact ⟨h.cursors, rs', hfile', increasing_write horder hnone hrs⟩
  | openFile p sessionId => exact ⟨h.cursors.update rfl fun st hst => openFile_cursor hst, h.lines⟩
  | load p =>
    obtain ⟨hcursors, hfile, -⟩ := SessionFile.step_load h.cursors p
    exact ⟨hcursors, hfile ▸ h.lines⟩
  | exit p => exact ⟨h.cursors.update rfl fun st hst => (by cases hst), h.lines⟩

/-- The line of an append that returns goes to the end of the file, with the identifier that is
returned. -/
theorem append_stores {st : JsonlSessionStorage} {file : FileBytes} {parentId : Option NodeId}
    {message : Message} {out : WriteOutcome} {id : NodeId}
    (h : (append st file parentId message out).1 = .ok id) :
    ∃ front, (append st file parentId message out).2.2 =
      front ++ (SessionRecord.message ⟨id, parentId, message⟩).line := by
  have hclaimed : ∀ (s : JsonlSessionStorage) (bytes : FileBytes),
      (appendClaimed s bytes parentId message out).1 = .ok id →
      (appendClaimed s bytes parentId message out).2.2 =
        bytes ++ (SessionRecord.message ⟨id, parentId, message⟩).line := by
    intro s bytes hok
    rcases appendClaimed_cases s bytes parentId message out with
      ⟨-, hc⟩ | ⟨-, -, hc⟩ | ⟨k, -, -, hc⟩
    · rw [hc] at hok
      cases hok
    · rw [hc] at hok ⊢
      rw [Except.ok.inj hok]
    · rw [hc] at hok
      cases hok
  unfold append at h ⊢
  split_ifs at h ⊢ with hlock
  · split at h
    · cases h
    · exact ⟨_, hclaimed _ _ h⟩
  · exact ⟨_, hclaimed _ _ h⟩

theorem SessionFile.stores (s : SessionFile) (a : StorageAction) : s.Stores a := by
  cases a with
  | append p parentId message out => exact fun st id _ hok => append_stores hok
  | _ => trivial

/-- Whatever locked processes do to one file, with any cursors: the identifiers that are read of
it increase, what an append returned is in its record, and as long as every write goes through or
fails whole, nothing in the file is out of order and no message is missing. -/
theorem SessionFile.ordered_throughout {rs : List SessionRecord}
    {storages : ℕ → Option JsonlSessionStorage} (horder : (nodeIds rs).Pairwise (· < ·))
    (hlocked : ∀ p st, storages p = some st → st.fileLock = true ∧ st.nextId ≤ maxNodeId)
    (as : List StorageAction) :
    Throughout (step true) Increasing ⟨logBytes rs, storages, []⟩ as ∧
      Along (step true) Stores ⟨logBytes rs, storages, []⟩ as ∧
      ((∀ a ∈ as, a.Whole) → Throughout (step true) Ordered ⟨logBytes rs, storages, []⟩ as) := by
  refine ⟨?_, along_of_forall fun a _ s => s.stores a, fun has => ?_⟩
  · have hstart : IncreasingInv ⟨logBytes rs, storages, []⟩ := by
      obtain ⟨rs', hfile, hsub⟩ := exists_journal rs
      exact ⟨hlocked, rs', hfile, horder.sublist hsub⟩
    have hstep : ∀ s a, IncreasingInv s → True → IncreasingInv (step true s a) :=
      fun _ a h _ => h.step a
    exact throughout hstep (fun _ h => h.increasing) hstart (along_of_forall fun _ _ _ => trivial)
  · have hstart : OrderedInv ⟨logBytes rs, storages, []⟩ := by
      refine ⟨hlocked, rs, rfl, horder, ?_⟩
      intro e he
      cases he
    exact throughout (fun _ _ h ha => h.step ha) (fun _ h => h.ordered) hstart
      (along_of_forall fun a ha _ => has a ha)

/-- One process is ahead of the file after failed writes, another one behind it. -/
def staleCursors : ℕ → Option JsonlSessionStorage
  | 0 => some ⟨"session", 7, true⟩
  | 1 => some ⟨"session", 0, true⟩
  | _ => none

def mixedWrites : List StorageAction :=
  [.append 1 (some 0) helloMessage (.torn 0), .append 1 (some 0) helloMessage .done,
    .append 0 (some 2) helloMessage .done, .appendLaneHead 1 "a" (some 2) .done,
    .openFile 2 "session", .append 2 (some 7) helloMessage .done]

theorem SessionFile.ordered_staleCursors :
    Throughout (step true) Increasing
        ⟨logBytes [.message ⟨0, none, helloMessage⟩], staleCursors, []⟩ mixedWrites ∧
      Along (step true) Stores
        ⟨logBytes [.message ⟨0, none, helloMessage⟩], staleCursors, []⟩ mixedWrites ∧
      Throughout (step true) Ordered
        ⟨logBytes [.message ⟨0, none, helloMessage⟩], staleCursors, []⟩ mixedWrites := by
  have hlocked : ∀ p st, staleCursors p = some st →
      st.fileLock = true ∧ st.nextId ≤ maxNodeId := by
    intro p st hst
    match p with
    | 0 =>
      obtain rfl := Option.some.inj hst
      exact ⟨rfl, by decide⟩
    | 1 =>
      obtain rfl := Option.some.inj hst
      exact ⟨rfl, by decide⟩
    | _ + 2 => cases hst
  obtain ⟨hread, hstored, hwhole⟩ := @ordered_throughout
    [.message ⟨0, none, helloMessage⟩] staleCursors (by decide) hlocked mixedWrites
  exact ⟨hread, hstored, hwhole (by decide)⟩

end Guigu
