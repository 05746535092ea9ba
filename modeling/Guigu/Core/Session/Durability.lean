import Guigu.Core.Session.StorageRuns

/-! Acknowledged records over crashes and reopens of a file that is opened without a lock. -/
namespace Guigu

open Lines Runs

/-- The record a call writes, and how the write ends. -/
def SessionFile.written (s : SessionFile) : StorageAction → Option (SessionRecord × WriteOutcome)
  | .append p parentId message out =>
    match s.storages p with
    | none => none
    | some st =>
      if st.nextId = maxNodeId then none
      else some (.message ⟨st.nextId, parentId, message⟩, out)
  | .appendLaneHead p laneId head out =>
    match s.storages p with
    | none => none
    | some _ => some (.laneHead ⟨laneId, head⟩, out)
  | _ => none

/-- A write that returns `Ok` starts behind a line feed and leaves a legible line; a torn one
does not stop inside a character. -/
def WriteSafe (file : FileBytes) (r : SessionRecord) : WriteOutcome → Prop
  | .done => (∃ rs, CompleteFile file rs) ∧ r.Legible
  | .torn k => (Utf8.decode (r.line.take k)).isSome

def SafeCall (s : SessionFile) (a : StorageAction) : Prop :=
  ∀ r out, s.written a = some (r, out) → WriteSafe s.file r out

/-- Every acknowledged record is among those that `load` and `load_lane_heads` read, and a
`load` that succeeds has a node for every acknowledged message. -/
def Durable (s : SessionFile) : Prop :=
  ∃ kept, readRecords s.file = .ok kept ∧ s.acked.Sublist kept ∧
    loadLaneHeads s.file = .ok (laneHeads kept) ∧
    ∀ st tree st', load st s.file = .ok (tree, st') → ∀ e ∈ entriesOf s.acked,
      ∃ n ∈ tree.nodes, n.id = e.id ∧ n.parentId = e.parentId ∧ n.message = e.message

/-- Complete lines that hold every acknowledged record, and some text behind them. -/
structure Preserved (s : SessionFile) : Prop where
  unlocked : s.CursorsOk false
  lines : ∃ front rest rs, s.file = front ++ rest ∧ CompleteFile front rs ∧ s.acked.Sublist rs ∧
    (Utf8.decode rest).isSome

theorem SessionFile.step_append_unlocked {s : SessionFile} {p : ℕ} {st : JsonlSessionStorage}
    (hst : s.storages p = some st) (hlock : st.fileLock = false) (parentId : Option NodeId)
    (message : Message) (out : WriteOutcome) :
    s.step false (.append p parentId message out) =
      ⟨(appendClaimed st s.file parentId message out).2.2,
        Function.update s.storages p (some (appendClaimed st s.file parentId message out).2.1),
        s.acked ++ ((appendClaimed st s.file parentId message out).1.toOption.map
          fun id => .message ⟨id, parentId, message⟩).toList⟩ := by
  simp only [SessionFile.step, hst, append, hlock, Bool.false_eq_true, ↓reduceIte]

/-- An unlocked call adds its record, adds part of its line, or leaves the file alone. -/
theorem SessionFile.step_unlocked {s : SessionFile} (h : s.CursorsOk false) (a : StorageAction) :
    (s.step false a).CursorsOk false ∧
      ((s.step false a).file = s.file ∧ (s.step false a).acked = s.acked ∨
        (∃ r, s.written a = some (r, .done) ∧ (s.step false a).file = s.file ++ r.line ∧
          (s.step false a).acked = s.acked ++ [r]) ∨
        ∃ r k, s.written a = some (r, .torn k) ∧
          (s.step false a).file = s.file ++ r.line.take k ∧
          (s.step false a).acked = s.acked) := by
  cases a with
  | openFile p sessionId =>
    exact ⟨h.update rfl fun st hst => openFile_cursor hst,
      Or.inl ⟨openFile_file false s.file sessionId, rfl⟩⟩
  | append p parentId message out =>
    cases hst : s.storages p with
    | none =>
      have hs : s.step false (.append p parentId message out) = s := by
        simp only [SessionFile.step, hst]
      rw [hs]
      exact ⟨h, Or.inl ⟨rfl, rfl⟩⟩
    | some st =>
      obtain ⟨hlock, hle⟩ := h p st hst
      rw [step_append_unlocked hst hlock]
      rcases appendClaimed_cases st s.file parentId message out with
        ⟨-, hc⟩ | ⟨hne, rfl, hc⟩ | ⟨k, hne, rfl, hc⟩
      · rw [hc]
        exact ⟨h.update rfl fun st' hst' => by cases hst'; exact ⟨hlock, hle⟩,
          Or.inl ⟨rfl, List.append_nil _⟩⟩
      · rw [hc]
        refine ⟨h.update rfl fun st' hst' => by
          cases hst'; exact ⟨hlock, Nat.lt_of_le_of_ne hle hne⟩, Or.inr (Or.inl ⟨_, ?_, rfl, rfl⟩)⟩
        simp [SessionFile.written, hst, hne]
      · rw [hc]
        refine ⟨h.update rfl fun st' hst' => by
          cases hst'; exact ⟨hlock, Nat.lt_of_le_of_ne hle hne⟩,
          Or.inr (Or.inr ⟨_, k, ?_, rfl, List.append_nil _⟩)⟩
        simp [SessionFile.written, hst, hne]
  | appendLaneHead p laneId head out =>
    have hw : ∀ st, s.storages p = some st → s.written (.appendLaneHead p laneId head out) =
        some (.laneHead ⟨laneId, head⟩, out) := fun st hst => by simp [SessionFile.written, hst]
    rcases SessionFile.step_appendLaneHead false s p laneId head out with
      ⟨-, hs⟩ | ⟨st, hst, rfl, hs⟩ | ⟨st, k, hst, rfl, hs⟩
    · rw [hs]
      exact ⟨h, Or.inl ⟨rfl, rfl⟩⟩
    · rw [hs]
      exact ⟨h, Or.inr (Or.inl ⟨_, hw st hst, rfl, rfl⟩)⟩
    · rw [hs]
      exact ⟨h, Or.inr (Or.inr ⟨_, k, hw st hst, rfl, rfl⟩)⟩
  | load p =>
    obtain ⟨hcursors, hfile, hacked⟩ := SessionFile.step_load h p
    exact ⟨hcursors, Or.inl ⟨hfile, hacked⟩⟩
  | exit p =>
    exact ⟨h.update rfl fun st hst => (by cases hst), Or.inl ⟨rfl, rfl⟩⟩

theorem Preserved.step {s : SessionFile} {a : StorageAction} (h : Preserved s)
    (ha : SafeCall s a) : Preserved (s.step false a) := by
  obtain ⟨hcursors, hcases⟩ := SessionFile.step_unlocked h.unlocked a
  obtain ⟨front, rest, rs, hfile, hfront, hacked, hrest⟩ := h.lines
  refine ⟨hcursors, ?_⟩
  rcases hcases with ⟨hf, hk⟩ | ⟨r, hw, hf, hk⟩ | ⟨r, k, hw, hf, hk⟩
  · exact ⟨front, rest, rs, hf.trans hfile, hfront, hk ▸ hacked, hrest⟩
  · obtain ⟨⟨all, hall⟩, hlegible⟩ := ha r .done hw
    have hpre : rs <+: all := Complete.prefix_of_append hfront (hfile ▸ hall)
    refine ⟨s.file ++ r.line, [], all ++ [r], by rw [hf, List.append_nil],
      hall.append_line hlegible, ?_, rfl⟩
    rw [hk]
    exact (hacked.trans hpre.sublist).append (List.Sublist.refl [r])
  · refine ⟨front, rest ++ r.line.take k, rs, by rw [hf, hfile, List.append_assoc], hfront,
      hk ▸ hacked, ?_⟩
    rw [Utf8.decode_append_isSome hrest]
    exact ha r (.torn k) hw

theorem Preserved.durable {s : SessionFile} (h : Preserved s) : Durable s := by
  obtain ⟨front, rest, rs, hfile, hfront, hacked, hrest⟩ := h.lines
  obtain ⟨more, hmore⟩ := Option.isSome_iff_exists.mp (scanBytes_isSome hrest)
  obtain ⟨ls, hls, -, hscan⟩ := Complete.scan hfront
  have hall : scanBytes judge s.file = some (ls ++ more) := by
    rw [hfile, hscan, hmore]
    rfl
  have hsub : s.acked.Sublist ((ls ++ more).map Prod.snd) := by
    rw [List.map_append, hls]
    exact hacked.trans (List.sublist_append_left rs _)
  refine ⟨_, readRecords_eq hall, hsub, by rw [loadLaneHeads, readRecords_eq hall]; rfl, ?_⟩
  intro st tree st' hload e he
  obtain ⟨ls', root, hls', rfl, -, -⟩ := load_ok hload
  rw [hall] at hls'
  cases hls'
  have hmem : e ∈ entriesOf ((ls ++ more).map Prod.snd) := (hsub.filterMap _).subset he
  exact ⟨_, mem_treeOf.mpr ⟨e, hmem, rfl⟩, rfl, rfl, rfl⟩

/-- Over every run without a lock whose acknowledged writes start behind a line feed and
whose cuts fall between characters, no acknowledged record is lost. -/
theorem durable_throughout (rs : List SessionRecord) (tail : FileBytes)
    (as : List StorageAction) (hrs : ∀ r ∈ rs, r.Legible) (htail : (Utf8.decode tail).isSome)
    (has : Along (SessionFile.step false) SafeCall (.crashed rs tail) as) :
    Throughout (SessionFile.step false) Durable (.crashed rs tail) as := by
  have hinit : Preserved (.crashed rs tail) :=
    ⟨fun p st hst => (by cases hst), logBytes rs, tail, rs, rfl, completeFile_logBytes hrs,
      List.Sublist.refl _, htail⟩
  have hstep : ∀ s a, Preserved s → SafeCall s a → Preserved (s.step false a) :=
    fun s a hs ha => hs.step ha
  exact throughout hstep (fun s hs => hs.durable) hinit has

/-- Open, append a message, have the next append torn inside its line, crash, open again. -/
def cleanWrites : List StorageAction :=
  [.openFile 0 "session", .append 0 none helloMessage .done,
    .append 0 (some 0) helloMessage (.torn 5), .exit 0, .openFile 0 "session"]

theorem helloRecord_legible (id : NodeId) (parentId : Option NodeId) (hid : id < 2 ^ 64)
    (hp : ∀ p ∈ parentId, p < 2 ^ 64) :
    (SessionRecord.message ⟨id, parentId, helloMessage⟩).Legible :=
  SessionRecord.Storable.legible ⟨hid, hp, trivial⟩

theorem cleanWrites_durable :
    Throughout (SessionFile.step false) Durable (.crashed [] []) cleanWrites := by
  refine durable_throughout [] [] cleanWrites (by simp) rfl ?_
  refine ⟨fun r out h => (by cases h), fun r out h => ?_, fun r out h => ?_,
    fun r out h => (by cases h), fun r out h => (by cases h), trivial⟩
  · cases h
    exact ⟨⟨[], .nil⟩, helloRecord_legible 0 none (by decide) (by simp)⟩
  · cases h
    change (Utf8.decode _).isSome = true
    decide +kernel

/-- Behind a torn line, the first acknowledged message of the next process. -/
def gluedWrites : List StorageAction :=
  [.openFile 0 "session", .append 0 none helloMessage .done]

/-- A crash left one byte of a line; the message appended after the reopen is acknowledged
and not there in the next load. -/
theorem gluedWrites_lost :
    ¬ Throughout (SessionFile.step false) Durable (.crashed [] [123]) gluedWrites := by
  intro h
  obtain ⟨kept, hkept, hsub, -⟩ := h.last
  have hfile : readRecords (run (SessionFile.step false) (.crashed [] [123]) gluedWrites).file =
      .ok [] := by decide +kernel
  have hacked : (run (SessionFile.step false) (.crashed [] [123]) gluedWrites).acked =
      [.message ⟨0, none, helloMessage⟩] := by decide +kernel
  rw [hfile] at hkept
  cases hkept
  rw [hacked] at hsub
  cases hsub

end Guigu
