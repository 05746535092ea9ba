import Guigu.Core.Session.Durability

/-! A session file that every process opens with the lock: what the repair before an append
saves, and what is left to the bytes of a torn write. -/
namespace Guigu

open Lines Runs

/-- The file does not end in the whole text of a record that only lacks its line feed. -/
def NoUnendedRecord (file : FileBytes) : Prop :=
  fragment file = [] ∨ (judge ⟨fragment file, false⟩).record? = none

/-- An append that returns `Ok` finds no record without its line feed; a lane head, which is
written without a repair, finds complete lines only. What is written can be read back. -/
def SafeLockedCall (s : SessionFile) : StorageAction → Prop
  | .append _ parentId message .done =>
    NoUnendedRecord s.file ∧ message.Storable ∧ ∀ p ∈ parentId, p < 2 ^ 64
  | .appendLaneHead _ _ head .done =>
    (∃ rs, CompleteFile s.file rs) ∧ ∀ n ∈ head, n < 2 ^ 64
  | _ => True

/-- The call acknowledges a record. -/
def Succeeds (s : SessionFile) (a : StorageAction) : Prop :=
  s.acked.length < (s.step true a).acked.length

/-- Nothing but complete records, every acknowledged one among them. -/
def WellKept (s : SessionFile) : Prop := ∃ rs, CompleteFile s.file rs ∧ s.acked.Sublist rs

/-- Complete lines with every acknowledged record stand at the front of the file. -/
structure LockedInv (s : SessionFile) : Prop where
  locked : s.CursorsOk true
  lines : ∃ front rest rs, s.file = front ++ rest ∧ CompleteFile front rs ∧ s.acked.Sublist rs

/-- The repair never cuts into complete lines at the front. -/
theorem repaired_front {file front rest : FileBytes} {rs : List SessionRecord}
    {ls : List (Line × SessionRecord)} (hfile : file = front ++ rest)
    (hfront : CompleteFile front rs) (hscan : scanBytes judge file = some ls) :
    ∃ rest', ls.flatMap (·.1.bytes) = front ++ rest' ∧ rs <+: ls.map Prod.snd := by
  obtain ⟨ks, hks, hbytes, hall⟩ := Complete.scan hfront
  rw [hfile, hall] at hscan
  obtain ⟨more, -, rfl⟩ := Option.map_eq_some_iff.mp hscan
  refine ⟨more.flatMap (·.1.bytes), by rw [List.flatMap_append, hbytes], ?_⟩
  rw [List.map_append, hks]
  exact List.prefix_append _ _

/-- What a locked append leaves: nothing new, its line cut short behind the repaired file, or all
of its line, under an identifier above all of theirs. -/
inductive AppendsLocked (s : SessionFile) (parentId : Option NodeId) (message : Message) :
    WriteOutcome → SessionFile → Prop
  | failed {out : WriteOutcome} {s' : SessionFile} :
      s'.file = s.file ∨ (∃ ls, scanBytes judge s.file = some ls ∧
        s'.file = ls.flatMap (·.1.bytes)) →
      s'.acked = s.acked → AppendsLocked s parentId message out s'
  | torn {k : ℕ} {s' : SessionFile} {ls : List (Line × SessionRecord)} {id : NodeId} :
      scanBytes judge s.file = some ls → (∀ e ∈ entriesOf (ls.map Prod.snd), e.id < id) →
      s'.file = ls.flatMap (·.1.bytes) ++
        (SessionRecord.message ⟨id, parentId, message⟩).line.take k →
      s'.acked = s.acked → AppendsLocked s parentId message (.torn k) s'
  | done {s' : SessionFile} {ls : List (Line × SessionRecord)} {id : NodeId} :
      scanBytes judge s.file = some ls → id < maxNodeId →
      (∀ e ∈ entriesOf (ls.map Prod.snd), e.id < id) →
      s'.file = ls.flatMap (·.1.bytes) ++ (SessionRecord.message ⟨id, parentId, message⟩).line →
      s'.acked = s.acked ++ [.message ⟨id, parentId, message⟩] →
      AppendsLocked s parentId message .done s'

theorem SessionFile.step_append_locked {s : SessionFile} (h : s.CursorsOk true) (p : ℕ)
    (parentId : Option NodeId) (message : Message) (out : WriteOutcome) :
    (s.step true (.append p parentId message out)).CursorsOk true ∧
      AppendsLocked s parentId message out (s.step true (.append p parentId message out)) := by
  cases hst : s.storages p with
  | none =>
    have hs : s.step true (.append p parentId message out) = s := by
      simp only [SessionFile.step, hst]
    rw [hs]
    exact ⟨h, .failed (.inl rfl) rfl⟩
  | some st =>
    obtain ⟨hlock, hle⟩ := h p st hst
    cases hscan : scanBytes judge s.file with
    | none =>
      have hs : s.step true (.append p parentId message out) =
          { s with storages := Function.update s.storages p (some st) } := by
        simp only [SessionFile.step, hst, append, hlock, ↓reduceIte,
          refreshCursorLocked_none hscan, Except.toOption, Option.map_none, Option.toList_none,
          List.append_nil]
      rw [hs]
      exact ⟨h.update rfl fun st' hst' => by cases hst'; exact ⟨hlock, hle⟩,
        .failed (.inl rfl) rfl⟩
    | some ls =>
      cases hfloor : cursorAfter (ls.map Prod.snd) with
      | error e =>
        have hs : s.step true (.append p parentId message out) =
            { s with
              file := ls.flatMap (·.1.bytes)
              storages := Function.update s.storages p (some st) } := by
          simp only [SessionFile.step, hst, append, hlock, ↓reduceIte,
            refreshCursorLocked_scan hscan, hfloor, Except.map, Except.toOption, Option.map_none,
            Option.toList_none, List.append_nil]
        rw [hs]
        exact ⟨h.update rfl fun st' hst' => by cases hst'; exact ⟨hlock, hle⟩,
          .failed (.inr ⟨ls, hscan, rfl⟩) rfl⟩
      | ok floor =>
        have hmax : max st.nextId floor ≤ maxNodeId :=
          max_le hle (cursorAfter_le hfloor (scanBytes_id_lt hscan))
        have habove : ∀ e ∈ entriesOf (ls.map Prod.snd), e.id < max st.nextId floor :=
          fun e he => lt_of_lt_of_le (cursorAfter_lt hfloor e he) (le_max_right _ _)
        have hs : s.step true (.append p parentId message out) =
            ⟨(appendClaimed { st with nextId := max st.nextId floor }
                (ls.flatMap (·.1.bytes)) parentId message out).2.2,
              Function.update s.storages p (some (appendClaimed
                { st with nextId := max st.nextId floor } (ls.flatMap (·.1.bytes)) parentId message
                out).2.1),
              s.acked ++ ((appendClaimed { st with nextId := max st.nextId floor }
                (ls.flatMap (·.1.bytes)) parentId message out).1.toOption.map
                  fun id => .message ⟨id, parentId, message⟩).toList⟩ := by
          simp only [SessionFile.step, hst, append, hlock, ↓reduceIte,
            refreshCursorLocked_scan hscan, hfloor, Except.map]
        rw [hs]
        rcases appendClaimed_cases { st with nextId := max st.nextId floor }
          (ls.flatMap (·.1.bytes)) parentId message out with
          ⟨-, hc⟩ | ⟨hne, rfl, hc⟩ | ⟨k, hne, rfl, hc⟩
        · rw [hc]
          exact ⟨h.update rfl fun st' hst' => by cases hst'; exact ⟨hlock, hmax⟩,
            .failed (.inr ⟨ls, hscan, rfl⟩) (List.append_nil _)⟩
        · rw [hc]
          exact ⟨h.update rfl fun st' hst' => by
              cases hst'; exact ⟨hlock, Nat.lt_of_le_of_ne hmax hne⟩,
            .done hscan (Nat.lt_of_le_of_ne hmax hne) habove rfl rfl⟩
        · rw [hc]
          exact ⟨h.update rfl fun st' hst' => by
              cases hst'; exact ⟨hlock, Nat.lt_of_le_of_ne hmax hne⟩,
            .torn hscan habove rfl (List.append_nil _)⟩

theorem LockedInv.step_append {s : SessionFile} (h : LockedInv s) {p : ℕ}
    {parentId : Option NodeId} {message : Message} {out : WriteOutcome}
    (ha : SafeLockedCall s (.append p parentId message out)) :
    LockedInv (s.step true (.append p parentId message out)) ∧
      (Succeeds s (.append p parentId message out) →
        WellKept (s.step true (.append p parentId message out))) := by
  obtain ⟨front, rest, rs, hfile, hfront, hacked⟩ := h.lines
  obtain ⟨hcursors, hstep⟩ := SessionFile.step_append_locked h.locked p parentId message out
  generalize hs : s.step true (.append p parentId message out) = s' at hcursors hstep
  rw [Succeeds, hs]
  cases hstep with
  | failed hf hk =>
    refine ⟨⟨hcursors, ?_⟩, fun hlt => absurd hlt (by rw [hk]; exact lt_irrefl _)⟩
    rcases hf with hf | ⟨ls, hscan, hf⟩
    · exact ⟨front, rest, rs, hf.trans hfile, hfront, hk ▸ hacked⟩
    · obtain ⟨rest', hrest, -⟩ := repaired_front hfile hfront hscan
      exact ⟨front, rest', rs, hf.trans hrest, hfront, hk ▸ hacked⟩
  | torn hscan _ hf hk =>
    refine ⟨⟨hcursors, ?_⟩, fun hlt => absurd hlt (by rw [hk]; exact lt_irrefl _)⟩
    obtain ⟨rest', hrest, -⟩ := repaired_front hfile hfront hscan
    exact ⟨front, rest' ++ _, rs, by rw [hf, hrest, List.append_assoc], hfront, hk ▸ hacked⟩
  | @done _ ls id hscan hid _ hf hk =>
    obtain ⟨hended, hstorable, hparent⟩ := ha
    have hlegible : (SessionRecord.message ⟨id, parentId, message⟩).Legible :=
      SessionRecord.Storable.legible
        ⟨lt_trans hid (by decide), hparent, hstorable⟩
    have hmended : CompleteFile (ls.flatMap (·.1.bytes)) (ls.map Prod.snd) :=
      scanBytes_complete_of_fragment hended hscan
    obtain ⟨-, -, hpre⟩ := repaired_front hfile hfront hscan
    have hwell : CompleteFile s'.file (ls.map Prod.snd ++ [.message ⟨id, parentId, message⟩]) :=
      hf ▸ hmended.append_line hlegible
    have hsub : s'.acked.Sublist (ls.map Prod.snd ++ [.message ⟨id, parentId, message⟩]) :=
      hk ▸ (hacked.trans hpre.sublist).append (List.Sublist.refl _)
    exact ⟨⟨hcursors, _, [], _, (List.append_nil _).symm, hwell, hsub⟩,
      fun _ => ⟨_, hwell, hsub⟩⟩

theorem LockedInv.step_appendLaneHead {s : SessionFile} (h : LockedInv s) {p : ℕ}
    {laneId : LaneId} {head : Option NodeId} {out : WriteOutcome}
    (ha : SafeLockedCall s (.appendLaneHead p laneId head out)) :
    LockedInv (s.step true (.appendLaneHead p laneId head out)) ∧
      (Succeeds s (.appendLaneHead p laneId head out) →
        WellKept (s.step true (.appendLaneHead p laneId head out))) := by
  obtain ⟨front, rest, rs, hfile, hfront, hacked⟩ := h.lines
  rcases SessionFile.step_appendLaneHead true s p laneId head out with
    ⟨-, hs⟩ | ⟨st, -, rfl, hs⟩ | ⟨st, k, -, rfl, hs⟩
  · rw [Succeeds, hs]
    exact ⟨h, fun hlt => absurd hlt (lt_irrefl _)⟩
  · obtain ⟨⟨all, hall⟩, hhead⟩ := ha
    have hpre : rs <+: all := Complete.prefix_of_append hfront (hfile ▸ hall)
    have hlegible : (SessionRecord.laneHead ⟨laneId, head⟩).Legible :=
      SessionRecord.Storable.legible hhead
    have hwell := hall.append_line hlegible
    have hsub := (hacked.trans hpre.sublist).append
      (List.Sublist.refl [SessionRecord.laneHead ⟨laneId, head⟩])
    rw [hs]
    exact ⟨⟨h.locked, _, [], _, (List.append_nil _).symm, hwell, hsub⟩,
      fun _ => ⟨_, hwell, hsub⟩⟩
  · rw [Succeeds, hs]
    refine ⟨⟨h.locked, front, rest ++ (SessionRecord.laneHead ⟨laneId, head⟩).line.take k, rs, ?_,
      hfront, hacked⟩, fun hlt => absurd hlt (lt_irrefl _)⟩
    simp only [hfile, List.append_assoc]

theorem LockedInv.step {s : SessionFile} {a : StorageAction} (h : LockedInv s)
    (ha : SafeLockedCall s a) :
    LockedInv (s.step true a) ∧ (Succeeds s a → WellKept (s.step true a)) := by
  cases a with
  | append p parentId message out => exact h.step_append ha
  | appendLaneHead p laneId head out => exact h.step_appendLaneHead ha
  | openFile p sessionId =>
    exact ⟨⟨h.locked.update rfl fun st hst => openFile_cursor hst, h.lines⟩,
      fun hlt => absurd hlt (lt_irrefl _)⟩
  | load p =>
    obtain ⟨hcursors, hf, hk⟩ := SessionFile.step_load h.locked p
    obtain ⟨front, rest, rs, hfile, hfront, hacked⟩ := h.lines
    refine ⟨⟨hcursors, front, rest, rs, hf.trans hfile, hfront, hk ▸ hacked⟩, fun hlt => ?_⟩
    rw [Succeeds, hk] at hlt
    exact absurd hlt (lt_irrefl _)
  | exit p =>
    exact ⟨⟨h.locked.update rfl fun st hst => (by cases hst), h.lines⟩,
      fun hlt => absurd hlt (lt_irrefl _)⟩

/-! ### A file that may be missing -/

/-- A process that opens the file, and whether it has found none. -/
structure Opening where
  sessionId : String
  absent : Bool
  deriving DecidableEq, Repr

/-- A session file that is created when it is missing. -/
structure NewSessionFile where
  session : SessionFile
  missing : Bool
  opening : ℕ → Option Opening

/-- To open the file is to probe for it, to create it where it was missing, and to read it; other
processes go on in between. -/
inductive NewFileAction where
  | probe (process : ℕ) (sessionId : String)
  | create (process : ℕ)
  | read (process : ℕ)
  | exit (process : ℕ)
  | call (a : StorageAction)

namespace NewSessionFile

/-- Nobody runs yet. A file that is missing has no records. -/
def start (missing : Bool) (rs : List SessionRecord) : NewSessionFile :=
  ⟨.crashed (if missing then [] else rs) [], missing, fun _ => none⟩

def step (s : NewSessionFile) : NewFileAction → NewSessionFile
  | .probe p sessionId =>
    { s with opening := Function.update s.opening p (some ⟨sessionId, s.missing⟩) }
  | .create p =>
    match s.opening p with
    | some ⟨sessionId, true⟩ =>
      -- `File::create` truncates, whoever has written meanwhile
      { session := { s.session with file := [] }
        missing := false
        opening := Function.update s.opening p (some ⟨sessionId, false⟩) }
    | _ => s
  | .read p =>
    match s.opening p with
    | some ⟨sessionId, false⟩ =>
      { s with
        session := s.session.step true (.openFile p sessionId)
        opening := Function.update s.opening p none }
    | _ => s
  | .exit p =>
    { s with
      session := s.session.step true (.exit p)
      opening := Function.update s.opening p none }
  | .call (.openFile _ _) => s
  | .call a => { s with session := s.session.step true a }

/-- The file is created only while no write to it has returned `Ok`, and calls are safe. -/
def Safe (s : NewSessionFile) : NewFileAction → Prop
  | .create p => (∃ sessionId, s.opening p = some ⟨sessionId, true⟩) → s.session.acked = []
  | .call a => SafeLockedCall s.session a
  | .probe _ _ | .read _ | .exit _ => True

end NewSessionFile

end Guigu
