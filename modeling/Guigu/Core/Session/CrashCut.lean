import Guigu.Core.Session.JsonlRead

/-! Opening and loading a session file that a crash cut at an arbitrary byte. -/
namespace Guigu

open Lines

/-- A log as the storages write it: legible lines, identifiers the cursor can hand out, and
every node under an earlier one. -/
structure WellFormedLog (records : List SessionRecord) : Prop where
  legible : ∀ r ∈ records, r.Legible
  grown : GrownLog (entriesOf records)
  bounded : ∀ e ∈ entriesOf records, e.id < maxNodeId

/-- The records whose lines lie completely within the first `n` bytes; where only the last
line feed is missing, the record in front of it may be kept too. -/
def KeptBy (records : List SessionRecord) (n : ℕ) (kept : List SessionRecord) : Prop :=
  kept = within SessionRecord.body records n ∨
    ∃ r, cutRecord SessionRecord.body records n = some r ∧
      torn SessionRecord.body records n = r.body ∧
      kept = within SessionRecord.body records n ++ [r]

/-- Opening, loading and reading the lane heads of the cut file succeed with the kept
records. -/
def SurvivesCut (sessionId : String) (records : List SessionRecord) (n : ℕ) : Prop :=
  ∃ kept storage tree storage' heads, KeptBy records n kept ∧
    openStorage (some ((logBytes records).take n)) sessionId =
      (.ok storage, (logBytes records).take n) ∧
    cursorAfter kept = .ok storage.nextId ∧
    load storage ((logBytes records).take n) = .ok (tree, storage') ∧
    reduceFor (entriesOf kept) sessionId = .ok tree ∧
    loadLaneHeads ((logBytes records).take n) = .ok heads ∧ heads = laneHeads kept

theorem WellFormedLog.of_prefix {records kept : List SessionRecord} (h : WellFormedLog records)
    (hp : kept <+: records) : WellFormedLog kept := by
  obtain ⟨more, rfl⟩ := hp
  have hsub : entriesOf kept <+: entriesOf (kept ++ more) := by
    rw [entriesOf_append]
    exact List.prefix_append _ _
  exact ⟨fun r hr => h.legible r (List.mem_append_left _ hr), h.grown.of_prefix hsub,
    fun e he => h.bounded e (hsub.subset he)⟩

/-- Whatever reads as a well-formed log opens and loads as that log. -/
theorem load_wellFormed {records : List SessionRecord} (h : WellFormedLog records)
    {file : FileBytes} (hr : readRecords file = .ok records) (sessionId : String) :
    ∃ storage tree storage', openStorage (some file) sessionId = (.ok storage, file) ∧
      cursorAfter records = .ok storage.nextId ∧ load storage file = .ok (tree, storage') ∧
      reduceFor (entriesOf records) sessionId = .ok tree := by
  obtain ⟨next, hnext, -, -⟩ := cursorAfter_ok h.bounded
  obtain ⟨root, next', hred, hload, -⟩ := loadRecords_grown h.grown h.bounded sessionId next
  refine ⟨⟨sessionId, next, false⟩, _, ⟨sessionId, next', false⟩, ?_, hnext, ?_, hred⟩
  · simp only [openStorage, Option.getD_some, hr, hnext]
    rfl
  · simp only [load, hr, hload]
    rfl

/-- Between characters, the reader keeps the complete lines and drops the torn one. -/
theorem readRecords_take {records : List SessionRecord} (h : WellFormedLog records) {n : ℕ}
    (hd : (Utf8.decode ((logBytes records).take n)).isSome) :
    ∃ kept, KeptBy records n kept ∧ kept <+: records ∧
      readRecords ((logBytes records).take n) = .ok kept := by
  have hw := within_prefix SessionRecord.body records n
  have hlegible : ∀ r ∈ within SessionRecord.body records n, r.Legible :=
    fun r hr => h.legible r (hw.subset hr)
  have htake : (logBytes records).take n =
      logBytes (within SessionRecord.body records n) ++ torn SessionRecord.body records n :=
    take_frames _ _ _
  rw [htake] at hd ⊢
  rcases torn_prefix SessionRecord.body records n with hnil | ⟨r, hcut, hpre⟩
  · rw [hnil, List.append_nil]
    exact ⟨_, Or.inl rfl, hw, readRecords_logBytes hlegible⟩
  have hcutp := within_cutRecord_prefix SessionRecord.body hcut
  have hr : r.Legible := h.legible r (hcutp.subset (by simp))
  by_cases hfull : torn SessionRecord.body records n = r.body
  · rw [hfull]
    exact ⟨_, Or.inr ⟨r, hcut, hfull, rfl⟩, hcutp, readRecords_full hlegible hr⟩
  · rw [decode_logBytes_append] at hd
    exact ⟨_, Or.inl rfl, hw, readRecords_torn hlegible hpre hfull hd⟩

theorem survivesCut_of_decodable {records : List SessionRecord} (h : WellFormedLog records)
    {n : ℕ} (hd : (Utf8.decode ((logBytes records).take n)).isSome) (sessionId : String) :
    SurvivesCut sessionId records n := by
  obtain ⟨kept, hkept, hp, hread⟩ := readRecords_take h hd
  obtain ⟨storage, tree, storage', hopen, hcursor, hload, hred⟩ :=
    load_wellFormed (h.of_prefix hp) hread sessionId
  refine ⟨kept, storage, tree, storage', laneHeads kept, hkept, hopen, hcursor, hload, hred, ?_,
    rfl⟩
  simp only [loadLaneHeads, hread]
  rfl

/-- A cut inside a character makes the very first read fail. -/
theorem readRecords_take_undecodable {records : List SessionRecord}
    (h : ∀ r ∈ records, r.Legible) {n : ℕ}
    (hd : Utf8.decode ((logBytes records).take n) = none) :
    readRecords ((logBytes records).take n) = .error .io := by
  have htake : (logBytes records).take n =
      logBytes (within SessionRecord.body records n) ++ torn SessionRecord.body records n :=
    take_frames _ _ _
  have hw := within_prefix SessionRecord.body records n
  have hnone : Utf8.decode (torn SessionRecord.body records n) = none := by
    rw [← Option.not_isSome_iff_eq_none, ← decode_logBytes_append, ← htake, hd]
    simp
  rw [htake]
  refine readRecords_undecodable (fun r hr => h r (hw.subset hr)) ?_ hnone
  rcases torn_prefix SessionRecord.body records n with hnil | ⟨r, -, hpre⟩
  · simp [hnil]
  · exact fun hm => r.lineFeed_not_mem (hpre.subset hm)

theorem not_survivesCut {records : List SessionRecord} (h : ∀ r ∈ records, r.Legible) {n : ℕ}
    (hd : Utf8.decode ((logBytes records).take n) = none) (sessionId : String) :
    ¬ SurvivesCut sessionId records n := by
  rintro ⟨kept, storage, tree, storage', heads, -, -, -, -, -, hheads, -⟩
  rw [loadLaneHeads, readRecords_take_undecodable h hd] at hheads
  cases hheads

/-- A session file survives a crash exactly when the cut does not fall inside a character. -/
theorem survivesCut_iff_decodable (sessionId : String) (records : List SessionRecord) (n : ℕ)
    (h : WellFormedLog records) : SurvivesCut sessionId records n ↔
      (Utf8.decode ((logBytes records).take n)).isSome := by
  refine ⟨fun hs => ?_, fun hd => survivesCut_of_decodable h hd sessionId⟩
  rw [Option.isSome_iff_ne_none]
  exact fun hd => not_survivesCut h.legible hd sessionId hs

/-- A log of one message with a letter of two bytes. -/
def accentedLog : List SessionRecord := [.message ⟨0, none, .user ⟨[.text "é"], 0⟩⟩]

theorem accentedLog_wellFormed : WellFormedLog accentedLog := by
  refine ⟨?_, Lineage.Grown.nil.snoc (by simp) (fun _ => rfl) (by simp), by decide⟩
  intro r hr
  rw [List.mem_singleton.mp hr]
  exact SessionRecord.Storable.legible ⟨by decide, by simp, trivial⟩

/-- The log survives a cut inside its line, in front of the letter. -/
theorem survivesCut_accentedLog : SurvivesCut "session" accentedLog 84 :=
  (survivesCut_iff_decodable "session" accentedLog 84 accentedLog_wellFormed).mpr
    (by decide +kernel)

/-- Cut between the two bytes of the letter, the log can no longer be read. -/
theorem accentedLog_cut_unreadable :
    WellFormedLog accentedLog ∧ ¬ SurvivesCut "session" accentedLog 85 :=
  ⟨accentedLog_wellFormed,
    not_survivesCut accentedLog_wellFormed.legible (by decide +kernel) "session"⟩

end Guigu
