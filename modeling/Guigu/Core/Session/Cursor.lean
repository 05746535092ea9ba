import Guigu.Core.Session.SnapshotRuns
import Guigu.Core.Session.Validity
import Guigu.Library.Fallible

/-! The cursor of one opened storage. Appends claim identifiers and loads raise it, all at once and
without a common lock; each step is one access to the cursor. What a call reads from the file is
any bytes, so that it may have read them at any time before, and others may write. -/
namespace Guigu

/-- Where an append stands. -/
inductive AppendStage where
  | idle
  | refreshed
  | claiming (cursor : NodeId)
  | writing (id : NodeId)
  deriving DecidableEq, Repr

/-- What the calls learn: an identifier is claimed, a tree is loaded, a call fails. -/
inductive CursorEvent where
  | claimed (id : NodeId)
  | loaded (tree : SessionTree)
  | failed (e : SessionError)

structure SharedCursor where
  storage : JsonlSessionStorage
  stages : ℕ → AppendStage
  history : List CursorEvent

/-- A `compare_exchange_weak` may fail for no reason. -/
inductive CursorAction where
  | refresh (append : ℕ) (file : FileBytes)
  | begin (append : ℕ)
  | compareExchange (append : ℕ) (spurious : Bool)
  | write (append : ℕ) (ok : Bool)
  | load (file : FileBytes)

namespace SharedCursor

def start (storage : JsonlSessionStorage) : SharedCursor := ⟨storage, fun _ => .idle, []⟩

def stage (s : SharedCursor) (append : ℕ) (stage : AppendStage) : SharedCursor :=
  { s with stages := Function.update s.stages append stage }

def record (s : SharedCursor) (e : CursorEvent) : SharedCursor :=
  { s with history := s.history ++ [e] }

def fail (s : SharedCursor) (append : ℕ) (e : SessionError) : SharedCursor :=
  (s.stage append .idle).record (.failed e)

def step (s : SharedCursor) : CursorAction → SharedCursor
  | .refresh i file =>
    if s.stages i = .idle ∧ s.storage.fileLock = true then
      match (refreshCursorLocked s.storage file).1 with
      | .error e => s.fail i e
      | .ok storage => { s.stage i .refreshed with storage := storage }
    else s
  | .begin i =>
    if s.stages i = if s.storage.fileLock then .refreshed else .idle then
      s.stage i (.claiming s.storage.nextId)
    else s
  | .compareExchange i spurious =>
    match s.stages i with
    | .claiming cursor =>
      if cursor = maxNodeId then s.fail i .idExhausted
      else if cursor = s.storage.nextId ∧ spurious = false then
        { (s.stage i (.writing cursor)).record (.claimed cursor) with
          storage := { s.storage with nextId := (cursor + 1) % 2 ^ 64 } }
      else s.stage i (.claiming s.storage.nextId)
    | _ => s
  | .write i ok =>
    match s.stages i with
    | .writing _ => if ok then s.stage i .idle else s.fail i .io
    | _ => s
  | .load file =>
    match load s.storage file with
    | .error e => s.record (.failed e)
    | .ok (tree, storage) => { s.record (.loaded tree) with storage := storage }

end SharedCursor

/-- The identifiers that a call got to know. -/
def CursorEvent.ids : CursorEvent → List NodeId
  | .claimed id => [id]
  | .loaded tree => tree.nodes.map SessionNode.id
  | .failed _ => []

def knownIds (history : List CursorEvent) : List NodeId := history.flatMap CursorEvent.ids

/-- A claimed identifier is a new one: above those found at open, above all that were claimed
before and above those of every tree that was loaded before. -/
def ClaimsAbove (opened : List NodeId) (history : List CursorEvent) : Prop :=
  ∀ front id back, history = front ++ .claimed id :: back →
    id < maxNodeId ∧ ∀ n ∈ opened ++ knownIds front, n < id

/-- What a step does to the cursor. -/
structure KeepsCursor (s : SharedCursor) (a : CursorAction) : Prop where
  mono : s.storage.nextId ≤ (s.step a).storage.nextId
  /-- The cursor is not touched by a call that finds no identifier left. -/
  exhausted : (s.step a).history = s.history ++ [.failed .idExhausted] →
    (s.step a).storage = s.storage
  /-- At the last cursor there is nothing to claim: an append that has seen it fails, and one that
  has not gets to see it. -/
  last : s.storage.nextId = maxNodeId → ∀ i spurious cursor, a = .compareExchange i spurious →
    s.stages i = .claiming cursor →
      s.step a = if cursor = maxNodeId then s.fail i .idExhausted
        else s.stage i (.claiming maxNodeId)
  /-- Nor does a tree with the last identifier leave one. -/
  loadLast : ∀ file records tree, a = .load file → readRecords file = .ok records →
    reduceFor (entriesOf records) s.storage.sessionId = .ok tree → maxNodeId ∈ nodeIds records →
      s.step a = s.record (.failed .idExhausted)

theorem ClaimsAbove.snoc {opened : List NodeId} {history : List CursorEvent}
    (h : ClaimsAbove opened history) {e : CursorEvent}
    (he : ∀ id, e = .claimed id → id < maxNodeId ∧ ∀ n ∈ opened ++ knownIds history, n < id) :
    ClaimsAbove opened (history ++ [e]) := by
  intro front id back hsplit
  obtain ⟨rfl, hlast, -⟩ | ⟨rest, -, hfront⟩ := Runs.split_concat hsplit
  · exact he id hlast.symm
  · exact h front id rest hfront

theorem knownIds_snoc (history : List CursorEvent) (e : CursorEvent) :
    knownIds (history ++ [e]) = knownIds history ++ e.ids := by
  simp only [knownIds, List.flatMap_append, List.flatMap_singleton]

/-- The last node of a tree has its largest identifier. -/
theorem le_getLast {log : List SessionEntry} {sessionId : String} {tree : SessionTree}
    (h : reduceFor log sessionId = .ok tree) {last n : SessionNode}
    (hlast : tree.nodes.getLast? = some last) (hn : n ∈ tree.nodes) : n.id ≤ last.id := by
  have hasc := (isTreeOf_of_reduceFor h).ascending
  obtain ⟨front, hfront⟩ := List.getLast?_eq_some_iff.mp hlast
  rw [hfront] at hn hasc
  rcases List.mem_append.mp hn with hn | hn
  · exact ((List.pairwise_append.mp hasc).2.2 n hn last List.mem_cons_self).le
  · rw [List.mem_singleton.mp hn]

/-- A load raises the cursor above the tree it returns. -/
theorem load_above {st st' : JsonlSessionStorage} {file : FileBytes} {tree : SessionTree}
    (h : load st file = .ok (tree, st')) :
    st.nextId ≤ st'.nextId ∧ ∀ n ∈ tree.nodes, n.id < st'.nextId := by
  unfold load at h
  cases hread : readRecords file with
  | error e =>
    simp only [hread] at h
    cases h
  | ok records =>
    simp only [hread, loadRecords] at h
    cases hred : reduceFor (entriesOf records) st.sessionId with
    | error e =>
      simp only [hred] at h
      cases h
    | ok t =>
      simp only [hred] at h
      cases hlast : t.nodes.getLast? with
      | none =>
        simp only [hlast] at h
        cases h
        rw [List.getLast?_eq_none_iff] at hlast
        exact ⟨le_rfl, fun n hn => absurd hn (hlast ▸ List.not_mem_nil)⟩
      | some last =>
        simp only [hlast] at h
        split_ifs at h
        · cases h
        · cases h
          exact ⟨le_max_left _ _, fun n hn =>
            lt_of_lt_of_le (Nat.lt_succ_of_le (le_getLast hred hlast hn)) (le_max_right _ _)⟩

theorem readRecords_id_le {file : FileBytes} {records : List SessionRecord}
    (h : readRecords file = .ok records) : ∀ id ∈ nodeIds records, id ≤ maxNodeId := by
  obtain ⟨ls, hls, rfl⟩ := readRecords_scan h
  intro id hid
  obtain ⟨e, he, rfl⟩ := List.mem_map.mp hid
  exact Nat.le_pred_of_lt (scanBytes_id_lt hls e he)

/-- The last identifier in a file leaves none. -/
theorem load_last {st : JsonlSessionStorage} {file : FileBytes} {records : List SessionRecord}
    {tree : SessionTree} (hread : readRecords file = .ok records)
    (hred : reduceFor (entriesOf records) st.sessionId = .ok tree)
    (hmem : maxNodeId ∈ nodeIds records) : load st file = .error .idExhausted := by
  obtain ⟨n, hn, hid⟩ := ((reduceFor_nodes hred).2 maxNodeId).mp hmem
  unfold load
  simp only [hread, loadRecords, hred]
  cases hlast : tree.nodes.getLast? with
  | none =>
    rw [List.getLast?_eq_none_iff] at hlast
    exact absurd hn (hlast ▸ List.not_mem_nil)
  | some last =>
    have hge : maxNodeId ≤ last.id := hid ▸ le_getLast hred hlast hn
    have hle : last.id ≤ maxNodeId := readRecords_id_le hread _
      (((reduceFor_nodes hred).2 last.id).mpr ⟨last, List.mem_of_getLast? hlast, rfl⟩)
    simp only [le_antisymm hle hge, ↓reduceIte]
    rfl

theorem cursorAfter_last {records : List SessionRecord}
    (hle : ∀ id ∈ nodeIds records, id ≤ maxNodeId) (hmem : maxNodeId ∈ nodeIds records) :
    cursorAfter records = .error .idExhausted := by
  have hmax : ((entriesOf records).map (·.id)).max? = some maxNodeId :=
    List.max?_eq_some_iff.mpr ⟨hmem, hle⟩
  unfold cursorAfter
  simp only [hmax, ↓reduceIte]

theorem refreshCursorLocked_ok {st st' : JsonlSessionStorage} {file : FileBytes}
    (h : (refreshCursorLocked st file).1 = .ok st') :
    st.nextId ≤ st'.nextId ∧ (st.nextId ≤ maxNodeId → st'.nextId ≤ maxNodeId) ∧
      st'.sessionId = st.sessionId ∧ st'.fileLock = st.fileLock := by
  cases hscan : Lines.scanBytes judge file with
  | none =>
    rw [refreshCursorLocked_none hscan] at h
    cases h
  | some ls =>
    rw [refreshCursorLocked_scan hscan] at h
    obtain ⟨floor, hfloor, rfl⟩ := Except.map_eq_ok.mp h
    exact ⟨le_max_left _ _,
      fun hle => max_le hle (cursorAfter_le hfloor (scanBytes_id_lt hscan)), rfl, rfl⟩

namespace SharedCursor

/-- What holds of the cursor all the time. -/
structure Sound (opened : List NodeId) (s : SharedCursor) : Prop where
  bounded : s.storage.nextId ≤ maxNodeId
  known : ∀ n ∈ opened ++ knownIds s.history, n < s.storage.nextId
  above : ClaimsAbove opened s.history

variable {opened : List NodeId} {s : SharedCursor}

/-- A step that learns nothing. -/
theorem Sound.quiet (h : Sound opened s) {s' : SharedCursor}
    (hcursor : s'.storage.nextId = s.storage.nextId) (hhistory : s'.history = s.history) :
    Sound opened s' := by
  constructor
  · rw [hcursor]
    exact h.bounded
  · rw [hcursor, hhistory]
    exact h.known
  · rw [hhistory]
    exact h.above

/-- A step that raises the cursor above all that it gets to know. -/
theorem Sound.learn (h : Sound opened s) {s' : SharedCursor} {e : CursorEvent}
    (hbounded : s'.storage.nextId ≤ maxNodeId) (hmono : s.storage.nextId ≤ s'.storage.nextId)
    (hhistory : s'.history = s.history ++ [e]) (hids : ∀ n ∈ e.ids, n < s'.storage.nextId)
    (he : ∀ id, e = .claimed id → id = s.storage.nextId) : Sound opened s' := by
  refine ⟨hbounded, ?_, ?_⟩
  · intro n hn
    rw [hhistory, knownIds_snoc, ← List.append_assoc] at hn
    rcases List.mem_append.mp hn with hn | hn
    · exact lt_of_lt_of_le (h.known n hn) hmono
    · exact hids n hn
  · rw [hhistory]
    apply h.above.snoc
    intro id hid
    obtain rfl := he id hid
    have hlt : s.storage.nextId < s'.storage.nextId :=
      hids _ (hid ▸ List.mem_singleton_self _)
    exact ⟨lt_of_lt_of_le hlt hbounded, h.known⟩

theorem Sound.fail (h : Sound opened s) (i : ℕ) (e : SessionError) : Sound opened (s.fail i e) :=
  h.learn h.bounded le_rfl rfl (fun _ hn => absurd hn List.not_mem_nil) nofun

/-- A cursor in front of its last value does not wrap. -/
theorem succ_mod {n : NodeId} (h : n < maxNodeId) : (n + 1) % 2 ^ 64 = n + 1 :=
  Nat.mod_eq_of_lt (Nat.add_lt_of_lt_sub h)

/-- The one step that claims an identifier takes the cursor for it. -/
theorem Sound.claim (h : Sound opened s) {i : ℕ} (hlt : s.storage.nextId < maxNodeId) :
    Sound opened { (s.stage i (.writing s.storage.nextId)).record (.claimed s.storage.nextId) with
      storage := { s.storage with nextId := (s.storage.nextId + 1) % 2 ^ 64 } } := by
  have hwrap := succ_mod hlt
  refine h.learn ?_ ?_ rfl ?_ ?_
  · exact hwrap.trans_le hlt
  · exact (Nat.le_succ _).trans hwrap.ge
  · intro n hn
    rw [List.mem_singleton.mp hn]
    exact (Nat.lt_succ_self _).trans_le hwrap.ge
  · rintro id ⟨⟩
    rfl

theorem Sound.step (h : Sound opened s) (a : CursorAction) :
    Sound opened (s.step a) ∧ s.storage.nextId ≤ (s.step a).storage.nextId := by
  cases a with
  | refresh i file =>
    simp only [SharedCursor.step]
    split_ifs
    · cases hrefresh : (refreshCursorLocked s.storage file).1 with
      | error e => exact ⟨h.fail i e, le_rfl⟩
      | ok st =>
        obtain ⟨hmono, hbounded, -, -⟩ := refreshCursorLocked_ok hrefresh
        refine ⟨⟨hbounded h.bounded, fun n hn => lt_of_lt_of_le (h.known n hn) hmono, h.above⟩,
          hmono⟩
    · exact ⟨h, le_rfl⟩
  | begin i =>
    simp only [SharedCursor.step]
    split_ifs
    all_goals exact ⟨h.quiet rfl rfl, le_rfl⟩
  | compareExchange i spurious =>
    simp only [SharedCursor.step]
    split
    next cursor _ =>
      split_ifs with hlast htaken
      · exact ⟨h.fail i _, le_rfl⟩
      · obtain ⟨rfl, -⟩ := htaken
        have hlt := lt_of_le_of_ne h.bounded hlast
        exact ⟨h.claim hlt, (Nat.le_succ _).trans (succ_mod hlt).ge⟩
      · exact ⟨h.quiet rfl rfl, le_rfl⟩
    next => exact ⟨h, le_rfl⟩
  | write i ok =>
    simp only [SharedCursor.step]
    split
    next =>
      split_ifs
      · exact ⟨h.quiet rfl rfl, le_rfl⟩
      · exact ⟨h.fail i _, le_rfl⟩
    next => exact ⟨h, le_rfl⟩
  | load file =>
    simp only [SharedCursor.step]
    split
    next e _ =>
      exact ⟨h.learn h.bounded le_rfl rfl (fun _ hn => absurd hn List.not_mem_nil) nofun, le_rfl⟩
    next tree st hload =>
      obtain ⟨hmono, habove⟩ := load_above hload
      obtain ⟨-, -, -, -, -, hbounded⟩ := load_ok hload
      refine ⟨h.learn (hbounded h.bounded) hmono rfl ?_ nofun, hmono⟩
      intro n hn
      obtain ⟨node, hnode, rfl⟩ := List.mem_map.mp hn
      exact habove node hnode

theorem last_of_claiming (hlast : s.storage.nextId = maxNodeId) {i : ℕ} {cursor : NodeId}
    (hstage : s.stages i = .claiming cursor) (spurious : Bool) :
    s.step (.compareExchange i spurious) =
      if cursor = maxNodeId then s.fail i .idExhausted else s.stage i (.claiming maxNodeId) := by
  simp only [SharedCursor.step, hstage]
  split_ifs with hcursor htaken
  · rfl
  · exact absurd (htaken.1.trans hlast) hcursor
  · rw [hlast]

theorem keepsCursor (h : Sound opened s) (a : CursorAction) : KeepsCursor s a where
  mono := (h.step a).2
  exhausted hexhausted := by
    cases a with
    | refresh i file =>
      simp only [SharedCursor.step] at hexhausted ⊢
      split_ifs at hexhausted ⊢
      · cases hrefresh : (refreshCursorLocked s.storage file).1 with
        | error e => rfl
        | ok st => simp [hrefresh, stage] at hexhausted
      · rfl
    | begin i =>
      simp only [SharedCursor.step]
      split_ifs <;> rfl
    | compareExchange i spurious =>
      cases hstage : s.stages i with
      | claiming cursor =>
        simp only [SharedCursor.step, hstage] at hexhausted ⊢
        split_ifs at hexhausted ⊢ with hlast htaken
        · rfl
        · simp [record, stage] at hexhausted
        · rfl
      | idle | refreshed | writing id => simp only [SharedCursor.step, hstage]
    | write i ok =>
      simp only [SharedCursor.step]
      split
      · split_ifs <;> rfl
      · rfl
    | load file =>
      simp only [SharedCursor.step] at hexhausted ⊢
      cases hload : load s.storage file with
      | error e => rfl
      | ok r => simp [hload, record] at hexhausted
  last hlast i spurious cursor ha hstage := ha ▸ last_of_claiming hlast hstage spurious
  loadLast file records tree ha hread hred hmem := by
    subst ha
    simp only [SharedCursor.step, load_last hread hred hmem]

/-- An append that nobody gets in the way of claims as if there were no others. -/
theorem claim_alone {i : ℕ} (h : Sound opened s) (hstage : s.stages i =
      if s.storage.fileLock then .refreshed else .idle) :
    let s' := (s.step (.begin i)).step (.compareExchange i false)
    s'.storage = (claimNextId s.storage).2 ∧
      s'.history = s.history ++ [match (claimNextId s.storage).1 with
        | .ok id => .claimed id
        | .error e => .failed e] := by
  have hbegin : s.step (.begin i) = s.stage i (.claiming s.storage.nextId) := if_pos hstage
  have hnow : (s.stage i (.claiming s.storage.nextId)).stages i = .claiming s.storage.nextId :=
    Function.update_self ..
  have hstorage : (s.stage i (.claiming s.storage.nextId)).storage = s.storage := rfl
  have hhistory : (s.stage i (.claiming s.storage.nextId)).history = s.history := rfl
  rw [hbegin]
  generalize s.stage i (.claiming s.storage.nextId) = t at hnow hstorage hhistory
  have hbounded : t.storage.nextId ≤ maxNodeId := hstorage ▸ h.bounded
  rw [← hstorage] at hnow
  rw [← hstorage, ← hhistory]
  by_cases hlast : t.storage.nextId = maxNodeId
  · have hclaim : claimNextId t.storage = (.error .idExhausted, t.storage) := if_pos hlast
    rw [last_of_claiming hlast hnow, if_pos hlast, hclaim]
    exact ⟨rfl, rfl⟩
  · have hclaim : claimNextId t.storage =
        (.ok t.storage.nextId, { t.storage with nextId := t.storage.nextId + 1 }) := if_neg hlast
    rw [hclaim]
    simp only [SharedCursor.step, hnow, if_neg hlast, stage, record, and_self, ↓reduceIte,
      succ_mod (lt_of_le_of_ne hbounded hlast)]

end SharedCursor

/-- Whatever appends, writes and loads do at the same time: a claimed identifier is larger than all
that anybody got to know before it, the cursor never goes back, and at its end nothing is claimed
and nothing changes. -/
theorem claims_throughout (file : Option FileBytes) (sessionId : String) (locked : Bool)
    {records : List SessionRecord} (hread : readRecords (file.getD []) = .ok records) :
    (maxNodeId ∈ nodeIds records → (openStorage file sessionId).1 = .error .idExhausted) ∧
    (maxNodeId ∉ nodeIds records → ∃ st, (openStorage file sessionId).1 = .ok st ∧
      ∀ as : List CursorAction,
        Runs.Throughout SharedCursor.step
          (fun s => s.storage.nextId ≤ maxNodeId ∧ ClaimsAbove (nodeIds records) s.history)
          (.start { st with fileLock := locked }) as ∧
        Runs.Along SharedCursor.step KeepsCursor (.start { st with fileLock := locked }) as) := by
  have hopen : (openStorage file sessionId).1 =
      (cursorAfter records).map fun next => ⟨sessionId, next, false⟩ := by
    simp only [openStorage, hread]
  have hle := readRecords_id_le hread
  constructor
  · intro hmem
    rw [hopen, cursorAfter_last hle hmem]
    rfl
  · intro hmem
    have hbelow : ∀ e ∈ entriesOf records, e.id < maxNodeId := fun e he =>
      lt_of_le_of_ne (hle e.id (List.mem_map_of_mem he)) fun heq =>
        hmem (heq ▸ List.mem_map_of_mem he)
    obtain ⟨next, hnext, hbounded, hlt⟩ := cursorAfter_ok hbelow
    refine ⟨⟨sessionId, next, false⟩, by rw [hopen, hnext]; rfl, fun as => ?_⟩
    have hstart : SharedCursor.Sound (nodeIds records) (.start ⟨sessionId, next, locked⟩) := by
      refine ⟨hbounded, fun n hn => ?_, fun front id back hsplit => ?_⟩
      · have hn : n ∈ nodeIds records := by simpa [SharedCursor.start, knownIds] using hn
        obtain ⟨e, he, rfl⟩ := List.mem_map.mp hn
        exact hlt e he
      · exact absurd hsplit (List.append_ne_nil_of_right_ne_nil _ (List.cons_ne_nil _ _)).symm
    have hstep : ∀ s a, SharedCursor.Sound (nodeIds records) s →
        SharedCursor.Sound (nodeIds records) (s.step a) := fun s a h => (h.step a).1
    exact ⟨Runs.always hstep (fun _ h => ⟨h.bounded, h.above⟩) hstart as,
      Runs.along_of_invariant hstep (fun _ a h => SharedCursor.keepsCursor h a) hstart as⟩

/-- Two appends that have both seen the first cursor; the second one tries again, and again. -/
def racedAppends : List CursorAction :=
  [.begin 0, .begin 1, .compareExchange 0 false, .compareExchange 1 false,
    .compareExchange 1 true, .compareExchange 1 false]

theorem claims_throughout_raced :
    knownIds (Runs.run SharedCursor.step (.start ⟨"s", 0, false⟩) racedAppends).history = [0, 1] ∧
    (maxNodeId ∉ nodeIds [] → ∃ st, (openStorage none "s").1 = .ok st ∧
      Runs.Throughout SharedCursor.step
        (fun s => s.storage.nextId ≤ maxNodeId ∧ ClaimsAbove [] s.history)
        (.start { st with fileLock := false }) racedAppends) := by
  have hnone : ∀ r ∈ ([] : List SessionRecord), r.Legible := fun _ hr => absurd hr List.not_mem_nil
  have hread : readRecords [] = .ok [] := readRecords_logBytes hnone
  refine ⟨by decide, fun hmem => ?_⟩
  obtain ⟨st, hst, hruns⟩ := (claims_throughout none "s" false hread).2 hmem
  exact ⟨st, hst, (hruns racedAppends).1⟩

end Guigu
