import Guigu.Library.Runs
import Guigu.Library.UnixPath
import Guigu.Server.SessionRollback

/-! The sessions of a server and the files of their storages. A session is registered under its
id; its file is found by joining the id to the log directory. -/
namespace Guigu

open Runs UnixPath

/-- What the storage factory hands out; a file that cannot be opened leaves a storage whose
operations fail. -/
inductive OpenedStorage where
  | jsonl (path : List Char)
  | failing
  deriving DecidableEq, Repr

/-- `"{session_id}.jsonl"`. -/
def sessionFile (sessionId : String) : List Char := sessionId.toList ++ ".jsonl".toList

def openStorageSync (logDir : List Char) (sessionId : String) (opens : Bool) : OpenedStorage :=
  if opens then .jsonl (join logDir (sessionFile sessionId)) else .failing

structure SessionRegistry where
  nextSessionId : ℕ
  sessions : String → Option OpenedStorage

/-- What clients ask for, with what comes of it elsewhere: whether the file can be opened, and
whether its records load and the head is right. A session that was loaded to resume a lane is
removed again when the lane is not spawned. -/
inductive SessionRequest where
  | createSession (sessionId : Option String) (opens : Bool)
  | loadSession (sessionId : String) (opens : Bool) (loaded : Except ServerError Unit)
  | loadAndResumeSession (sessionId : String) (opens : Bool) (resolved : Except ServerError Unit)
  | removeSession (sessionId : String)
  | shutdown

namespace SessionRegistry

def empty : SessionRegistry := ⟨1, fun _ => none⟩

def allocateSessionId (r : SessionRegistry) : String × SessionRegistry :=
  (toString r.nextSessionId, { r with nextSessionId := r.nextSessionId + 1 })

/-- An id is registered once. -/
def insertSession (r : SessionRegistry) (sessionId : String) (storage : OpenedStorage) :
    Except ServerError SessionRegistry :=
  if (r.sessions sessionId).isSome then .error (.duplicateSession sessionId)
  else .ok { r with sessions := Function.update r.sessions sessionId (some storage) }

/-- The storage is opened before anything is checked. -/
def createSession (r : SessionRegistry) (logDir : List Char) (sessionId : String)
    (opens : Bool) : Except ServerError SessionRegistry :=
  r.insertSession sessionId (openStorageSync logDir sessionId opens)

def loadSession (r : SessionRegistry) (logDir : List Char) (sessionId : String) (opens : Bool)
    (loaded : Except ServerError Unit) : Except ServerError SessionRegistry :=
  match openStorageSync logDir sessionId opens, loaded with
  | .failing, _ => .error (.session .io)
  | .jsonl _, .error e => .error e
  | .jsonl path, .ok () => r.insertSession sessionId (.jsonl path)

/-- The head of the lane is resolved in front of the registration. -/
def loadAndResumeSession (r : SessionRegistry) (logDir : List Char) (sessionId : String)
    (opens : Bool) (resolved : Except ServerError Unit) : Except ServerError SessionRegistry :=
  r.loadSession logDir sessionId opens resolved

def removeSession (r : SessionRegistry) (sessionId : String) : SessionRegistry :=
  { r with sessions := Function.update r.sessions sessionId none }

/-- A request that fails leaves the registry as it was. -/
def step (logDir : List Char) (r : SessionRegistry) : SessionRequest → SessionRegistry
  | .createSession (some sessionId) opens =>
    (r.createSession logDir sessionId opens).toOption.getD r
  | .createSession none opens =>
    let (sessionId, r') := r.allocateSessionId
    (r'.createSession logDir sessionId opens).toOption.getD r'
  | .loadSession sessionId opens loaded =>
    (r.loadSession logDir sessionId opens loaded).toOption.getD r
  | .loadAndResumeSession sessionId opens resolved =>
    (r.loadAndResumeSession logDir sessionId opens resolved).toOption.getD r
  | .removeSession sessionId => r.removeSession sessionId
  | .shutdown => { r with sessions := fun _ => none }

/-- Every file lies below the log directory, and no two sessions work on one. -/
def Separate (cwd : Place) (logDir : List Char) (r : SessionRegistry) : Prop :=
  ∀ sessionId path, r.sessions sessionId = some (.jsonl path) →
    (∃ rest, rest ≠ [] ∧ resolve cwd path = resolve cwd logDir ++ rest) ∧
    ∀ sessionId' path', sessionId' ≠ sessionId → r.sessions sessionId' = some (.jsonl path') →
      resolve cwd path' ≠ resolve cwd path

end SessionRegistry

/-- No component of `"{session_id}.jsonl"` is empty, a dot or two dots. -/
def PlainId (sessionId : String) : Prop := Plain (sessionFile sessionId)

instance (sessionId : String) : Decidable (PlainId sessionId) :=
  inferInstanceAs (Decidable (Plain _))

def SessionRequest.Plain : SessionRequest → Prop
  | .createSession (some sessionId) _ | .loadSession sessionId _ _
  | .loadAndResumeSession sessionId _ _ => PlainId sessionId
  | .createSession none _ | .removeSession _ | .shutdown => True

instance : (q : SessionRequest) → Decidable q.Plain
  | .createSession (some sessionId) _ | .loadSession sessionId _ _
  | .loadAndResumeSession sessionId _ _ => inferInstanceAs (Decidable (PlainId sessionId))
  | .createSession none _ | .removeSession _ | .shutdown => inferInstanceAs (Decidable True)

theorem sessionFile_injective : Function.Injective sessionFile := by
  intro a b h
  exact String.toList_injective (List.append_cancel_right h)

/-- The last component of a file is a name, whatever the id ends in. -/
theorem isName_jsonl (last : List Char) : IsName (last ++ ".jsonl".toList) := by
  have hlen : 6 ≤ (last ++ ".jsonl".toList).length := by
    rw [List.length_append]
    exact Nat.le_add_left _ _
  refine ⟨?_, ?_, ?_⟩ <;>
  · intro heq
    rw [heq] at hlen
    simp at hlen

/-- An id without a slash is plain. -/
theorem plainId_of_not_mem {sessionId : String} (h : '/' ∉ sessionId.toList) :
    PlainId sessionId := by
  have hslash : '/' ∉ sessionFile sessionId := by
    rw [sessionFile, List.mem_append, not_or]
    exact ⟨h, by decide⟩
  have hone : components (sessionFile sessionId) = [sessionFile sessionId] :=
    List.splitOn_eq_singleton hslash
  intro c hc
  rw [hone, List.mem_singleton] at hc
  rw [hc]
  exact isName_jsonl _

theorem plainId_allocated (n : ℕ) : PlainId (toString n) := by
  apply plainId_of_not_mem
  intro hmem
  have hdigit : '/'.isDigit = true := by
    apply Nat.isDigit_of_mem_toDigits (b := 10) (n := n) (by decide) (by decide)
    simpa using hmem
  cases hdigit

namespace SessionRegistry

/-- Every session has a plain id, and its storage the file of that id. -/
def Filed (logDir : List Char) (r : SessionRegistry) : Prop :=
  ∀ sessionId storage, r.sessions sessionId = some storage → PlainId sessionId ∧
    (storage = .failing ∨ storage = .jsonl (join logDir (sessionFile sessionId)))

theorem Filed.separate {logDir : List Char} {r : SessionRegistry} (h : r.Filed logDir)
    (cwd : Place) : r.Separate cwd logDir := by
  intro sessionId path hpath
  obtain ⟨hplain, hfile | hfile⟩ := h sessionId _ hpath
  · cases hfile
  obtain rfl := OpenedStorage.jsonl.inj hfile
  constructor
  · refine ⟨components (sessionFile sessionId), List.splitOn_ne_nil _ _, ?_⟩
    rw [resolve_join cwd logDir hplain.relative, walk_plain _ hplain]
  · intro sessionId' path' hne hpath' hsame
    obtain ⟨hplain', hfile' | hfile'⟩ := h sessionId' _ hpath'
    · cases hfile'
    obtain rfl := OpenedStorage.jsonl.inj hfile'
    exact hne (sessionFile_injective (resolve_join_injective cwd logDir hplain' hplain hsame))

theorem Filed.insertSession {logDir : List Char} {r r' : SessionRegistry} (h : r.Filed logDir)
    {sessionId : String} (hid : PlainId sessionId) {storage : OpenedStorage}
    (hstorage : storage = .failing ∨ storage = .jsonl (join logDir (sessionFile sessionId)))
    (hinsert : r.insertSession sessionId storage = .ok r') : r'.Filed logDir := by
  unfold SessionRegistry.insertSession at hinsert
  split_ifs at hinsert
  obtain rfl := Except.ok.inj hinsert
  intro other storage' hother
  have hother' : Function.update r.sessions sessionId (some storage) other = some storage' := hother
  rw [Function.update_apply] at hother'
  split_ifs at hother' with hsame
  · obtain rfl := Option.some.inj hother'
    exact hsame ▸ ⟨hid, hstorage⟩
  · exact h other storage' hother'

theorem openStorageSync_cases (logDir : List Char) (sessionId : String) (opens : Bool) :
    openStorageSync logDir sessionId opens = .failing ∨
      openStorageSync logDir sessionId opens = .jsonl (join logDir (sessionFile sessionId)) := by
  cases opens
  · exact .inl rfl
  · exact .inr rfl

theorem Filed.loadSession {logDir : List Char} {r r' : SessionRegistry} (h : r.Filed logDir)
    {sessionId : String} (hid : PlainId sessionId) {opens : Bool}
    {loaded : Except ServerError Unit}
    (hload : r.loadSession logDir sessionId opens loaded = .ok r') : r'.Filed logDir := by
  unfold SessionRegistry.loadSession at hload
  rcases openStorageSync_cases logDir sessionId opens with hopen | hopen
  · rw [hopen] at hload
    cases hload
  · rw [hopen] at hload
    cases loaded with
    | error e => cases hload
    | ok _ => exact h.insertSession hid (.inr rfl) hload

theorem Filed.getD {logDir : List Char} {r : SessionRegistry} (h : r.Filed logDir)
    {answer : Except ServerError SessionRegistry}
    (hanswer : ∀ r', answer = .ok r' → r'.Filed logDir) :
    (answer.toOption.getD r).Filed logDir := by
  cases answer with
  | error e => exact h
  | ok r' => exact hanswer r' rfl

theorem Filed.step {logDir : List Char} {r : SessionRegistry} (h : r.Filed logDir)
    {q : SessionRequest} (hq : q.Plain) : (r.step logDir q).Filed logDir := by
  cases q with
  | createSession sessionId opens =>
    cases sessionId with
    | some sessionId =>
      exact h.getD fun r' hr' => h.insertSession hq (openStorageSync_cases _ _ _) hr'
    | none =>
      have hcounted : Filed logDir { r with nextSessionId := r.nextSessionId + 1 } := h
      exact hcounted.getD fun r' hr' =>
        hcounted.insertSession (plainId_allocated _) (openStorageSync_cases _ _ _) hr'
  | loadSession sessionId opens loaded => exact h.getD fun r' hr' => h.loadSession hq hr'
  | loadAndResumeSession sessionId opens resolved =>
    exact h.getD fun r' hr' => h.loadSession hq hr'
  | removeSession sessionId =>
    intro other storage hother
    have hother' : Function.update r.sessions sessionId none other = some storage := hother
    rw [Function.update_apply] at hother'
    split_ifs at hother'
    exact h other storage hother'
  | shutdown =>
    intro sessionId storage hnone
    cases hnone

/-- As long as clients name their sessions with plain ids, the sessions that are registered work
on different files of the log directory. -/
theorem separate_throughout (cwd : Place) (logDir : List Char) {qs : List SessionRequest}
    (hqs : ∀ q ∈ qs, q.Plain) : Throughout (step logDir) (Separate cwd logDir) empty qs := by
  have hempty : empty.Filed logDir := by
    intro sessionId storage hnone
    cases hnone
  exact throughout (fun _ _ h hq => h.step hq) (fun _ h => h.separate cwd) hempty
    (along_of_forall fun q hq _ => hqs q hq)

theorem separate_plainIds :
    Throughout (step "/var/log".toList) (Separate [] "/var/log".toList) empty
      [.createSession (some "a/b") true, .createSession none true, .loadSession ".." true (.ok ()),
        .createSession (some "0") true, .removeSession "a/b",
        .loadAndResumeSession "a/b" true (.ok ())] :=
  separate_throughout [] "/var/log".toList (by decide)

/-- Two ids that are created are registered with their files. -/
theorem sessions_created (logDir : List Char) {sessionId other : String} (hne : other ≠ sessionId) :
    let r := run (step logDir) empty
      [.createSession (some sessionId) true, .createSession (some other) true]
    r.sessions sessionId = some (.jsonl (join logDir (sessionFile sessionId))) ∧
      r.sessions other = some (.jsonl (join logDir (sessionFile other))) := by
  have hfirst : empty.step logDir (.createSession (some sessionId) true) =
      ⟨1, Function.update (fun _ => none) sessionId
        (some (.jsonl (join logDir (sessionFile sessionId))))⟩ := rfl
  have hfree : Function.update (fun _ => none) sessionId
      (some (OpenedStorage.jsonl (join logDir (sessionFile sessionId)))) other = none :=
    Function.update_of_ne hne _ _
  simp only [run_cons, run_nil, hfirst]
  simp only [step, createSession, insertSession, hfree, Option.isSome_none, Bool.false_eq_true,
    ↓reduceIte, Except.toOption, Option.getD_some, openStorageSync]
  exact ⟨by rw [Function.update_of_ne hne.symm, Function.update_self], Function.update_self _ _ _⟩

/-- Ids that share a file, or one whose file is outside. -/
theorem not_separate_created {cwd : Place} {logDir : List Char} {sessionId other : String}
    (hne : other ≠ sessionId)
    (h : (∀ rest, rest ≠ [] → resolve cwd (join logDir (sessionFile sessionId)) ≠
        resolve cwd logDir ++ rest) ∨
      resolve cwd (join logDir (sessionFile other)) =
        resolve cwd (join logDir (sessionFile sessionId))) :
    ¬Throughout (step logDir) (Separate cwd logDir) empty
      [.createSession (some sessionId) true, .createSession (some other) true] := by
  intro hrun
  obtain ⟨hid, hother⟩ := sessions_created logDir hne
  obtain ⟨⟨rest, hrest, hinside⟩, hdistinct⟩ := hrun.last sessionId _ hid
  rcases h with houtside | hsame
  · exact houtside rest hrest hinside
  · exact hdistinct other _ hne hother hsame

/-- One client writes to the file of another, or outside of the log directory. -/
theorem oddIds_not_separate :
    ¬Throughout (step "/var/log".toList) (Separate [] "/var/log".toList) empty
        [.createSession (some "a") true, .createSession (some "./a") true] ∧
      ¬Throughout (step "/var/log".toList) (Separate [] "/var/log".toList) empty
        [.createSession (some "../a") true, .createSession (some "a") true] := by
  constructor
  · exact not_separate_created (by decide) (.inr (by decide))
  · apply not_separate_created (by decide)
    left
    intro rest hrest hinside
    have hlen := congrArg List.length hinside
    rw [List.length_append] at hlen
    have htwo : (resolve [] (join "/var/log".toList (sessionFile "../a"))).length = 2 := by decide
    have hdir : (resolve [] "/var/log".toList).length = 2 := by decide
    have hpos := List.length_pos_of_ne_nil hrest
    omega

theorem sessionFile_last (sessionId : String) : ∃ front last,
    components sessionId.toList = front ++ [last] ∧
      components (sessionFile sessionId) = front ++ [last ++ ".jsonl".toList] :=
  components_append_name _ (by decide)

/-- An id that is not plain names a file outside of the log directory, or the file of a plain id:
with that one it makes a run in which the files are not separate. -/
theorem exists_not_separate {cwd : Place} (hcwd : Proper cwd) (logDir : List Char)
    {sessionId : String} (h : ¬PlainId sessionId) :
    ∃ other, ¬Throughout (step logDir) (Separate cwd logDir) empty
      [.createSession (some sessionId) true, .createSession (some other) true] := by
  by_cases hinside : ∃ rest, rest ≠ [] ∧
      resolve cwd (join logDir (sessionFile sessionId)) = resolve cwd logDir ++ rest
  · obtain ⟨rest, hrest, hplace⟩ := hinside
    obtain ⟨front, last, -, hcomponents⟩ := sessionFile_last sessionId
    obtain ⟨hplain, hsame⟩ := resolve_join_intercalate hcwd hplace hrest
    have hlast : rest.getLast? = some (last ++ ".jsonl".toList) := by
      have hwhole : (resolve cwd (join logDir (sessionFile sessionId))).getLast? =
          some (last ++ ".jsonl".toList) := by
        cases habs : isAbsolute (sessionFile sessionId) with
        | false =>
          rw [resolve_join cwd logDir habs]
          exact walk_getLast? _ hcomponents (isName_jsonl last)
        | true =>
          rw [resolve_join_absolute cwd logDir habs]
          exact walk_getLast? _ hcomponents (isName_jsonl last)
      rw [hplace, List.getLast?_append_of_ne_nil _ hrest] at hwhole
      exact hwhole
    obtain ⟨names, rfl⟩ := List.getLast?_eq_some_iff.mp hlast
    -- the same file under the id of its place
    have hfile : sessionFile (String.ofList (['/'].intercalate (names ++ [last]))) =
        ['/'].intercalate (names ++ [last ++ ".jsonl".toList]) := by
      rw [sessionFile, String.toList_ofList, intercalate_append_name]
    rw [← hfile] at hplain hsame
    refine ⟨_, not_separate_created ?_ (.inr hsame)⟩
    rintro rfl
    exact h hplain
  · push Not at hinside
    refine ⟨"", not_separate_created ?_ (.inl hinside)⟩
    rintro rfl
    exact h (by decide)

/-! ### The registry of the server -/

open Server (AgentServer ServerAction ServerCall)

/-- What a step of the server does to its sessions, storages included. -/
def requestsOf (s : AgentServer) : ServerAction → List SessionRequest
  | .go c _ =>
    match (s.call c).phase, (s.call c).request with
    | .begun, .createSession sessionId => [.createSession (some sessionId) true]
    | .begun, .shutdown => [.shutdown]
    | .loaded, .loadSession sessionId => [.loadSession sessionId true (.ok ())]
    | .loaded, .loadAndResume sessionId _ => [.loadAndResumeSession sessionId true (.ok ())]
    | .failing _, .loadAndResume sessionId _ =>
      if ((s.removeSessionIfEmpty sessionId).registrant? sessionId).isSome then []
      else [.removeSession sessionId]
    | _, _ => []
  | .begin _ | .stop _ _ | .work _ _ => []

/-- The same sessions are registered. -/
def Mirrors (r : SessionRegistry) (s : AgentServer) : Prop :=
  ∀ sessionId, (r.sessions sessionId).isSome = (s.registrant? sessionId).isSome

namespace Mirrors

variable {logDir : List Char} {r : SessionRegistry} {s : AgentServer} {c : ℕ}

theorem keep (h : Mirrors r s) {s' : AgentServer}
    (hsame : ∀ sessionId, s'.registrant? sessionId = s.registrant? sessionId) : Mirrors r s' :=
  fun sessionId => (h sessionId).trans (congrArg Option.isSome (hsame sessionId).symm)

/-- Both registries refuse an id that is there. -/
theorem insertSession (h : Mirrors r s) (c : ℕ) (sessionId : String) (storage : OpenedStorage)
    (phase : Server.CallPhase) :
    Mirrors ((r.insertSession sessionId storage).toOption.getD r)
      (s.insertSession c sessionId phase) := by
  have hthere := h sessionId
  unfold SessionRegistry.insertSession AgentServer.insertSession
  unfold AgentServer.registrant? at hthere
  cases hlookup : s.sessions.lookup sessionId with
  | some session =>
    rw [hlookup] at hthere
    have hthere : (r.sessions sessionId).isSome = true := hthere
    rw [if_pos hthere]
    exact h
  | none =>
    rw [hlookup] at hthere
    have hthere : ¬ (r.sessions sessionId).isSome = true := by
      rw [hthere]
      exact Bool.false_ne_true
    rw [if_neg hthere]
    intro other
    rw [AgentServer.registrant?_setPhase, AgentServer.registrant?_registerSession]
    show (Function.update r.sessions sessionId (some storage) other).isSome = _
    rw [Function.update_apply]
    split_ifs
    · rfl
    · exact h other

theorem removeSessionIfEmpty (h : Mirrors r s) (sessionId : String) :
    Mirrors (if ((s.removeSessionIfEmpty sessionId).registrant? sessionId).isSome then r
      else r.removeSession sessionId) (s.removeSessionIfEmpty sessionId) := by
  have hothers : ∀ other, other ≠ sessionId →
      (s.removeSessionIfEmpty sessionId).registrant? other = s.registrant? other := by
    intro other hother
    refine congrArg (Option.map Server.SessionState.registrant) (Option.ext fun session => ?_)
    rw [AgentServer.lookup_removeSessionIfEmpty]
    exact and_iff_left (.inl hother)
  have hkept : ((s.removeSessionIfEmpty sessionId).registrant? sessionId).isSome = true →
      (s.registrant? sessionId).isSome = true := by
    intro hsome
    obtain ⟨session, hsession⟩ := Option.isSome_iff_exists.mp (Option.isSome_map ▸ hsome)
    rw [AgentServer.registrant?, (AgentServer.lookup_removeSessionIfEmpty ..).mp hsession |>.1]
    rfl
  intro other
  by_cases hother : other = sessionId
  · rw [hother]
    split_ifs with hsome
    · rw [h, hkept hsome, hsome]
    · rw [Bool.not_eq_true] at hsome
      rw [hsome, SessionRegistry.removeSession]
      exact congrArg Option.isSome (Function.update_self sessionId none r.sessions)
  · rw [hothers other hother, ← h other]
    split_ifs
    · rfl
    · exact congrArg Option.isSome (Function.update_of_ne hother ..)

theorem fail (h : Mirrors r s) (c : ℕ) (e : ServerError) : Mirrors r (s.fail c e) := by
  unfold AgentServer.fail
  split <;> exact h

theorem go (h : Mirrors r s) (c : ℕ) (fault : Option ServerError) :
    Mirrors (run (SessionRegistry.step logDir) r (requestsOf s (.go c fault))) (s.go c fault) := by
  cases hphase : (s.call c).phase with
  | begun =>
    simp only [requestsOf, AgentServer.go, hphase]
    cases hrequest : (s.call c).request with
    | createSession sessionId =>
      exact h.insertSession c sessionId (openStorageSync logDir sessionId true) _
    | shutdown => exact fun _ => rfl
    | loadSession sessionId | loadAndResume sessionId laneId =>
      cases fault <;> exact h
    | spawnLane sessionId laneId | forkLane sessionId fromLane newLane => exact h
    | resumeLane sessionId laneId =>
      simp only [AgentServer.start]
      cases s.sessions.lookup sessionId with
      | some session => cases fault <;> exact h
      | none => exact h
  | loaded =>
    simp only [requestsOf, AgentServer.go, hphase]
    cases hrequest : (s.call c).request with
    | loadSession sessionId | loadAndResume sessionId laneId =>
      exact h.insertSession c sessionId (openStorageSync logDir sessionId true) _
    | _ => exact h
  | failing e =>
    simp only [requestsOf, AgentServer.go, hphase]
    cases hrequest : (s.call c).request with
    | loadAndResume sessionId laneId =>
      have hremoved := h.removeSessionIfEmpty sessionId
      simp only
      split_ifs at hremoved ⊢ <;> exact hremoved
    | _ => exact h
  | checking =>
    simp only [requestsOf, AgentServer.go, hphase]
    split
    · exact h.fail c _
    · exact h
  | spawned i =>
    simp only [requestsOf, AgentServer.go, hphase]
    split
    · exact h
    · exact h.keep fun sessionId => AgentServer.registrant?_registerLane ..
    · exact h
  | persisting i generation =>
    simp only [requestsOf, AgentServer.go, hphase]
    cases fault <;> exact h
  | rollingBack i generation e =>
    simp only [requestsOf, AgentServer.go, hphase]
    split
    · exact h.keep fun sessionId => AgentServer.registrant?_removeLaneIfGeneration ..
    · exact h
  | cleaned e =>
    simp only [requestsOf, AgentServer.go, hphase]
    exact h.fail c e
  | waiting rest =>
    simp only [requestsOf, AgentServer.go, hphase]
    cases fault <;> exact h
  | stopping rest =>
    simp only [requestsOf, AgentServer.go, hphase]
    cases rest <;> exact h
  | idle | checked | cleaning _ _ | returned _ =>
    simp only [requestsOf, AgentServer.go, hphase]
    exact h

theorem step (h : Mirrors r s) (a : ServerAction) :
    Mirrors (run (SessionRegistry.step logDir) r (requestsOf s a)) (s.step a) := by
  cases a with
  | begin request => exact h
  | go c fault => exact h.go c fault
  | stop c i =>
    simp only [AgentServer.step]
    split
    · split_ifs <;> exact h
    · exact h
  | work i busy => exact h

end Mirrors

/-- As long as the sessions that the server registers have plain ids, the files of the sessions in
its registry are different ones of the log directory. -/
theorem served_separate (cwd : Place) (logDir : List Char) {as : List ServerAction}
    (h : Along AgentServer.step (fun s a => ∀ q ∈ requestsOf s a, q.Plain) .new as) :
    Throughout AgentServer.step (fun s => ∃ r, Mirrors r s ∧ r.Separate cwd logDir) .new as := by
  have hempty : empty.Filed logDir := by
    intro sessionId storage hnone
    cases hnone
  have hstep : ∀ (s : AgentServer) a, (∃ r, Mirrors r s ∧ r.Filed logDir) →
      (∀ q ∈ requestsOf s a, q.Plain) → ∃ r, Mirrors r (s.step a) ∧ r.Filed logDir := by
    rintro s a ⟨r, hmirrors, hfiled⟩ hplain
    refine ⟨run (step logDir) r (requestsOf s a), hmirrors.step a, ?_⟩
    exact invariant (fun _ q h hq => h.step hq) hfiled (along_of_forall fun q hq _ => hplain q hq)
  have hprop : ∀ s : AgentServer, (∃ r, Mirrors r s ∧ r.Filed logDir) →
      ∃ r, Mirrors r s ∧ r.Separate cwd logDir :=
    fun _ ⟨r, hmirrors, hfiled⟩ => ⟨r, hmirrors, hfiled.separate cwd⟩
  exact throughout hstep hprop ⟨empty, fun _ => rfl, hempty⟩ h

end SessionRegistry

end Guigu
