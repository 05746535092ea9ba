import Guigu.Library.Runs
import Guigu.Library.Tables
import Guigu.Server.LaneRecovery
import Guigu.Server.Transport

/-! The registry of sessions and lanes: calls that create sessions and lanes, each in several lock
sections between which other calls run, and the shutdown of the server. -/
namespace Guigu.Server

structure LaneRuntime where
  runtime : ℕ
  generation : UInt64

structure SessionState where
  /-- The call that has registered the session. -/
  registrant : ℕ
  lanes : AList fun _ : LaneId => LaneRuntime

inductive ServerCall where
  | createSession (sessionId : SessionId)
  | loadSession (sessionId : SessionId)
  | spawnLane (sessionId : SessionId) (laneId : LaneId)
  | forkLane (sessionId : SessionId) (fromLane newLane : LaneId)
  /-- `resume_lane_from_factory` -/
  | resumeLane (sessionId : SessionId) (laneId : LaneId)
  /-- `load_and_resume_session_from_factory` -/
  | loadAndResume (sessionId : SessionId) (laneId : LaneId)
  | shutdown
  deriving DecidableEq

/-- The lane that the call is to register. -/
def ServerCall.target : ServerCall → Option LaneKey
  | .spawnLane sessionId laneId | .forkLane sessionId _ laneId | .resumeLane sessionId laneId
  | .loadAndResume sessionId laneId => some (sessionId, laneId)
  | .createSession _ | .loadSession _ | .shutdown => none

/-- The session that the call is to register. -/
def ServerCall.session? : ServerCall → Option SessionId
  | .createSession sessionId | .loadSession sessionId | .loadAndResume sessionId _ =>
    some sessionId
  | .spawnLane _ _ | .forkLane _ _ _ | .resumeLane _ _ | .shutdown => none

/-- A lane that is new, not resumed, has its first head put on record. -/
def ServerCall.persistInitial : ServerCall → Bool
  | .spawnLane _ _ | .forkLane _ _ _ => true
  | .createSession _ | .loadSession _ | .resumeLane _ _ | .loadAndResume _ _ | .shutdown => false

/-- Where a call stands. -/
inductive CallPhase where
  | idle
  | begun
  /-- The storage is read, the session is registered next. -/
  | loaded
  /-- The first check is made next. -/
  | checking
  /-- The runtime is spawned next. -/
  | checked
  /-- The second check is made next. -/
  | spawned (runtime : ℕ)
  /-- The lane is registered; its first head is put on record. -/
  | persisting (runtime : ℕ) (generation : UInt64)
  /-- The lane is to leave the registry again. -/
  | rollingBack (runtime : ℕ) (generation : UInt64) (error : ServerError)
  /-- The runtime is shut down next. -/
  | cleaning (runtime : ℕ) (error : ServerError)
  | cleaned (error : ServerError)
  /-- The session is to leave the registry again. -/
  | failing (error : ServerError)
  /-- The runtimes that are still to be shut down. -/
  | stopping (rest : List ℕ)
  /-- The end of one of them is awaited. -/
  | waiting (rest : List ℕ)
  | returned (result : Except ServerError Unit)
  deriving DecidableEq

structure CallState where
  request : ServerCall
  phase : CallPhase

/-- A runtime that has been spawned. -/
structure RuntimeTask where
  call : ℕ
  /-- The generation that it has been registered with. -/
  generation : Option UInt64
  /-- Its shutdown token is cancelled. -/
  cancelled : Bool
  /-- A shutdown of the server has taken it out of the registry. -/
  drained : Bool
  /-- A run is under way, commands wait, or a client is just using its handle. -/
  busy : Bool
  /-- The handles of the server have been dropped. -/
  closed : Bool

/-- Its task ends: its token is cancelled, or there is nothing to do and the channel is closed. -/
def RuntimeTask.over (r : RuntimeTask) : Bool := r.cancelled || r.closed && !r.busy

structure AgentServer where
  sessions : AList fun _ : SessionId => SessionState
  nextLaneGeneration : UInt64
  runtime : ℕ → RuntimeTask
  nextRuntime : ℕ
  call : ℕ → CallState
  nextCall : ℕ

inductive ServerAction where
  | begin (request : ServerCall)
  /-- A call goes on; `fault` is what the storage, a factory or a runtime reports. -/
  | go (call : ℕ) (fault : Option ServerError)
  /-- A shutdown of the server takes the next runtime. -/
  | stop (call : ℕ) (runtime : ℕ)
  /-- A runtime gets something to do, or is done with it. -/
  | work (runtime : ℕ) (busy : Bool)

namespace AgentServer

def new : AgentServer where
  sessions := ∅
  nextLaneGeneration := 1
  runtime _ := ⟨0, none, false, false, false, false⟩
  nextRuntime := 0
  call _ := ⟨.shutdown, .idle⟩
  nextCall := 0

def lane? (s : AgentServer) (key : LaneKey) : Option LaneRuntime :=
  (s.sessions.lookup key.1).bind fun session => session.lanes.lookup key.2

/-- The lanes in the registry, each with its runtime. -/
def registrations (s : AgentServer) : List (LaneKey × ℕ) :=
  s.sessions.entries.flatMap fun e =>
    e.2.lanes.entries.map fun l => ((e.1, l.1), l.2.runtime)

def runtimes (s : AgentServer) : List ℕ := s.registrations.map Prod.snd

def setPhase (s : AgentServer) (c : ℕ) (phase : CallPhase) : AgentServer :=
  { s with call := Function.update s.call c ⟨(s.call c).request, phase⟩ }

/-- The session must be there and the lane must not. -/
def checkLane (s : AgentServer) (key : LaneKey) : Except ServerError Unit :=
  match s.sessions.lookup key.1 with
  | none => .error (.sessionNotFound key.1)
  | some session =>
    if (session.lanes.lookup key.2).isSome then .error (.laneAlreadyExists key.2) else .ok ()

/-- Both checks; a fork asks for its source as well. -/
def check (s : AgentServer) : ServerCall → Except ServerError Unit
  | .spawnLane sessionId laneId | .resumeLane sessionId laneId
  | .loadAndResume sessionId laneId => s.checkLane (sessionId, laneId)
  | .forkLane sessionId fromLane newLane =>
    match s.checkLane (sessionId, newLane) with
    | .error e => .error e
    | .ok () =>
      if (s.lane? (sessionId, fromLane)).isSome then .ok () else .error (.laneNotFound fromLane)
  | .createSession _ | .loadSession _ | .shutdown => .ok ()

def setLanes (s : AgentServer) (sessionId : SessionId) (session : SessionState)
    (lanes : AList fun _ : LaneId => LaneRuntime) : AgentServer :=
  { s with sessions := s.sessions.insert sessionId ⟨session.registrant, lanes⟩ }

def registerSession (s : AgentServer) (c : ℕ) (sessionId : SessionId) : AgentServer :=
  { s with sessions := s.sessions.insert sessionId ⟨c, ∅⟩ }

/-- The lane enters the registry under the next generation. -/
def registerLane (s : AgentServer) (key : LaneKey) (i : ℕ) : AgentServer :=
  match s.sessions.lookup key.1 with
  | some session =>
    { s.setLanes key.1 session (session.lanes.insert key.2 ⟨i, s.nextLaneGeneration⟩) with
      nextLaneGeneration := s.nextLaneGeneration + 1
      runtime := Function.update s.runtime i
        { s.runtime i with generation := some s.nextLaneGeneration } }
  | none => s

def removeLaneIfGeneration (s : AgentServer) (key : LaneKey) (generation : UInt64) :
    AgentServer :=
  match s.sessions.lookup key.1 with
  | some session =>
    match session.lanes.lookup key.2 with
    | some lane =>
      if lane.generation = generation then
        s.setLanes key.1 session (session.lanes.erase key.2)
      else s
    | none => s
  | none => s

def removeSessionIfEmpty (s : AgentServer) (sessionId : SessionId) : AgentServer :=
  match s.sessions.lookup sessionId with
  | some session =>
    if session.lanes.entries.isEmpty then { s with sessions := s.sessions.erase sessionId } else s
  | none => s

/-- `AgentHandle::shutdown`; its end is awaited separately. -/
def cancel (s : AgentServer) (i : ℕ) : AgentServer :=
  { s with runtime := Function.update s.runtime i { s.runtime i with cancelled := true } }

def spawn (s : AgentServer) (c : ℕ) : AgentServer :=
  { s with
    runtime := Function.update s.runtime s.nextRuntime ⟨c, none, false, false, false, false⟩
    nextRuntime := s.nextRuntime + 1 }

/-- Handles are dropped, of which there are no others. -/
def dropHandles (s : AgentServer) (rest : List ℕ) : AgentServer :=
  { s with
    runtime := fun i => if i ∈ rest then { s.runtime i with closed := true } else s.runtime i }

/-- Nothing reaches a runtime whose channel is closed. -/
def work (s : AgentServer) (i : ℕ) (busy : Bool) : AgentServer :=
  { s with
    runtime := Function.update s.runtime i
      { s.runtime i with busy := busy && ((s.runtime i).busy || !(s.runtime i).closed) } }

/-- The runtime of the lane that leaves the registry under that generation. -/
def removed (s : AgentServer) (key : LaneKey) (generation : UInt64) : List ℕ :=
  ((s.lane? key).filter (·.generation = generation)).toList.map (·.runtime)

def drain (s : AgentServer) : AgentServer :=
  { s with
    sessions := ∅
    runtime := fun i =>
      if i ∈ s.runtimes then { s.runtime i with drained := true } else s.runtime i }

/-- A call of the storage or of a factory comes first, and its error is the call's. -/
def proceed (s : AgentServer) (c : ℕ) (fault : Option ServerError) (phase : CallPhase) :
    AgentServer :=
  match fault with
  | some e => s.setPhase c (.returned (.error e))
  | none => s.setPhase c phase

/-- The session is registered, unless it is there. -/
def insertSession (s : AgentServer) (c : ℕ) (sessionId : SessionId) (phase : CallPhase) :
    AgentServer :=
  match s.sessions.lookup sessionId with
  | some _ => s.setPhase c (.returned (.error (.duplicateSession sessionId)))
  | none => (s.registerSession c sessionId).setPhase c phase

/-- The lane cannot be created; a session that was registered for it is rolled back. -/
def fail (s : AgentServer) (c : ℕ) (e : ServerError) : AgentServer :=
  match (s.call c).request with
  | .loadAndResume _ _ => s.setPhase c (.failing e)
  | .createSession _ | .loadSession _ | .spawnLane _ _ | .forkLane _ _ _ | .resumeLane _ _
  | .shutdown => s.setPhase c (.returned (.error e))

/-- The first step of a call. -/
def start (s : AgentServer) (c : ℕ) (fault : Option ServerError) : ServerCall → AgentServer
  | .createSession sessionId => s.insertSession c sessionId (.returned (.ok ()))
  | .loadSession _ | .loadAndResume _ _ => s.proceed c fault .loaded
  | .spawnLane _ _ | .forkLane _ _ _ => s.setPhase c .checking
  | .resumeLane sessionId _ =>
    match s.sessions.lookup sessionId with
    | some _ => s.proceed c fault .checking
    | none => s.setPhase c (.returned (.error (.sessionNotFound sessionId)))
  | .shutdown => s.drain.setPhase c (.stopping s.runtimes)

/-- One step of a call. -/
def go (s : AgentServer) (c : ℕ) (fault : Option ServerError) : AgentServer :=
  let request := (s.call c).request
  match (s.call c).phase with
  | .begun => s.start c fault request
  | .loaded =>
    match request with
    | .loadSession sessionId => s.insertSession c sessionId (.returned (.ok ()))
    | .loadAndResume sessionId _ => s.insertSession c sessionId .checking
    | _ => s
  | .checking =>
    match s.check request with
    | .error e => s.fail c e
    | .ok () => s.setPhase c .checked
  | .checked => (s.spawn c).setPhase c (.spawned s.nextRuntime)
  | .spawned i =>
    match s.check request, request.target with
    | .error e, _ => s.setPhase c (.cleaning i e)
    | .ok (), some key =>
      (s.registerLane key i).setPhase c
        (if request.persistInitial then .persisting i s.nextLaneGeneration
          else .returned (.ok ()))
    | .ok (), none => s
  | .persisting i generation =>
    match fault with
    | some e => s.setPhase c (.rollingBack i generation e)
    | none => s.setPhase c (.returned (.ok ()))
  | .rollingBack i generation e =>
    match request.target with
    | some key =>
      -- the call itself holds a handle of its own runtime
      ((s.removeLaneIfGeneration key generation).dropHandles
        ((s.removed key generation).erase i)).setPhase c (.cleaning i e)
    | none => s
  | .cleaning i e => (s.cancel i).setPhase c (.cleaned e)
  | .cleaned e => s.fail c e
  | .failing e =>
    match request with
    | .loadAndResume sessionId _ =>
      (s.removeSessionIfEmpty sessionId).setPhase c (.returned (.error e))
    | _ => s
  | .stopping [] => s.setPhase c (.returned (.ok ()))
  | .waiting rest =>
    match fault with
    | some e => (s.dropHandles rest).setPhase c (.returned (.error e))
    | none => s.setPhase c (.stopping rest)
  | .idle | .stopping (_ :: _) | .returned _ => s

/-- One step of some call; a step that is not possible leaves everything as it is. -/
def step (s : AgentServer) : ServerAction → AgentServer
  | .begin request =>
    { s with
      call := Function.update s.call s.nextCall ⟨request, .begun⟩
      nextCall := s.nextCall + 1 }
  | .go c fault => s.go c fault
  | .stop c i =>
    match (s.call c).phase with
    | .stopping rest =>
      if i ∈ rest then (s.cancel i).setPhase c (.waiting (rest.erase i)) else s
    | _ => s
  | .work i busy => s.work i busy

/-- The runtime serves a lane in the registry. -/
def Registered (s : AgentServer) (i : ℕ) : Prop :=
  ∃ key lane, s.lane? key = some lane ∧ lane.runtime = i

end AgentServer

/-- The call is to clean up a runtime, or holds one that it has not registered yet. -/
def CallPhase.holds (i : ℕ) : CallPhase → Bool
  | .spawned j | .cleaning j _ => j = i
  | .stopping rest | .waiting rest => i ∈ rest
  | .idle | .begun | .loaded | .checking | .checked | .persisting _ _ | .rollingBack _ _ _
  | .cleaned _ | .failing _ | .returned _ => false

/-- The call returns an error, or is about to. -/
def CallPhase.failed : CallPhase → Bool
  | .cleaning _ _ | .cleaned _ | .failing _ | .returned (.error _) => true
  | .idle | .begun | .loaded | .checking | .checked | .spawned _ | .persisting _ _
  | .rollingBack _ _ _ | .stopping _ | .waiting _ | .returned (.ok ()) => false

namespace AgentServer

/-- A lane has one runtime in the registry, and a runtime one lane. -/
def OneRuntime (s : AgentServer) : Prop :=
  (s.registrations.map Prod.fst).Nodup ∧ s.runtimes.Nodup

/-- What a failed call has spawned is not in the registry and has been shut down. -/
def FailsClean (s : AgentServer) : Prop :=
  ∀ i < s.nextRuntime, ∀ e, (s.call (s.runtime i).call).phase = .returned (.error e) →
    ¬ s.Registered i ∧ (s.runtime i).cancelled = true

/-- A registered runtime leaves the registry when its own call fails, or by a shutdown of the
server. -/
def LeavesOthers (s : AgentServer) : Prop :=
  ∀ i < s.nextRuntime, (s.runtime i).generation.isSome = true →
    s.Registered i ∨ (s.runtime i).drained = true ∨
      (s.call (s.runtime i).call).phase.failed = true

/-- A runtime is registered, or has been shut down, or is in the hands of a call. -/
def Accounted (s : AgentServer) : Prop :=
  ∀ i < s.nextRuntime, s.Registered i ∨ (s.runtime i).over = true ∨
    ∃ c < s.nextCall, (s.call c).phase.holds i = true

def Orderly (s : AgentServer) : Prop :=
  s.OneRuntime ∧ s.FailsClean ∧ s.LeavesOthers ∧ s.Accounted

/-- A shutdown of the server gives up with runtimes left that have something to do, or the
generations come round. -/
def givesUp (s : AgentServer) : ServerAction → Bool
  | .go c fault =>
    match (s.call c).phase with
    | .waiting rest =>
      fault.isSome && rest.any fun i => (s.runtime i).busy && !(s.runtime i).cancelled
    | .spawned _ => s.nextLaneGeneration = 0 && (s.check (s.call c).request).isOk
    | _ => false
  | .begin _ | .stop _ _ | .work _ _ => false

def Completes (s : AgentServer) (a : ServerAction) : Prop := s.givesUp a = false

instance (s : AgentServer) (a : ServerAction) : Decidable (s.Completes a) :=
  inferInstanceAs (Decidable (s.givesUp a = false))

variable {s : AgentServer} {c i : ℕ} {key : LaneKey}

@[simp] theorem lane?_setPhase (s : AgentServer) (c : ℕ) (phase : CallPhase) (key : LaneKey) :
    (s.setPhase c phase).lane? key = s.lane? key := rfl

theorem lane?_setLanes (s : AgentServer) (sessionId : SessionId) (session : SessionState)
    (lanes : AList fun _ : LaneId => LaneRuntime) (key : LaneKey) :
    (s.setLanes sessionId session lanes).lane? key =
      if key.1 = sessionId then lanes.lookup key.2 else s.lane? key := by
  split_ifs with hkey
  · rw [lane?, hkey, setLanes, AList.lookup_insert]
    rfl
  · rw [lane?, setLanes, AList.lookup_insert_ne hkey]
    rfl

theorem lane?_registerSession {sessionId : SessionId} (h : s.sessions.lookup sessionId = none)
    (key : LaneKey) : (s.registerSession c sessionId).lane? key = s.lane? key := by
  by_cases hkey : key.1 = sessionId
  · rw [lane?, lane?, hkey, registerSession, AList.lookup_insert, h]
    rfl
  · rw [lane?, registerSession, AList.lookup_insert_ne hkey]
    rfl

theorem lane?_of_lookup {session : SessionState} (h : s.sessions.lookup key.1 = some session) :
    s.lane? key = session.lanes.lookup key.2 := by
  rw [lane?, h]
  rfl

/-- What passes the first check finds its session without the lane. -/
theorem checkLane_ok (h : s.checkLane key = .ok ()) :
    (∃ session, s.sessions.lookup key.1 = some session) ∧ s.lane? key = none := by
  unfold checkLane at h
  cases hlookup : s.sessions.lookup key.1 with
  | none =>
    rw [hlookup] at h
    cases h
  | some session =>
    rw [hlookup] at h
    refine ⟨⟨session, rfl⟩, ?_⟩
    rw [lane?_of_lookup hlookup]
    cases hlane : session.lanes.lookup key.2 with
    | none => rfl
    | some lane =>
      simp only [hlane, Option.isSome_some, if_true] at h
      cases h

theorem check_ok {request : ServerCall} (h : s.check request = .ok ())
    (htarget : request.target = some key) :
    (∃ session, s.sessions.lookup key.1 = some session) ∧ s.lane? key = none := by
  cases request with
  | createSession _ | loadSession _ | shutdown => cases htarget
  | spawnLane sessionId laneId | resumeLane sessionId laneId | loadAndResume sessionId laneId =>
    cases htarget
    exact checkLane_ok h
  | forkLane sessionId fromLane newLane =>
    cases htarget
    apply checkLane_ok
    cases hcheck : s.checkLane (sessionId, newLane) with
    | ok _ => rfl
    | error e =>
      simp only [check, hcheck] at h
      cases h

theorem lane?_registerLane {session : SessionState}
    (h : s.sessions.lookup key.1 = some session) (i : ℕ) (key' : LaneKey) :
    (s.registerLane key i).lane? key' =
      if key' = key then some ⟨i, s.nextLaneGeneration⟩ else s.lane? key' := by
  have hlanes : (s.registerLane key i).lane? key' =
      (s.setLanes key.1 session
        (session.lanes.insert key.2 ⟨i, s.nextLaneGeneration⟩)).lane? key' := by
    rw [registerLane, h]
    rfl
  rw [hlanes, lane?_setLanes]
  by_cases hkey : key' = key
  · rw [if_pos hkey, hkey, if_pos rfl, AList.lookup_insert]
  · rw [if_neg hkey]
    split_ifs with hsession
    · have hlane : key'.2 ≠ key.2 := fun hlane => hkey (Prod.ext hsession hlane)
      rw [AList.lookup_insert_ne hlane, lane?, hsession, h]
      rfl
    · rfl

/-- The lane leaves the registry if its generation is the given one. -/
theorem lane?_removeLaneIfGeneration (s : AgentServer) (key : LaneKey) (generation : UInt64)
    (key' : LaneKey) :
    (s.removeLaneIfGeneration key generation).lane? key' =
      if key' = key ∧ (s.lane? key).map (·.generation) = some generation then none
      else s.lane? key' := by
  unfold removeLaneIfGeneration
  cases hlookup : s.sessions.lookup key.1 with
  | none =>
    have hnone : s.lane? key = none := by
      rw [lane?, hlookup]
      rfl
    rw [if_neg]
    rintro ⟨-, hgeneration⟩
    rw [hnone] at hgeneration
    cases hgeneration
  | some session =>
    rw [lane?_of_lookup hlookup]
    cases hlane : session.lanes.lookup key.2 with
    | none => simp [hlane]
    | some lane =>
      by_cases hgeneration : lane.generation = generation
      · simp only [hlane, hgeneration, if_true, Option.map_some, and_true]
        rw [lane?_setLanes]
        by_cases hkey : key' = key
        · rw [if_pos hkey, hkey, if_pos rfl, AList.lookup_erase]
        · rw [if_neg hkey]
          split_ifs with hsession
          · have hne : key'.2 ≠ key.2 := fun hlane => hkey (Prod.ext hsession hlane)
            rw [AList.lookup_erase_ne hne, lane?, hsession, hlookup]
            rfl
          · rfl
      · simp [hlane, hgeneration]

theorem lane?_removeSessionIfEmpty (s : AgentServer) (sessionId : SessionId) (key : LaneKey) :
    (s.removeSessionIfEmpty sessionId).lane? key = s.lane? key := by
  unfold removeSessionIfEmpty
  cases hlookup : s.sessions.lookup sessionId with
  | none => rfl
  | some session =>
    simp only
    split_ifs with hempty
    · by_cases hkey : key.1 = sessionId
      · have hnone : session.lanes.lookup key.2 = none := by
          rw [AList.lookup_eq_none, AList.mem_keys, AList.keys, List.isEmpty_iff.mp hempty]
          exact List.not_mem_nil
        rw [lane?, lane?, hkey, AList.lookup_erase, hlookup]
        exact hnone.symm
      · rw [lane?, AList.lookup_erase_ne hkey]
        rfl
    · rfl

theorem mem_registrations {key : LaneKey} {i : ℕ} :
    (key, i) ∈ s.registrations ↔ ∃ lane, s.lane? key = some lane ∧ lane.runtime = i := by
  constructor
  · intro h
    obtain ⟨⟨sessionId, session⟩, hsession, hkey⟩ := List.mem_flatMap.mp h
    obtain ⟨⟨laneId, lane⟩, hlane, hsame⟩ := List.mem_map.mp hkey
    obtain ⟨rfl, rfl⟩ := Prod.mk.inj hsame
    have hlookup : s.sessions.lookup sessionId = some session := AList.mem_lookup_iff.mpr hsession
    refine ⟨lane, ?_, rfl⟩
    rw [lane?_of_lookup hlookup]
    exact AList.mem_lookup_iff.mpr hlane
  · rintro ⟨lane, hlane, rfl⟩
    obtain ⟨session, hsession, hlookup⟩ := Option.bind_eq_some_iff.mp hlane
    refine List.mem_flatMap.mpr ⟨⟨key.1, session⟩, AList.mem_lookup_iff.mp hsession, ?_⟩
    exact List.mem_map.mpr ⟨⟨key.2, lane⟩, AList.mem_lookup_iff.mp hlookup, rfl⟩

theorem mem_runtimes : i ∈ s.runtimes ↔ s.Registered i := by
  constructor
  · intro h
    obtain ⟨⟨key, _⟩, hmem, rfl⟩ := List.mem_map.mp h
    obtain ⟨lane, hlane, hi⟩ := mem_registrations.mp hmem
    exact ⟨key, lane, hlane, hi⟩
  · rintro ⟨key, lane, hlane, hi⟩
    exact List.mem_map.mpr ⟨(key, i), mem_registrations.mpr ⟨lane, hlane, hi⟩, rfl⟩

/-- A registry holds no lane twice. -/
theorem nodup_registrations (s : AgentServer) : (s.registrations.map Prod.fst).Nodup := by
  rw [registrations, List.map_flatMap, List.nodup_flatMap]
  constructor
  · rintro ⟨sessionId, session⟩ -
    have hkeys : ((session.lanes.entries.map fun l => ((sessionId, l.1), l.2.runtime)).map
        Prod.fst) = session.lanes.keys.map (Prod.mk sessionId) := by
      rw [AList.keys, List.keys, List.map_map, List.map_map]
      rfl
    rw [hkeys]
    exact session.lanes.keys_nodup.map fun _ _ h => (Prod.mk.inj h).2
  · refine (List.nodupKeys_iff_pairwise.mp s.sessions.nodupKeys).imp ?_
    rintro ⟨sessionId, session⟩ ⟨sessionId', session'⟩ hne key hkey hkey'
    obtain ⟨_, hmem, rfl⟩ := List.mem_map.mp hkey
    obtain ⟨_, hmem', hsame⟩ := List.mem_map.mp hkey'
    obtain ⟨_, -, rfl⟩ := List.mem_map.mp hmem
    obtain ⟨_, -, rfl⟩ := List.mem_map.mp hmem'
    exact hne (congrArg Prod.fst hsame).symm

/-- How a runtime stands whose call is in that phase. -/
def Standing (s : AgentServer) (i : ℕ) : CallPhase → Prop
  | .spawned j => j = i ∧ ¬ s.Registered i ∧ (s.runtime i).generation = none
  | .persisting j g | .rollingBack j g _ => j = i ∧ (s.runtime i).generation = some g
  | .cleaning j _ => j = i ∧ ¬ s.Registered i
  | .cleaned _ | .failing _ | .returned (.error _) =>
    ¬ s.Registered i ∧ (s.runtime i).cancelled = true
  | .returned (.ok ()) => (s.runtime i).generation.isSome = true
  | .idle | .begun | .loaded | .checking | .checked | .stopping _ | .waiting _ => False

end AgentServer

/-- The runtime that a call works on. -/
def CallPhase.runtime? : CallPhase → Option ℕ
  | .spawned i | .persisting i _ | .rollingBack i _ _ | .cleaning i _ => some i
  | .idle | .begun | .loaded | .checking | .checked | .cleaned _ | .failing _ | .stopping _
  | .waiting _ | .returned _ => none

namespace AgentServer

/-- Every runtime stands as its call does. -/
structure Sound (s : AgentServer) : Prop where
  begun : ∀ c, s.nextCall ≤ c → (s.call c).phase = .idle
  listed : ∀ key lane, s.lane? key = some lane →
    lane.runtime < s.nextRuntime ∧
      (s.call (s.runtime lane.runtime).call).request.target = some key ∧
      (s.runtime lane.runtime).generation = some lane.generation
  working : ∀ c i, (s.call c).phase.runtime? = some i →
    i < s.nextRuntime ∧ (s.runtime i).call = c
  standing : ∀ i < s.nextRuntime, s.Standing i (s.call (s.runtime i).call).phase

variable {s : AgentServer} {c i : ℕ}

@[simp] theorem setPhase_self (s : AgentServer) (c : ℕ) (phase : CallPhase) :
    (s.setPhase c phase).call c = ⟨(s.call c).request, phase⟩ := Function.update_self ..

theorem setPhase_of_ne (s : AgentServer) {c d : ℕ} (hd : d ≠ c) (phase : CallPhase) :
    (s.setPhase c phase).call d = s.call d := Function.update_of_ne hd ..

@[simp] theorem setPhase_request (s : AgentServer) (c : ℕ) (phase : CallPhase) (d : ℕ) :
    ((s.setPhase c phase).call d).request = (s.call d).request := by
  by_cases hd : d = c
  · rw [hd, setPhase_self]
  · rw [s.setPhase_of_ne hd]

@[simp] theorem cancel_self (s : AgentServer) (i : ℕ) :
    (s.cancel i).runtime i = { s.runtime i with cancelled := true } := Function.update_self ..

theorem cancel_of_ne (s : AgentServer) {i j : ℕ} (hj : j ≠ i) :
    (s.cancel i).runtime j = s.runtime j := Function.update_of_ne hj ..

theorem registerLane_self {key : LaneKey} {session : SessionState}
    (h : s.sessions.lookup key.1 = some session) (i : ℕ) :
    (s.registerLane key i).runtime i =
      { s.runtime i with generation := some s.nextLaneGeneration } := by
  rw [registerLane, h]
  exact Function.update_self ..

theorem registerLane_of_ne (s : AgentServer) (key : LaneKey) {i j : ℕ} (hj : j ≠ i) :
    (s.registerLane key i).runtime j = s.runtime j := by
  unfold registerLane
  cases s.sessions.lookup key.1 with
  | some session => exact Function.update_of_ne hj ..
  | none => rfl

theorem registerLane_frame (s : AgentServer) (key : LaneKey) (i : ℕ) :
    (s.registerLane key i).call = s.call ∧ (s.registerLane key i).nextCall = s.nextCall ∧
      (s.registerLane key i).nextRuntime = s.nextRuntime := by
  unfold registerLane
  cases s.sessions.lookup key.1 with
  | some session => exact ⟨rfl, rfl, rfl⟩
  | none => exact ⟨rfl, rfl, rfl⟩

theorem removeLaneIfGeneration_frame (s : AgentServer) (key : LaneKey) (generation : UInt64) :
    (s.removeLaneIfGeneration key generation).call = s.call ∧
      (s.removeLaneIfGeneration key generation).nextCall = s.nextCall ∧
      (s.removeLaneIfGeneration key generation).nextRuntime = s.nextRuntime ∧
      (s.removeLaneIfGeneration key generation).runtime = s.runtime ∧
      (s.removeLaneIfGeneration key generation).nextLaneGeneration = s.nextLaneGeneration := by
  unfold removeLaneIfGeneration
  cases s.sessions.lookup key.1 with
  | none => exact ⟨rfl, rfl, rfl, rfl, rfl⟩
  | some session =>
    simp only
    split
    · split_ifs <;> exact ⟨rfl, rfl, rfl, rfl, rfl⟩
    · exact ⟨rfl, rfl, rfl, rfl, rfl⟩

theorem removeSessionIfEmpty_frame (s : AgentServer) (sessionId : SessionId) :
    (s.removeSessionIfEmpty sessionId).call = s.call ∧
      (s.removeSessionIfEmpty sessionId).nextCall = s.nextCall ∧
      (s.removeSessionIfEmpty sessionId).nextRuntime = s.nextRuntime ∧
      (s.removeSessionIfEmpty sessionId).runtime = s.runtime ∧
      (s.removeSessionIfEmpty sessionId).nextLaneGeneration = s.nextLaneGeneration := by
  unfold removeSessionIfEmpty
  cases s.sessions.lookup sessionId with
  | none => exact ⟨rfl, rfl, rfl, rfl, rfl⟩
  | some session =>
    simp only
    split_ifs <;> exact ⟨rfl, rfl, rfl, rfl, rfl⟩

/-- The standing of a runtime only sees whether it is registered, cancelled and numbered. -/
theorem Standing.mono {s' : AgentServer} {phase : CallPhase} (h : s.Standing i phase)
    (hregistered : s'.Registered i → s.Registered i)
    (hgeneration : (s'.runtime i).generation = (s.runtime i).generation)
    (hcancelled : (s.runtime i).cancelled = true → (s'.runtime i).cancelled = true) :
    s'.Standing i phase := by
  cases phase with
  | spawned j => exact ⟨h.1, fun hi => h.2.1 (hregistered hi), hgeneration.trans h.2.2⟩
  | persisting j g | rollingBack j g e => exact ⟨h.1, hgeneration.trans h.2⟩
  | cleaning j e => exact ⟨h.1, fun hi => h.2 (hregistered hi)⟩
  | cleaned e | failing e => exact ⟨fun hi => h.1 (hregistered hi), hcancelled h.2⟩
  | returned result =>
    cases result with
    | error e => exact ⟨fun hi => h.1 (hregistered hi), hcancelled h.2⟩
    | ok u =>
      show (s'.runtime i).generation.isSome = true
      rw [hgeneration]
      exact h
  | idle | begun | loaded | checking | checked | stopping rest | waiting rest => exact h

/-- What is registered was registered, when the registry has only lost lanes. -/
theorem Registered.of_lane? {s' : AgentServer}
    (hlanes : ∀ key lane, s'.lane? key = some lane → s.lane? key = some lane)
    (h : s'.Registered i) : s.Registered i := by
  obtain ⟨key, lane, hlane, hi⟩ := h
  exact ⟨key, lane, hlanes key lane hlane, hi⟩

namespace Sound

theorem new : Sound new where
  begun _ _ := rfl
  listed _ _ h := by cases h
  working _ _ h := by cases h
  standing _ h := absurd h (Nat.not_lt_zero _)

/-- A call goes on, and takes its own runtime with it. -/
theorem move (h : Sound s) {s' : AgentServer} {phase : CallPhase}
    (hcalled : (s.call c).phase ≠ .idle)
    (hcall : s'.call = (s.setPhase c phase).call) (hnextCall : s'.nextCall = s.nextCall)
    (hnextRuntime : s'.nextRuntime = s.nextRuntime)
    (howner : ∀ i, (s'.runtime i).call = (s.runtime i).call)
    (hlisted : ∀ key lane, s'.lane? key = some lane →
      lane.runtime < s.nextRuntime ∧
        (s.call (s.runtime lane.runtime).call).request.target = some key ∧
        (s'.runtime lane.runtime).generation = some lane.generation)
    (hothers : ∀ i, (s.runtime i).call ≠ c → (s'.Registered i → s.Registered i) ∧
      (s'.runtime i).generation = (s.runtime i).generation ∧
      ((s.runtime i).cancelled = true → (s'.runtime i).cancelled = true))
    (hworking : ∀ i, phase.runtime? = some i → i < s.nextRuntime ∧ (s.runtime i).call = c)
    (hown : ∀ i < s.nextRuntime, (s.runtime i).call = c → s'.Standing i phase) : Sound s' where
  begun d hd := by
    have hdc : d ≠ c := by
      rintro rfl
      exact hcalled (h.begun d (hnextCall ▸ hd))
    rw [hcall, s.setPhase_of_ne hdc]
    exact h.begun d (hnextCall ▸ hd)
  listed key lane hlane := by
    rw [hnextRuntime, howner, hcall, setPhase_request]
    exact hlisted key lane hlane
  working d i hi := by
    rw [hnextRuntime, howner]
    rw [hcall] at hi
    by_cases hdc : d = c
    · rw [hdc, setPhase_self] at hi
      rw [hdc]
      exact hworking i hi
    · rw [s.setPhase_of_ne hdc] at hi
      exact h.working d i hi
  standing i hi := by
    rw [hnextRuntime] at hi
    rw [howner, hcall]
    by_cases hic : (s.runtime i).call = c
    · rw [hic, setPhase_self]
      exact hown i hi hic
    · rw [s.setPhase_of_ne hic]
      obtain ⟨hregistered, hgeneration, hcancelled⟩ := hothers i hic
      exact (h.standing i hi).mono hregistered hgeneration hcancelled

/-- Only the phase of the call changes. -/
theorem setPhase (h : Sound s) {phase : CallPhase} (hcalled : (s.call c).phase ≠ .idle)
    (hworking : ∀ i, phase.runtime? = some i → i < s.nextRuntime ∧ (s.runtime i).call = c)
    (hown : ∀ i < s.nextRuntime, (s.runtime i).call = c → s.Standing i phase) :
    Sound (s.setPhase c phase) := by
  refine h.move hcalled rfl rfl rfl (fun _ => rfl) h.listed (fun i _ => ?_) hworking ?_
  · exact ⟨id, rfl, id⟩
  · exact fun i hi hic => (hown i hi hic).mono id rfl id

/-- A call without a runtime changes neither the lanes that are left nor the runtimes. -/
theorem pass (h : Sound s) {s' : AgentServer} {phase : CallPhase}
    (hcalled : (s.call c).phase ≠ .idle) (hnone : ∀ i < s.nextRuntime, (s.runtime i).call ≠ c)
    (hcall : s'.call = (s.setPhase c phase).call) (hnextCall : s'.nextCall = s.nextCall)
    (hnextRuntime : s'.nextRuntime = s.nextRuntime)
    (hruntime : ∀ i, (s'.runtime i).call = (s.runtime i).call ∧
      (s'.runtime i).generation = (s.runtime i).generation ∧
      ((s.runtime i).cancelled = true → (s'.runtime i).cancelled = true))
    (hlanes : ∀ key lane, s'.lane? key = some lane → s.lane? key = some lane)
    (hphase : phase.runtime? = none) : Sound s' := by
  refine h.move hcalled hcall hnextCall hnextRuntime (fun i => (hruntime i).1) ?_ ?_ ?_ ?_
  · intro key lane hlane
    obtain ⟨hlt, htarget, hgeneration⟩ := h.listed key lane (hlanes key lane hlane)
    exact ⟨hlt, htarget, (hruntime _).2.1.trans hgeneration⟩
  · exact fun i _ => ⟨Registered.of_lane? hlanes, (hruntime i).2⟩
  · intro i hi
    cases hphase.symm.trans hi
  · exact fun i hi hic => absurd hic (hnone i hi)

theorem setPhase_pass (h : Sound s) {phase : CallPhase} (hcalled : (s.call c).phase ≠ .idle)
    (hnone : ∀ i < s.nextRuntime, (s.runtime i).call ≠ c) (hphase : phase.runtime? = none) :
    Sound (s.setPhase c phase) :=
  h.pass hcalled hnone rfl rfl rfl (fun _ => ⟨rfl, rfl, id⟩) (fun _ _ hlane => hlane) hphase

/-- What a runtime has to do, and whether its handles are there, does not matter here. -/
theorem reruntime (h : Sound s) {runtime : ℕ → RuntimeTask}
    (hsame : ∀ i, (runtime i).call = (s.runtime i).call ∧
      (runtime i).generation = (s.runtime i).generation ∧
      (runtime i).cancelled = (s.runtime i).cancelled) : Sound { s with runtime := runtime } where
  begun := h.begun
  listed key lane hlane := by
    obtain ⟨hrun, htarget, hgeneration⟩ := h.listed key lane hlane
    refine ⟨hrun, ?_, (hsame _).2.1.trans hgeneration⟩
    show (s.call (runtime _).call).request.target = _
    rw [(hsame _).1]
    exact htarget
  working c i hi := by
    obtain ⟨hrun, howner⟩ := h.working c i hi
    exact ⟨hrun, (hsame i).1.trans howner⟩
  standing i hi := by
    show Standing _ i (s.call (runtime i).call).phase
    rw [(hsame i).1]
    exact (h.standing i hi).mono id (hsame i).2.1 (hsame i).2.2.trans

theorem dropHandles (h : Sound s) (rest : List ℕ) : Sound (s.dropHandles rest) := by
  refine h.reruntime fun i => ?_
  split_ifs
  · exact ⟨rfl, rfl, rfl⟩
  · exact ⟨rfl, rfl, rfl⟩

theorem work (h : Sound s) (i : ℕ) (busy : Bool) : Sound (s.work i busy) := by
  refine h.reruntime fun j => ?_
  rw [Function.update_apply]
  split_ifs with hj
  · rw [hj]
    exact ⟨rfl, rfl, rfl⟩
  · exact ⟨rfl, rfl, rfl⟩

theorem proceed (h : Sound s) (hcalled : (s.call c).phase ≠ .idle)
    (hnone : ∀ i < s.nextRuntime, (s.runtime i).call ≠ c) (fault : Option ServerError)
    {phase : CallPhase} (hphase : phase.runtime? = none) : Sound (s.proceed c fault phase) := by
  cases fault with
  | some e => exact h.setPhase_pass hcalled hnone rfl
  | none => exact h.setPhase_pass hcalled hnone hphase

theorem insertSession (h : Sound s) (hcalled : (s.call c).phase ≠ .idle)
    (hnone : ∀ i < s.nextRuntime, (s.runtime i).call ≠ c) (sessionId : SessionId)
    {phase : CallPhase} (hphase : phase.runtime? = none) :
    Sound (s.insertSession c sessionId phase) := by
  unfold AgentServer.insertSession
  cases hlookup : s.sessions.lookup sessionId with
  | some session => exact h.setPhase_pass hcalled hnone rfl
  | none =>
    refine h.pass hcalled hnone rfl rfl rfl (fun _ => ⟨rfl, rfl, id⟩) ?_ hphase
    intro key lane hlane
    rw [lane?_setPhase, lane?_registerSession hlookup] at hlane
    exact hlane

theorem start (h : Sound s) (hcalled : (s.call c).phase ≠ .idle)
    (hnone : ∀ i < s.nextRuntime, (s.runtime i).call ≠ c) (fault : Option ServerError)
    (request : ServerCall) : Sound (s.start c fault request) := by
  cases request with
  | createSession sessionId => exact h.insertSession hcalled hnone sessionId rfl
  | loadSession sessionId | loadAndResume sessionId laneId =>
    exact h.proceed hcalled hnone fault rfl
  | spawnLane sessionId laneId | forkLane sessionId fromLane newLane =>
    exact h.setPhase_pass hcalled hnone rfl
  | resumeLane sessionId laneId =>
    simp only [AgentServer.start]
    cases s.sessions.lookup sessionId with
    | some session => exact h.proceed hcalled hnone fault rfl
    | none => exact h.setPhase_pass hcalled hnone rfl
  | shutdown =>
    refine h.pass hcalled hnone rfl rfl rfl (fun i => ?_) nofun rfl
    show (s.drain.runtime i).call = _ ∧ (s.drain.runtime i).generation = _ ∧
      (_ → (s.drain.runtime i).cancelled = true)
    simp only [drain]
    split_ifs
    · exact ⟨rfl, rfl, id⟩
    · exact ⟨rfl, rfl, id⟩

/-- A new runtime stands as unregistered. -/
theorem spawn (h : Sound s) (hcalled : (s.call c).phase ≠ .idle)
    (hnone : ∀ i < s.nextRuntime, (s.runtime i).call ≠ c) :
    Sound ((s.spawn c).setPhase c (.spawned s.nextRuntime)) := by
  have hself : (s.spawn c).runtime s.nextRuntime = ⟨c, none, false, false, false, false⟩ :=
    Function.update_self ..
  have hold : ∀ i, i < s.nextRuntime → (s.spawn c).runtime i = s.runtime i :=
    fun i hi => Function.update_of_ne hi.ne ..
  have hcall : ∀ d, d ≠ c →
      ((s.spawn c).setPhase c (.spawned s.nextRuntime)).call d = s.call d :=
    fun d hd => (s.spawn c).setPhase_of_ne hd _
  have hlt : ∀ {i}, i < s.nextRuntime → i < s.nextRuntime + 1 := Nat.lt_succ_of_lt
  constructor
  · intro d hd
    have hdc : d ≠ c := by
      rintro rfl
      exact hcalled (h.begun d hd)
    rw [hcall d hdc]
    exact h.begun d hd
  · intro key lane hlane
    obtain ⟨hrun, htarget, hgeneration⟩ := h.listed key lane hlane
    refine ⟨hlt hrun, ?_, ?_⟩
    · rw [setPhase_request]
      exact (congrArg (fun r => (s.call r.call).request.target) (hold _ hrun)).trans htarget
    · exact (congrArg RuntimeTask.generation (hold _ hrun)).trans hgeneration
  · intro d i hi
    by_cases hdc : d = c
    · rw [hdc, setPhase_self] at hi
      rw [← Option.some.inj hi, hdc]
      exact ⟨Nat.lt_succ_self _, congrArg RuntimeTask.call hself⟩
    · rw [hcall d hdc] at hi
      obtain ⟨hrun, howner⟩ := h.working d i hi
      exact ⟨hlt hrun, (congrArg RuntimeTask.call (hold i hrun)).trans howner⟩
  · intro i hi
    show Standing _ i (((s.spawn c).setPhase c (.spawned s.nextRuntime)).call
      ((s.spawn c).runtime i).call).phase
    rcases Nat.lt_succ_iff_lt_or_eq.mp hi with hi | rfl
    · rw [hold i hi, hcall _ (hnone i hi)]
      refine (h.standing i hi).mono id ?_ fun hcancelled => ?_
      · exact congrArg RuntimeTask.generation (hold i hi)
      · exact (congrArg RuntimeTask.cancelled (hold i hi)).trans hcancelled
    · rw [hself, setPhase_self]
      refine ⟨rfl, ?_, congrArg RuntimeTask.generation hself⟩
      rintro ⟨key, lane, hlane, hlast⟩
      exact absurd (h.listed key lane hlane).1 hlast.not_lt

/-- The lane of the call enters the registry. -/
theorem registerLane (h : Sound s) {phase : CallPhase} {key : LaneKey} {session : SessionState}
    (hspawned : (s.call c).phase = .spawned i) (htarget : (s.call c).request.target = some key)
    (hsession : s.sessions.lookup key.1 = some session)
    (hphase : phase = .persisting i s.nextLaneGeneration ∨ phase = .returned (.ok ())) :
    Sound ((s.registerLane key i).setPhase c phase) := by
  obtain ⟨hrun, howner⟩ := h.working c i (by rw [hspawned]; rfl)
  have hself := registerLane_self hsession i
  have hother : ∀ j, j ≠ i → (s.registerLane key i).runtime j = s.runtime j :=
    fun j hj => s.registerLane_of_ne key hj
  have hsame : ∀ j, ((s.registerLane key i).runtime j).call = (s.runtime j).call := by
    intro j
    by_cases hj : j = i
    · rw [hj, hself]
    · rw [hother j hj]
  obtain ⟨hcalls, hnextCall, hnextRuntime⟩ := s.registerLane_frame key i
  have hcall : ((s.registerLane key i).setPhase c phase).call = (s.setPhase c phase).call := by
    show Function.update _ _ _ = Function.update _ _ _
    rw [hcalls]
  refine h.move (by rw [hspawned]; nofun) hcall hnextCall hnextRuntime hsame ?_ ?_ ?_ ?_
  · intro key' lane hlane
    rw [lane?_setPhase, lane?_registerLane hsession] at hlane
    split_ifs at hlane with hkey
    · rw [← Option.some.inj hlane, hkey, howner]
      exact ⟨hrun, htarget, congrArg RuntimeTask.generation hself⟩
    · obtain ⟨hlt, htarget', hgeneration⟩ := h.listed key' lane hlane
      refine ⟨hlt, htarget', ?_⟩
      have hne : lane.runtime ≠ i := by
        rintro rfl
        have hunregistered := (h.standing _ hrun)
        rw [howner, hspawned] at hunregistered
        exact hunregistered.2.1 ⟨key', lane, hlane, rfl⟩
      exact (congrArg RuntimeTask.generation (hother _ hne)).trans hgeneration
  · intro j hj
    have hne : j ≠ i := by
      rintro rfl
      exact hj howner
    have hrest := hother j hne
    refine ⟨?_, congrArg RuntimeTask.generation hrest, ?_⟩
    · rintro ⟨key', lane, hlane, hlast⟩
      rw [lane?_setPhase, lane?_registerLane hsession] at hlane
      split_ifs at hlane
      · rw [← Option.some.inj hlane] at hlast
        exact absurd hlast.symm hne
      · exact ⟨key', lane, hlane, hlast⟩
    · exact (congrArg RuntimeTask.cancelled hrest).trans
  · intro j hj
    rcases hphase with rfl | rfl
    · rw [← Option.some.inj hj]
      exact ⟨hrun, howner⟩
    · cases hj
  · intro j hj hjc
    obtain rfl : i = j := by
      have hstanding := h.standing j hj
      rw [hjc, hspawned] at hstanding
      exact hstanding.1
    rcases hphase with rfl | rfl
    · exact ⟨rfl, congrArg RuntimeTask.generation hself⟩
    · show ((s.registerLane key i).runtime i).generation.isSome = true
      rw [hself]
      rfl

/-- The lane of the call leaves the registry again. -/
theorem rollBack (h : Sound s) {g : UInt64} {e : ServerError} {key : LaneKey}
    (hphase : (s.call c).phase = .rollingBack i g e)
    (htarget : (s.call c).request.target = some key) :
    Sound ((s.removeLaneIfGeneration key g).setPhase c (.cleaning i e)) := by
  obtain ⟨hrun, howner⟩ := h.working c i (by rw [hphase]; rfl)
  obtain ⟨hcalls, hnextCall, hnextRuntime, hruntime, -⟩ := s.removeLaneIfGeneration_frame key g
  have hstanding := h.standing i hrun
  rw [howner, hphase] at hstanding
  have hlanes : ∀ key' lane, (s.removeLaneIfGeneration key g).lane? key' = some lane →
      s.lane? key' = some lane := by
    intro key' lane hlane
    rw [lane?_removeLaneIfGeneration] at hlane
    split_ifs at hlane
    exact hlane
  have hcall : ((s.removeLaneIfGeneration key g).setPhase c (.cleaning i e)).call =
      (s.setPhase c (.cleaning i e)).call := by
    show Function.update _ _ _ = Function.update _ _ _
    rw [hcalls]
  have hsame : ∀ j, ((s.removeLaneIfGeneration key g).setPhase c (.cleaning i e)).runtime j =
      s.runtime j := fun j => congrFun hruntime j
  refine h.move (by rw [hphase]; nofun) hcall hnextCall hnextRuntime (fun j => by rw [hsame])
    ?_ ?_ ?_ ?_
  · intro key' lane hlane
    rw [hsame]
    exact h.listed key' lane (hlanes key' lane hlane)
  · intro j _
    rw [hsame]
    exact ⟨Registered.of_lane? hlanes, rfl, id⟩
  · intro j hj
    rw [← Option.some.inj hj]
    exact ⟨hrun, howner⟩
  · intro j hj hjc
    obtain rfl : i = j := by
      have hother := h.standing j hj
      rw [hjc, hphase] at hother
      exact hother.1
    refine ⟨rfl, ?_⟩
    rintro ⟨key', lane, hlane, rfl⟩
    -- its own lane is under its own key, with its own generation
    obtain ⟨-, hkey, hgeneration⟩ := h.listed key' lane (hlanes key' lane hlane)
    rw [howner, htarget] at hkey
    obtain rfl := Option.some.inj hkey
    rw [lane?_setPhase, lane?_removeLaneIfGeneration] at hlane
    split_ifs at hlane with hmatch
    refine hmatch ⟨rfl, ?_⟩
    rw [hlane, Option.map_some, ← hgeneration]
    exact hstanding.2

theorem clean (h : Sound s) {e : ServerError} (hphase : (s.call c).phase = .cleaning i e) :
    Sound ((s.cancel i).setPhase c (.cleaned e)) := by
  obtain ⟨hrun, howner⟩ := h.working c i (by rw [hphase]; rfl)
  have hruntime : ∀ j, ((s.cancel i).runtime j).call = (s.runtime j).call ∧
      ((s.cancel i).runtime j).generation = (s.runtime j).generation ∧
      ((s.runtime j).cancelled = true → ((s.cancel i).runtime j).cancelled = true) := by
    intro j
    by_cases hj : j = i
    · rw [hj, cancel_self]
      exact ⟨rfl, rfl, fun _ => rfl⟩
    · rw [s.cancel_of_ne hj]
      exact ⟨rfl, rfl, id⟩
  refine h.move (by rw [hphase]; nofun) rfl rfl rfl (fun j => (hruntime j).1) ?_ ?_ nofun ?_
  · intro key lane hlane
    obtain ⟨hlt, htarget, hgeneration⟩ := h.listed key lane hlane
    exact ⟨hlt, htarget, (hruntime _).2.1.trans hgeneration⟩
  · exact fun j _ => ⟨id, (hruntime j).2⟩
  · intro j hj hjc
    have hstanding := h.standing j hj
    rw [hjc, hphase] at hstanding
    obtain ⟨rfl, hunregistered⟩ := hstanding
    exact ⟨hunregistered, congrArg RuntimeTask.cancelled (s.cancel_self i)⟩

theorem fail (h : Sound s) {e : ServerError} (hcalled : (s.call c).phase ≠ .idle)
    (hown : ∀ i < s.nextRuntime, (s.runtime i).call = c →
      ¬ s.Registered i ∧ (s.runtime i).cancelled = true) : Sound (s.fail c e) := by
  unfold AgentServer.fail
  split
  · exact h.setPhase hcalled nofun hown
  · exact h.setPhase hcalled nofun hown
  · exact h.setPhase hcalled nofun hown
  · exact h.setPhase hcalled nofun hown
  · exact h.setPhase hcalled nofun hown
  · exact h.setPhase hcalled nofun hown
  · exact h.setPhase hcalled nofun hown

theorem rollBackSession (h : Sound s) {e : ServerError} (sessionId : SessionId)
    (hphase : (s.call c).phase = .failing e) :
    Sound ((s.removeSessionIfEmpty sessionId).setPhase c (.returned (.error e))) := by
  obtain ⟨hcalls, hnextCall, hnextRuntime, hruntime, -⟩ := s.removeSessionIfEmpty_frame sessionId
  have hcall : ((s.removeSessionIfEmpty sessionId).setPhase c (.returned (.error e))).call =
      (s.setPhase c (.returned (.error e))).call := by
    show Function.update _ _ _ = Function.update _ _ _
    rw [hcalls]
  have hsame : ∀ j, ((s.removeSessionIfEmpty sessionId).setPhase c
      (.returned (.error e))).runtime j = s.runtime j := fun j => congrFun hruntime j
  have hlanes : ∀ key lane, ((s.removeSessionIfEmpty sessionId).setPhase c
      (.returned (.error e))).lane? key = some lane → s.lane? key = some lane := by
    intro key lane hlane
    rwa [lane?_setPhase, lane?_removeSessionIfEmpty] at hlane
  refine h.move (by rw [hphase]; nofun) hcall hnextCall hnextRuntime (fun j => by rw [hsame])
    ?_ ?_ nofun ?_
  · intro key lane hlane
    rw [hsame]
    exact h.listed key lane (hlanes key lane hlane)
  · intro j _
    rw [hsame]
    exact ⟨Registered.of_lane? hlanes, rfl, id⟩
  · intro j hj hjc
    have hstanding := h.standing j hj
    rw [hjc, hphase] at hstanding
    refine ⟨fun hregistered => hstanding.1 (hregistered.of_lane? hlanes), ?_⟩
    rw [hsame]
    exact hstanding.2

theorem go (h : Sound s) (c : ℕ) (fault : Option ServerError) : Sound (s.go c fault) := by
  -- a call in front of its spawn has no runtime
  have hnone : ∀ {phase : CallPhase}, (s.call c).phase = phase →
      (∀ i, s.Standing i phase → False) → ∀ i < s.nextRuntime, (s.runtime i).call ≠ c := by
    intro phase hphase hfalse i hi hic
    have hstanding := h.standing i hi
    rw [hic, hphase] at hstanding
    exact hfalse i hstanding
  simp only [AgentServer.go]
  split
  · rename_i hphase
    exact h.start (by rw [hphase]; nofun) (hnone hphase fun _ => id) fault _
  · rename_i hphase
    split
    · exact h.insertSession (by rw [hphase]; nofun) (hnone hphase fun _ => id) _ rfl
    · exact h.insertSession (by rw [hphase]; nofun) (hnone hphase fun _ => id) _ rfl
    · exact h
  · rename_i hphase
    split
    · refine h.fail (by rw [hphase]; nofun) fun i hi hic => ?_
      exact absurd hic (hnone hphase (fun _ => id) i hi)
    · exact h.setPhase_pass (by rw [hphase]; nofun) (hnone hphase fun _ => id) rfl
  · rename_i hphase
    exact h.spawn (by rw [hphase]; nofun) (hnone hphase fun _ => id)
  · rename_i i hphase
    obtain ⟨hrun, howner⟩ := h.working c i (by rw [hphase]; rfl)
    split
    · refine h.setPhase (by rw [hphase]; nofun) (fun j hj => ?_) fun j hj hjc => ?_
      · rw [← Option.some.inj hj]
        exact ⟨hrun, howner⟩
      · have hstanding := h.standing j hj
        rw [hjc, hphase] at hstanding
        exact ⟨hstanding.1, hstanding.2.1⟩
    · rename_i key hcheck htarget
      obtain ⟨⟨session, hsession⟩, -⟩ := check_ok hcheck htarget
      refine h.registerLane hphase htarget hsession ?_
      split_ifs
      · exact .inl rfl
      · exact .inr rfl
    · exact h
  · rename_i i g hphase
    obtain ⟨hrun, howner⟩ := h.working c i (by rw [hphase]; rfl)
    have hown : ∀ j < s.nextRuntime, (s.runtime j).call = c →
        i = j ∧ (s.runtime j).generation = some g := by
      intro j hj hjc
      have hstanding := h.standing j hj
      rw [hjc, hphase] at hstanding
      exact hstanding
    split
    · refine h.setPhase (by rw [hphase]; nofun) (fun j hj => ?_) hown
      rw [← Option.some.inj hj]
      exact ⟨hrun, howner⟩
    · refine h.setPhase (by rw [hphase]; nofun) nofun fun j hj hjc => ?_
      exact Option.isSome_iff_exists.mpr ⟨g, (hown j hj hjc).2⟩
  · rename_i i g e hphase
    split
    · rename_i key htarget
      exact (h.rollBack hphase htarget).dropHandles _
    · exact h
  · rename_i i e hphase
    exact h.clean hphase
  · rename_i e hphase
    refine h.fail (by rw [hphase]; nofun) fun i hi hic => ?_
    have hstanding := h.standing i hi
    rw [hic, hphase] at hstanding
    exact hstanding
  · rename_i e hphase
    split
    · exact h.rollBackSession _ hphase
    · exact h
  · rename_i hphase
    exact h.setPhase_pass (by rw [hphase]; nofun) (hnone hphase fun _ => id) rfl
  · rename_i rest hphase
    have hset : ∀ {phase : CallPhase}, phase.runtime? = none → Sound (s.setPhase c phase) :=
      h.setPhase_pass (by rw [hphase]; nofun) (hnone hphase fun _ => id)
    split
    · exact (hset rfl).dropHandles rest
    · exact hset rfl
  · exact h
  · exact h
  · exact h

theorem step (h : Sound s) (a : ServerAction) : Sound (s.step a) := by
  cases a with
  | begin request =>
    have hold : ∀ d, (s.call d).phase ≠ .idle → (s.step (.begin request)).call d = s.call d := by
      intro d hd
      refine Function.update_of_ne ?_ ..
      rintro rfl
      exact hd (h.begun _ le_rfl)
    have hcall : ∀ i < s.nextRuntime,
        (s.step (.begin request)).call (s.runtime i).call = s.call (s.runtime i).call := by
      intro i hi
      refine hold _ fun hidle => ?_
      have hstanding := h.standing i hi
      rw [hidle] at hstanding
      exact hstanding
    constructor
    · intro d hd
      have hne : d ≠ s.nextCall := Nat.ne_of_gt hd
      have hsame : (s.step (.begin request)).call d = s.call d := Function.update_of_ne hne ..
      rw [hsame]
      exact h.begun d (Nat.le_of_lt hd)
    · intro key lane hlane
      obtain ⟨hrun, htarget, hgeneration⟩ := h.listed key lane hlane
      refine ⟨hrun, ?_, hgeneration⟩
      exact (congrArg (fun call => call.request.target) (hcall _ hrun)).trans htarget
    · intro d i hi
      by_cases hd : d = s.nextCall
      · have hnew : (s.step (.begin request)).call s.nextCall = ⟨request, .begun⟩ :=
          Function.update_self ..
        rw [hd, hnew] at hi
        cases hi
      · have hsame : (s.step (.begin request)).call d = s.call d := Function.update_of_ne hd ..
        rw [hsame] at hi
        exact h.working d i hi
    · intro i hi
      show Standing _ i ((s.step (.begin request)).call (s.runtime i).call).phase
      rw [hcall i hi]
      exact (h.standing i hi).mono id rfl id
  | go c fault => exact h.go c fault
  | stop c i =>
    simp only [AgentServer.step]
    split
    · rename_i rest hphase
      split_ifs
      · refine h.pass (by rw [hphase]; nofun) (fun j hj hjc => ?_) rfl rfl rfl (fun j => ?_)
          (fun _ _ hlane => hlane) rfl
        · have hstanding := h.standing j hj
          rw [hjc, hphase] at hstanding
          exact hstanding
        · show ((s.cancel i).runtime j).call = _ ∧ ((s.cancel i).runtime j).generation = _ ∧
            (_ → ((s.cancel i).runtime j).cancelled = true)
          by_cases hj : j = i
          · rw [hj, cancel_self]
            exact ⟨rfl, rfl, fun _ => rfl⟩
          · rw [s.cancel_of_ne hj]
            exact ⟨rfl, rfl, id⟩
      · exact h
    · exact h
  | work i busy => exact h.work i busy

end Sound

end AgentServer

end Guigu.Server
