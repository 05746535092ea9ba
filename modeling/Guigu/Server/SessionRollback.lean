import Guigu.Server.Registry

/-! A session is loaded and its lane resumed in one request; when the lane cannot be created, the
session leaves the registry again. -/
namespace Guigu.Server

/-- A call that has registered a session can be there. -/
def CallPhase.registered : CallPhase → Bool
  | .checking | .checked | .spawned _ | .persisting _ _ | .rollingBack _ _ _ | .cleaning _ _
  | .cleaned _ | .failing _ | .returned _ => true
  | .idle | .begun | .loaded | .stopping _ | .waiting _ => false

namespace AgentServer

/-- The call that has registered the session in the registry. -/
def registrant? (s : AgentServer) (sessionId : SessionId) : Option ℕ :=
  (s.sessions.lookup sessionId).map (·.registrant)

/-- With this action the call returns an error. -/
def Fails (s : AgentServer) (a : ServerAction) (c : ℕ) (e : ServerError) : Prop :=
  (∃ fault, a = .go c fault) ∧ (∀ result, (s.call c).phase ≠ .returned result) ∧
    ((s.step a).call c).phase = .returned (.error e)

/-- A failed call leaves none of its sessions behind. -/
def LeavesNone (s : AgentServer) (a : ServerAction) : Prop :=
  ∀ c sessionId laneId e, (s.call c).request = .loadAndResume sessionId laneId →
    s.Fails a c e → ∀ sessionId', (s.step a).registrant? sessionId' ≠ some c

/-- The call removes no session of another one. -/
def KeepsOthers (s : AgentServer) (a : ServerAction) : Prop :=
  ∀ c sessionId laneId fault, (s.call c).request = .loadAndResume sessionId laneId →
    a = .go c fault → ∀ sessionId' d, s.registrant? sessionId' = some d → d ≠ c →
      (s.step a).registrant? sessionId' = some d

/-- A session that a failed call leaves behind holds the lane of another call. -/
def LeavesJoined (s : AgentServer) (a : ServerAction) : Prop :=
  ∀ c sessionId laneId e, (s.call c).request = .loadAndResume sessionId laneId →
    s.Fails a c e → ∀ sessionId' session, (s.step a).sessions.lookup sessionId' = some session →
      session.registrant = c →
        ∃ laneId' lane, session.lanes.lookup laneId' = some lane ∧
          ((s.step a).runtime lane.runtime).call ≠ c

/-- The call removes no session of another one, save an empty one under its own name. -/
def KeepsOccupied (s : AgentServer) (a : ServerAction) : Prop :=
  ∀ c sessionId laneId fault, (s.call c).request = .loadAndResume sessionId laneId →
    a = .go c fault → ∀ sessionId' session, s.sessions.lookup sessionId' = some session →
      session.registrant ≠ c → sessionId' ≠ sessionId ∨ session.lanes ≠ ∅ →
        (s.step a).registrant? sessionId' = some session.registrant

variable {s : AgentServer} {c i : ℕ} {key : LaneKey} {sessionId : SessionId}

@[simp] theorem registrant?_setPhase (s : AgentServer) (c : ℕ) (phase : CallPhase)
    (sessionId : SessionId) :
    (s.setPhase c phase).registrant? sessionId = s.registrant? sessionId := rfl

theorem registrant?_registerSession (s : AgentServer) (c : ℕ) (sessionId sessionId' : SessionId) :
    (s.registerSession c sessionId).registrant? sessionId' =
      if sessionId' = sessionId then some c else s.registrant? sessionId' := by
  unfold registrant? registerSession
  split_ifs with hsame
  · rw [hsame, AList.lookup_insert]
    rfl
  · rw [AList.lookup_insert_ne hsame]

/-- Its lanes change, the session stays. -/
theorem registrant?_setLanes {session : SessionState}
    (h : s.sessions.lookup sessionId = some session) (lanes : AList fun _ : LaneId => LaneRuntime)
    (sessionId' : SessionId) :
    (s.setLanes sessionId session lanes).registrant? sessionId' = s.registrant? sessionId' := by
  unfold registrant? setLanes
  by_cases hsame : sessionId' = sessionId
  · rw [hsame, AList.lookup_insert, h]
    rfl
  · rw [AList.lookup_insert_ne hsame]

@[simp] theorem registrant?_dropHandles (s : AgentServer) (rest : List ℕ)
    (sessionId : SessionId) :
    (s.dropHandles rest).registrant? sessionId = s.registrant? sessionId := rfl

@[simp] theorem registrant?_registerLane (s : AgentServer) (key : LaneKey) (i : ℕ)
    (sessionId : SessionId) :
    (s.registerLane key i).registrant? sessionId = s.registrant? sessionId := by
  unfold registerLane
  cases hlookup : s.sessions.lookup key.1 with
  | none => rfl
  | some session => exact registrant?_setLanes hlookup _ sessionId

@[simp] theorem registrant?_removeLaneIfGeneration (s : AgentServer) (key : LaneKey)
    (generation : UInt64) (sessionId : SessionId) :
    (s.removeLaneIfGeneration key generation).registrant? sessionId =
      s.registrant? sessionId := by
  unfold removeLaneIfGeneration
  cases hlookup : s.sessions.lookup key.1 with
  | none => rfl
  | some session =>
    simp only
    split
    · split_ifs
      · exact registrant?_setLanes hlookup _ sessionId
      · rfl
    · rfl

/-- What the rollback leaves is under another name, or holds a lane. -/
theorem lookup_removeSessionIfEmpty (s : AgentServer) (sessionId sessionId' : SessionId)
    (session : SessionState) :
    (s.removeSessionIfEmpty sessionId).sessions.lookup sessionId' = some session ↔
      s.sessions.lookup sessionId' = some session ∧
        (sessionId' ≠ sessionId ∨ session.lanes ≠ ∅) := by
  have hempty : ∀ lanes : AList fun _ : LaneId => LaneRuntime,
      lanes.entries.isEmpty = true ↔ lanes = ∅ := by
    intro lanes
    rw [List.isEmpty_iff]
    exact ⟨fun h => AList.ext h, fun h => congrArg AList.entries h⟩
  unfold removeSessionIfEmpty
  cases hlookup : s.sessions.lookup sessionId with
  | none =>
    refine ⟨fun h => ⟨h, .inl ?_⟩, And.left⟩
    rintro rfl
    cases hlookup.symm.trans h
  | some session₀ =>
    simp only
    by_cases hsame : sessionId' = sessionId
    · rw [hsame, hlookup]
      split_ifs with hnone
      · rw [AList.lookup_erase]
        refine ⟨nofun, ?_⟩
        rintro ⟨hsession, hdistinct | hlanes⟩
        · exact absurd rfl hdistinct
        · exact absurd ((hempty _).mp hnone) (Option.some.inj hsession ▸ hlanes)
      · rw [hlookup]
        refine ⟨fun h => ⟨h, .inr ?_⟩, And.left⟩
        rw [← Option.some.inj h]
        exact fun hlanes => hnone ((hempty _).mpr hlanes)
    · have hkept : ∀ s' : AgentServer,
          s' = (if session₀.lanes.entries.isEmpty then
            { s with sessions := s.sessions.erase sessionId } else s) →
          s'.sessions.lookup sessionId' = s.sessions.lookup sessionId' := by
        rintro s' rfl
        split_ifs
        · exact AList.lookup_erase_ne hsame
        · rfl
      rw [hkept _ rfl]
      exact ⟨fun h => ⟨h, .inl hsame⟩, And.left⟩

/-- Every session in the registry is of a call that was to register it and has got that far. -/
def Founded (s : AgentServer) : Prop :=
  ∀ sessionId d, s.registrant? sessionId = some d →
    (s.call d).request.session? = some sessionId ∧ (s.call d).phase.registered = true

namespace Founded

theorem new : Founded new := fun _ _ h => by cases h

/-- A call goes on, and registers at most the session that it is to register. -/
theorem move (h : Founded s) {s' : AgentServer} {phase : CallPhase}
    (hcall : s'.call = (s.setPhase c phase).call)
    (hphase : (s.call c).phase.registered = true → phase.registered = true)
    (hsessions : ∀ sessionId d, s'.registrant? sessionId = some d →
      s.registrant? sessionId = some d ∨
        d = c ∧ (s.call c).request.session? = some sessionId ∧ phase.registered = true) :
    Founded s' := by
  intro sessionId d hd
  rw [hcall, setPhase_request]
  rcases hsessions sessionId d hd with hold | ⟨rfl, hrequest, hnew⟩
  · obtain ⟨hrequest, hregistered⟩ := h sessionId d hold
    refine ⟨hrequest, ?_⟩
    by_cases hdc : d = c
    · rw [hdc, setPhase_self]
      exact hphase (hdc ▸ hregistered)
    · rwa [s.setPhase_of_ne hdc]
  · rw [setPhase_self]
    exact ⟨hrequest, hnew⟩

/-- The call registers no session. -/
theorem pass (h : Founded s) {s' : AgentServer} {phase : CallPhase}
    (hcall : s'.call = s.call)
    (hphase : (s.call c).phase.registered = true → phase.registered = true)
    (hsessions : ∀ sessionId d, s'.registrant? sessionId = some d →
      s.registrant? sessionId = some d) : Founded (s'.setPhase c phase) := by
  refine h.move ?_ hphase fun sessionId d hd => .inl (hsessions sessionId d hd)
  show Function.update _ _ _ = Function.update _ _ _
  rw [hcall]

theorem setPhase (h : Founded s) {phase : CallPhase}
    (hphase : (s.call c).phase.registered = true → phase.registered = true) :
    Founded (s.setPhase c phase) :=
  h.pass rfl hphase fun _ _ => id

theorem proceed (h : Founded s) (hphase : (s.call c).phase.registered = false)
    (fault : Option ServerError) (phase : CallPhase) : Founded (s.proceed c fault phase) := by
  have hfree : ∀ phase : CallPhase, (s.call c).phase.registered = true →
      phase.registered = true := fun _ hi => absurd hi (Bool.eq_false_iff.mp hphase)
  cases fault with
  | some e => exact h.setPhase (hfree _)
  | none => exact h.setPhase (hfree _)

theorem insertSession (h : Founded s)
    (hrequest : (s.call c).request.session? = some sessionId) {phase : CallPhase}
    (hregistered : phase.registered = true) : Founded (s.insertSession c sessionId phase) := by
  unfold AgentServer.insertSession
  cases s.sessions.lookup sessionId with
  | some session => exact h.setPhase fun _ => rfl
  | none =>
    refine h.move rfl (fun _ => hregistered) fun sessionId' d hd => ?_
    rw [registrant?_setPhase, registrant?_registerSession] at hd
    split_ifs at hd with hsame
    · exact .inr ⟨(Option.some.inj hd).symm, hsame ▸ hrequest, hregistered⟩
    · exact .inl hd

theorem start (h : Founded s) (hphase : (s.call c).phase.registered = false)
    (fault : Option ServerError) : Founded (s.start c fault (s.call c).request) := by
  have hfree : ∀ phase : CallPhase, (s.call c).phase.registered = true →
      phase.registered = true := fun _ hi => absurd hi (Bool.eq_false_iff.mp hphase)
  cases hrequest : (s.call c).request with
  | createSession sessionId => exact h.insertSession (by rw [hrequest]; rfl) rfl
  | loadSession sessionId | loadAndResume sessionId laneId => exact h.proceed hphase fault _
  | spawnLane sessionId laneId | forkLane sessionId fromLane newLane => exact h.setPhase (hfree _)
  | resumeLane sessionId laneId =>
    simp only [AgentServer.start]
    cases s.sessions.lookup sessionId with
    | some session => exact h.proceed hphase fault _
    | none => exact h.setPhase (hfree _)
  | shutdown => exact h.pass rfl (hfree _) fun _ _ hd => by cases hd

theorem fail (h : Founded s) (c : ℕ) (e : ServerError) : Founded (s.fail c e) := by
  unfold AgentServer.fail
  split
  · exact h.setPhase fun _ => rfl
  · exact h.setPhase fun _ => rfl
  · exact h.setPhase fun _ => rfl
  · exact h.setPhase fun _ => rfl
  · exact h.setPhase fun _ => rfl
  · exact h.setPhase fun _ => rfl
  · exact h.setPhase fun _ => rfl

theorem go (h : Founded s) (c : ℕ) (fault : Option ServerError) : Founded (s.go c fault) := by
  simp only [AgentServer.go]
  split
  · rename_i hphase
    exact h.start (by rw [hphase]; rfl) fault
  · rename_i hphase
    split
    · rename_i sessionId hrequest
      exact h.insertSession (by rw [hrequest]; rfl) rfl
    · rename_i sessionId _ hrequest
      exact h.insertSession (by rw [hrequest]; rfl) rfl
    · exact h
  · split
    · exact h.fail c _
    · exact h.setPhase fun _ => rfl
  · exact h.pass rfl (fun _ => rfl) fun _ _ => id
  · rename_i i _
    split
    · exact h.setPhase fun _ => rfl
    · rename_i key _ _
      refine h.pass (s.registerLane_frame key i).1 (fun _ => ?_) fun sessionId d hd => ?_
      · split_ifs <;> rfl
      · rwa [registrant?_registerLane] at hd
    · exact h
  · split
    · exact h.setPhase fun _ => rfl
    · exact h.setPhase fun _ => rfl
  · rename_i g e _
    split
    · rename_i key _
      refine h.pass (s.removeLaneIfGeneration_frame key g).1 (fun _ => rfl) fun sessionId d hd => ?_
      rwa [registrant?_dropHandles, registrant?_removeLaneIfGeneration] at hd
    · exact h
  · exact h.pass rfl (fun _ => rfl) fun _ _ => id
  · exact h.fail c _
  · split
    · rename_i sessionId _ _
      refine h.pass (s.removeSessionIfEmpty_frame sessionId).1 (fun _ => rfl)
        fun sessionId' d hd => ?_
      obtain ⟨session, hsession, rfl⟩ := Option.map_eq_some_iff.mp hd
      obtain ⟨hold, -⟩ := (s.lookup_removeSessionIfEmpty sessionId sessionId' session).mp hsession
      exact congrArg (Option.map SessionState.registrant) hold
    · exact h
  · exact h.setPhase fun _ => rfl
  · rename_i hphase
    have hfree : ∀ phase : CallPhase, (s.call c).phase.registered = true →
        phase.registered = true := by
      rw [hphase]
      exact fun _ hi => by cases hi
    split
    · exact h.pass rfl (hfree _) fun _ _ => id
    · exact h.setPhase (hfree _)
  · exact h
  · exact h
  · exact h

theorem step (h : Founded s) (hsound : Sound s) (a : ServerAction) : Founded (s.step a) := by
  cases a with
  | begin request =>
    intro sessionId d hd
    obtain ⟨hrequest, hregistered⟩ := h sessionId d hd
    have hne : d ≠ s.nextCall := by
      rintro rfl
      rw [hsound.begun _ le_rfl] at hregistered
      cases hregistered
    have hsame : (s.step (.begin request)).call d = s.call d := Function.update_of_ne hne ..
    rw [hsame]
    exact ⟨hrequest, hregistered⟩
  | go c fault => exact h.go c fault
  | stop c i =>
    simp only [AgentServer.step]
    split
    · rename_i rest hphase
      split_ifs
      · refine h.pass rfl (fun hregistered => ?_) fun _ _ => id
        rw [hphase] at hregistered
        cases hregistered
      · exact h
    · exact h
  | work i busy => exact h

end Founded

theorem fail_loadAndResume {laneId : LaneId}
    (hrequest : (s.call c).request = .loadAndResume sessionId laneId) (e : ServerError) :
    s.fail c e = s.setPhase c (.failing e) := by
  rw [fail, hrequest]

/-- The call rolls its session back, or keeps every session; it returns an error with the rollback
or before it has registered anything. -/
theorem go_loadAndResume {laneId : LaneId}
    (hrequest : (s.call c).request = .loadAndResume sessionId laneId) (fault : Option ServerError) :
    (∃ e, (s.call c).phase = .failing e ∧
      s.go c fault = (s.removeSessionIfEmpty sessionId).setPhase c (.returned (.error e))) ∨
    (∀ sessionId' d, s.registrant? sessionId' = some d →
      (s.go c fault).registrant? sessionId' = some d) ∧
    ((s.call c).phase.registered = false ∧ (s.go c fault).sessions = s.sessions ∨
      (s.go c fault).call c = s.call c ∨
      ∀ e, ((s.go c fault).call c).phase ≠ .returned (.error e)) := by
  have hset : ∀ {s' : AgentServer} {phase : CallPhase}, (∀ e, phase ≠ .returned (.error e)) →
      ∀ e, ((s'.setPhase c phase).call c).phase ≠ .returned (.error e) := by
    intro s' phase hphase e
    rw [setPhase_self]
    exact hphase e
  cases hphase : (s.call c).phase with
  | failing e =>
    left
    refine ⟨e, rfl, ?_⟩
    simp only [go, hphase, hrequest]
  | begun =>
    right
    simp only [go, hphase, hrequest, start]
    cases fault with
    | some e => exact ⟨fun _ _ => id, .inl ⟨rfl, rfl⟩⟩
    | none => exact ⟨fun _ _ => id, .inl ⟨rfl, rfl⟩⟩
  | loaded =>
    right
    simp only [go, hphase, hrequest, insertSession]
    cases hlookup : s.sessions.lookup sessionId with
    | some session => exact ⟨fun _ _ => id, .inl ⟨rfl, rfl⟩⟩
    | none =>
      refine ⟨fun sessionId' d hd => ?_, .inr (.inr (hset (by simp)))⟩
      rw [registrant?_setPhase, registrant?_registerSession, if_neg]
      · exact hd
      · rintro rfl
        rw [registrant?, hlookup] at hd
        cases hd
  | checking =>
    right
    simp only [go, hphase]
    cases s.check (s.call c).request with
    | error e =>
      simp only [fail_loadAndResume hrequest]
      exact ⟨fun _ _ => id, .inr (.inr (hset (by simp)))⟩
    | ok _ => exact ⟨fun _ _ => id, .inr (.inr (hset (by simp)))⟩
  | checked =>
    right
    simp only [go, hphase]
    exact ⟨fun _ _ => id, .inr (.inr (hset (by simp)))⟩
  | spawned i =>
    right
    simp only [go, hphase, hrequest, ServerCall.target]
    cases s.check (.loadAndResume sessionId laneId) with
    | error e => exact ⟨fun _ _ => id, .inr (.inr (hset (by simp)))⟩
    | ok _ =>
      refine ⟨fun sessionId' d hd => ?_, .inr (.inr (hset fun _ he => by cases he))⟩
      rwa [registrant?_setPhase, registrant?_registerLane]
  | persisting i g =>
    right
    simp only [go, hphase]
    cases fault with
    | some e => exact ⟨fun _ _ => id, .inr (.inr (hset (by simp)))⟩
    | none => exact ⟨fun _ _ => id, .inr (.inr (hset (by simp)))⟩
  | rollingBack i g e =>
    right
    simp only [go, hphase, hrequest, ServerCall.target]
    refine ⟨fun sessionId' d hd => ?_, .inr (.inr (hset (by simp)))⟩
    rwa [registrant?_setPhase, registrant?_dropHandles, registrant?_removeLaneIfGeneration]
  | cleaning i e =>
    right
    simp only [go, hphase]
    exact ⟨fun _ _ => id, .inr (.inr (hset (by simp)))⟩
  | cleaned e =>
    right
    simp only [go, hphase, fail_loadAndResume hrequest]
    exact ⟨fun _ _ => id, .inr (.inr (hset (by simp)))⟩
  | waiting rest =>
    right
    simp only [go, hphase]
    cases fault with
    | some e => exact ⟨fun _ _ => id, .inl ⟨rfl, rfl⟩⟩
    | none => exact ⟨fun _ _ => id, .inl ⟨rfl, rfl⟩⟩
  | stopping rest =>
    right
    cases rest with
    | nil =>
      simp only [go, hphase]
      exact ⟨fun _ _ => id, .inl ⟨rfl, rfl⟩⟩
    | cons i rest =>
      have hgo : s.go c fault = s := by simp only [go, hphase]
      rw [hgo]
      exact ⟨fun _ _ => id, .inl ⟨rfl, rfl⟩⟩
  | idle | returned result =>
    right
    have hgo : s.go c fault = s := by simp only [go, hphase]
    rw [hgo]
    exact ⟨fun _ _ => id, .inr (.inl rfl)⟩

theorem leavesJoined (hsound : Sound s) (h : Founded s) (a : ServerAction) : s.LeavesJoined a := by
  intro c sessionId laneId e hrequest hfails sessionId' session hsession howner
  obtain ⟨⟨fault, rfl⟩, hworking, hreturned⟩ := hfails
  have hnone : (s.call c).phase.registered = false → (s.go c fault).sessions = s.sessions →
      False := by
    intro hphase hsame
    have hfounded := h sessionId' c
    rw [registrant?, ← hsame, show (s.go c fault).sessions.lookup sessionId' = _ from hsession]
      at hfounded
    exact absurd (hfounded (congrArg some howner)).2 (Bool.eq_false_iff.mp hphase)
  rcases go_loadAndResume hrequest fault with ⟨e', hphase, hgo⟩ | ⟨-, hrest⟩
  · have hgone : (s.go c fault).sessions.lookup sessionId' = some session := hsession
    rw [hgo] at hgone
    obtain ⟨hthere, hleft⟩ := (s.lookup_removeSessionIfEmpty ..).mp hgone
    -- the session is the one that the call was to register, so a lane has kept it
    have hown : sessionId' = sessionId := by
      have hfounded := (h sessionId' c (by rw [registrant?, hthere, ← howner]; rfl)).1
      rw [hrequest] at hfounded
      exact (Option.some.inj hfounded).symm
    have hlanes : session.lanes ≠ ∅ := hleft.resolve_left (absurd hown)
    obtain ⟨⟨laneId', lane⟩, hmem⟩ :=
      List.exists_mem_of_ne_nil session.lanes.entries fun hnil => hlanes (AList.ext hnil)
    have hlane : session.lanes.lookup laneId' = some lane := AList.mem_lookup_iff.mpr hmem
    refine ⟨laneId', lane, hlane, fun hcall => ?_⟩
    have hregistered : s.lane? (sessionId', laneId') = some lane :=
      (lane?_of_lookup hthere).trans hlane
    have hstanding := hsound.standing lane.runtime (hsound.listed _ lane hregistered).1
    have hruntime : ((s.step (.go c fault)).runtime lane.runtime).call =
        (s.runtime lane.runtime).call := by
      show ((s.go c fault).runtime _).call = _
      rw [hgo]
      exact congrArg (fun runtime => (runtime lane.runtime).call)
        (s.removeSessionIfEmpty_frame sessionId).2.2.2.1
    rw [← hruntime, hcall, hphase] at hstanding
    exact hstanding.1 ⟨_, lane, hregistered, rfl⟩
  · rcases hrest with ⟨hphase, hsame⟩ | hsame | hgoes
    · exact (hnone hphase hsame).elim
    · refine absurd ?_ (hworking (.error e))
      rw [← hsame]
      exact hreturned
    · exact absurd hreturned (hgoes e)

theorem keepsOccupied (s : AgentServer) (a : ServerAction) : s.KeepsOccupied a := by
  rintro c sessionId laneId fault hrequest rfl sessionId' session hsession - hleft
  have hthere : s.registrant? sessionId' = some session.registrant := by
    rw [registrant?, hsession]
    rfl
  show (s.go c fault).registrant? sessionId' = _
  rcases go_loadAndResume hrequest fault with ⟨e, -, hgo⟩ | ⟨hkept, -⟩
  · rw [hgo, registrant?_setPhase, registrant?,
      (s.lookup_removeSessionIfEmpty sessionId sessionId' session).mpr ⟨hsession, hleft⟩]
    rfl
  · exact hkept sessionId' _ hthere

/-- However the calls interleave, a failed call leaves of its own sessions only those that another
call has joined, and it removes no session of another call that is in use. -/
theorem rollsBack_along (as : List ServerAction) :
    Runs.Along step (fun s a => s.LeavesJoined a ∧ s.KeepsOccupied a) new as :=
  Runs.along_of_invariant
    (fun s a (hs : Sound s ∧ Founded s) => ⟨hs.1.step a, hs.2.step hs.1 a⟩)
    (fun s a hs => ⟨leavesJoined hs.1 hs.2 a, s.keepsOccupied a⟩) ⟨Sound.new, Founded.new⟩ as

/-- Another call creates the lane in between. -/
def joinedSession : List ServerAction :=
  [.begin (.loadAndResume "s" "main"), .go 0 none, .go 0 none,
    .begin (.spawnLane "s" "main"), .go 1 none, .go 1 none, .go 1 none, .go 1 none, .go 1 none,
    .go 0 none]

/-- A shutdown of the server comes in between, and the session is created anew. -/
def recreatedSession : List ServerAction :=
  [.begin (.loadAndResume "s" "main"), .go 0 none, .go 0 none, .begin .shutdown, .go 1 none,
    .go 0 none, .begin (.createSession "s"), .go 2 none]

theorem rollback_leaves_and_takes :
    ¬ Runs.Along step LeavesNone new (joinedSession ++ [.go 0 none]) ∧
      ¬ Runs.Along step KeepsOthers new (recreatedSession ++ [.go 0 none]) := by
  constructor
  · intro h
    have hleaves := (Runs.along_append.mp h).2.1
    have hphase : ((Runs.run step new joinedSession).call 0).phase =
        .failing (.laneAlreadyExists "main") := by decide +kernel
    refine hleaves 0 "s" "main" (.laneAlreadyExists "main") (by decide +kernel) ?_ "s"
      (by decide +kernel)
    refine ⟨⟨none, rfl⟩, fun result hresult => ?_, by decide +kernel⟩
    cases hphase.symm.trans hresult
  · intro h
    have hkeeps := (Runs.along_append.mp h).2.1
    have hgone := hkeeps 0 "s" "main" none (by decide +kernel) rfl "s" 2 (by decide +kernel)
      (by decide)
    revert hgone
    decide +kernel

end AgentServer

end Guigu.Server
