import Guigu.Server.Registry
import Mathlib.Data.UInt

/-! What the calls leave behind that create lanes: registrations, runtimes, and nothing else. -/
namespace Guigu.Server

/-- A shutdown of the server has the runtime still to shut down. -/
def CallPhase.stops (i : ℕ) : CallPhase → Bool
  | .stopping rest | .waiting rest => i ∈ rest
  | .idle | .begun | .loaded | .checking | .checked | .spawned _ | .persisting _ _
  | .rollingBack _ _ _ | .cleaning _ _ | .cleaned _ | .failing _ | .returned _ => false

theorem CallPhase.holds_of_stops {phase : CallPhase} {i : ℕ} (h : phase.stops i = true) :
    phase.holds i = true := by
  cases phase with
  | stopping rest | waiting rest => exact h
  | _ => cases h

/-- The call has not failed, and shuts nothing down. -/
def CallPhase.Quiet (phase : CallPhase) : Prop :=
  phase.failed = false ∧ ∀ i, phase.stops i = false

namespace AgentServer

/-- Generations are distinct, registrations get lost by failure or shutdown only, and what a
shutdown has taken is shut down. -/
structure Complete (s : AgentServer) : Prop where
  below : ∀ i < s.nextRuntime, ∀ g, (s.runtime i).generation = some g →
    s.nextLaneGeneration = 0 ∨ g < s.nextLaneGeneration
  distinct : ∀ i < s.nextRuntime, ∀ j < s.nextRuntime, ∀ g, (s.runtime i).generation = some g →
    (s.runtime j).generation = some g → i = j
  kept : s.LeavesOthers
  handled : ∀ i < s.nextRuntime, (s.runtime i).drained = true →
    (s.runtime i).over = true ∨ ∃ c, (s.call c).phase.stops i = true

namespace Complete

variable {s : AgentServer} {c i : ℕ}

theorem new : Complete new where
  below _ h := absurd h (Nat.not_lt_zero _)
  distinct _ h := absurd h (Nat.not_lt_zero _)
  kept _ h := absurd h (Nat.not_lt_zero _)
  handled _ h := absurd h (Nat.not_lt_zero _)

/-- A call goes on, and no lane is registered. -/
theorem move (h : Complete s) {s' : AgentServer} {phase : CallPhase}
    (hcall : s'.call = (s.setPhase c phase).call) (hnextRuntime : s'.nextRuntime = s.nextRuntime)
    (hnext : s'.nextLaneGeneration = s.nextLaneGeneration)
    (hruntime : ∀ i, (s'.runtime i).call = (s.runtime i).call ∧
      (s'.runtime i).generation = (s.runtime i).generation ∧
      ((s.runtime i).over = true → (s'.runtime i).over = true) ∧
      ((s.runtime i).drained = true → (s'.runtime i).drained = true))
    (hfailed : (s.call c).phase.failed = true → phase.failed = true)
    (hkept : ∀ i < s.nextRuntime, s.Registered i → s'.Registered i ∨
      (s'.runtime i).drained = true ∨ (s.runtime i).call = c ∧ phase.failed = true)
    (hdrained : ∀ i < s.nextRuntime, (s'.runtime i).drained = true →
      (s.runtime i).drained = true ∨ phase.stops i = true)
    (hstops : ∀ i, (s.call c).phase.stops i = true →
      phase.stops i = true ∨ (s'.runtime i).over = true) : Complete s' where
  below i hi g hg := by
    rw [hnext]
    rw [(hruntime i).2.1] at hg
    exact h.below i (hnextRuntime ▸ hi) g hg
  distinct i hi j hj g hgi hgj := by
    rw [(hruntime i).2.1] at hgi
    rw [(hruntime j).2.1] at hgj
    exact h.distinct i (hnextRuntime ▸ hi) j (hnextRuntime ▸ hj) g hgi hgj
  kept i hi hgeneration := by
    rw [hnextRuntime] at hi
    rw [(hruntime i).2.1] at hgeneration
    rw [(hruntime i).1, hcall]
    have hphase : ∀ d, (s.call d).phase.failed = true ∨ d = c ∧ phase.failed = true →
        ((s.setPhase c phase).call d).phase.failed = true := by
      rintro d (hd | ⟨rfl, hd⟩)
      · by_cases hdc : d = c
        · rw [hdc, setPhase_self]
          exact hfailed (hdc ▸ hd)
        · rwa [s.setPhase_of_ne hdc]
      · rw [setPhase_self]
        exact hd
    rcases h.kept i hi hgeneration with hregistered | hdone | hfail
    · rcases hkept i hi hregistered with hregistered | hdone | hfail
      · exact .inl hregistered
      · exact .inr (.inl hdone)
      · exact .inr (.inr (hphase _ (.inr hfail)))
    · exact .inr (.inl ((hruntime i).2.2.2 hdone))
    · exact .inr (.inr (hphase _ (.inl hfail)))
  handled i hi hdone := by
    rw [hnextRuntime] at hi
    rw [hcall]
    have hnow : phase.stops i = true →
        ∃ d, ((s.setPhase c phase).call d).phase.stops i = true := by
      intro hi
      refine ⟨c, ?_⟩
      rw [setPhase_self]
      exact hi
    rcases hdrained i hi hdone with hbefore | hstop
    · rcases h.handled i hi hbefore with hcancelled | ⟨d, hd⟩
      · exact .inl ((hruntime i).2.2.1 hcancelled)
      · by_cases hdc : d = c
        · rcases hstops i (hdc ▸ hd) with hstop | hcancelled
          · exact .inr (hnow hstop)
          · exact .inl hcancelled
        · right
          refine ⟨d, ?_⟩
          rw [s.setPhase_of_ne hdc]
          exact hd
    · exact .inr (hnow hstop)

/-- Only the phase of the call changes. -/
theorem setPhase (h : Complete s) {phase : CallPhase}
    (hfailed : (s.call c).phase.failed = true → phase.failed = true)
    (hstops : ∀ i, (s.call c).phase.stops i = true → phase.stops i = true) :
    Complete (s.setPhase c phase) :=
  h.move rfl rfl rfl (fun _ => ⟨rfl, rfl, id, id⟩) hfailed (fun _ _ hi => .inl hi)
    (fun _ _ hi => .inl hi) fun i hi => .inl (hstops i hi)

theorem setPhase_quiet (h : Complete s) (hcall : (s.call c).phase.Quiet) (phase : CallPhase) :
    Complete (s.setPhase c phase) :=
  h.setPhase (fun hi => absurd hi (Bool.eq_false_iff.mp hcall.1))
    fun i hi => absurd hi (Bool.eq_false_iff.mp (hcall.2 i))

/-- The runtimes change, but no task that ends goes on again. -/
theorem reruntime (h : Complete s) {runtime : ℕ → RuntimeTask}
    (hsame : ∀ i, (runtime i).call = (s.runtime i).call ∧
      (runtime i).generation = (s.runtime i).generation ∧
      ((s.runtime i).over = true → (runtime i).over = true) ∧
      (runtime i).drained = (s.runtime i).drained) : Complete { s with runtime := runtime } where
  below i hi g hg := h.below i hi g ((hsame i).2.1.symm.trans hg)
  distinct i hi j hj g hgi hgj :=
    h.distinct i hi j hj g ((hsame i).2.1.symm.trans hgi) ((hsame j).2.1.symm.trans hgj)
  kept i hi hgeneration := by
    show s.Registered i ∨ (runtime i).drained = true ∨
      (s.call (runtime i).call).phase.failed = true
    rw [(hsame i).1, (hsame i).2.2.2]
    exact h.kept i hi ((congrArg Option.isSome (hsame i).2.1).symm.trans hgeneration)
  handled i hi hdone :=
    (h.handled i hi ((hsame i).2.2.2.symm.trans hdone)).imp_left (hsame i).2.2.1

theorem dropHandles (h : Complete s) (rest : List ℕ) : Complete (s.dropHandles rest) := by
  refine h.reruntime fun i => ?_
  split_ifs
  · refine ⟨rfl, rfl, fun hover => ?_, rfl⟩
    simp only [RuntimeTask.over, Bool.or_eq_true, Bool.and_eq_true] at hover ⊢
    exact hover.imp_right fun hidle => ⟨trivial, hidle.2⟩
  · exact ⟨rfl, rfl, id, rfl⟩

theorem work (h : Complete s) (i : ℕ) (busy : Bool) : Complete (s.work i busy) := by
  refine h.reruntime fun j => ?_
  rw [Function.update_apply]
  split_ifs with hj
  · rw [hj]
    refine ⟨rfl, rfl, fun hover => ?_, rfl⟩
    simp only [RuntimeTask.over, Bool.or_eq_true, Bool.and_eq_true] at hover ⊢
    -- what is closed and idle stays idle
    refine hover.imp_right fun hidle => ⟨hidle.1, ?_⟩
    have hbusy : (s.runtime i).busy = false := by simpa using hidle.2
    simp [hidle.1, hbusy]
  · exact ⟨rfl, rfl, id, rfl⟩

/-- The registry changes, but for its lanes. -/
theorem resession (h : Complete s) (hcall : (s.call c).phase.Quiet) {s' : AgentServer}
    {phase : CallPhase} (hcalls : s'.call = (s.setPhase c phase).call)
    (hnextRuntime : s'.nextRuntime = s.nextRuntime)
    (hnext : s'.nextLaneGeneration = s.nextLaneGeneration) (hruntime : s'.runtime = s.runtime)
    (hlanes : ∀ key, s'.lane? key = s.lane? key) : Complete s' := by
  refine h.move hcalls hnextRuntime hnext (fun i => ?_) (fun hi => ?_) (fun i _ hi => ?_)
    (fun i _ hi => ?_) fun i hi => ?_
  · rw [hruntime]
    exact ⟨rfl, rfl, id, id⟩
  · exact absurd hi (Bool.eq_false_iff.mp hcall.1)
  · left
    obtain ⟨key, lane, hlane, rfl⟩ := hi
    exact ⟨key, lane, (hlanes key).trans hlane, rfl⟩
  · rw [hruntime] at hi
    exact .inl hi
  · exact absurd hi (Bool.eq_false_iff.mp (hcall.2 i))

theorem insertSession (h : Complete s) {phase : CallPhase} (sessionId : SessionId)
    (hcall : (s.call c).phase.Quiet) : Complete (s.insertSession c sessionId phase) := by
  unfold AgentServer.insertSession
  cases hlookup : s.sessions.lookup sessionId with
  | some session => exact h.setPhase_quiet hcall _
  | none => exact h.resession hcall rfl rfl rfl rfl fun key => lane?_registerSession hlookup key

theorem proceed (h : Complete s) (hcall : (s.call c).phase.Quiet) (fault : Option ServerError)
    (phase : CallPhase) : Complete (s.proceed c fault phase) := by
  cases fault with
  | some e => exact h.setPhase_quiet hcall _
  | none => exact h.setPhase_quiet hcall _

theorem start (h : Complete s) (hcall : (s.call c).phase.Quiet) (fault : Option ServerError)
    (request : ServerCall) : Complete (s.start c fault request) := by
  cases request with
  | createSession sessionId => exact h.insertSession sessionId hcall
  | loadSession sessionId | loadAndResume sessionId laneId => exact h.proceed hcall fault _
  | spawnLane sessionId laneId | forkLane sessionId fromLane newLane =>
    exact h.setPhase_quiet hcall _
  | resumeLane sessionId laneId =>
    simp only [AgentServer.start]
    cases s.sessions.lookup sessionId with
    | some session => exact h.proceed hcall fault _
    | none => exact h.setPhase_quiet hcall _
  | shutdown =>
    have hdrain : ∀ i, (s.drain.runtime i).call = (s.runtime i).call ∧
        (s.drain.runtime i).generation = (s.runtime i).generation ∧
        ((s.runtime i).over = true → (s.drain.runtime i).over = true) ∧
        ((s.runtime i).drained = true → (s.drain.runtime i).drained = true) := by
      intro i
      simp only [drain]
      split_ifs
      · exact ⟨rfl, rfl, id, fun _ => rfl⟩
      · exact ⟨rfl, rfl, id, id⟩
    refine h.move rfl rfl rfl hdrain (fun hi => ?_) (fun i _ hi => ?_) (fun i _ hi => ?_)
      fun i hi => ?_
    · exact absurd hi (Bool.eq_false_iff.mp hcall.1)
    · right
      left
      show (s.drain.runtime i).drained = true
      simp only [drain]
      rw [if_pos (mem_runtimes.mpr hi)]
    · have hdone : (s.drain.runtime i).drained = true := hi
      simp only [drain] at hdone
      split_ifs at hdone with hthere
      · exact .inr (decide_eq_true hthere)
      · exact .inl hdone
    · exact absurd hi (Bool.eq_false_iff.mp (hcall.2 i))

theorem spawn (h : Complete s) (hcall : (s.call c).phase.Quiet)
    (phase : CallPhase) : Complete ((s.spawn c).setPhase c phase) := by
  have hself : (s.spawn c).runtime s.nextRuntime = ⟨c, none, false, false, false, false⟩ :=
    Function.update_self ..
  have hold : ∀ i, i < s.nextRuntime → (s.spawn c).runtime i = s.runtime i :=
    fun i hi => Function.update_of_ne hi.ne ..
  have hcases : ∀ {i}, i < s.nextRuntime + 1 →
      i < s.nextRuntime ∧ (s.spawn c).runtime i = s.runtime i ∨
        (s.spawn c).runtime i = ⟨c, none, false, false, false, false⟩ := by
    intro i hi
    rcases Nat.lt_succ_iff_lt_or_eq.mp hi with hi | rfl
    · exact .inl ⟨hi, hold i hi⟩
    · exact .inr hself
  have hphases := h.setPhase_quiet hcall phase
  constructor
  · intro i hi g hg
    rcases hcases hi with ⟨hi, hsame⟩ | hnew
    · exact h.below i hi g ((congrArg RuntimeTask.generation hsame).symm.trans hg)
    · cases (congrArg RuntimeTask.generation hnew).symm.trans hg
  · intro i hi j hj g hgi hgj
    rcases hcases hi with ⟨hi, hsame⟩ | hnew
    · rcases hcases hj with ⟨hj, hsame'⟩ | hnew'
      · exact h.distinct i hi j hj g ((congrArg RuntimeTask.generation hsame).symm.trans hgi)
          ((congrArg RuntimeTask.generation hsame').symm.trans hgj)
      · cases (congrArg RuntimeTask.generation hnew').symm.trans hgj
    · cases (congrArg RuntimeTask.generation hnew).symm.trans hgi
  · intro i hi hgeneration
    rcases hcases hi with ⟨hi, hsame⟩ | hnew
    · have hkept := hphases.kept i hi
        ((congrArg (fun r => r.generation.isSome) hsame).symm.trans hgeneration)
      rcases hkept with hregistered | hdone | hfail
      · exact .inl hregistered
      · exact .inr (.inl ((congrArg RuntimeTask.drained hsame).trans hdone))
      · right
        right
        have howner : ((s.spawn c).runtime i).call = (s.runtime i).call :=
          congrArg RuntimeTask.call hsame
        exact (congrArg (fun d => ((s.setPhase c phase).call d).phase.failed) howner).trans hfail
    · cases (congrArg (fun r => r.generation.isSome) hnew).symm.trans hgeneration
  · intro i hi hdone
    rcases hcases hi with ⟨hi, hsame⟩ | hnew
    · have hhandled := hphases.handled i hi ((congrArg RuntimeTask.drained hsame).symm.trans hdone)
      exact hhandled.imp_left (congrArg RuntimeTask.over hsame).trans
    · cases (congrArg RuntimeTask.drained hnew).symm.trans hdone

/-- The new generation is above all others. -/
theorem registerLane (h : Complete s) (hsound : Sound s) {key : LaneKey} {session : SessionState}
    (hspawned : (s.call c).phase = .spawned i) (hsession : s.sessions.lookup key.1 = some session)
    (hlane : s.lane? key = none) (hnext : s.nextLaneGeneration ≠ 0) (phase : CallPhase) :
    Complete ((s.registerLane key i).setPhase c phase) := by
  obtain ⟨hrun, howner⟩ := hsound.working c i (by rw [hspawned]; rfl)
  have hself := registerLane_self hsession i
  have hother : ∀ j, j ≠ i → (s.registerLane key i).runtime j = s.runtime j :=
    fun j hj => s.registerLane_of_ne key hj
  obtain ⟨hcalls, -, hnextRuntime⟩ := s.registerLane_frame key i
  have hcall : ((s.registerLane key i).setPhase c phase).call = (s.setPhase c phase).call := by
    show Function.update _ _ _ = Function.update _ _ _
    rw [hcalls]
  have hgenerations : ((s.registerLane key i).setPhase c phase).nextLaneGeneration =
      s.nextLaneGeneration + 1 := by
    show (s.registerLane key i).nextLaneGeneration = _
    rw [AgentServer.registerLane, hsession]
  have hbelow : ∀ j < s.nextRuntime, ∀ g, (s.runtime j).generation = some g →
      g < s.nextLaneGeneration := fun j hj g hg => (h.below j hj g hg).resolve_left hnext
  have hcases : ∀ {j g}, j < s.nextRuntime →
      ((s.registerLane key i).runtime j).generation = some g →
      j = i ∧ g = s.nextLaneGeneration ∨ j ≠ i ∧ (s.runtime j).generation = some g := by
    intro j g hj hg
    by_cases hji : j = i
    · rw [hji, hself] at hg
      exact .inl ⟨hji, (Option.some.inj hg).symm⟩
    · rw [hother j hji] at hg
      exact .inr ⟨hji, hg⟩
  have hquiet : (s.call c).phase.Quiet := by
    rw [hspawned]
    exact ⟨rfl, fun _ => rfl⟩
  have hphases := h.setPhase_quiet hquiet phase
  constructor
  · intro j hj g hg
    rw [hgenerations]
    have hle : g ≤ s.nextLaneGeneration := by
      rcases hcases (hnextRuntime ▸ hj) hg with ⟨-, rfl⟩ | ⟨-, hg⟩
      · exact UInt64.le_refl _
      · exact UInt64.le_of_lt (hbelow j (hnextRuntime ▸ hj) g hg)
    by_cases hwrap : s.nextLaneGeneration + 1 = 0
    · exact .inl hwrap
    · refine .inr (UInt64.lt_of_le_of_lt hle (UInt64.lt_add_one fun hlast => hwrap ?_))
      rw [hlast]
      rfl
  · intro j hj k hk g hgj hgk
    have hj' : j < s.nextRuntime := hnextRuntime ▸ hj
    have hk' : k < s.nextRuntime := hnextRuntime ▸ hk
    rcases hcases hj' hgj with ⟨hji, hg⟩ | ⟨-, hgj⟩
    · rcases hcases hk' hgk with ⟨hki, -⟩ | ⟨-, hgk⟩
      · rw [hji, hki]
      · exact absurd (hg ▸ hbelow k hk' g hgk) (UInt64.lt_irrefl _)
    · rcases hcases hk' hgk with ⟨-, hg⟩ | ⟨-, hgk⟩
      · exact absurd (hg ▸ hbelow j hj' g hgj) (UInt64.lt_irrefl _)
      · exact h.distinct j hj' k hk' g hgj hgk
  · intro j hj hgeneration
    have hj' : j < s.nextRuntime := hnextRuntime ▸ hj
    by_cases hji : j = i
    · left
      refine ⟨key, ⟨i, s.nextLaneGeneration⟩, ?_, hji.symm⟩
      rw [lane?_setPhase, lane?_registerLane hsession, if_pos rfl]
    · have hsame := hother j hji
      have hkept := hphases.kept j hj'
        ((congrArg (fun r => r.generation.isSome) hsame).symm.trans hgeneration)
      rcases hkept with ⟨key', lane, hlane', rfl⟩ | hdone | hfail
      · left
        refine ⟨key', lane, ?_, rfl⟩
        rw [lane?_setPhase, lane?_registerLane hsession, if_neg]
        · exact hlane'
        · rintro rfl
          cases hlane.symm.trans hlane'
      · exact .inr (.inl ((congrArg RuntimeTask.drained hsame).trans hdone))
      · right
        right
        rw [hcall]
        have howner' : ((s.registerLane key i).runtime j).call = (s.runtime j).call :=
          congrArg RuntimeTask.call hsame
        exact (congrArg (fun d => ((s.setPhase c phase).call d).phase.failed) howner').trans hfail
  · intro j hj hdone
    have hflags : ((s.registerLane key i).runtime j).drained = (s.runtime j).drained ∧
        ((s.registerLane key i).runtime j).over = (s.runtime j).over := by
      by_cases hji : j = i
      · rw [hji, hself]
        exact ⟨rfl, rfl⟩
      · rw [hother j hji]
        exact ⟨rfl, rfl⟩
    rw [hcall]
    have hhandled := hphases.handled j (hnextRuntime ▸ hj) (hflags.1.symm.trans hdone)
    exact hhandled.imp_left hflags.2.trans

/-- What a rollback takes out of the registry is the call's own. -/
theorem rollBack (h : Complete s) (hsound : Sound s) {g : UInt64} {e : ServerError}
    {key : LaneKey} (hphase : (s.call c).phase = .rollingBack i g e) :
    Complete ((s.removeLaneIfGeneration key g).setPhase c (.cleaning i e)) := by
  obtain ⟨hrun, howner⟩ := hsound.working c i (by rw [hphase]; rfl)
  obtain ⟨hcalls, -, hnextRuntime, hruntime, hnext⟩ := s.removeLaneIfGeneration_frame key g
  have hstanding := hsound.standing i hrun
  rw [howner, hphase] at hstanding
  have hcall : ((s.removeLaneIfGeneration key g).setPhase c (.cleaning i e)).call =
      (s.setPhase c (.cleaning i e)).call := by
    show Function.update _ _ _ = Function.update _ _ _
    rw [hcalls]
  have hsame : ∀ j, ((s.removeLaneIfGeneration key g).setPhase c (.cleaning i e)).runtime j =
      s.runtime j := fun j => congrFun hruntime j
  refine h.move hcall hnextRuntime hnext (fun j => ?_) (fun _ => rfl) (fun j hj hregistered => ?_)
    (fun j _ hdone => ?_) fun j hstops => ?_
  · rw [hsame]
    exact ⟨rfl, rfl, id, id⟩
  · obtain ⟨key', lane, hlane, rfl⟩ := hregistered
    by_cases hmatch : key' = key ∧ (s.lane? key).map (·.generation) = some g
    · right
      right
      obtain ⟨rfl, hgeneration⟩ := hmatch
      rw [hlane] at hgeneration
      have hsecond : (s.runtime lane.runtime).generation = some g :=
        (hsound.listed key' lane hlane).2.2.trans hgeneration
      rw [← h.distinct i hrun _ hj g hstanding.2 hsecond]
      exact ⟨howner, rfl⟩
    · left
      refine ⟨key', lane, ?_, rfl⟩
      rw [lane?_setPhase, lane?_removeLaneIfGeneration, if_neg hmatch]
      exact hlane
  · rw [hsame] at hdone
    exact .inl hdone
  · rw [hphase] at hstops
    cases hstops

/-- A runtime is shut down by a call that goes on. -/
theorem cancel (h : Complete s) {phase : CallPhase}
    (hfailed : (s.call c).phase.failed = true → phase.failed = true)
    (hstops : ∀ j, (s.call c).phase.stops j = true → phase.stops j = true ∨ j = i) :
    Complete ((s.cancel i).setPhase c phase) := by
  have hflags : ∀ j, ((s.cancel i).runtime j).call = (s.runtime j).call ∧
      ((s.cancel i).runtime j).generation = (s.runtime j).generation ∧
      ((s.runtime j).over = true → ((s.cancel i).runtime j).over = true) ∧
      ((s.cancel i).runtime j).drained = (s.runtime j).drained := by
    intro j
    by_cases hj : j = i
    · rw [hj, cancel_self]
      exact ⟨rfl, rfl, fun _ => rfl, rfl⟩
    · rw [s.cancel_of_ne hj]
      exact ⟨rfl, rfl, id, rfl⟩
  refine h.move rfl rfl rfl (fun j => ?_) hfailed (fun j _ hj => .inl hj) (fun j _ hdone => ?_)
    fun j hj => ?_
  · obtain ⟨howner, hgeneration, hcancelled, hdrained⟩ := hflags j
    exact ⟨howner, hgeneration, hcancelled, hdrained.trans⟩
  · exact .inl ((hflags j).2.2.2.symm.trans hdone)
  · refine (hstops j hj).imp_right ?_
    rintro rfl
    exact congrArg RuntimeTask.over (s.cancel_self j)

theorem rollBackSession (h : Complete s) {e : ServerError} (sessionId : SessionId)
    (hphase : (s.call c).phase = .failing e) :
    Complete ((s.removeSessionIfEmpty sessionId).setPhase c (.returned (.error e))) := by
  obtain ⟨hcalls, -, hnextRuntime, hruntime, hnext⟩ := s.removeSessionIfEmpty_frame sessionId
  have hcall : ((s.removeSessionIfEmpty sessionId).setPhase c (.returned (.error e))).call =
      (s.setPhase c (.returned (.error e))).call := by
    show Function.update _ _ _ = Function.update _ _ _
    rw [hcalls]
  have hsame : ∀ j, ((s.removeSessionIfEmpty sessionId).setPhase c
      (.returned (.error e))).runtime j = s.runtime j := fun j => congrFun hruntime j
  refine h.move hcall hnextRuntime hnext (fun j => ?_) (fun _ => rfl) (fun j _ hregistered => ?_)
    (fun j _ hdone => ?_) fun j hstops => ?_
  · rw [hsame]
    exact ⟨rfl, rfl, id, id⟩
  · left
    obtain ⟨key, lane, hlane, rfl⟩ := hregistered
    refine ⟨key, lane, ?_, rfl⟩
    rw [lane?_setPhase, lane?_removeSessionIfEmpty]
    exact hlane
  · rw [hsame] at hdone
    exact .inl hdone
  · rw [hphase] at hstops
    cases hstops

theorem fail (h : Complete s) (hstops : ∀ i, (s.call c).phase.stops i = false) (e : ServerError) :
    Complete (s.fail c e) := by
  have hset : ∀ phase, phase.failed = true → Complete (s.setPhase c phase) :=
    fun phase hphase => h.setPhase (fun _ => hphase)
      fun i hi => absurd hi (Bool.eq_false_iff.mp (hstops i))
  unfold AgentServer.fail
  split
  · exact hset _ rfl
  · exact hset _ rfl
  · exact hset _ rfl
  · exact hset _ rfl
  · exact hset _ rfl
  · exact hset _ rfl
  · exact hset _ rfl

theorem go (h : Complete s) (hsound : Sound s) {fault : Option ServerError}
    (hcompletes : s.Completes (.go c fault)) : Complete (s.go c fault) := by
  have hquiet : ∀ {phase : CallPhase}, (s.call c).phase = phase → phase.Quiet →
      (s.call c).phase.Quiet := fun hphase hq => hphase ▸ hq
  have hfree : s.givesUp (.go c fault) = false := hcompletes
  simp only [AgentServer.go]
  split
  · rename_i hphase
    exact h.start (hquiet hphase ⟨rfl, fun _ => rfl⟩) fault _
  · rename_i hphase
    have hcall := hquiet hphase ⟨rfl, fun _ => rfl⟩
    split
    · exact h.insertSession _ hcall
    · exact h.insertSession _ hcall
    · exact h
  · rename_i hphase
    split
    · exact h.fail (fun _ => by rw [hphase]; rfl) _
    · exact h.setPhase_quiet (hquiet hphase ⟨rfl, fun _ => rfl⟩) _
  · rename_i hphase
    exact h.spawn (hquiet hphase ⟨rfl, fun _ => rfl⟩) _
  · rename_i i hphase
    have hcall := hquiet hphase ⟨rfl, fun _ => rfl⟩
    split
    · exact h.setPhase_quiet hcall _
    · rename_i key hcheck htarget
      obtain ⟨⟨session, hsession⟩, hlane⟩ := check_ok hcheck htarget
      refine h.registerLane hsound hphase hsession hlane (fun hwrap => ?_) _
      simp [givesUp, hphase, hwrap, hcheck, Except.isOk, Except.toBool] at hfree
    · exact h
  · rename_i i g hphase
    have hcall := hquiet hphase ⟨rfl, fun _ => rfl⟩
    split
    · exact h.setPhase_quiet hcall _
    · exact h.setPhase_quiet hcall _
  · rename_i i g e hphase
    split
    · exact (h.rollBack hsound hphase).dropHandles _
    · exact h
  · rename_i i e hphase
    refine h.cancel (fun _ => rfl) fun j hj => ?_
    rw [hphase] at hj
    cases hj
  · rename_i e hphase
    exact h.fail (fun _ => by rw [hphase]; rfl) e
  · rename_i e hphase
    split
    · exact h.rollBackSession _ hphase
    · exact h
  · rename_i hphase
    refine h.setPhase (fun hi => ?_) fun i hi => ?_
    · rw [hphase] at hi
      cases hi
    · rw [hphase] at hi
      cases hi
  · rename_i rest hphase
    cases fault with
    | none =>
      refine h.setPhase (fun hi => ?_) fun i hi => ?_
      · rw [hphase] at hi
        cases hi
      · rw [hphase] at hi
        exact hi
    | some e =>
      have hidle : ∀ i ∈ rest, (s.runtime i).busy = true → (s.runtime i).cancelled = true := by
        simpa [givesUp, hphase] using hfree
      have hdropped : ∀ i ∈ rest, ((s.dropHandles rest).runtime i).over = true := by
        intro i hi
        simp only [AgentServer.dropHandles, if_pos hi, RuntimeTask.over, Bool.true_and]
        cases hbusy : (s.runtime i).busy with
        | false => simp
        | true => simp [hidle i hi hbusy]
      have hcall : ((s.dropHandles rest).setPhase c (.returned (.error e))).call =
          ((s.dropHandles rest).setPhase c (.returned (.error e))).call := rfl
      have hset := (h.dropHandles rest).move hcall rfl rfl (fun _ => ⟨rfl, rfl, id, id⟩)
        (fun _ => rfl) (fun _ _ hi => .inl hi) (fun _ _ hi => .inl hi)
        fun i hi => .inr (hdropped i ?_)
      · exact hset
      · have hstops : (s.call c).phase.stops i = true := hi
        rw [hphase] at hstops
        exact of_decide_eq_true hstops
  · exact h
  · exact h
  · exact h

theorem step (h : Complete s) (hsound : Sound s) {a : ServerAction} (hcompletes : s.Completes a) :
    Complete (s.step a) := by
  cases a with
  | begin request =>
    have hold : ∀ d, (s.call d).phase ≠ .idle → (s.step (.begin request)).call d = s.call d := by
      intro d hd
      refine Function.update_of_ne ?_ ..
      rintro rfl
      exact hd (hsound.begun _ le_rfl)
    refine ⟨h.below, h.distinct, fun i hi hgeneration => ?_, fun i hi hdone => ?_⟩
    · rcases h.kept i hi hgeneration with hregistered | hdone | hfail
      · exact .inl hregistered
      · exact .inr (.inl hdone)
      · right
        right
        have hsame := hold (s.runtime i).call fun hidle => by
          rw [hidle] at hfail
          cases hfail
        exact (congrArg (fun call => call.phase.failed) hsame).trans hfail
    · rcases h.handled i hi hdone with hcancelled | ⟨d, hd⟩
      · exact .inl hcancelled
      · right
        have hsame := hold d fun hidle => by
          rw [hidle] at hd
          cases hd
        exact ⟨d, (congrArg (fun call => call.phase.stops i) hsame).trans hd⟩
  | go c fault => exact h.go hsound hcompletes
  | stop c i =>
    simp only [AgentServer.step]
    split
    · rename_i rest hphase
      split_ifs
      · refine h.cancel (fun hi => ?_) fun j hj => ?_
        · rw [hphase] at hi
          cases hi
        · rw [hphase] at hj
          by_cases hji : j = i
          · exact .inr hji
          · left
            have hmem : j ∈ rest := of_decide_eq_true hj
            exact decide_eq_true ((List.mem_erase_of_ne hji).mpr hmem)
      · exact h
    · exact h
  | work i busy => exact h.work i busy

end Complete

/-- A runtime in the registry has one key there, the one that its call was to register. -/
theorem oneRuntime (h : Sound s) : s.OneRuntime := by
  refine ⟨s.nodup_registrations, List.Nodup.map_on ?_ (s.nodup_registrations.of_map _)⟩
  rintro ⟨key, i⟩ hmem ⟨key', j⟩ hmem' hsame
  obtain rfl : i = j := hsame
  obtain ⟨lane, hlane, rfl⟩ := mem_registrations.mp hmem
  obtain ⟨lane', hlane', hruntime⟩ := mem_registrations.mp hmem'
  have htarget := (h.listed key lane hlane).2.1
  have htarget' := (h.listed key' lane' hlane').2.1
  rw [hruntime, htarget] at htarget'
  rw [Option.some.inj htarget']

theorem failsClean (h : Sound s) : s.FailsClean := by
  intro i hi e hphase
  have hstanding := h.standing i hi
  rw [hphase] at hstanding
  exact hstanding

theorem accounted (h : Sound s) (hcomplete : Complete s) : s.Accounted := by
  intro i hi
  have hover : (s.runtime i).cancelled = true → (s.runtime i).over = true := by
    intro hcancelled
    rw [RuntimeTask.over, hcancelled, Bool.true_or]
  have hcalled : ∀ c j, (s.call c).phase.holds j = true → c < s.nextCall := by
    intro c j hj
    refine Nat.lt_of_not_le fun hc => ?_
    rw [h.begun c hc] at hj
    cases hj
  have hheld : ∀ c, (s.call c).phase.holds i = true →
      ∃ c < s.nextCall, (s.call c).phase.holds i = true :=
    fun c hc => ⟨c, hcalled c i hc, hc⟩
  -- a runtime that got its generation is registered still, or a shutdown has taken it
  have hnumbered : (s.runtime i).generation.isSome = true →
      (s.call (s.runtime i).call).phase.failed = false →
      s.Registered i ∨ (s.runtime i).over = true ∨
        ∃ c < s.nextCall, (s.call c).phase.holds i = true := by
    intro hgeneration hnot
    rcases hcomplete.kept i hi hgeneration with hregistered | hdone | hfail
    · exact .inl hregistered
    · rcases hcomplete.handled i hi hdone with hcancelled | ⟨c, hc⟩
      · exact .inr (.inl hcancelled)
      · exact .inr (.inr (hheld c (CallPhase.holds_of_stops hc)))
    · exact absurd hfail (Bool.eq_false_iff.mp hnot)
  have hstanding := h.standing i hi
  have howner := hheld (s.runtime i).call
  cases hphase : (s.call (s.runtime i).call).phase with
  | spawned j | cleaning j e =>
    rw [hphase] at hstanding howner
    obtain rfl := hstanding.1
    exact .inr (.inr (howner (decide_eq_true rfl)))
  | persisting j g | rollingBack j g e =>
    rw [hphase] at hstanding hnumbered
    exact hnumbered (Option.isSome_iff_exists.mpr ⟨g, hstanding.2⟩) rfl
  | cleaned e | failing e =>
    rw [hphase] at hstanding
    exact .inr (.inl (hover hstanding.2))
  | returned result =>
    rw [hphase] at hstanding hnumbered
    cases result with
    | error e => exact .inr (.inl (hover hstanding.2))
    | ok u => exact hnumbered hstanding rfl
  | idle | begun | loaded | checking | checked | stopping rest | waiting rest =>
    rw [hphase] at hstanding
    exact hstanding.elim

/-- However the calls interleave, every runtime stays accounted for, and no call touches the
registrations of another, as long as no shutdown of the server gives up. -/
theorem orderly_throughout (as : List ServerAction) (h : Runs.Along step Completes new as) :
    Runs.Throughout step Orderly new as :=
  Runs.throughout
    (fun s a (hs : Sound s ∧ Complete s) hcompletes =>
      ⟨hs.1.step a, hs.2.step hs.1 hcompletes⟩)
    (fun _ hs => ⟨oneRuntime hs.1, failsClean hs.1, hs.2.kept, accounted hs.1 hs.2⟩)
    ⟨Sound.new, Complete.new⟩ h

/-- The runtime of the first lane does not shut down in time, that of the second one has a run under
way. -/
def stuckShutdown : List ServerAction :=
  [.begin (.createSession "s"), .go 0 none,
    .begin (.spawnLane "s" "a"), .go 1 none, .go 1 none, .go 1 none, .go 1 none, .go 1 none,
    .begin (.spawnLane "s" "b"), .go 2 none, .go 2 none, .go 2 none, .go 2 none, .go 2 none,
    .work 1 true, .begin .shutdown, .go 3 none, .stop 3 0,
    .go 3 (some (.agent "shutdown timeout"))]

/-- A spawn whose second check fails, and one whose head cannot be put on record, both next to a
shutdown of the server. -/
def crossingSpawns : List ServerAction :=
  [.begin (.createSession "s"), .go 0 none,
    .begin (.spawnLane "s" "a"), .begin (.spawnLane "s" "a"),
    .go 1 none, .go 2 none, .go 1 none, .go 2 none, .go 1 none, .go 2 none, .go 1 none,
    .go 2 none, .begin .shutdown, .go 3 none, .go 1 (some (.agent "disk full")), .go 1 none,
    .stop 3 0, .go 1 none, .go 2 none, .go 3 none, .go 1 none, .go 2 none, .go 3 none]

theorem crossingSpawns_orderly : Runs.Throughout step Orderly new crossingSpawns :=
  orderly_throughout crossingSpawns (by decide +kernel)

theorem stuckShutdown_leaks :
    ¬ ∀ as : List ServerAction, Runs.Throughout step Orderly new as := by
  intro h
  obtain ⟨-, -, -, haccounted⟩ := (h stuckShutdown).last
  rcases haccounted 1 (by decide +kernel) with hregistered | hcancelled | ⟨c, hc, hheld⟩
  · revert hregistered
    rw [← mem_runtimes]
    decide +kernel
  · revert hcancelled
    decide +kernel
  · revert c
    decide +kernel

end AgentServer

end Guigu.Server
