import Guigu.Server.Registry

/-! The shutdown of the server: the lanes it has taken out of the registry are shut down one after
another, and then it waits for their persistence bridges. -/
namespace Guigu.Server

/-- The errors of a handle. -/
inductive AgentError where
  | other (message : String)
  deriving DecidableEq, Repr

def AgentError.text : AgentError → String
  | .other message => "Other error: " ++ message

/-- What a look at the flag of a runtime finds, and the wait behind it when it is not set. -/
inductive FlagLook where
  | exited
  | changed
  | closed
  | elapsed
  deriving DecidableEq, Repr

/-- Wait until the flag is set. The looks end with the time that is left. -/
def waitFlag (ctx : String) : List FlagLook → Except AgentError Unit
  | .exited :: _ => .ok ()
  | .changed :: looks => waitFlag ctx looks
  | .closed :: _ => .error (.other (ctx ++ " channel closed"))
  | .elapsed :: _ | [] => .error (.other (ctx ++ " timeout"))

/-- The flag is set before the time is over and before the channel closes. -/
def ExitsInTime (looks : List FlagLook) : Prop :=
  ∃ n rest, looks = List.replicate n .changed ++ .exited :: rest

/-- How a bridge ends, if it does. -/
inductive BridgeEnd where
  | finished
  | panicked
  | running
  deriving DecidableEq, Repr

/-- What a shutdown meets: the flags of the runtimes, and their bridges. -/
structure ShutdownEnv where
  looks : ℕ → List FlagLook
  bridge : ℕ → BridgeEnd

/-- The token of a runtime is cancelled; the bridge behind it has been awaited. -/
inductive ShutdownEffect where
  | cancel (runtime : ℕ)
  | joined (runtime : ℕ)
  deriving DecidableEq, Repr

namespace ShutdownEnv

variable (env : ShutdownEnv)

/-- `AgentHandle::shutdown` -/
def shutdownHandle (i : ℕ) : List ShutdownEffect × Except AgentError Unit :=
  ([.cancel i], waitFlag "shutdown" (env.looks i))

def shutdownHandles : List ℕ → List ShutdownEffect × Except ServerError Unit
  | [] => ([], .ok ())
  | i :: handles =>
    match env.shutdownHandle i with
    | (effects, .ok ()) =>
      (effects ++ (shutdownHandles handles).1, (shutdownHandles handles).2)
    | (effects, .error e) => (effects, .error (.agent e.text))

/-- The flag tells whether all of them have ended. -/
def joinBridges : List ℕ → List ShutdownEffect × Bool
  | [] => ([], true)
  | i :: bridges =>
    match env.bridge i with
    | .finished | .panicked => (.joined i :: (joinBridges bridges).1, (joinBridges bridges).2)
    | .running => ([], false)

/-- The lanes come in the order in which the maps yield them. No result is a shutdown that does not
return. -/
def shutdown (lanes : List ℕ) : List ShutdownEffect × Option (Except ServerError Unit) :=
  match env.shutdownHandles lanes with
  | (effects, .error e) => (effects, some (.error e))
  | (effects, .ok ()) =>
    (effects ++ (env.joinBridges lanes).1,
      if (env.joinBridges lanes).2 then some (.ok ()) else none)

/-- Every runtime is shut down, and a shutdown that returns has waited for every bridge. -/
def ShutsDownAll (lanes : List ℕ) : Prop :=
  (∀ i ∈ lanes, .cancel i ∈ (env.shutdown lanes).1) ∧
    ((env.shutdown lanes).2.isSome = true → ∀ i ∈ lanes, .joined i ∈ (env.shutdown lanes).1)

end ShutdownEnv

theorem waitFlag_ok_iff {ctx : String} {looks : List FlagLook} :
    waitFlag ctx looks = .ok () ↔ ExitsInTime looks := by
  induction looks with
  | nil =>
    simp only [waitFlag, reduceCtorEq, ExitsInTime, false_iff]
    rintro ⟨n, rest, h⟩
    exact absurd h.symm (List.append_ne_nil_of_right_ne_nil _ (List.cons_ne_nil _ _))
  | cons look looks ih =>
    cases look with
    | exited => exact iff_of_true rfl ⟨0, looks, rfl⟩
    | changed =>
      rw [waitFlag, ih]
      constructor
      · rintro ⟨n, rest, rfl⟩
        exact ⟨n + 1, rest, rfl⟩
      · rintro ⟨n, rest, h⟩
        cases n with
        | zero => cases h
        | succ n => exact ⟨n, rest, (List.cons.inj h).2⟩
    | closed | elapsed =>
      simp only [waitFlag, reduceCtorEq, false_iff]
      rintro ⟨n, rest, h⟩
      cases n with
      | zero => cases h
      | succ n => cases h

instance (looks : List FlagLook) : Decidable (ExitsInTime looks) :=
  decidable_of_iff (waitFlag "" looks = .ok ()) waitFlag_ok_iff

namespace ShutdownEnv

variable {env : ShutdownEnv} {lanes : List ℕ}

theorem shutdownHandles_cons (i : ℕ) (handles : List ℕ) :
    env.shutdownHandles (i :: handles) =
      match waitFlag "shutdown" (env.looks i) with
      | .ok () => (.cancel i :: (env.shutdownHandles handles).1, (env.shutdownHandles handles).2)
      | .error e => ([.cancel i], .error (.agent e.text)) := by
  rw [shutdownHandles, shutdownHandle]
  cases waitFlag "shutdown" (env.looks i) <;> rfl

/-- Runtimes that exit in time are all shut down. -/
theorem shutdownHandles_ok (h : ∀ i ∈ lanes, ExitsInTime (env.looks i)) :
    env.shutdownHandles lanes = (lanes.map .cancel, .ok ()) := by
  induction lanes with
  | nil => rfl
  | cons i lanes ih =>
    obtain ⟨hi, hlanes⟩ := List.forall_mem_cons.mp h
    rw [shutdownHandles_cons, waitFlag_ok_iff.mpr hi, ih hlanes]
    rfl

/-- The first runtime that does not exit in time is the last one that is shut down. -/
theorem shutdownHandles_error {front back : List ℕ} {i : ℕ}
    (hfront : ∀ j ∈ front, ExitsInTime (env.looks j)) (hi : ¬ ExitsInTime (env.looks i)) :
    ∃ e, env.shutdownHandles (front ++ i :: back) = ((front ++ [i]).map .cancel, .error e) := by
  induction front with
  | nil =>
    cases hwait : waitFlag "shutdown" (env.looks i) with
    | ok u => exact absurd (waitFlag_ok_iff.mp hwait) hi
    | error e =>
      refine ⟨.agent e.text, ?_⟩
      rw [List.nil_append, shutdownHandles_cons, hwait]
      rfl
  | cons j front ih =>
    obtain ⟨hj, hfront⟩ := List.forall_mem_cons.mp hfront
    obtain ⟨e, he⟩ := ih hfront
    refine ⟨e, ?_⟩
    rw [List.cons_append, shutdownHandles_cons, waitFlag_ok_iff.mpr hj, he]
    rfl

theorem joined_of_ended (h : (env.joinBridges lanes).2 = true) :
    ∀ i ∈ lanes, .joined i ∈ (env.joinBridges lanes).1 := by
  induction lanes with
  | nil => exact fun _ hi => absurd hi List.not_mem_nil
  | cons j lanes ih =>
    unfold joinBridges at h ⊢
    cases hbridge : env.bridge j with
    | running => simp only [hbridge, Bool.false_eq_true] at h
    | finished | panicked =>
      simp only [hbridge] at h ⊢
      intro i hi
      rcases List.mem_cons.mp hi with rfl | hi
      · exact List.mem_cons_self
      · exact List.mem_cons_of_mem _ (ih h i hi)

/-- A shutdown of the server deals with all lanes exactly when every runtime exits in time. -/
theorem shutsDownAll_iff (env : ShutdownEnv) (lanes : List ℕ) :
    env.ShutsDownAll lanes ↔ ∀ i ∈ lanes, ExitsInTime (env.looks i) := by
  constructor
  · intro hall
    cases hfind : lanes.find? fun i => ¬ ExitsInTime (env.looks i) with
    | none => simpa using List.find?_eq_none.mp hfind
    | some i =>
      -- the lane at which the shutdown gives up: it returns without a look at its bridge
      obtain ⟨hi, front, back, rfl, hfront⟩ := List.find?_eq_some_iff_append.mp hfind
      have hfront : ∀ j ∈ front, ExitsInTime (env.looks j) := by simpa using hfront
      obtain ⟨e, he⟩ : ∃ e, env.shutdownHandles (front ++ i :: back) = (_, .error e) :=
        shutdownHandles_error hfront (of_decide_eq_true hi)
      have hjoined := hall.2 (by simp only [shutdown, he, Option.isSome_some]) i (by simp)
      simp only [shutdown, he, List.mem_map, reduceCtorEq, and_false, exists_false] at hjoined
  · intro h
    unfold ShutsDownAll shutdown
    rw [shutdownHandles_ok h]
    refine ⟨fun i hi => List.mem_append_left _ (List.mem_map_of_mem hi), fun hreturns i hi => ?_⟩
    have hended : (env.joinBridges lanes).2 = true := by
      by_contra hnot
      simp [hnot] at hreturns
    exact List.mem_append_right _ (joined_of_ended hended i hi)

/-- Two lanes: the runtime of the one that comes first stays in its run for half a minute. -/
def stuckLane : ShutdownEnv :=
  ⟨fun i => if i = 0 then [.elapsed] else [.exited], fun _ => .finished⟩

theorem stuckLane_leaves : stuckLane.shutdown [0, 1] =
      ([.cancel 0], some (.error (.agent "Other error: shutdown timeout"))) ∧
    ¬ stuckLane.ShutsDownAll [0, 1] := by
  have hshutdown : stuckLane.shutdown [0, 1] =
      ([.cancel 0], some (.error (.agent "Other error: shutdown timeout"))) := by decide
  refine ⟨hshutdown, fun hall => ?_⟩
  have hcancel := hall.1 1 (by decide)
  rw [hshutdown] at hcancel
  revert hcancel
  decide

end ShutdownEnv

/-! ## The shutdown among the calls of the server -/

namespace AgentServer

open ShutdownEnv

variable {env : ShutdownEnv} {s : AgentServer} {c : ℕ}

/-- The steps of a call that shuts down these runtimes. -/
def shutdownActions (env : ShutdownEnv) (c : ℕ) : List ℕ → List ServerAction
  | [] => [.go c none]
  | i :: lanes =>
    match waitFlag "shutdown" (env.looks i) with
    | .ok () => .stop c i :: .go c none :: shutdownActions env c lanes
    | .error e => [.stop c i, .go c (some (.agent e.text))]

theorem step_stop {rest : List ℕ} {i : ℕ} (hphase : (s.call c).phase = .stopping rest)
    (hi : i ∈ rest) : s.step (.stop c i) = (s.cancel i).setPhase c (.waiting (rest.erase i)) := by
  simp only [step, hphase, if_pos hi]

theorem step_waiting {rest : List ℕ} (hphase : (s.call c).phase = .waiting rest) :
    s.step (.go c none) = s.setPhase c (.stopping rest) := by
  simp only [step, go, hphase]

theorem step_givesUp {rest : List ℕ} (hphase : (s.call c).phase = .waiting rest)
    (e : ServerError) :
    s.step (.go c (some e)) = (s.dropHandles rest).setPhase c (.returned (.error e)) := by
  simp only [step, go, hphase]

theorem cancelled_dropHandles (rest : List ℕ) (j : ℕ) :
    ((s.dropHandles rest).runtime j).cancelled = (s.runtime j).cancelled := by
  show (if j ∈ rest then _ else _ : RuntimeTask).cancelled = _
  split_ifs <;> rfl

theorem cancelled_cancel (i j : ℕ) : ((s.cancel i).runtime j).cancelled = true ↔
    (s.runtime j).cancelled = true ∨ j = i := by
  by_cases hj : j = i
  · subst hj
    exact iff_of_true (by rw [cancel_self]) (.inr rfl)
  · rw [s.cancel_of_ne hj]
    exact (or_iff_left hj).symm

/-- What the steps of a shutdown leave is what the shutdown does. -/
theorem run_shutdownActions {order rest : List ℕ} (hperm : order.Perm rest)
    (hphase : (s.call c).phase = .stopping rest) :
    let t := Runs.run step s (shutdownActions env c order)
    (t.call c).phase = .returned (env.shutdownHandles order).2 ∧ t.sessions = s.sessions ∧
      ∀ j, (t.runtime j).cancelled = true ↔
        (s.runtime j).cancelled = true ∨ .cancel j ∈ (env.shutdownHandles order).1 := by
  induction order generalizing s rest with
  | nil =>
    have hgo : s.step (.go c none) = s.setPhase c (.returned (.ok ())) := by
      rw [hperm.nil_eq.symm] at hphase
      simp only [step, go, hphase]
    simp only [shutdownActions, Runs.run_cons, Runs.run_nil, hgo]
    refine ⟨congrArg CallState.phase (s.setPhase_self c _), rfl, fun j => ?_⟩
    exact (or_iff_left List.not_mem_nil).symm
  | cons i lanes ih =>
    have hi : i ∈ rest := hperm.subset List.mem_cons_self
    have hlanes : lanes.Perm (rest.erase i) := (List.cons_perm_iff_perm_erase.mp hperm).2
    have hwaiting : (((s.cancel i).setPhase c (.waiting (rest.erase i))).call c).phase =
        .waiting (rest.erase i) := congrArg CallState.phase ((s.cancel i).setPhase_self c _)
    rw [shutdownActions, shutdownHandles_cons]
    cases waitFlag "shutdown" (env.looks i) with
    | error e =>
      simp only [Runs.run_cons, Runs.run_nil, step_stop hphase hi, step_givesUp hwaiting]
      refine ⟨congrArg CallState.phase (setPhase_self ..), rfl, fun j => ?_⟩
      rw [List.mem_singleton, ShutdownEffect.cancel.injEq]
      exact (Bool.eq_iff_iff.mp (cancelled_dropHandles _ j)).trans (cancelled_cancel i j)
    | ok u =>
      simp only [Runs.run_cons, step_stop hphase hi, step_waiting hwaiting]
      obtain ⟨hreturned, hsessions, hcancelled⟩ := ih hlanes
        (s := ((s.cancel i).setPhase c (.waiting (rest.erase i))).setPhase c
          (.stopping (rest.erase i))) (congrArg CallState.phase (setPhase_self ..))
      refine ⟨hreturned, hsessions, fun j => (hcancelled j).trans ?_⟩
      simp only [List.mem_cons, ShutdownEffect.cancel.injEq]
      exact (or_congr_left (cancelled_cancel i j)).trans or_assoc

/-- A shutdown of the server that no other call gets in the way of: the registry is empty, and the
runtimes that had been in it are cancelled as far as the shutdown gets. -/
theorem shutdown_registry {order : List ℕ} (horder : order.Perm s.runtimes) :
    let t := Runs.run step s
      (.begin .shutdown :: .go s.nextCall none :: shutdownActions env s.nextCall order)
    (t.call s.nextCall).phase = .returned (env.shutdownHandles order).2 ∧ t.sessions = ∅ ∧
      ∀ j, (t.runtime j).cancelled = true ↔
        (s.runtime j).cancelled = true ∨ .cancel j ∈ (env.shutdownHandles order).1 := by
  have hbegun : ((s.step (.begin .shutdown)).call s.nextCall) = ⟨.shutdown, .begun⟩ :=
    Function.update_self ..
  have hdrain : (s.step (.begin .shutdown)).step (.go s.nextCall none) =
      (s.step (.begin .shutdown)).drain.setPhase s.nextCall (.stopping s.runtimes) := by
    show (s.step (.begin .shutdown)).go s.nextCall none = _
    simp only [go, hbegun]
    rfl
  have hphase : ((((s.step (.begin .shutdown)).drain.setPhase s.nextCall
      (.stopping s.runtimes)).call s.nextCall).phase) = .stopping s.runtimes :=
    congrArg CallState.phase (setPhase_self ..)
  have hkept : ∀ j, (((s.step (.begin .shutdown)).drain.setPhase s.nextCall
      (.stopping s.runtimes)).runtime j).cancelled = (s.runtime j).cancelled := by
    intro j
    show (if j ∈ s.runtimes then _ else _ : RuntimeTask).cancelled = _
    split_ifs <;> rfl
  obtain ⟨hreturned, hsessions, hcancelled⟩ := @run_shutdownActions env _ _ _ _ horder hphase
  simp only [Runs.run_cons, hdrain]
  refine ⟨hreturned, hsessions, fun j => (hcancelled j).trans ?_⟩
  rw [hkept]

end AgentServer

end Guigu.Server
