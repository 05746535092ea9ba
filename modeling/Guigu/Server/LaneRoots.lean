import Guigu.Server.LaneRuns

/-! One tree in the log of a session, and acknowledged messages on the way to the heads. -/
namespace Guigu

open Runs

/-- No write of the call fails. -/
def LaneAction.Faultless : LaneAction → Prop
  | .advance _ fails => fails = false
  | .append _ _ fault => fault = .clean
  | _ => True

instance : (a : LaneAction) → Decidable a.Faultless
  | .advance _ fails => inferInstanceAs (Decidable (fails = false))
  | .append _ _ fault => inferInstanceAs (Decidable (fault = .clean))
  | .restart | .createSession _ | .loadSession _ | .loadAndResume _ _ _ | .resumeLane _ _
  | .spawnLane _ | .forkLane _ _ => .isTrue trivial

namespace LaneServer

/-- The log reduces, and has no second root. -/
def SingleTree (s : LaneServer) : Prop :=
  (∃ tree, reduceFor s.log s.storage.sessionId = .ok tree) ∧
    (s.log.filter fun e => e.parentId = none).length ≤ 1

/-- The log reduces, and every lane has its acknowledged messages, in order, on the path from
the root to its head. -/
def PathsComplete (s : LaneServer) : Prop :=
  ∃ tree, reduceFor s.log s.storage.sessionId = .ok tree ∧
    ∀ r ∈ s.runtimes, ∃ path, tree.headPath r.writer.head = some path ∧ r.acked.Sublist path

theorem Sound.singleTree {s : LaneServer} (h : s.Sound) : s.SingleTree := by
  obtain ⟨root, hred⟩ := reduceFor_grown h.grown s.storage.sessionId
  refine ⟨⟨_, hred⟩, ?_⟩
  -- every root is the first entry
  have hsub : (s.log.filter fun e => e.parentId = none) ⊆ s.log.head?.toList := by
    intro e he
    obtain ⟨hmem, hnone⟩ := List.mem_filter.mp he
    rw [h.grown.root_eq hmem (by simpa using hnone)]
    simp
  have hnodup : (s.log.filter fun e => e.parentId = none).Nodup :=
    (h.grown.nodup.of_map _).filter _
  have hle := (List.subperm_of_subset hnodup hsub).length_le
  have hhead : s.log.head?.toList.length ≤ 1 := by cases s.log.head? <;> simp
  exact hle.trans hhead

theorem Sound.pathsComplete {s : LaneServer} (h : s.Sound) : s.PathsComplete := by
  obtain ⟨root, hred⟩ := reduceFor_grown h.grown s.storage.sessionId
  refine ⟨_, hred, fun r hr => ?_⟩
  obtain ⟨es, hes, hsub⟩ := h.runtimes r hr
  exact ⟨_, headPath_treeOf h.grown.rooted hes, hsub⟩

theorem sound_throughout {prop : LaneServer → Prop} (hprop : ∀ s, Sound s → prop s)
    (sessionId : String) (as : List LaneAction)
    (has : Along step RootsOnce (fresh sessionId) as) :
    Throughout step prop (fresh sessionId) as := by
  have hstep : ∀ s a, Sound s → s.RootsOnce a → Sound (s.step a) := fun s a hs ha => hs.step ha
  exact throughout hstep hprop (Sound.fresh sessionId) has

/-- As long as a lane without a node appends to an empty log only, the log is one tree, over
any interleaving and any number of restarts. -/
theorem singleTree_throughout (sessionId : String) (as : List LaneAction)
    (has : Along step RootsOnce (fresh sessionId) as) :
    Throughout step SingleTree (fresh sessionId) as :=
  sound_throughout (fun _ hs => hs.singleTree) sessionId as has

/-- Two lanes, the second a fork of the first, that both write, and a restart. -/
def forkedLanes : List LaneAction :=
  [.createSession true, .spawnLane "a", .advance 0 false, .advance 0 false,
    .append 0 helloMessage .clean, .forkLane "a" "b", .advance 0 false, .advance 0 false,
    .advance 0 false, .append 1 helloMessage .clean, .append 0 helloMessage .clean, .restart,
    .loadAndResume true "a" none]

theorem singleTree_forkedLanes : Throughout step SingleTree (fresh "session") forkedLanes := by
  apply singleTree_throughout
  decide +kernel

/-- Two lanes spawned side by side. -/
def spawnedLanes : List LaneAction :=
  [.createSession false, .spawnLane "a", .advance 0 false, .spawnLane "b", .advance 1 false,
    .append 0 helloMessage .clean, .append 1 helloMessage .clean]

/-- No write fails, and yet the first messages of both lanes are roots. -/
theorem spawnedLanes_twoRoots : (∀ a ∈ spawnedLanes, a.Faultless) ∧
    ¬ Throughout step SingleTree (fresh "session") spawnedLanes := by
  constructor
  · decide
  · intro h
    obtain ⟨⟨tree, htree⟩, -⟩ := h.last
    have hroots : reduceFor (run step (fresh "session") spawnedLanes).log
        (run step (fresh "session") spawnedLanes).storage.sessionId = .error .multipleRoots := by
      decide +kernel
    rw [hroots] at htree
    cases htree

end LaneServer

end Guigu
