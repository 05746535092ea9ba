import Guigu.Library.Fallible
import Guigu.Plugin.Hooks

/-! The registry of agent plugins, and what their hooks do together. -/
namespace Guigu

open InTurn MergedHooks

variable {σ : Type}

inductive AgentPluginError where
  | duplicateAgentPlugin (id : String)
  deriving DecidableEq, Repr

/-- A plugin, with the hooks that it contributes. -/
structure AgentPlugin (σ : Type) where
  id : String
  hooks : Option (LifecycleHooks σ)

/-- The plugins by their identifiers. -/
structure AgentPluginRegistry (σ : Type) where
  plugins : List (AgentPlugin σ)
  nodup : (plugins.map AgentPlugin.id).Nodup

namespace AgentPluginRegistry

def new : AgentPluginRegistry σ := ⟨[], List.nodup_nil⟩

def register (r : AgentPluginRegistry σ) (p : AgentPlugin σ) :
    Except AgentPluginError (AgentPluginRegistry σ) :=
  if h : p.id ∈ r.plugins.map AgentPlugin.id then .error (.duplicateAgentPlugin p.id)
  else .ok ⟨p :: r.plugins, List.nodup_cons.mpr ⟨h, r.nodup⟩⟩

def unregister (r : AgentPluginRegistry σ) (id : String) : AgentPluginRegistry σ :=
  ⟨r.plugins.filter fun p => p.id ≠ id, r.nodup.sublist (List.filter_sublist.map _)⟩

/-- The hooks that plugins contribute. -/
def entries (values : List (AgentPlugin σ)) : Hooks σ :=
  values.filterMap fun plugin => plugin.hooks.map fun hooks => (plugin.id, hooks)

/-- The hooks of all plugins as one. A hash map yields its `values` in any order. -/
def mergedHooks (values : List (AgentPlugin σ)) : Option (LifecycleHooks σ) :=
  if (entries values).isEmpty then none
  else some (MergedHooks.hooks (MergedHooks.new (entries values)))

/-- Plugins with different identifiers can be registered in any order. -/
theorem registered (ps : List (AgentPlugin σ)) (r : AgentPluginRegistry σ)
    (h : ((ps ++ r.plugins).map AgentPlugin.id).Nodup) :
    ∃ r', ps.foldlM register r = .ok r' ∧ r'.plugins.Perm (ps ++ r.plugins) := by
  induction ps generalizing r with
  | nil => exact ⟨r, rfl, .refl _⟩
  | cons p ps ih =>
    have hmiddle : (ps ++ p :: r.plugins).Perm (p :: (ps ++ r.plugins)) := List.perm_middle
    have hfresh : p.id ∉ r.plugins.map AgentPlugin.id := fun hmem =>
      (List.nodup_cons.mp h).1 (List.map_append ▸ List.mem_append_right _ hmem)
    obtain ⟨r', hr, hperm⟩ := ih ⟨p :: r.plugins, List.nodup_cons.mpr ⟨hfresh, r.nodup⟩⟩
      ((hmiddle.map AgentPlugin.id).nodup_iff.mpr h)
    have hreg : r.register p = .ok ⟨p :: r.plugins, List.nodup_cons.mpr ⟨hfresh, r.nodup⟩⟩ :=
      dif_neg hfresh
    refine ⟨r', ?_, hperm.trans hmiddle⟩
    rw [List.foldlM_cons, hreg]
    exact hr

theorem entries_nodup {values : List (AgentPlugin σ)}
    (h : (values.map AgentPlugin.id).Nodup) : ((entries values).map Prod.fst).Nodup := by
  have hsub : ((entries values).map Prod.fst).Sublist (values.map AgentPlugin.id) := by
    induction values with
    | nil => exact .slnil
    | cons p values ih =>
      have ih := ih (List.nodup_cons.mp h).2
      cases hp : p.hooks with
      | none => simpa [entries, hp] using ih.cons p.id
      | some hooks => simpa [entries, hp] using ih.cons_cons p.id
  exact h.sublist hsub

theorem mem_entries {values : List (AgentPlugin σ)} {id : String} {hooks : LifecycleHooks σ} :
    (id, hooks) ∈ entries values ↔ ∃ p ∈ values, p.id = id ∧ p.hooks = some hooks := by
  simp only [entries, List.mem_filterMap, Option.map_eq_some_iff, Prod.mk.injEq]
  constructor
  · rintro ⟨p, hp, _, hhooks, hid, rfl⟩
    exact ⟨p, hp, hid, hhooks⟩
  · rintro ⟨p, hp, hid, hhooks⟩
    exact ⟨p, hp, hooks, hhooks, hid, rfl⟩

end AgentPluginRegistry

namespace MergedHooks

theorem new_perm (hooks : Hooks σ) : (new hooks).Perm hooks := List.mergeSort_perm _ _

/-- Hooks of different plugins are put in ascending order of the identifiers. -/
theorem new_ascending {hooks : Hooks σ} (h : (hooks.map Prod.fst).Nodup) :
    (new hooks).Pairwise fun a b => a.1 < b.1 := by
  have hsorted : (new hooks).Pairwise fun a b => a.1 ≤ b.1 := by
    have := @List.pairwise_mergeSort (String × LifecycleHooks σ) (fun a b => decide (a.1 ≤ b.1))
      (fun a b c hab hbc => by
        simp only [decide_eq_true_eq] at *
        exact hab.trans hbc)
      (fun a b => by
        simp only [Bool.or_eq_true, decide_eq_true_eq]
        exact le_total _ _) hooks
    exact this.imp fun hab => of_decide_eq_true hab
  have hne : (new hooks).Pairwise fun a b => a.1 ≠ b.1 :=
    List.pairwise_map.mp (((new_perm hooks).map Prod.fst).nodup_iff.mpr h)
  exact hsorted.imp₂ (fun a b hle hne => lt_of_le_of_ne hle hne) hne

/-- Ascending hooks are in the one order there is. -/
theorem eq_of_ascending {hs hs' : Hooks σ} (hperm : hs.Perm hs')
    (h : hs.Pairwise fun a b => a.1 < b.1) (h' : hs'.Pairwise fun a b => a.1 < b.1) : hs = hs' :=
  hperm.eq_of_pairwise (fun _ _ _ _ hab hba => absurd (hab.trans hba) (lt_irrefl _)) h h'

end MergedHooks

/-! ## Hooks that are called in turn -/

namespace LifecycleHooks

variable (ctx : HookContext)

/-- Takes the result from the state and puts its own there. -/
def afterCall (toolCall : ToolCall) (h : LifecycleHooks σ) (state : ToolResult × σ) :
    Except HookError Unit × (ToolResult × σ) :=
  match h.afterToolCall ctx toolCall state.1 state.2 with
  | (.ok r, s) => (.ok (), r, s)
  | (.error e, s) => (.error e, state.1, s)

/-- Fails if it says stop. -/
def stopCall (h : LifecycleHooks σ) (s : σ) : Except Unit Unit × σ :=
  match h.shouldStopAfterTurn ctx s with
  | (some true, s) => (.error (), s)
  | (_, s) => (.ok (), s)

theorem stopCall_eq (h : LifecycleHooks σ) (s : σ) : stopCall ctx h s =
    (if (h.shouldStopAfterTurn ctx s).1 = some true then .error () else .ok (),
      (h.shouldStopAfterTurn ctx s).2) := by
  obtain ⟨answer, hanswer⟩ : ∃ a, (h.shouldStopAfterTurn ctx s).1 = a := ⟨_, rfl⟩
  have hs : h.shouldStopAfterTurn ctx s = (answer, (h.shouldStopAfterTurn ctx s).2) :=
    Prod.ext hanswer rfl
  unfold stopCall
  rw [hs]
  rcases answer with _ | _ | _ <;> rfl

variable {ctx} {h : LifecycleHooks σ} {s t : σ} {u : Unit}

theorem stopCall_error_iff :
    stopCall ctx h s = (.error u, t) ↔ h.shouldStopAfterTurn ctx s = (some true, t) := by
  rw [stopCall_eq, Prod.ext_iff, Prod.ext_iff]
  by_cases hstop : (h.shouldStopAfterTurn ctx s).1 = some true <;> simp [hstop]

theorem stopCall_ok_iff : stopCall ctx h s = (.ok u, t) ↔
    (h.shouldStopAfterTurn ctx s).1 ≠ some true ∧ (h.shouldStopAfterTurn ctx s).2 = t := by
  rw [stopCall_eq, Prod.ext_iff]
  by_cases hstop : (h.shouldStopAfterTurn ctx s).1 = some true <;> simp [hstop]

end LifecycleHooks

open LifecycleHooks

section Stops

variable {ctx : HookContext} {hs : List (LifecycleHooks σ)} {s t : σ} {us : List Unit}

theorem passes_stop (h : Passes (stopCall ctx) hs s us t)
    (hkeeps : ∀ k ∈ hs, (k.shouldStopAfterTurn ctx s).2 = s) :
    ∀ k ∈ hs, (k.shouldStopAfterTurn ctx s).1 ≠ some true := by
  induction h with
  | nil s => exact fun _ hk => absurd hk List.not_mem_nil
  | @cons h hs s s' t u us hcall _ ih =>
    have hok := stopCall_ok_iff.mp hcall
    have hs' : s' = s := hok.2.symm.trans (hkeeps h List.mem_cons_self)
    subst hs'
    intro k hk
    rcases List.mem_cons.mp hk with rfl | hk
    · exact hok.1
    · exact ih (fun k hk => hkeeps k (List.mem_cons_of_mem _ hk)) k hk

theorem halts_stop {e : Unit} (h : Halts (stopCall ctx) hs s us e t)
    (hkeeps : ∀ k ∈ hs, (k.shouldStopAfterTurn ctx s).2 = s) :
    ∃ k ∈ hs, (k.shouldStopAfterTurn ctx s).1 = some true := by
  induction h with
  | @here h hs s s' e hcall =>
    exact ⟨h, List.mem_cons_self, congrArg Prod.fst (stopCall_error_iff.mp hcall)⟩
  | @later h hs s s' t u us e hcall _ ih =>
    have hs' : s' = s := (stopCall_ok_iff.mp hcall).2.symm.trans (hkeeps h List.mem_cons_self)
    subst hs'
    obtain ⟨k, hk, hstop⟩ := ih fun k hk => hkeeps k (List.mem_cons_of_mem _ hk)
    exact ⟨k, List.mem_cons_of_mem _ hk, hstop⟩

end Stops

/-- `h` calls `hs` in turn: what comes of it when all of them pass, and what when one fails. -/
structure CallsInTurn (hs : List (LifecycleHooks σ)) (h : LifecycleHooks σ) : Prop where
  /-- A tool is vetoed by the first hook that fails, and the others are not asked. -/
  before_passes {ctx : HookContext} {args : Json} {s t : σ} {us : List Unit} :
    Passes (·.beforeToolCall ctx args) hs s us t → h.beforeToolCall ctx args s = (.ok (), t)
  before_halts {ctx : HookContext} {args : Json} {s t : σ} {us : List Unit} {e : HookError} :
    Halts (·.beforeToolCall ctx args) hs s us e t → h.beforeToolCall ctx args s = (.error e, t)
  /-- A result goes from hook to hook; the last one that succeeded decides. -/
  after_passes {ctx : HookContext} {call : ToolCall} {r r' : ToolResult} {s t : σ}
      {us : List Unit} :
    Passes (afterCall ctx call) hs (r, s) us (r', t) → h.afterToolCall ctx call r s = (.ok r', t)
  after_halts {ctx : HookContext} {call : ToolCall} {r r' : ToolResult} {s t : σ}
      {us : List Unit} {e : HookError} :
    Halts (afterCall ctx call) hs (r, s) us e (r', t) → h.afterToolCall ctx call r s = (.ok r', t)
  /-- The run stops when a hook says so. -/
  stop_passes {ctx : HookContext} {s t : σ} {us : List Unit} :
    Passes (stopCall ctx) hs s us t → h.shouldStopAfterTurn ctx s = (none, t)
  stop_halts {ctx : HookContext} {s t : σ} {us : List Unit} {e : Unit} :
    Halts (stopCall ctx) hs s us e t → h.shouldStopAfterTurn ctx s = (some true, t)
  /-- The messages of the hooks are put together up to the first one that fails. -/
  prepare_passes {ctx : HookContext} {assistant : AssistantMessage}
      {toolResults : List ToolResultMessage} {s t : σ} {msgs : List (List Message)} :
    Passes (·.prepareNextTurn ctx assistant toolResults) hs s msgs t →
      h.prepareNextTurn ctx assistant toolResults s = (.ok msgs.flatten, t)
  prepare_halts {ctx : HookContext} {assistant : AssistantMessage}
      {toolResults : List ToolResultMessage} {s t : σ} {msgs : List (List Message)}
      {e : HookError} :
    Halts (·.prepareNextTurn ctx assistant toolResults) hs s msgs e t →
      h.prepareNextTurn ctx assistant toolResults s = (.ok msgs.flatten, t)

namespace CallsInTurn

variable {hs : List (LifecycleHooks σ)} {h h' : LifecycleHooks σ}

/-- It says everything about `h`. -/
theorem unique (hcalls : CallsInTurn hs h) (hcalls' : CallsInTurn hs h') : h = h' := by
  obtain ⟨before, after, stop, prepare⟩ := h
  obtain ⟨before', after', stop', prepare'⟩ := h'
  have hbefore : before = before' := by
    funext ctx args s
    rcases passes_or_halts (·.beforeToolCall ctx args) hs s with ⟨_, _, hp⟩ | ⟨_, _, _, hh⟩
    · exact (hcalls.before_passes hp).trans (hcalls'.before_passes hp).symm
    · exact (hcalls.before_halts hh).trans (hcalls'.before_halts hh).symm
  have hafter : after = after' := by
    funext ctx call r s
    rcases passes_or_halts (afterCall ctx call) hs (r, s) with ⟨_, _, hp⟩ | ⟨_, _, _, hh⟩
    · exact (hcalls.after_passes hp).trans (hcalls'.after_passes hp).symm
    · exact (hcalls.after_halts hh).trans (hcalls'.after_halts hh).symm
  have hstop : stop = stop' := by
    funext ctx s
    rcases passes_or_halts (stopCall ctx) hs s with ⟨_, _, hp⟩ | ⟨_, _, _, hh⟩
    · exact (hcalls.stop_passes hp).trans (hcalls'.stop_passes hp).symm
    · exact (hcalls.stop_halts hh).trans (hcalls'.stop_halts hh).symm
  have hprepare : prepare = prepare' := by
    funext ctx assistant toolResults s
    rcases passes_or_halts (·.prepareNextTurn ctx assistant toolResults) hs s with
      ⟨_, _, hp⟩ | ⟨_, _, _, hh⟩
    · exact (hcalls.prepare_passes hp).trans (hcalls'.prepare_passes hp).symm
    · exact (hcalls.prepare_halts hh).trans (hcalls'.prepare_halts hh).symm
  rw [hbefore, hafter, hstop, hprepare]

/-- The run stops exactly when a hook that is asked says so. -/
theorem stops_iff (hcalls : CallsInTurn hs h) (ctx : HookContext) (s : σ) :
    (h.shouldStopAfterTurn ctx s).1 = some true ↔
      ∃ front k back u us, hs = front ++ k :: back ∧ Passes (stopCall ctx) front s us u ∧
        (k.shouldStopAfterTurn ctx u).1 = some true := by
  constructor
  · intro hstop
    rcases passes_or_halts (stopCall ctx) hs s with ⟨_, _, hp⟩ | ⟨us, _, t, hh⟩
    · rw [hcalls.stop_passes hp] at hstop
      cases hstop
    · obtain ⟨front, k, back, u, hsplit, hfront, hk⟩ := hh.exists_split
      exact ⟨front, k, back, u, us, hsplit, hfront, by rw [stopCall_error_iff.mp hk]⟩
  · rintro ⟨front, k, back, u, us, rfl, hfront, hk⟩
    have hcall := (stopCall_error_iff (u := ())).mpr (Prod.ext hk rfl)
    rw [hcalls.stop_halts (hfront.halts_append hcall back)]

/-- Where the answers leave the state alone, any hook that says so stops the run. -/
theorem stops_iff_exists (hcalls : CallsInTurn hs h) (ctx : HookContext) (s : σ)
    (hkeeps : ∀ k ∈ hs, (k.shouldStopAfterTurn ctx s).2 = s) :
    (h.shouldStopAfterTurn ctx s).1 = some true ↔
      ∃ k ∈ hs, (k.shouldStopAfterTurn ctx s).1 = some true := by
  rcases passes_or_halts (stopCall ctx) hs s with ⟨us, t, hp⟩ | ⟨us, _, t, hh⟩
  · rw [hcalls.stop_passes hp]
    simp only [reduceCtorEq, false_iff, not_exists, not_and]
    exact passes_stop hp hkeeps
  · rw [hcalls.stop_halts hh]
    exact ⟨fun _ => halts_stop hh hkeeps, fun _ => rfl⟩

end CallsInTurn

/-! ## What a registry makes of its plugins -/

namespace MergedHooks

variable {ctx : HookContext} {hs : Hooks σ} {s t : σ} {us : List Unit} {e : HookError}

theorem beforeToolCall_passes {args : Json}
    (h : Passes (·.beforeToolCall ctx args) (hs.map Prod.snd) s us t) :
    beforeToolCall ctx args hs s = (.ok (), t) := by
  induction hs generalizing s us with
  | nil =>
    cases h
    rfl
  | cons hook hs ih =>
    cases h with
    | cons hcall hpass => simpa only [beforeToolCall, hcall] using ih hpass

theorem beforeToolCall_halts {args : Json}
    (h : Halts (·.beforeToolCall ctx args) (hs.map Prod.snd) s us e t) :
    beforeToolCall ctx args hs s = (.error e, t) := by
  induction hs generalizing s us with
  | nil => cases h
  | cons hook hs ih =>
    cases h with
    | here hcall => simp only [beforeToolCall, hcall]
    | later hcall hhalt => simpa only [beforeToolCall, hcall] using ih hhalt

theorem afterCall_ok {call : ToolCall} {h : LifecycleHooks σ} {r r' : ToolResult} {u : Unit}
    (hcall : afterCall ctx call h (r, s) = (.ok u, (r', t))) :
    h.afterToolCall ctx call r s = (.ok r', t) := by
  unfold afterCall at hcall
  split at hcall
  next heq =>
    obtain ⟨-, hstate⟩ := Prod.mk.inj hcall
    obtain ⟨rfl, rfl⟩ := Prod.mk.inj hstate
    exact heq
  next => cases hcall

theorem afterCall_error {call : ToolCall} {h : LifecycleHooks σ} {r r' : ToolResult}
    (hcall : afterCall ctx call h (r, s) = (.error e, (r', t))) :
    h.afterToolCall ctx call r s = (.error e, t) ∧ r' = r := by
  unfold afterCall at hcall
  split at hcall
  next => cases hcall
  next heq =>
    cases hcall
    exact ⟨heq, rfl⟩

theorem afterToolCall_passes {call : ToolCall} {r r' : ToolResult}
    (h : Passes (afterCall ctx call) (hs.map Prod.snd) (r, s) us (r', t)) :
    afterToolCall ctx call r hs s = (.ok r', t) := by
  induction hs generalizing r s us with
  | nil =>
    cases h
    rfl
  | cons hook hs ih =>
    cases h with
    | @cons _ _ _ mid _ _ _ hcall hpass =>
      simpa only [afterToolCall, afterCall_ok hcall] using ih hpass

theorem afterToolCall_halts {call : ToolCall} {r r' : ToolResult}
    (h : Halts (afterCall ctx call) (hs.map Prod.snd) (r, s) us e (r', t)) :
    afterToolCall ctx call r hs s = (.ok r', t) := by
  induction hs generalizing r s us with
  | nil => cases h
  | cons hook hs ih =>
    cases h with
    | here hcall =>
      obtain ⟨herror, rfl⟩ := afterCall_error hcall
      simp only [afterToolCall, herror]
    | @later _ _ _ mid _ _ _ _ hcall hhalt =>
      simpa only [afterToolCall, afterCall_ok hcall] using ih hhalt

theorem shouldStopAfterTurn_passes (h : Passes (stopCall ctx) (hs.map Prod.snd) s us t) :
    shouldStopAfterTurn ctx hs s = (none, t) := by
  induction hs generalizing s us with
  | nil =>
    cases h
    rfl
  | cons hook hs ih =>
    cases h with
    | cons hcall hpass =>
      obtain ⟨hne, rfl⟩ := stopCall_ok_iff.mp hcall
      rw [← ih hpass]
      exact shouldStopAfterTurn_cons_of_ne hne

theorem shouldStopAfterTurn_halts {u : Unit}
    (h : Halts (stopCall ctx) (hs.map Prod.snd) s us u t) :
    shouldStopAfterTurn ctx hs s = (some true, t) := by
  induction hs generalizing s us with
  | nil => cases h
  | cons hook hs ih =>
    cases h with
    | here hcall => simp only [shouldStopAfterTurn, stopCall_error_iff.mp hcall]
    | later hcall hhalt =>
      obtain ⟨hne, rfl⟩ := stopCall_ok_iff.mp hcall
      rw [← ih hhalt]
      exact shouldStopAfterTurn_cons_of_ne hne

section Prepare

variable {assistant : AssistantMessage} {toolResults : List ToolResultMessage}
  {msgs : List (List Message)}

theorem prepareNextTurn_passes (messages : List Message)
    (h : Passes (·.prepareNextTurn ctx assistant toolResults) (hs.map Prod.snd) s msgs t) :
    prepareNextTurn ctx assistant toolResults messages hs s =
      (.ok (messages ++ msgs.flatten), t) := by
  induction hs generalizing messages s msgs with
  | nil =>
    cases h
    simp only [prepareNextTurn, List.flatten_nil, List.append_nil]
  | cons hook hs ih =>
    cases h with
    | cons hcall hpass =>
      simp only [prepareNextTurn, hcall, ih _ hpass, List.flatten_cons, List.append_assoc]

theorem prepareNextTurn_halts (messages : List Message)
    (h : Halts (·.prepareNextTurn ctx assistant toolResults) (hs.map Prod.snd) s msgs e t) :
    prepareNextTurn ctx assistant toolResults messages hs s =
      (.ok (messages ++ msgs.flatten), t) := by
  induction hs generalizing messages s msgs with
  | nil => cases h
  | cons hook hs ih =>
    cases h with
    | here hcall => simp only [prepareNextTurn, hcall, List.flatten_nil, List.append_nil]
    | later hcall hhalt =>
      simp only [prepareNextTurn, hcall, ih _ hhalt, List.flatten_cons, List.append_assoc]

end Prepare

/-- Several hooks as one call each other in turn. -/
theorem hooks_calls (hs : Hooks σ) : CallsInTurn (hs.map Prod.snd) (hooks hs) where
  before_passes h := beforeToolCall_passes h
  before_halts h := beforeToolCall_halts h
  after_passes h := afterToolCall_passes h
  after_halts h := afterToolCall_halts h
  stop_passes h := shouldStopAfterTurn_passes h
  stop_halts h := shouldStopAfterTurn_halts h
  prepare_passes h := prepareNextTurn_passes [] h
  prepare_halts h := prepareNextTurn_halts [] h

end MergedHooks

namespace AgentPluginRegistry

/-- It looks at nothing but the sorted hooks. -/
theorem mergedHooks_eq (values : List (AgentPlugin σ)) :
    mergedHooks values = if (MergedHooks.new (entries values)).isEmpty then none
      else some (MergedHooks.hooks (MergedHooks.new (entries values))) := by
  have hempty : (MergedHooks.new (entries values)).isEmpty = (entries values).isEmpty :=
    (new_perm _).isEmpty_eq
  rw [mergedHooks, hempty]

/-- However the map yields the plugins, sorting puts their hooks in the same order. -/
theorem new_entries_eq {values values' : List (AgentPlugin σ)} (h : values.Perm values')
    (hnodup : (values.map AgentPlugin.id).Nodup) :
    MergedHooks.new (entries values) = MergedHooks.new (entries values') := by
  have hperm : (entries values).Perm (entries values') := h.filterMap _
  have hnodup' : (values'.map AgentPlugin.id).Nodup := (h.map _).nodup_iff.mp hnodup
  exact eq_of_ascending ((new_perm _).trans (hperm.trans (new_perm _).symm))
    (new_ascending (entries_nodup hnodup)) (new_ascending (entries_nodup hnodup'))

/-- The hooks of all plugins act as one that calls them in turn, by ascending identifier. It depends
on the plugins alone: neither on when they were registered nor on how the map yields them. -/
theorem mergedHooks_ascending (r : AgentPluginRegistry σ) :
    (∀ (r' : AgentPluginRegistry σ) (values values' : List (AgentPlugin σ)),
      (∀ p, p ∈ r'.plugins ↔ p ∈ r.plugins) → values.Perm r.plugins → values'.Perm r'.plugins →
        mergedHooks values' = mergedHooks values) ∧
    ∃ hs : Hooks σ, (hs.Pairwise fun a b => a.1 < b.1) ∧
      (∀ id hooks, (id, hooks) ∈ hs ↔ ∃ p ∈ r.plugins, p.id = id ∧ p.hooks = some hooks) ∧
      ∀ values : List (AgentPlugin σ), values.Perm r.plugins →
        (hs = [] → mergedHooks values = none) ∧
        (hs ≠ [] → ∀ h, mergedHooks values = some h ↔ CallsInTurn (hs.map Prod.snd) h) ∧
        ∀ h, mergedHooks values = some h →
          ∀ ctx s, (∀ k ∈ hs.map Prod.snd, (k.shouldStopAfterTurn ctx s).2 = s) →
            ((h.shouldStopAfterTurn ctx s).1 = some true ↔
              ∃ k ∈ hs.map Prod.snd, (k.shouldStopAfterTurn ctx s).1 = some true) := by
  have hnodup {values : List (AgentPlugin σ)} (h : values.Perm r.plugins) :
      (values.map AgentPlugin.id).Nodup := (h.map _).nodup_iff.mpr r.nodup
  constructor
  · intro r' values values' hsame hvalues hvalues'
    have hplugins : r'.plugins.Perm r.plugins :=
      (List.perm_ext_iff_of_nodup (List.Nodup.of_map _ r'.nodup)
        (List.Nodup.of_map _ r.nodup)).mpr hsame
    have hperm := (hvalues'.trans hplugins).trans hvalues.symm
    have hnew := new_entries_eq hperm (hnodup (hvalues'.trans hplugins))
    rw [mergedHooks_eq, mergedHooks_eq, hnew]
  · refine ⟨MergedHooks.new (entries r.plugins), new_ascending (entries_nodup r.nodup),
      fun id hooks => (new_perm _).mem_iff.trans mem_entries, fun values hvalues => ?_⟩
    have hnew := new_entries_eq hvalues (hnodup hvalues)
    rw [mergedHooks_eq, hnew]
    cases hhs : MergedHooks.new (entries r.plugins) with
    | nil => exact ⟨fun _ => rfl, fun hne => absurd rfl hne, nofun⟩
    | cons hook hs =>
      have hcalls := hooks_calls (hook :: hs)
      refine ⟨nofun, fun _ h => ⟨fun hsome => ?_, fun h' => ?_⟩, fun h hsome => ?_⟩
      · exact Option.some.inj hsome ▸ hcalls
      · exact congrArg some (hcalls.unique h')
      · obtain rfl := Option.some.inj hsome
        exact hcalls.stops_iff_exists

end AgentPluginRegistry

end Guigu
