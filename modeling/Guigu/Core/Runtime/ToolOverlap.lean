import Guigu.Core.Runtime.Tools
import Guigu.Library.Overlap

/-! The calls of a turn side by side: whose effects are whose, which calls overlap, and that the
two ways of execution have the same results. -/
namespace Guigu

open Interleave

/-- The calls from position `i` on, each with its effects and its result. -/
def callTasks (calls : ℕ → CallEnv) : ℕ → List PreparedCall → List (Task Effect ToolResult)
  | _, [] => []
  | i, p :: ps => runningCall calls i p :: callTasks calls (i + 1) ps

theorem mem_callTasks {calls : ℕ → CallEnv} {i : ℕ} {ps : List PreparedCall}
    {t : Task Effect ToolResult} :
    t ∈ callTasks calls i ps ↔ ∃ j p, ps[j]? = some p ∧ t = runningCall calls (i + j) p := by
  induction ps generalizing i with
  | nil => simp [callTasks]
  | cons p ps ih =>
    rw [callTasks, List.mem_cons, ih]
    constructor
    · rintro (rfl | ⟨j, q, hq, rfl⟩)
      · exact ⟨0, p, rfl, rfl⟩
      · exact ⟨j + 1, q, hq, by rw [Nat.add_assoc, Nat.add_comm 1 j]⟩
    · rintro ⟨j, q, hq, rfl⟩
      cases j with
      | zero =>
        obtain rfl := Option.some.inj hq
        exact .inl rfl
      | succ j => exact .inr ⟨j, q, hq, by rw [Nat.add_assoc, Nat.add_comm 1 j]⟩

theorem le_key_of_mem_callTasks {calls : ℕ → CallEnv} {i : ℕ} {ps : List PreparedCall}
    {t : Task Effect ToolResult} (h : t ∈ callTasks calls i ps) : i ≤ t.key := by
  obtain ⟨j, p, -, rfl⟩ := mem_callTasks.mp h
  exact Nat.le_add_right i j

/-- One by one, no two calls overlap. -/
theorem executeSequential_attributed (shared : ℕ → Prop) (calls : ℕ → CallEnv) (i : ℕ)
    (ps : List PreparedCall) :
    ∃ labelled, Attributed shared (callTasks calls i ps) (executeSequential calls i ps).1
      labelled := by
  induction ps generalizing i with
  | nil => exact ⟨[], attributed_nil⟩
  | cons p ps ih =>
    obtain ⟨labelled, h⟩ := ih (i + 1)
    refine ⟨_, (attributed_single (runningCall calls i p)).append h fun t ht u hu heq => ?_⟩
    have hle := le_key_of_mem_callTasks hu
    rw [← heq, List.mem_singleton.mp ht] at hle
    exact absurd hle (Nat.not_succ_le_self i)

/-- In groups, only read-only calls overlap. -/
theorem executeGroups_attributed (shared : ℕ → Prop) (schedule : ℕ → List ℕ)
    (calls : ℕ → CallEnv) (group : List (Task Effect ToolResult)) (i : ℕ) (ps : List PreparedCall)
    (hnd : (group.map Task.key).Nodup) (hlt : ∀ t ∈ group, t.key < i)
    (hgroup : ∀ t ∈ group, shared t.key)
    (hps : ∀ j p, ps[j]? = some p → p.scope = .readOnly → shared (i + j)) :
    ∃ labelled, Attributed shared (group ++ callTasks calls i ps)
      (executeGroups schedule calls group i ps).1 labelled := by
  induction ps generalizing group i with
  | nil =>
    rw [callTasks, List.append_nil]
    exact ⟨_, attributed_run (schedule i) hnd hgroup⟩
  | cons p ps ih =>
    have hrest : ∀ j q, ps[j]? = some q → q.scope = .readOnly → shared (i + 1 + j) := by
      intro j q hq hscope
      rw [Nat.add_assoc, Nat.add_comm 1 j]
      exact hps (j + 1) q hq hscope
    unfold executeGroups
    by_cases hscope : p.scope = .readOnly
    · rw [if_pos hscope]
      have hnd' : ((group ++ [runningCall calls i p]).map Task.key).Nodup := by
        rw [List.map_append, List.map_singleton, ← List.concat_eq_append]
        refine hnd.concat fun hmem => ?_
        obtain ⟨t, ht, hkey⟩ := List.mem_map.mp hmem
        exact absurd hkey (Nat.ne_of_lt (hlt t ht))
      obtain ⟨labelled, h⟩ := ih (group ++ [runningCall calls i p]) (i + 1) hnd'
        (fun t ht => by
          rcases List.mem_append.mp ht with ht | ht
          · exact Nat.lt_succ_of_lt (hlt t ht)
          · rw [List.mem_singleton.mp ht]
            exact Nat.lt_succ_self i)
        (fun t ht => by
          rcases List.mem_append.mp ht with ht | ht
          · exact hgroup t ht
          · rw [List.mem_singleton.mp ht]
            exact hps 0 p rfl hscope)
        hrest
      rw [List.append_assoc] at h
      exact ⟨labelled, h⟩
    · rw [if_neg hscope]
      obtain ⟨labelled, h⟩ := ih [] (i + 1) List.nodup_nil (List.forall_mem_nil _)
        (List.forall_mem_nil _) hrest
      have hbehind := (attributed_single (runningCall calls i p)).append h fun t ht u hu heq => by
        have hle := le_key_of_mem_callTasks hu
        rw [← heq, List.mem_singleton.mp ht] at hle
        exact absurd hle (Nat.not_succ_le_self i)
      refine ⟨_, (attributed_run (schedule i) hnd hgroup).append hbehind fun t ht u hu heq => ?_⟩
      have hle : i ≤ u.key := le_key_of_mem_callTasks hu
      exact absurd (heq ▸ hlt t ht) (not_lt.mpr hle)

/-- The tool that a call names, the first one if several have the name. -/
def AgentRuntime.toolOf (rt : AgentRuntime) (tc : ToolCall) : Option Tool :=
  rt.tools.find? fun t => t.name = tc.name

/-- No hook that is set refuses the call. -/
def LoopConfig.Lets (config : LoopConfig) (env : CallEnv) : Prop :=
  (config.hooks = true → env.pluginBefore = .ok ()) ∧
    (config.beforeToolCall = true → env.before = .ok ())

/-- The call is to be executed with the arguments: its tool is known, its text is the arguments,
and no hook refuses it. -/
structure AgentRuntime.Due (rt : AgentRuntime) (env : CallEnv) (tc : ToolCall) (args : Json) :
    Prop where
  known : (rt.toolOf tc).isSome
  parsed : Serde.fromStr tc.arguments.toList = some args
  allowed : rt.loopConfig.Lets env

/-- The `i`-th call names a tool that declares that it only reads. -/
def AgentRuntime.ReadOnlyCall (rt : AgentRuntime) (toolCalls : List ToolCall) (i : ℕ) : Prop :=
  ∃ tc t, toolCalls[i]? = some tc ∧ rt.toolOf tc = some t ∧ t.resourceScope = .readOnly

/-- Every effect is an effect of one call, which stands between the start and the end of the call;
a call is executed once if it is due and not otherwise, and only read-only calls overlap. -/
structure RunsCalls (rt : AgentRuntime) (toolCalls : List ToolCall) (calls : ℕ → CallEnv)
    (effects : List Effect) (labelled : List (ℕ × Effect)) : Prop where
  effects : labelled.map Prod.snd = effects
  labels : ∀ l ∈ labelled, l.1 < toolCalls.length
  spans : ∀ i tc, toolCalls[i]? = some tc → ∃ args body r, stepsOf labelled i =
    .event (.toolExecutionStart tc.id tc.name args) :: body ++
      [.event (.toolExecutionEnd tc.id tc.name r r.isError)]
  once : ∀ i tc args, toolCalls[i]? = some tc → rt.Due (calls i) tc args →
    executions (stepsOf labelled i) = [(tc, args)]
  never : ∀ i tc, toolCalls[i]? = some tc → (∀ args, ¬ rt.Due (calls i) tc args) →
    executions (stepsOf labelled i) = []
  apart : ∀ i j, Overlap labelled i j →
    rt.ReadOnlyCall toolCalls i ∧ rt.ReadOnlyCall toolCalls j

theorem refusal_eq_none {answer : Except String Unit} :
    refusal answer = none ↔ answer = .ok () := by
  cases answer <;> simp [refusal]

/-- The tool runs exactly on the arguments with which the call is due. -/
theorem prepareCall_runs_iff {rt : AgentRuntime} {env : CallEnv} {tc : ToolCall} {args : Json} :
    (prepareCall rt env tc).runs = true ∧ (prepareCall rt env tc).args = args ↔
      rt.Due env tc args := by
  have hlets : (if rt.loopConfig.hooks = true then (refusal env.pluginBefore).or
        (if rt.loopConfig.beforeToolCall = true then refusal env.before else none)
      else if rt.loopConfig.beforeToolCall = true then refusal env.before else none) = none ↔
      rt.loopConfig.Lets env := by
    cases hhooks : rt.loopConfig.hooks <;> cases hbefore : rt.loopConfig.beforeToolCall <;>
      simp [refusal_eq_none, LoopConfig.Lets, hhooks, hbefore]
  cases hparse : Serde.fromStr tc.arguments.toList with
  | none =>
    constructor
    · rintro ⟨hruns, -⟩
      simp [prepareCall, hparse, PreparedCall.runs] at hruns
    · rintro ⟨-, hparsed, -⟩
      rw [hparse] at hparsed
      cases hparsed
  | some json =>
    simp only [prepareCall, hparse, PreparedCall.runs, Bool.and_eq_true, Option.isNone_iff_eq_none,
      hlets]
    constructor
    · rintro ⟨⟨hallowed, hknown⟩, rfl⟩
      exact ⟨hknown, hparse, hallowed⟩
    · rintro ⟨hknown, hparsed, hallowed⟩
      exact ⟨⟨hallowed, hknown⟩, Option.some.inj (hparse.symm.trans hparsed)⟩

/-- A prepared call counts as read-only only if its tool declares it. -/
theorem prepareCall_scope {rt : AgentRuntime} {env : CallEnv} {tc : ToolCall}
    (h : (prepareCall rt env tc).scope = .readOnly) :
    ∃ t, rt.toolOf tc = some t ∧ t.resourceScope = .readOnly := by
  have htool : (prepareCall rt env tc).tool = rt.toolOf tc := by
    unfold prepareCall
    cases Serde.fromStr tc.arguments.toList <;> rfl
  unfold PreparedCall.scope at h
  rw [htool] at h
  cases hknown : rt.toolOf tc with
  | none =>
    rw [hknown] at h
    cases h
  | some t =>
    rw [hknown] at h
    exact ⟨t, rfl, h⟩

theorem executeSingle_spans (p : PreparedCall) (env : CallEnv) :
    ∃ args body r, (executeSingle p env).1 =
      .event (.toolExecutionStart p.toolCall.id p.toolCall.name args) :: body ++
        [.event (.toolExecutionEnd p.toolCall.id p.toolCall.name r r.isError)] :=
  ⟨_, _, _, rfl⟩

/-- The runtime with another way to execute its tools. -/
def AgentRuntime.withToolExecution (rt : AgentRuntime) (mode : ToolExecutionMode) : AgentRuntime :=
  { rt with loopConfig := { rt.loopConfig with toolExecution := mode } }

theorem TurnEnv.getElem?_prepared {env : TurnEnv} {rt : AgentRuntime} {toolCalls : List ToolCall}
    {i : ℕ} : (env.prepared rt toolCalls)[i]? =
      toolCalls[i]?.map (prepareCall rt (env.calls i)) := by
  rw [TurnEnv.prepared, List.getElem?_mapIdx]

theorem runsCalls_of_attributed {rt : AgentRuntime} {env : TurnEnv} {toolCalls : List ToolCall}
    {effects : List Effect} {labelled : List (ℕ × Effect)}
    (h : Attributed (fun i => ((env.prepared rt toolCalls)[i]?.map PreparedCall.scope) =
        some .readOnly) (callTasks env.calls 0 (env.prepared rt toolCalls)) effects labelled) :
    RunsCalls rt toolCalls env.calls effects labelled := by
  have hown : ∀ i tc, toolCalls[i]? = some tc → stepsOf labelled i =
      (executeSingle (prepareCall rt (env.calls i) tc) (env.calls i)).1 := by
    intro i tc htc
    have hp : (env.prepared rt toolCalls)[i]? = some (prepareCall rt (env.calls i) tc) := by
      rw [TurnEnv.getElem?_prepared, htc, Option.map_some]
    exact h.own (runningCall env.calls i _) (mem_callTasks.mpr ⟨i, _, hp, by rw [Nat.zero_add]⟩)
  have hscope : ∀ i, ((env.prepared rt toolCalls)[i]?.map PreparedCall.scope) = some .readOnly →
      rt.ReadOnlyCall toolCalls i := by
    intro i hi
    obtain ⟨p, hp, hreads⟩ := Option.map_eq_some_iff.mp hi
    rw [TurnEnv.getElem?_prepared] at hp
    obtain ⟨tc, htc, rfl⟩ := Option.map_eq_some_iff.mp hp
    obtain ⟨t, hknown, hdeclared⟩ := prepareCall_scope hreads
    exact ⟨tc, t, htc, hknown, hdeclared⟩
  refine ⟨h.steps, fun l hl => ?_, fun i tc htc => ?_, fun i tc args htc hdue => ?_,
    fun i tc htc hnone => ?_, fun i j hij => (h.apart i j hij).imp (hscope i) (hscope j)⟩
  · obtain ⟨t, ht, hkey⟩ := h.keys l hl
    obtain ⟨j, p, hp, rfl⟩ := mem_callTasks.mp ht
    rw [TurnEnv.getElem?_prepared] at hp
    obtain ⟨tc, htc, -⟩ := Option.map_eq_some_iff.mp hp
    rw [← hkey]
    exact (Nat.zero_add j).symm ▸ (List.getElem?_eq_some_iff.mp htc).1
  · rw [hown i tc htc]
    simpa using executeSingle_spans (prepareCall rt (env.calls i) tc) (env.calls i)
  · obtain ⟨hruns, rfl⟩ := prepareCall_runs_iff.mpr hdue
    rw [hown i tc htc, executions_executeSingle, if_pos hruns, prepareCall_toolCall]
  · rw [hown i tc htc, executions_executeSingle,
      if_neg fun hruns => hnone _ (prepareCall_runs_iff.mp ⟨hruns, rfl⟩)]

/-- Whatever the schedule, each call that no hook refuses, of a known tool and with arguments that
can be read, is executed once and no other call is; the calls of an answer that was cut are not
executed, only calls of tools that declare to read only overlap, and each call has one result, in
the order of the calls; the results are those of the sequential execution. -/
theorem executeToolCalls_spec (rt : AgentRuntime) (env : TurnEnv) (toolCalls : List ToolCall)
    (stopReason : Option StopReason) :
    (stopReason = some .length →
        executions (executeToolCalls rt env toolCalls stopReason).1 = []) ∧
      (stopReason ≠ some .length →
        ∃ labelled, RunsCalls rt toolCalls env.calls
          (executeToolCalls rt env toolCalls stopReason).1 labelled) ∧
      (executeToolCalls rt env toolCalls stopReason).2.map (·.toolCallId) = toolCalls.map (·.id) ∧
      (executeToolCalls (rt.withToolExecution .readOnlyParallel) env toolCalls stopReason).2 =
        (executeToolCalls (rt.withToolExecution .sequential) env toolCalls stopReason).2 := by
  refine ⟨fun hlength => ?_, fun hlength => ?_, ?_, ?_⟩
  · have hperm := executeToolCalls_executions rt env toolCalls stopReason
    by_cases htrunc : isTruncated toolCalls stopReason = true
    · rw [if_pos htrunc] at hperm
      exact hperm.eq_nil
    · have hnone : toolCalls = [] := by
        simpa [isTruncated, hlength] using htrunc
      subst hnone
      rw [if_neg htrunc] at hperm
      exact hperm.eq_nil
  · have htrunc : isTruncated toolCalls stopReason = false := by simp [isTruncated, hlength]
    unfold executeToolCalls
    rw [htrunc]
    simp only [Bool.false_eq_true, ↓reduceIte]
    cases rt.loopConfig.toolExecution with
    | sequential =>
      obtain ⟨labelled, h⟩ := executeSequential_attributed _ env.calls 0 (env.prepared rt toolCalls)
      exact ⟨labelled, runsCalls_of_attributed h⟩
    | readOnlyParallel =>
      obtain ⟨labelled, h⟩ := executeGroups_attributed
        (fun i => ((env.prepared rt toolCalls)[i]?.map PreparedCall.scope) = some .readOnly)
        env.schedule env.calls [] 0 (env.prepared rt toolCalls) List.nodup_nil
        (List.forall_mem_nil _) (List.forall_mem_nil _) fun j p hp hscope => by
          rw [Nat.zero_add, hp, Option.map_some, hscope]
      exact ⟨labelled, runsCalls_of_attributed h⟩
  · have hresults := congrArg (List.map Prod.fst)
      (executeToolCalls_results rt env toolCalls stopReason)
    rw [List.map_map, List.map_map] at hresults
    exact hresults
  · unfold executeToolCalls
    cases isTruncated toolCalls stopReason with
    | true => rfl
    | false =>
      have heq := (executeReadonlyParallel_eq env.schedule env.calls
        (env.prepared (rt.withToolExecution .readOnlyParallel) toolCalls)).2
      show (List.zip _ (executeReadonlyParallel _ _ _).2).mapIdx _ = _
      rw [heq]
      rfl

end Guigu
