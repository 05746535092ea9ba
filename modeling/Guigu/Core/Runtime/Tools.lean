import Guigu.Core.Runtime.Turn
import Guigu.Library.Interleave
import Guigu.Library.Serde

/-! The tool calls of an answer: preparing them, executing them one by one or with neighbouring
read-only calls together, and the results that go back into the context. -/
namespace Guigu

structure PreparedCall where
  toolCall : ToolCall
  tool : Option Tool
  args : Json
  rejected : Option String
  deriving DecidableEq, Repr

/-- An unknown tool runs alone. -/
def PreparedCall.scope (p : PreparedCall) : ResourceScope :=
  (p.tool.map Tool.resourceScope).getD .exclusive

/-- The answer of a hook that refuses a call. -/
def refusal : Except String Unit → Option String
  | .ok () => none
  | .error e => some e

/-- The plugins are asked first, then the closure. -/
def prepareCall (rt : AgentRuntime) (env : CallEnv) (tc : ToolCall) : PreparedCall :=
  let tool := rt.tools.find? fun t => t.name = tc.name
  match Serde.fromStr tc.arguments.toList with
  | none => ⟨tc, tool, .null, some ("invalid arguments: " ++ env.parseError)⟩
  | some args =>
    let closure := if rt.loopConfig.beforeToolCall then refusal env.before else none
    let rejected :=
      if rt.loopConfig.hooks then (refusal env.pluginBefore).or closure else closure
    ⟨tc, tool, args, rejected⟩

/-- The prepared calls of a turn. -/
def TurnEnv.prepared (env : TurnEnv) (rt : AgentRuntime) (toolCalls : List ToolCall) :
    List PreparedCall :=
  toolCalls.mapIdx fun i tc => prepareCall rt (env.calls i) tc

/-- The body of the tool runs. -/
def PreparedCall.runs (p : PreparedCall) : Bool := p.rejected.isNone && p.tool.isSome

def executeSingle (p : PreparedCall) (env : CallEnv) : List Effect × ToolResult :=
  let tc := p.toolCall
  let body : List Effect × ToolResult :=
    match p.rejected, p.tool with
    | some reject, _ => ([], .error reject)
    | none, some _ =>
      (.executed tc p.args ::
        env.updates.map fun u => .event (.toolExecutionUpdate tc.id tc.name p.args u),
        match env.outcome with
        | .ok r => r
        | .error e => .error ("ToolError: " ++ e))
    | none, none => ([], .error ("unknown tool: " ++ tc.name))
  (.event (.toolExecutionStart tc.id tc.name p.args) :: body.1 ++
    [.event (.toolExecutionEnd tc.id tc.name body.2 body.2.isError)], body.2)

def executeSequential (calls : ℕ → CallEnv) :
    ℕ → List PreparedCall → List Effect × List ToolResult
  | _, [] => ([], [])
  | i, p :: ps =>
    let r := executeSingle p (calls i)
    let rest := executeSequential calls (i + 1) ps
    (r.1 ++ rest.1, r.2 :: rest.2)

def runningCall (calls : ℕ → CallEnv) (i : ℕ) (p : PreparedCall) :
    Interleave.Task Effect ToolResult :=
  ⟨i, (executeSingle p (calls i)).1, (executeSingle p (calls i)).2⟩

/-- Read-only calls in a row collect in `group` and run together, any other call runs alone. -/
def executeGroups (schedule : ℕ → List ℕ) (calls : ℕ → CallEnv) :
    List (Interleave.Task Effect ToolResult) → ℕ → List PreparedCall →
      List Effect × List (ℕ × ToolResult)
  | group, i, [] => Interleave.run (schedule i) group
  | group, i, p :: ps =>
    if p.scope = .readOnly then
      executeGroups schedule calls (group ++ [runningCall calls i p]) (i + 1) ps
    else
      let g := Interleave.run (schedule i) group
      let r := executeSingle p (calls i)
      let rest := executeGroups schedule calls [] (i + 1) ps
      (g.1 ++ (r.1 ++ rest.1), g.2 ++ (i, r.2) :: rest.2)

def executeReadonlyParallel (schedule : ℕ → List ℕ) (calls : ℕ → CallEnv)
    (prepared : List PreparedCall) : List Effect × List ToolResult :=
  let r := executeGroups schedule calls [] 0 prepared
  (r.1, (Interleave.sortByKey r.2).map Prod.snd)

def toolResultMessage (tc : ToolCall) (r : ToolResult) : ToolResultMessage :=
  ⟨tc.id, tc.name, r.isError, r.content, r.details, 0⟩

def truncatedResult : ToolResult := .error "tool call arguments truncated by length limit"

/-- Calls of an answer that was cut at its length limit are not executed: their arguments may be
incomplete. -/
def synthesizeTruncatedResults (toolCalls : List ToolCall) :
    List Effect × List ToolResultMessage :=
  (toolCalls.flatMap fun tc =>
    [.event (.toolExecutionStart tc.id tc.name ((Serde.fromStr tc.arguments.toList).getD .null)),
      .event (.toolExecutionEnd tc.id tc.name truncatedResult true)],
    toolCalls.map fun tc => toolResultMessage tc truncatedResult)

/-- The plugins rewrite a result first, then the closure; a plugin that fails leaves it. -/
def afterToolCall (config : LoopConfig) (env : CallEnv) (r : ToolResult) : ToolResult :=
  let r :=
    if config.hooks then
      match env.pluginAfter with
      | .ok r' => r'
      | .error _ => r
    else r
  if config.afterToolCall then env.after else r

/-- Whether the answer was cut in the middle of its calls. -/
def isTruncated (toolCalls : List ToolCall) (stopReason : Option StopReason) : Bool :=
  decide (stopReason = some .length) && !toolCalls.isEmpty

def executeToolCalls (rt : AgentRuntime) (env : TurnEnv) (toolCalls : List ToolCall)
    (stopReason : Option StopReason) : List Effect × List ToolResultMessage :=
  if isTruncated toolCalls stopReason then synthesizeTruncatedResults toolCalls
  else
    let prepared := env.prepared rt toolCalls
    let executed :=
      match rt.loopConfig.toolExecution with
      | .sequential => executeSequential env.calls 0 prepared
      | .readOnlyParallel => executeReadonlyParallel env.schedule env.calls prepared
    (executed.1, (prepared.zip executed.2).mapIdx fun i pr =>
      toolResultMessage pr.1.toolCall (afterToolCall rt.loopConfig (env.calls i) pr.2))

@[simp] theorem prepareCall_toolCall (rt : AgentRuntime) (env : CallEnv) (tc : ToolCall) :
    (prepareCall rt env tc).toolCall = tc := by
  unfold prepareCall
  cases Serde.fromStr tc.arguments.toList <;> rfl

/-- The groups take the steps of the sequential execution in another order, with its results. -/
theorem executeGroups_perm (schedule : ℕ → List ℕ) (calls : ℕ → CallEnv)
    (group : List (Interleave.Task Effect ToolResult)) (i : ℕ) (ps : List PreparedCall) :
    (executeGroups schedule calls group i ps).1.Perm
        (group.flatMap Interleave.Task.steps ++ (executeSequential calls i ps).1) ∧
      (executeGroups schedule calls group i ps).2.Perm
        (group.map (fun t => (t.key, t.result)) ++
          Interleave.keyed i (executeSequential calls i ps).2) := by
  induction ps generalizing group i with
  | nil =>
    constructor
    · rw [executeSequential, List.append_nil]
      exact Interleave.run_steps _ group
    · rw [executeSequential, Interleave.keyed, List.append_nil]
      exact Interleave.run_results _ group
  | cons p ps ih =>
    unfold executeGroups executeSequential
    by_cases hscope : p.scope = .readOnly
    · rw [if_pos hscope]
      obtain ⟨hsteps, hresults⟩ := ih (group ++ [runningCall calls i p]) (i + 1)
      constructor
      · simpa [runningCall] using hsteps
      · simpa [runningCall, Interleave.keyed] using hresults
    · rw [if_neg hscope]
      obtain ⟨hsteps, hresults⟩ := ih [] (i + 1)
      constructor
      · exact (Interleave.run_steps _ group).append (hsteps.append_left _)
      · exact (Interleave.run_results _ group).append (hresults.cons _)

/-- Running read-only calls together changes the order of the steps and nothing else. -/
theorem executeReadonlyParallel_eq (schedule : ℕ → List ℕ) (calls : ℕ → CallEnv)
    (prepared : List PreparedCall) :
    (executeReadonlyParallel schedule calls prepared).1.Perm
        (executeSequential calls 0 prepared).1 ∧
      (executeReadonlyParallel schedule calls prepared).2 =
        (executeSequential calls 0 prepared).2 := by
  obtain ⟨hsteps, hresults⟩ := executeGroups_perm schedule calls [] 0 prepared
  constructor
  · exact hsteps
  · show (Interleave.sortByKey (executeGroups schedule calls [] 0 prepared).2).map Prod.snd = _
    rw [Interleave.sortByKey_perm hresults, Interleave.map_snd_keyed]

theorem length_executeSequential (calls : ℕ → CallEnv) (i : ℕ) (ps : List PreparedCall) :
    (executeSequential calls i ps).2.length = ps.length := by
  induction ps generalizing i with
  | nil => rfl
  | cons p ps ih => exact congrArg (· + 1) (ih (i + 1))

/-- What the execution of tools has for effects. -/
def Effect.ofTools : Effect → Bool
  | .event (.toolExecutionStart ..) | .event (.toolExecutionUpdate ..)
  | .event (.toolExecutionEnd ..) | .executed .. => true
  | _ => false

def OfTools (effects : List Effect) : Prop := ∀ e ∈ effects, e.ofTools = true

theorem OfTools.messageEnds_eq {effects : List Effect} (h : OfTools effects) :
    messageEnds effects = [] := by
  apply List.filterMap_eq_nil_iff.mpr
  intro e he
  have htools := h e he
  unfold messageEnd?
  split
  · exact absurd htools (by simp [Effect.ofTools])
  · rfl

theorem OfTools.requested_eq {effects : List Effect} (h : OfTools effects) :
    requested effects = [] := by
  apply List.filterMap_eq_nil_iff.mpr
  intro e he
  have htools := h e he
  unfold request?
  split
  · exact absurd htools (by simp [Effect.ofTools])
  · rfl

theorem executeSingle_ofTools (p : PreparedCall) (env : CallEnv) :
    OfTools (executeSingle p env).1 := by
  intro e he
  unfold executeSingle at he
  simp only [List.cons_append, List.mem_cons, List.mem_append, List.not_mem_nil, or_false] at he
  rcases he with rfl | he | rfl
  · rfl
  · split at he
    · cases he
    · rcases List.mem_cons.mp he with rfl | he
      · rfl
      · obtain ⟨u, -, rfl⟩ := List.mem_map.mp he
        rfl
    · cases he
  · rfl

theorem executeSequential_ofTools (calls : ℕ → CallEnv) (i : ℕ) (ps : List PreparedCall) :
    OfTools (executeSequential calls i ps).1 := by
  induction ps generalizing i with
  | nil => exact List.forall_mem_nil _
  | cons p ps ih =>
    exact List.forall_mem_append.mpr ⟨executeSingle_ofTools p (calls i), ih (i + 1)⟩

/-- A call is executed once if its tool runs, and otherwise not at all. -/
theorem executions_executeSingle (p : PreparedCall) (env : CallEnv) :
    executions (executeSingle p env).1 = if p.runs then [(p.toolCall, p.args)] else [] := by
  have hupdates : executions (env.updates.map fun u =>
      .event (.toolExecutionUpdate p.toolCall.id p.toolCall.name p.args u)) = [] := by
    apply List.filterMap_eq_nil_iff.mpr
    intro e he
    obtain ⟨u, -, rfl⟩ := List.mem_map.mp he
    rfl
  obtain ⟨tc, tool, args, rejected⟩ := p
  cases rejected with
  | some reject => rfl
  | none =>
    cases tool with
    | none => rfl
    | some t =>
      unfold executeSingle PreparedCall.runs
      rw [executions_append]
      show (tc, args) :: executions _ ++ [] = [(tc, args)]
      rw [hupdates]
      rfl

theorem executions_executeSequential (calls : ℕ → CallEnv) (i : ℕ) (ps : List PreparedCall) :
    executions (executeSequential calls i ps).1 =
      (ps.filter PreparedCall.runs).map fun p => (p.toolCall, p.args) := by
  induction ps generalizing i with
  | nil => rfl
  | cons p ps ih =>
    unfold executeSequential
    rw [executions_append, executions_executeSingle, ih]
    cases hruns : p.runs <;> simp [hruns]

theorem TurnEnv.prepared_toolCall (env : TurnEnv) (rt : AgentRuntime) (toolCalls : List ToolCall) :
    (env.prepared rt toolCalls).map PreparedCall.toolCall = toolCalls := by
  apply List.ext_getElem
  · simp [prepared]
  · intro i h₁ h₂
    simp [prepared]

theorem synthesizeTruncatedResults_ofTools (toolCalls : List ToolCall) :
    OfTools (synthesizeTruncatedResults toolCalls).1 ∧
      executions (synthesizeTruncatedResults toolCalls).1 = [] := by
  constructor
  · intro e he
    obtain ⟨tc, -, he⟩ := List.mem_flatMap.mp he
    simp only [List.mem_cons, List.not_mem_nil, or_false] at he
    rcases he with rfl | rfl <;> rfl
  · apply List.filterMap_eq_nil_iff.mpr
    intro e he
    obtain ⟨tc, -, he⟩ := List.mem_flatMap.mp he
    simp only [List.mem_cons, List.not_mem_nil, or_false] at he
    rcases he with rfl | rfl <;> rfl

/-- Both ways of execution, in terms of the sequential one. -/
theorem executeToolCalls_cases (rt : AgentRuntime) (env : TurnEnv) (toolCalls : List ToolCall)
    (stopReason : Option StopReason) :
    isTruncated toolCalls stopReason = true ∧
        executeToolCalls rt env toolCalls stopReason = synthesizeTruncatedResults toolCalls ∨
      isTruncated toolCalls stopReason = false ∧
        (executeToolCalls rt env toolCalls stopReason).1.Perm
          (executeSequential env.calls 0 (env.prepared rt toolCalls)).1 ∧
        (executeToolCalls rt env toolCalls stopReason).2 =
          ((env.prepared rt toolCalls).zip
            (executeSequential env.calls 0 (env.prepared rt toolCalls)).2).mapIdx fun i pr =>
              toolResultMessage pr.1.toolCall
                (afterToolCall rt.loopConfig (env.calls i) pr.2) := by
  unfold executeToolCalls
  cases htrunc : isTruncated toolCalls stopReason with
  | true => exact .inl ⟨rfl, rfl⟩
  | false =>
    refine .inr ⟨rfl, ?_⟩
    simp only [Bool.false_eq_true, ↓reduceIte]
    cases rt.loopConfig.toolExecution with
    | sequential => exact ⟨.refl _, rfl⟩
    | readOnlyParallel =>
      obtain ⟨hsteps, hresults⟩ := executeReadonlyParallel_eq env.schedule env.calls
        (env.prepared rt toolCalls)
      refine ⟨hsteps, ?_⟩
      show ((env.prepared rt toolCalls).zip (executeReadonlyParallel _ _ _).2).mapIdx _ = _
      rw [hresults]

theorem OfTools.perm {es fs : List Effect} (h : OfTools fs) (hperm : es.Perm fs) : OfTools es :=
  fun e he => h e (hperm.mem_iff.mp he)

theorem executeToolCalls_ofTools (rt : AgentRuntime) (env : TurnEnv) (toolCalls : List ToolCall)
    (stopReason : Option StopReason) :
    OfTools (executeToolCalls rt env toolCalls stopReason).1 := by
  rcases executeToolCalls_cases rt env toolCalls stopReason with ⟨-, heq⟩ | ⟨-, hperm, -⟩
  · rw [heq]
    exact (synthesizeTruncatedResults_ofTools toolCalls).1
  · exact (executeSequential_ofTools _ _ _).perm hperm

/-- Every call gets its result, in the order of the calls. -/
theorem executeToolCalls_results (rt : AgentRuntime) (env : TurnEnv) (toolCalls : List ToolCall)
    (stopReason : Option StopReason) :
    (executeToolCalls rt env toolCalls stopReason).2.map
        (fun m => (m.toolCallId, m.toolName)) = toolCalls.map fun tc => (tc.id, tc.name) := by
  rcases executeToolCalls_cases rt env toolCalls stopReason with ⟨-, heq⟩ | ⟨-, -, heq⟩
  · rw [heq]
    simp [synthesizeTruncatedResults, toolResultMessage]
  · rw [heq]
    have hlength := length_executeSequential env.calls 0 (env.prepared rt toolCalls)
    have hcalls := env.prepared_toolCall rt toolCalls
    generalize (executeSequential env.calls 0 (env.prepared rt toolCalls)).2 = results at hlength
    generalize env.prepared rt toolCalls = prepared at hlength hcalls
    rw [← hcalls]
    apply List.ext_getElem
    · simp [hlength]
    · intro i h₁ h₂
      simp [toolResultMessage]

/-- What is executed: the calls whose tools run, unless the answer was cut at its limit. -/
theorem executeToolCalls_executions (rt : AgentRuntime) (env : TurnEnv)
    (toolCalls : List ToolCall) (stopReason : Option StopReason) :
    (executions (executeToolCalls rt env toolCalls stopReason).1).Perm
      (if isTruncated toolCalls stopReason then []
        else ((env.prepared rt toolCalls).filter PreparedCall.runs).map
          fun p => (p.toolCall, p.args)) := by
  rcases executeToolCalls_cases rt env toolCalls stopReason with ⟨ht, heq⟩ | ⟨ht, hperm, -⟩
  · rw [heq, ht, (synthesizeTruncatedResults_ofTools toolCalls).2]
    exact .refl _
  · rw [ht]
    have hexec := hperm.filterMap executed?
    rwa [← executions, ← executions, executions_executeSequential] at hexec

end Guigu
