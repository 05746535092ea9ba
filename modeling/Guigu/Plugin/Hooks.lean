import Guigu.Core.Provider
import Guigu.Library.InTurn
import Mathlib.Data.List.Sort
import Mathlib.Data.String.Basic

/-! The hooks of plugins into the agent loop, and how the hooks of several plugins act as one. What
a hook answers may depend on what it and the others have kept, the state `σ`. -/
namespace Guigu

/-- What a hook can see of the loop. -/
structure HookContext where
  transcript : List Message

structure HookError where
  message : String
  deriving DecidableEq, Repr

structure LifecycleHooks (σ : Type) where
  beforeToolCall : HookContext → Json → σ → Except HookError Unit × σ
  afterToolCall : HookContext → ToolCall → ToolResult → σ → Except HookError ToolResult × σ
  shouldStopAfterTurn : HookContext → σ → Option Bool × σ
  prepareNextTurn : HookContext → AssistantMessage → List ToolResultMessage → σ →
    Except HookError (List Message) × σ

namespace MergedHooks

variable {σ : Type}

/-- Hooks with the identifiers of their plugins. -/
abbrev Hooks (σ : Type) := List (String × LifecycleHooks σ)

/-- Hooks are called by ascending identifier. -/
def new (hooks : Hooks σ) : Hooks σ := hooks.mergeSort fun a b => a.1 ≤ b.1

def beforeToolCall (ctx : HookContext) (args : Json) : Hooks σ → σ → Except HookError Unit × σ
  | [], s => (.ok (), s)
  | (_, hook) :: hooks, s =>
    match hook.beforeToolCall ctx args s with
    | (.ok (), s) => beforeToolCall ctx args hooks s
    | (.error e, s) => (.error e, s)

/-- Each hook gets the result of the one in front of it; the last that succeeds has the word. -/
def afterToolCall (ctx : HookContext) (toolCall : ToolCall) :
    ToolResult → Hooks σ → σ → Except HookError ToolResult × σ
  | lastSuccess, [], s => (.ok lastSuccess, s)
  | lastSuccess, (_, hook) :: hooks, s =>
    match hook.afterToolCall ctx toolCall lastSuccess s with
    | (.ok r, s) => afterToolCall ctx toolCall r hooks s
    | (.error _, s) => (.ok lastSuccess, s)

def shouldStopAfterTurn (ctx : HookContext) : Hooks σ → σ → Option Bool × σ
  | [], s => (none, s)
  | (_, hook) :: hooks, s =>
    match hook.shouldStopAfterTurn ctx s with
    | (some true, s) => (some true, s)
    | (some false, s) | (none, s) => shouldStopAfterTurn ctx hooks s

theorem shouldStopAfterTurn_cons_of_ne {ctx : HookContext} {hook : String × LifecycleHooks σ}
    {hooks : Hooks σ} {s : σ} (h : (hook.2.shouldStopAfterTurn ctx s).1 ≠ some true) :
    shouldStopAfterTurn ctx (hook :: hooks) s =
      shouldStopAfterTurn ctx hooks (hook.2.shouldStopAfterTurn ctx s).2 := by
  obtain ⟨answer, hanswer⟩ : ∃ a, (hook.2.shouldStopAfterTurn ctx s).1 = a := ⟨_, rfl⟩
  have hcall : hook.2.shouldStopAfterTurn ctx s =
      (answer, (hook.2.shouldStopAfterTurn ctx s).2) := Prod.ext hanswer rfl
  rw [shouldStopAfterTurn, hcall]
  rcases answer with _ | _ | _
  · rfl
  · rfl
  · exact absurd hanswer h

def prepareNextTurn (ctx : HookContext) (assistant : AssistantMessage)
    (toolResults : List ToolResultMessage) :
    List Message → Hooks σ → σ → Except HookError (List Message) × σ
  | messages, [], s => (.ok messages, s)
  | messages, (_, hook) :: hooks, s =>
    match hook.prepareNextTurn ctx assistant toolResults s with
    | (.ok msgs, s) => prepareNextTurn ctx assistant toolResults (messages ++ msgs) hooks s
    | (.error _, s) => (.ok messages, s)

/-- Several hooks as one. -/
def hooks (hs : Hooks σ) : LifecycleHooks σ where
  beforeToolCall ctx args s := beforeToolCall ctx args hs s
  afterToolCall ctx toolCall result s := afterToolCall ctx toolCall result hs s
  shouldStopAfterTurn ctx s := shouldStopAfterTurn ctx hs s
  prepareNextTurn ctx assistant toolResults s :=
    prepareNextTurn ctx assistant toolResults [] hs s

end MergedHooks

end Guigu
