import Guigu.Core.Runtime.RunContext

/-! Draining the command channel, and user messages on their way into the transcript. -/
namespace Guigu

structure Drain where
  aborted : Bool
  shutdown : Bool
  steer : List Message
  followup : List Message
  deriving DecidableEq, Repr

def Drain.empty : Drain := ⟨false, false, [], []⟩

namespace AgentCommand

def isAbort : AgentCommand → Bool
  | .abort => true
  | _ => false

def isShutdown : AgentCommand → Bool
  | .shutdown => true
  | _ => false

/-- The commands that cut a run. -/
def cuts (cmd : AgentCommand) : Bool := cmd.isAbort || cmd.isShutdown

/-- The commands whose sending is counted. -/
def isCounted (cmd : AgentCommand) : Bool := !cmd.cuts

def steer? : AgentCommand → Option Message
  | .steer m => some m
  | _ => none

def followUp? : AgentCommand → Option Message
  | .followUp m => some m
  | _ => none

/-- What can enter a run that is under way. -/
def isPending (cmd : AgentCommand) : Bool := cmd.steer?.isSome || cmd.followUp?.isSome

/-- What waits for the end of the run. -/
def isDeferred (cmd : AgentCommand) : Bool := !cmd.cuts && !cmd.isPending

/-- The messages a command brings. -/
def messages : AgentCommand → List Message
  | .prompt ms => ms
  | .steer m | .followUp m => [m]
  | _ => []

end AgentCommand

def steers (cmds : List AgentCommand) : List Message := cmds.filterMap AgentCommand.steer?

def followUps (cmds : List AgentCommand) : List Message := cmds.filterMap AgentCommand.followUp?

/-- The events of user messages on their way into the transcript. -/
def said (ms : List Message) : List Effect :=
  ms.flatMap fun m => [.event (.messageStart m), .event (.messageEnd m)]

namespace RunContext

/-- One command from the channel: `Abort` and `Shutdown` cancel the run at once, what is not for
this run waits in the queue. -/
def drainOne (r : Drain × RunContext) (cmd : AgentCommand) : Drain × RunContext :=
  let ctx := r.2.record [.drained cmd]
  match cmd with
  | .abort =>
    ({ r.1 with aborted := true }, { ctx with tokens := { ctx.tokens with signal := true } })
  | .shutdown =>
    ({ r.1 with shutdown := true }, { ctx with tokens := { ctx.tokens with signal := true } })
  | .steer m => ({ r.1 with steer := r.1.steer ++ [m] }, ctx)
  | .followUp m => ({ r.1 with followup := r.1.followup ++ [m] }, ctx)
  | other => (r.1, { ctx with queue := ctx.queue ++ [other] })

def drainCommands (ctx : RunContext) (arrived : List AgentCommand) : Drain × RunContext :=
  arrived.foldl drainOne (.empty, ctx)

/-- Steering messages and follow-ups that cannot be taken now go to the back of the queue. -/
def requeue (ctx : RunContext) (d : Drain) : RunContext :=
  { ctx with queue := ctx.queue ++ d.steer.map .steer ++ d.followup.map .followUp }

/-- Drain the channel, then take the steering messages and follow-ups of the queue. -/
def collectPending (ctx : RunContext) (arrived : List AgentCommand) : Drain × RunContext :=
  let r := ctx.drainCommands arrived
  ({ r.1 with
      steer := r.1.steer ++ steers r.2.queue
      followup := r.1.followup ++ followUps r.2.queue },
    { r.2 with queue := r.2.queue.filter fun cmd => !cmd.isPending })

def appendUserMessage (ctx : RunContext) (m : Message) : RunContext :=
  (((ctx.send (.messageStart m)).push m).updateSnapshot false none [] none).send (.messageEnd m)

def appendUserMessages (ctx : RunContext) (ms : List Message) : RunContext :=
  ms.foldl appendUserMessage ctx

theorem adds_appendUserMessage (ctx : RunContext) (m : Message) :
    Adds ctx (ctx.appendUserMessage m) [m]
      [.event (.messageStart m), .event (.messageEnd m)] :=
  (((adds_send ctx _).trans (adds_push _ m)).trans
    (adds_updateSnapshot _ false none [] none)).trans (adds_send _ _)

theorem adds_appendUserMessages (ctx : RunContext) (ms : List Message) :
    Adds ctx (ctx.appendUserMessages ms) ms (said ms) := by
  induction ms generalizing ctx with
  | nil => exact .refl ctx
  | cons m ms ih => exact (adds_appendUserMessage ctx m).trans (ih _)

theorem queue_appendUserMessages (ctx : RunContext) (ms : List Message) :
    (ctx.appendUserMessages ms).queue = ctx.queue := by
  induction ms generalizing ctx with
  | nil => rfl
  | cons m ms ih => exact ih (ctx.appendUserMessage m)

/-- What a drain finds, in the order the commands were sent. -/
theorem foldl_drainOne_fst (r : Drain × RunContext) (arrived : List AgentCommand) :
    (arrived.foldl drainOne r).1 =
      ⟨r.1.aborted || arrived.any AgentCommand.isAbort,
        r.1.shutdown || arrived.any AgentCommand.isShutdown,
        r.1.steer ++ steers arrived, r.1.followup ++ followUps arrived⟩ := by
  induction arrived generalizing r with
  | nil => simp [steers, followUps]
  | cons cmd arrived ih =>
    rw [List.foldl_cons, ih]
    cases cmd <;>
      simp [drainOne, steers, followUps, List.filterMap_cons, AgentCommand.isAbort,
        AgentCommand.isShutdown, AgentCommand.steer?, AgentCommand.followUp?]

theorem drainCommands_fst (ctx : RunContext) (arrived : List AgentCommand) :
    (ctx.drainCommands arrived).1 =
      ⟨arrived.any AgentCommand.isAbort, arrived.any AgentCommand.isShutdown, steers arrived,
        followUps arrived⟩ := by
  rw [drainCommands, foldl_drainOne_fst]
  simp [Drain.empty]

theorem foldl_drainOne_queue (r : Drain × RunContext) (arrived : List AgentCommand) :
    (arrived.foldl drainOne r).2.queue =
      r.2.queue ++ arrived.filter AgentCommand.isDeferred := by
  induction arrived generalizing r with
  | nil => simp
  | cons cmd arrived ih =>
    rw [List.foldl_cons, ih]
    cases cmd <;>
      simp [drainOne, record, AgentCommand.isDeferred, AgentCommand.cuts, AgentCommand.isAbort,
        AgentCommand.isShutdown, AgentCommand.isPending, AgentCommand.steer?,
        AgentCommand.followUp?]

theorem queue_drainCommands (ctx : RunContext) (arrived : List AgentCommand) :
    (ctx.drainCommands arrived).2.queue = ctx.queue ++ arrived.filter AgentCommand.isDeferred :=
  foldl_drainOne_queue (.empty, ctx) arrived

theorem drainCommands_cuts (ctx : RunContext) (arrived : List AgentCommand) :
    ((ctx.drainCommands arrived).1.aborted || (ctx.drainCommands arrived).1.shutdown) =
      arrived.any AgentCommand.cuts := by
  rw [drainCommands_fst]
  induction arrived with
  | nil => rfl
  | cons cmd arrived ih =>
    simp only [List.any_cons, AgentCommand.cuts] at ih ⊢
    rw [← ih]
    cases cmd.isAbort <;> cases cmd.isShutdown <;> simp

theorem adds_drainOne (r : Drain × RunContext) (cmd : AgentCommand) :
    Adds r.2 (drainOne r cmd).2 [] [.drained cmd] := by
  cases cmd <;> exact ⟨by simp [drainOne, record], rfl⟩

theorem adds_foldl_drainOne (r : Drain × RunContext) (arrived : List AgentCommand) :
    Adds r.2 (arrived.foldl drainOne r).2 [] (arrived.map .drained) := by
  induction arrived generalizing r with
  | nil => exact .refl r.2
  | cons cmd arrived ih => exact (adds_drainOne r cmd).trans (ih _)

theorem adds_drainCommands (ctx : RunContext) (arrived : List AgentCommand) :
    Adds ctx (ctx.drainCommands arrived).2 [] (arrived.map .drained) :=
  adds_foldl_drainOne (.empty, ctx) arrived

theorem adds_requeue (ctx : RunContext) (d : Drain) : Adds ctx (ctx.requeue d) [] [] :=
  ⟨by simp [requeue], by simp [requeue]⟩

theorem adds_collectPending (ctx : RunContext) (arrived : List AgentCommand) :
    Adds ctx (ctx.collectPending arrived).2 [] (arrived.map .drained) :=
  ⟨(adds_drainCommands ctx arrived).transcript, (adds_drainCommands ctx arrived).trace⟩

end RunContext

/-- What a drain in the middle of a run leaves behind in the queue, in this order. -/
def requeued (arrived : List AgentCommand) : List AgentCommand :=
  arrived.filter AgentCommand.isDeferred ++ (steers arrived).map .steer ++
    (followUps arrived).map .followUp

theorem RunContext.queue_requeue (ctx : RunContext) (arrived : List AgentCommand) :
    ((ctx.drainCommands arrived).2.requeue (ctx.drainCommands arrived).1).queue =
      ctx.queue ++ requeued arrived := by
  unfold requeue requeued
  rw [queue_drainCommands, drainCommands_fst]
  simp

theorem quiet_drained (arrived : List AgentCommand) : Quiet (arrived.map .drained) := by
  intro e he
  obtain ⟨cmd, -, rfl⟩ := List.mem_map.mp he
  rfl

@[simp] theorem drainedOf_drained (arrived : List AgentCommand) :
    drainedOf (arrived.map .drained) = arrived := by
  induction arrived with
  | nil => rfl
  | cons cmd arrived ih => exact congrArg (cmd :: ·) ih

@[simp] theorem drainedOf_taken (cmds : List AgentCommand) :
    drainedOf (cmds.map .taken) = [] := by
  induction cmds with
  | nil => rfl
  | cons cmd cmds ih => exact ih

@[simp] theorem drainedOf_said (ms : List Message) : drainedOf (said ms) = [] := by
  induction ms with
  | nil => rfl
  | cons m ms ih => exact ih

@[simp] theorem drainedOf_event (e : AgentEvent) (es : List Effect) :
    drainedOf (.event e :: es) = drainedOf es := rfl

theorem lastStreamed_drained (arrived : List AgentCommand) :
    lastStreamed (arrived.map .drained) = none := by
  unfold lastStreamed
  rw [List.getLast?_eq_none_iff, List.filterMap_eq_nil_iff]
  intro e he
  obtain ⟨cmd, -, rfl⟩ := List.mem_map.mp he
  rfl

end Guigu
