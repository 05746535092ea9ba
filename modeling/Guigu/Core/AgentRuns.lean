import Guigu.Core.AgentRuntime
import Guigu.Core.Runtime.Ledger

/-! Runs of an agent: what is asked of every command it takes up and of every turn, and what such
runs keep. -/
namespace Guigu

/-- The next command leaves the queue, or the channel when the queue is empty. -/
inductive Next (ctx : RunContext) (cmd : AgentCommand) : RunContext → Prop
  | dequeued {queue : List AgentCommand} (h : ctx.queue = cmd :: queue) :
    Next ctx cmd { ctx with queue := queue }
  | received (h : ctx.queue = []) : Next ctx cmd (ctx.record [.drained cmd])

/-- The command taken up is the next one of the queue and what is drained for it. -/
theorem Next.books {ctx ctx' : RunContext} {cmd : AgentCommand} (h : Next ctx cmd ctx') :
    ∃ drained : List AgentCommand, cmd :: ctx'.queue = ctx.queue ++ drained ∧
      ctx'.transcript = ctx.transcript ∧
      booked (ctx'.record [.processing cmd]).trace =
        booked ctx.trace ++ (drained.map .drained ++ [.processing cmd]) := by
  cases h with
  | dequeued hqueue =>
    refine ⟨[], ?_, rfl, booked_append _ _⟩
    rw [hqueue, List.append_nil]
  | received hqueue =>
    refine ⟨[cmd], ?_, rfl, ?_⟩
    · show cmd :: ctx.queue = _
      rw [hqueue]
      rfl
    · show booked (ctx.trace ++ [.drained cmd] ++ [.processing cmd]) = _
      rw [List.append_assoc]
      exact booked_append _ _

theorem Next.requested_eq {ctx ctx' : RunContext} {cmd : AgentCommand} (h : Next ctx cmd ctx') :
    requested (ctx'.record [.processing cmd]).trace = requested ctx.trace := by
  cases h with
  | dequeued => exact (requested_append _ _).trans (List.append_nil _)
  | received =>
    show requested (ctx.trace ++ [.drained cmd] ++ [.processing cmd]) = _
    rw [List.append_assoc, requested_append]
    exact List.append_nil _

theorem messages_of_initial? {cmd : AgentCommand} {initial : List Message}
    (h : cmd.initial? = some initial) : cmd.messages = initial := by
  cases cmd with
  | prompt ms => exact Option.some_inj.mp h
  | steer m => exact Option.some_inj.mp h
  | followUp m => exact Option.some_inj.mp h
  | continue_ => exact Option.some_inj.mp h
  | abort | reset | shutdown => cases h

theorem AgentState.next_of_next? {s : AgentState} {a : AgentAction} {cmd : AgentCommand}
    {ctx : RunContext} (h : s.next? a = some (cmd, ctx)) : Next s.ctx cmd ctx := by
  unfold next? at h
  cases hstops : s.stops with
  | true =>
    rw [hstops] at h
    cases h
  | false =>
    rw [hstops] at h
    cases hqueue : s.ctx.queue with
    | nil =>
      cases a with
      | receive cmd' env =>
        simp only [hqueue, Bool.false_eq_true, ↓reduceIte, Option.some.injEq, Prod.mk.injEq] at h
        obtain ⟨rfl, rfl⟩ := h
        exact .received hqueue
      | dequeue env | exit =>
        rw [hqueue] at h
        cases h
    | cons first queue =>
      cases a with
      | dequeue env =>
        simp only [hqueue, Bool.false_eq_true, ↓reduceIte, Option.some.injEq, Prod.mk.injEq] at h
        obtain ⟨rfl, rfl⟩ := h
        exact .dequeued hqueue
      | receive cmd' env | exit =>
        rw [hqueue] at h
        cases h

/-- What is asked of the command that is taken up, of the drains behind the first messages of its
run, and of each turn. -/
structure Demand where
  takes : RunContext → AgentCommand → Bool
  start : List Message → List (List AgentCommand) → Bool
  turn : AgentRuntime → LoopState → TurnEnv → Bool

namespace Demand

/-- The turns of a run that are still taken meet the demand, up to the one that cuts it. -/
def Turns (d : Demand) (rt : AgentRuntime) (s : LoopState) (envs : List TurnEnv) : Prop :=
  Runs.Along (turnStep rt) (fun s env => (s.finished || d.turn rt s env) = true) s
    (envs ++ [.cut])

instance (d : Demand) (rt : AgentRuntime) (s : LoopState) (envs : List TurnEnv) :
    Decidable (d.Turns rt s envs) := inferInstanceAs (Decidable (Runs.Along ..))

/-- One round of the agent meets the demand. -/
def Met (d : Demand) (rt : AgentRuntime) (s : AgentState) (a : AgentAction) : Prop :=
  ∀ next ∈ s.next? a, d.takes next.2 next.1 = true ∧
    ∀ initial ∈ next.1.initial?, d.start initial a.env.arrivals = true ∧
      d.Turns rt (startLoop (next.2.record [.processing next.1]) initial a.env.arrivals)
        a.env.turns

instance (d : Demand) (rt : AgentRuntime) (s : AgentState) (a : AgentAction) :
    Decidable (d.Met rt s a) := inferInstanceAs (Decidable (∀ next ∈ _, _ ∧ ∀ initial ∈ _, _))

/-- Whatever the clients do, the rounds of the agent meet the demand. -/
def MetBySystem (d : Demand) (rt : AgentRuntime) (s : AgentSystem) : SystemAction → Prop
  | .send _ | .count _ => True
  | .runtime a => d.Met rt s.agent a

instance (d : Demand) (rt : AgentRuntime) (s : AgentSystem) :
    (a : SystemAction) → Decidable (d.MetBySystem rt s a)
  | .send _ | .count _ => .isTrue trivial
  | .runtime a => inferInstanceAs (Decidable (d.Met rt s.agent a))

/-- A relation between the context of an agent and the number of commands it has used up is kept
where the demand is met. -/
structure Keeps (d : Demand) (rt : AgentRuntime) (inv : RunContext → ℕ → Prop) : Prop where
  start : ∀ {ctx ctx' : RunContext} {cmd : AgentCommand} {initial : List Message} {n : ℕ}
    (arrivals : List (List AgentCommand)), inv ctx n → Next ctx cmd ctx' →
    cmd.initial? = some initial → d.takes ctx' cmd = true → d.start initial arrivals = true →
    inv (startLoop (ctx'.record [.processing cmd]) initial arrivals).ctx (n + 1)
  turn : ∀ {s : LoopState} {env : TurnEnv} {n : ℕ}, inv s.ctx (n + s.consumed) →
    d.turn rt s env = true → inv (turnStep rt s env).ctx (n + (turnStep rt s env).consumed)
  close : ∀ {ctx : RunContext} {n : ℕ}, inv ctx n → inv (ctx.send (.agentEnd ctx.transcript)) n
  reset : ∀ {ctx ctx' : RunContext} {n : ℕ}, inv ctx n → Next ctx .reset ctx' →
    d.takes ctx' .reset = true →
    inv (ctx'.record [.processing .reset]).reset (n + (1 + ctx'.queue.length))
  skip : ∀ {ctx ctx' : RunContext} {cmd : AgentCommand} {n : ℕ}, inv ctx n → Next ctx cmd ctx' →
    cmd.cuts = true → d.takes ctx' cmd = true → inv (ctx'.record [.processing cmd]) (n + 1)

namespace Keeps

variable {d : Demand} {rt : AgentRuntime} {inv : RunContext → ℕ → Prop}

theorem turns (h : d.Keeps rt inv) {s : LoopState} {envs : List TurnEnv} {n : ℕ}
    (hinv : inv s.ctx (n + s.consumed)) (hmet : d.Turns rt s envs) :
    inv (Runs.run (turnStep rt) s (envs ++ [.cut])).ctx
      (n + (Runs.run (turnStep rt) s (envs ++ [.cut])).consumed) := by
  let booksOn : LoopState → Prop := fun s => inv s.ctx (n + s.consumed)
  have hstep : ∀ s env, booksOn s → (s.finished || d.turn rt s env) = true →
      booksOn (turnStep rt s env) := by
    intro s env hs hturn
    cases hfin : s.finished with
    | true => rwa [turnStep_finished env hfin]
    | false =>
      rw [hfin, Bool.false_or] at hturn
      exact h.turn hs hturn
  have hstart : booksOn s := hinv
  exact Runs.invariant hstep hstart hmet

theorem run (h : d.Keeps rt inv) {ctx ctx' : RunContext} {cmd : AgentCommand}
    {initial : List Message} {n : ℕ} {env : RunEnv} (hinv : inv ctx n) (hnext : Next ctx cmd ctx')
    (hinitial : cmd.initial? = some initial) (htakes : d.takes ctx' cmd = true)
    (hstart : d.start initial env.arrivals = true)
    (hturns : d.Turns rt (startLoop (ctx'.record [.processing cmd]) initial env.arrivals)
      env.turns) :
    inv (runWithInitial rt (ctx'.record [.processing cmd]) initial env).2
      (n + (1 + (runWithInitial rt (ctx'.record [.processing cmd]) initial env).1.2)) := by
  have hbegin := h.start env.arrivals hinv hnext hinitial htakes hstart
  have hend := h.close (h.turns hbegin hturns)
  rwa [← Nat.add_assoc]

theorem step (h : d.Keeps rt inv) {s : AgentState} {a : AgentAction}
    (hinv : inv s.ctx s.processed) (hmet : d.Met rt s a) :
    inv (s.step rt a).ctx (s.step rt a).processed := by
  unfold AgentState.step
  cases hnext : s.next? a with
  | none => exact hinv
  | some next =>
    obtain ⟨cmd, ctx⟩ := next
    obtain ⟨htakes, hruns⟩ := hmet _ hnext
    have hctx := AgentState.next_of_next? hnext
    have hrun : ∀ {initial}, cmd.initial? = some initial →
        inv (runWithInitial rt (ctx.record [.processing cmd]) initial a.env).2 (s.processed +
          (1 + (runWithInitial rt (ctx.record [.processing cmd]) initial a.env).1.2)) := by
      intro initial hinitial
      obtain ⟨hstart, hturns⟩ := hruns _ hinitial
      exact h.run hinv hctx hinitial htakes hstart hturns
    cases cmd with
    | prompt ms => exact hrun rfl
    | continue_ => exact hrun rfl
    | steer m => exact hrun rfl
    | followUp m => exact hrun rfl
    | abort => exact h.skip hinv hctx rfl htakes
    | reset => exact h.reset hinv hctx htakes
    | shutdown => exact h.skip hinv hctx rfl htakes

/-- A run of the system keeps the relation, and drains nothing that was not sent. -/
theorem system_step (h : d.Keeps rt inv) {s : AgentSystem} {a : SystemAction}
    (hinv : inv s.agent.ctx s.agent.processed ∧ s.drained <+: s.sent)
    (hmet : d.MetBySystem rt s a) :
    inv (s.step rt a).agent.ctx (s.step rt a).agent.processed ∧
      (s.step rt a).drained <+: (s.step rt a).sent := by
  cases a with
  | send cmd =>
    unfold AgentSystem.step
    simp only
    split_ifs
    · exact hinv
    · refine ⟨hinv.1, hinv.2.trans ?_⟩
      unfold AgentSystem.sent
      rw [List.map_append]
      exact List.prefix_append _ _
  | count call =>
    obtain ⟨hsent, hagent⟩ := s.sent_count rt call
    unfold AgentSystem.drained
    rw [hsent, hagent]
    exact hinv
  | runtime a =>
    have hstep := h.step hinv.1 hmet
    unfold AgentSystem.step
    simp only
    split_ifs with hsent
    · exact ⟨hstep, hsent⟩
    · exact hinv

/-- What follows from the relation holds all along a run of the system. -/
theorem throughout (h : d.Keeps rt inv) {prop : AgentSystem → Prop} {transcript : List Message}
    {as : List SystemAction} (hinv : inv (.start transcript) 0)
    (hprop : ∀ s : AgentSystem, inv s.agent.ctx s.agent.processed → s.drained <+: s.sent → prop s)
    (hmet : Runs.Along (AgentSystem.step rt) (d.MetBySystem rt) (.start transcript) as) :
    Runs.Throughout (AgentSystem.step rt) prop (.start transcript) as := by
  let booksOn : AgentSystem → Prop :=
    fun s => inv s.agent.ctx s.agent.processed ∧ s.drained <+: s.sent
  have hstep : ∀ s a, booksOn s → d.MetBySystem rt s a → booksOn (s.step rt a) :=
    fun _ _ hs ha => h.system_step hs ha
  have hstart : booksOn (.start transcript) := ⟨hinv, List.nil_prefix⟩
  exact Runs.throughout hstep (fun s hs => hprop s hs.1 hs.2) hstart hmet

end Keeps

end Demand

end Guigu
