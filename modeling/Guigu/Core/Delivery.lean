import Guigu.Core.AgentRuns

/-! Where the messages of the commands go that clients send to an agent. -/
namespace Guigu

def owe (cmds : List AgentCommand) : Effect → List AgentCommand
  | .drained cmd => cmds ++ [cmd]
  | .processing .reset => []
  | _ => cmds

/-- The commands drained since the last `Reset` was processed. -/
def owed (effects : List Effect) : List AgentCommand := effects.foldl owe []

def enter (ms : List Message) : Effect → List Message
  | .initial m => ms ++ [m]
  | .taken cmd => ms ++ cmd.messages
  | .processing .reset => []
  | _ => ms

/-- The messages of commands that have entered the transcript since then. -/
def entered (effects : List Effect) : List Message := effects.foldl enter []

/-- The commands sent behind the last `Reset`. -/
def behindReset (cmds : List AgentCommand) : List AgentCommand :=
  (cmds.reverse.takeWhile fun cmd => cmd ≠ .reset).reverse

/-- Every message sent behind the last `Reset` is in the transcript or waits. -/
def AgentSystem.KeepsSent (s : AgentSystem) : Prop :=
  ∀ m ∈ messagesOf (behindReset s.sent),
    m ∈ s.agent.ctx.transcript ++ messagesOf (s.agent.ctx.queue ++ s.channel)

/-- Every message has entered the transcript once or waits once, those aside that had been drained
when a `Reset` was processed; and what has entered the transcript is there. -/
structure AgentSystem.Delivers (s : AgentSystem) : Prop where
  conserved : (messagesOf (owed s.agent.ctx.trace ++ s.channel)).Perm
    (entered s.agent.ctx.trace ++ messagesOf (s.agent.ctx.queue ++ s.channel))
  kept : (entered s.agent.ctx.trace).Sublist s.agent.ctx.transcript

/-- A `Shutdown` may leave messages behind. -/
def AgentSystem.DeliversUnlessShut (s : AgentSystem) : Prop :=
  s.drained.any AgentCommand.isShutdown = true ∨ s.Delivers

/-- No `Abort` is drained behind a first message of a run that others follow, nor at the end of a
turn with steering messages or follow-ups in sight; nothing is compacted. -/
def Demand.delivers : Demand where
  takes _ _ := true
  start initial arrivals :=
    ((arrivals.take (initial.length - 1)).all fun arrived => !arrived.any AgentCommand.cuts) ||
      (initialDrains initial arrivals).flatten.any AgentCommand.isShutdown
  turn rt s env := (env.commit? rt s.ctx.transcript).isNone &&
    (env.aborts rt s || keepsAll (env.callsTools rt s) (env.waiting rt s) env.arrived ||
      env.arrived.any AgentCommand.isShutdown)

theorem foldl_booked {α : Type} {f : α → Effect → α}
    (hf : ∀ x e, e.isBooked = false → f x e = x) (x : α) (effects : List Effect) :
    (booked effects).foldl f x = effects.foldl f x := by
  induction effects generalizing x with
  | nil => rfl
  | cons e es ih =>
    cases he : e.isBooked with
    | true =>
      rw [booked, List.filter_cons_of_pos he]
      exact ih (f x e)
    | false =>
      rw [booked, List.filter_cons_of_neg (by simp [he]), List.foldl_cons, hf x e he]
      exact ih x

theorem owed_of_booked {es fs gs : List Effect} (h : booked es = booked fs ++ gs) :
    owed es = gs.foldl owe (owed fs) := by
  have hf : ∀ x e, e.isBooked = false → owe x e = x := by
    intro x e he
    unfold owe
    split
    · cases he
    · cases he
    · rfl
  unfold owed
  rw [← foldl_booked hf, h, List.foldl_append, foldl_booked hf]

theorem entered_of_booked {es fs gs : List Effect} (h : booked es = booked fs ++ gs) :
    entered es = gs.foldl enter (entered fs) := by
  have hf : ∀ x e, e.isBooked = false → enter x e = x := by
    intro x e he
    unfold enter
    split
    · cases he
    · cases he
    · cases he
    · rfl
  unfold entered
  rw [← foldl_booked hf, h, List.foldl_append, foldl_booked hf]

theorem owe_drained (cmds arrived : List AgentCommand) :
    (arrived.map Effect.drained).foldl owe cmds = cmds ++ arrived := by
  induction arrived generalizing cmds with
  | nil => exact (List.append_nil _).symm
  | cons cmd arrived ih =>
    rw [List.map_cons, List.foldl_cons, ih]
    exact List.append_cons _ _ _ |>.symm

theorem owe_taken (cmds taken : List AgentCommand) :
    (taken.map Effect.taken).foldl owe cmds = cmds := by
  induction taken with
  | nil => rfl
  | cons cmd taken ih => exact ih

theorem enter_drained (ms : List Message) (arrived : List AgentCommand) :
    (arrived.map Effect.drained).foldl enter ms = ms := by
  induction arrived with
  | nil => rfl
  | cons cmd arrived ih => exact ih

theorem enter_taken (ms : List Message) (taken : List AgentCommand) :
    (taken.map Effect.taken).foldl enter ms = ms ++ messagesOf taken := by
  induction taken generalizing ms with
  | nil => exact (List.append_nil _).symm
  | cons cmd taken ih =>
    rw [List.map_cons, List.foldl_cons, ih, messagesOf_cons, ← List.append_assoc]
    rfl

theorem booked_initialEffects (m : Message) (ms : List Message)
    (arrivals : List (List AgentCommand)) :
    booked (initialEffects (m :: ms) arrivals) =
      .initial m :: ((arrivals.headD []).map .drained ++
        if (arrivals.headD []).any AgentCommand.cuts then []
        else booked (initialEffects ms arrivals.tail)) := by
  have hfirst : booked (.initial m :: said [m]) = [.initial m] := rfl
  rw [initialEffects, ← List.cons_append, booked_append, booked_append, hfirst, booked_drained]
  split_ifs
  · rfl
  · rfl

theorem owe_initialEffects (cmds : List AgentCommand) (initial : List Message)
    (arrivals : List (List AgentCommand)) :
    (booked (initialEffects initial arrivals)).foldl owe cmds =
      cmds ++ (initialDrains initial arrivals).flatten := by
  induction initial generalizing cmds arrivals with
  | nil => exact (List.append_nil _).symm
  | cons m ms ih =>
    rw [booked_initialEffects, List.foldl_cons, List.foldl_append, initialDrains,
      List.flatten_cons, ← List.append_assoc]
    have hinitial : owe cmds (.initial m) = cmds := rfl
    rw [hinitial, owe_drained]
    split_ifs
    · exact (List.append_nil _).symm
    · exact ih _ _

theorem enter_initialEffects (ms : List Message) (initial : List Message)
    (arrivals : List (List AgentCommand)) :
    (booked (initialEffects initial arrivals)).foldl enter ms =
      ms ++ appendedInitial initial arrivals := by
  induction initial generalizing ms arrivals with
  | nil => exact (List.append_nil _).symm
  | cons m rest ih =>
    rw [booked_initialEffects, List.foldl_cons, List.foldl_append, appendedInitial,
      List.append_cons]
    have hinitial : enter ms (.initial m) = ms ++ [m] := rfl
    rw [hinitial, enter_drained]
    split_ifs
    · exact (List.append_nil _).symm
    · exact ih _ _

/-- A run takes all its first messages in when it is not cut in front of the last. -/
theorem appendedInitial_eq {initial : List Message} {arrivals : List (List AgentCommand)}
    (h : ((arrivals.take (initial.length - 1)).all fun arrived =>
      !arrived.any AgentCommand.cuts) = true) : appendedInitial initial arrivals = initial := by
  induction initial generalizing arrivals with
  | nil => rfl
  | cons m ms ih =>
    unfold appendedInitial
    cases ms with
    | nil =>
      split_ifs
      · rfl
      · rfl
    | cons next ms =>
      cases arrivals with
      | nil =>
        rw [List.headD_nil, List.any_nil, List.tail_nil, if_neg Bool.false_ne_true]
        exact congrArg _ (ih (by simp))
      | cons arrived arrivals =>
        have hall : (!arrived.any AgentCommand.cuts &&
            (arrivals.take ms.length).all fun arrived => !arrived.any AgentCommand.cuts) =
            true := h
        rw [Bool.and_eq_true, Bool.not_eq_true'] at hall
        rw [List.headD_cons, hall.1, if_neg Bool.false_ne_true]
        exact congrArg _ (ih hall.2)

theorem messagesOf_counted (cmds : List AgentCommand) :
    messagesOf (counted cmds) = messagesOf cmds := by
  induction cmds with
  | nil => rfl
  | cons cmd cmds ih =>
    cases cmd with
    | abort | shutdown => exact ih
    | prompt | continue_ | steer | followUp | reset => exact congrArg (_ ++ ·) ih

theorem messagesOf_flatMap_requeued (drains : List (List AgentCommand)) :
    (messagesOf (drains.flatMap requeued)).Perm (messagesOf drains.flatten) := by
  have h := (flatMap_requeued_perm drains).flatMap_right AgentCommand.messages
  change (messagesOf _).Perm (messagesOf (counted drains.flatten)) at h
  rwa [messagesOf_counted] at h

/-- The messages owed have entered the transcript or wait. -/
structure Delivered (ctx : RunContext) : Prop where
  conserved : (messagesOf (owed ctx.trace)).Perm (entered ctx.trace ++ messagesOf ctx.queue)
  kept : (entered ctx.trace).Sublist ctx.transcript

/-- Or a `Shutdown` has been drained. -/
def DeliveredUnlessShut (ctx : RunContext) : Prop :=
  (drainedOf ctx.trace).any AgentCommand.isShutdown = true ∨ Delivered ctx

namespace Delivered

/-- Effects that leave in the queue or take in what they drain. -/
theorem advance {ctx ctx' : RunContext} {effects : List Effect} (drained : List AgentCommand)
    (said pushed : List Message) (h : Delivered ctx)
    (hbooked : booked ctx'.trace = booked ctx.trace ++ effects)
    (howed : effects.foldl owe (owed ctx.trace) = owed ctx.trace ++ drained)
    (hentered : effects.foldl enter (entered ctx.trace) = entered ctx.trace ++ said)
    (hmoved : (messagesOf ctx'.queue ++ said).Perm (messagesOf ctx.queue ++ messagesOf drained))
    (htranscript : (ctx.transcript ++ pushed).Sublist ctx'.transcript)
    (hpushed : said.Sublist pushed) : Delivered ctx' := by
  constructor
  · rw [owed_of_booked hbooked, howed, entered_of_booked hbooked, hentered, messagesOf_append]
    have hconserved := h.conserved
    rw [List.perm_iff_count] at hconserved hmoved ⊢
    intro m
    have h₁ := hconserved m
    have h₂ := hmoved m
    simp only [List.count_append] at h₁ h₂ ⊢
    omega
  · rw [entered_of_booked hbooked, hentered]
    exact (h.kept.append hpushed).trans htranscript

/-- A run takes its first messages in. -/
theorem startLoop {ctx ctx' : RunContext} {cmd : AgentCommand} {initial : List Message}
    {arrivals : List (List AgentCommand)} (h : Delivered ctx) (hnext : Next ctx cmd ctx')
    (hinitial : cmd.initial? = some initial) (hall : appendedInitial initial arrivals = initial) :
    Delivered (Guigu.startLoop (ctx'.record [.processing cmd]) initial arrivals).ctx := by
  obtain ⟨drained, hfirst, htranscript, hbooked⟩ := hnext.books
  obtain ⟨hqueue, hbooked', htranscript'⟩ :=
    startLoop_books (ctx'.record [.processing cmd]) initial arrivals
  rw [hbooked, List.append_assoc] at hbooked'
  have howe : ∀ cmds, owe cmds (.processing cmd) = cmds := by
    intro cmds
    cases cmd with
    | reset => cases hinitial
    | prompt | continue_ | steer | followUp | abort | shutdown => rfl
  have henter : ∀ ms, enter ms (.processing cmd) = ms := by
    intro ms
    cases cmd with
    | reset => cases hinitial
    | prompt | continue_ | steer | followUp | abort | shutdown => rfl
  refine h.advance (drained ++ (initialDrains initial arrivals).flatten) initial initial hbooked'
    ?_ ?_ ?_ ?_ (.refl _)
  · rw [List.foldl_append, List.foldl_append, owe_drained, List.foldl_cons, List.foldl_nil, howe,
      owe_initialEffects, List.append_assoc]
  · rw [List.foldl_append, List.foldl_append, enter_drained, List.foldl_cons, List.foldl_nil,
      henter, enter_initialEffects, hall]
  · have hdrains := messagesOf_flatMap_requeued (initialDrains initial arrivals)
    have hqueued := congrArg messagesOf hfirst
    rw [messagesOf_cons, messages_of_initial? hinitial, messagesOf_append] at hqueued
    rw [hqueue, messagesOf_append, messagesOf_append, ← List.append_assoc, ← hqueued]
    show (messagesOf ctx'.queue ++ messagesOf _ ++ initial).Perm _
    rw [List.perm_iff_count] at hdrains ⊢
    intro m
    have hm := hdrains m
    simp only [List.count_append]
    omega
  · rw [htranscript', hall]
    show (ctx.transcript ++ initial).Sublist (ctx'.transcript ++ initial)
    rw [htranscript]

end Delivered

/-- The end of a turn reads nothing, or what has arrived. -/
theorem Boundary.drained_eq {queue arrived drained taken queue' : List AgentCommand} {calls : Bool}
    {consumed : ℕ} (h : Boundary queue arrived calls drained taken queue' consumed) :
    drained = arrived ∨ (drained = [] ∧ taken = [] ∧ queue' = queue) := by
  cases h with
  | skipped => exact .inr ⟨rfl, rfl, rfl⟩
  | cut | steered | followed | toolCut | toolDone => exact .inl rfl

theorem Boundary.messages {queue arrived drained taken queue' : List AgentCommand} {calls : Bool}
    {consumed : ℕ} (h : Boundary queue arrived calls drained taken queue' consumed)
    (hkeeps : keepsAll calls queue arrived = true) :
    (messagesOf queue' ++ messagesOf taken).Perm (messagesOf queue ++ messagesOf drained) := by
  have hmoved := (h.perm hkeeps).flatMap_right AgentCommand.messages
  change (messagesOf _).Perm (messagesOf _) at hmoved
  rwa [messagesOf_append, messagesOf_append, messagesOf_counted] at hmoved

/-- A `Shutdown` that has been drained stays on record. -/
theorem DeliveredUnlessShut.mono {ctx ctx' : RunContext} {effects : List Effect}
    (h : DeliveredUnlessShut ctx) (hbooked : booked ctx'.trace = booked ctx.trace ++ effects)
    (hnow : Delivered ctx → DeliveredUnlessShut ctx') : DeliveredUnlessShut ctx' := by
  rcases h with hshut | h
  · left
    rw [drainedOf_of_booked hbooked, List.any_append, hshut, Bool.true_or]
  · exact hnow h

theorem delivers_keeps (rt : AgentRuntime) :
    Demand.delivers.Keeps rt fun ctx _ => DeliveredUnlessShut ctx where
  start := by
    intro ctx ctx' cmd initial n arrivals h hnext hinitial htakes hstart
    obtain ⟨drained, -, -, hbooked⟩ := hnext.books
    obtain ⟨-, hbooked', -⟩ := startLoop_books (ctx'.record [.processing cmd]) initial arrivals
    have hall := hbooked'
    rw [hbooked, List.append_assoc] at hall
    refine h.mono hall ?_
    intro hnow
    simp only [Demand.delivers, Bool.or_eq_true] at hstart
    rcases hstart with huncut | hshut
    · exact .inr (hnow.startLoop hnext hinitial (appendedInitial_eq huncut))
    · left
      rw [drainedOf_of_booked hbooked', drainedOf_booked, drainedOf_initialEffects, List.any_append,
        hshut, Bool.or_true]
  turn := by
    intro s env n h hturn
    simp only [Demand.delivers, Bool.and_eq_true, Option.isNone_iff_eq_none] at hturn
    obtain ⟨hnone, hbound⟩ := hturn
    have hdrains := messagesOf_flatMap_requeued (env.drains rt.loopConfig s.ctx.tokens)
    cases (turnStep_books env : TurnBooks rt env s (turnStep rt s env)) with
    | kept hqueue hconsumed hbooked hpushed =>
      have hall := hbooked.trans (List.append_nil _).symm
      refine h.mono hall fun hnow => .inr ?_
      refine hnow.advance [] [] [] hall ?_ ?_ ?_ ?_ (.refl _)
      · exact (List.append_nil _).symm
      · exact (List.append_nil _).symm
      · rw [hqueue]
        exact .refl _
      · rwa [List.append_nil]
    | cut habort hqueue hconsumed hbooked hpushed =>
      refine h.mono hbooked fun hnow => .inr ?_
      refine hnow.advance _ [] [] hbooked (owe_drained _ _) ?_ ?_ ?_ (.refl _)
      · rw [enter_drained, List.append_nil]
      · rw [hqueue, TurnEnv.waiting, messagesOf_append, List.append_nil]
        exact hdrains.append_left _
      · rw [List.append_nil]
        exact hpushed hnone
    | @moved drained taken _ habort hbound' hconsumed hbooked hpushed =>
      rw [habort, Bool.false_or, Bool.or_eq_true] at hbound
      obtain ⟨pushed, htranscript, htaken⟩ := hpushed hnone
      have hnow : (messagesOf (turnStep rt s env).ctx.queue ++ messagesOf taken).Perm
          (messagesOf (env.waiting rt s) ++ messagesOf drained) →
          Delivered s.ctx → DeliveredUnlessShut (turnStep rt s env).ctx := by
        intro hmoved hdelivered
        right
        refine hdelivered.advance ((env.drains rt.loopConfig s.ctx.tokens).flatten ++ drained)
          (messagesOf taken) pushed hbooked ?_ ?_ ?_ ?_ htaken
        · rw [List.foldl_append, List.foldl_append, owe_drained, owe_drained, owe_taken,
            List.append_assoc]
        · rw [List.foldl_append, List.foldl_append, enter_drained, enter_drained, enter_taken]
        · refine hmoved.trans ?_
          rw [TurnEnv.waiting, messagesOf_append, messagesOf_append, List.append_assoc]
          exact (hdrains.append_right _).append_left _
        · rw [htranscript]
      rcases hbound with hkeeps | hshut
      · exact h.mono hbooked (hnow (hbound'.messages hkeeps))
      · rcases hbound'.drained_eq with rfl | ⟨rfl, rfl, hqueue⟩
        · left
          rw [drainedOf_of_booked hbooked]
          simp [hshut]
        · rw [hqueue] at hnow
          exact h.mono hbooked (hnow (.refl _))
  close := by
    intro ctx n h
    have hbooked : booked (ctx.send (.agentEnd ctx.transcript)).trace = booked ctx.trace ++ [] :=
      booked_append _ _
    refine h.mono hbooked fun hnow => .inr ?_
    refine hnow.advance [] [] [] hbooked ?_ ?_ (.refl _) ?_ (.refl _)
    · exact (List.append_nil _).symm
    · exact (List.append_nil _).symm
    · exact (List.append_nil _).symm ▸ .refl _
  reset := by
    intro ctx ctx' n h hnext htakes
    obtain ⟨drained, -, -, hbooked⟩ := hnext.books
    refine h.mono hbooked fun hnow => .inr ?_
    have howed : owed (ctx'.record [.processing .reset]).reset.trace = [] := List.foldl_append
    have hentered : entered (ctx'.record [.processing .reset]).reset.trace = [] :=
      List.foldl_append
    constructor
    · rw [howed, hentered]
      exact .nil
    · rw [hentered]
      exact .slnil
  skip := by
    intro ctx ctx' cmd n h hnext hcuts htakes
    obtain ⟨drained, hfirst, htranscript, hbooked⟩ := hnext.books
    refine h.mono hbooked fun hnow => .inr ?_
    have hcmd : (∀ cmds, owe cmds (.processing cmd) = cmds) ∧
        (∀ ms, enter ms (.processing cmd) = ms) ∧ cmd.messages = [] := by
      cases cmd with
      | abort | shutdown => exact ⟨fun _ => rfl, fun _ => rfl, rfl⟩
      | prompt | continue_ | steer | followUp | reset => cases hcuts
    obtain ⟨howe, henter, hmessages⟩ := hcmd
    refine hnow.advance drained [] [] hbooked ?_ ?_ ?_ ?_ (.refl _)
    · rw [List.foldl_append, owe_drained, List.foldl_cons, List.foldl_nil, howe]
    · rw [List.foldl_append, enter_drained, List.foldl_cons, List.foldl_nil, henter,
        List.append_nil]
    · have hqueued := congrArg messagesOf hfirst
      rw [messagesOf_cons, hmessages, messagesOf_append, List.nil_append] at hqueued
      rw [← hqueued, List.append_nil]
      exact .refl _
    · show (ctx.transcript ++ []).Sublist ctx'.transcript
      rw [htranscript, List.append_nil]

namespace AgentSystem

/-- No message is lost and none is doubled in a run in which no `Abort` falls upon messages that are
under way and nothing is compacted; a `Reset` removes what had been drained before it was
processed. -/
theorem delivers_throughout {rt : AgentRuntime} {transcript : List Message}
    {as : List SystemAction}
    (h : Runs.Along (AgentSystem.step rt) (Demand.delivers.MetBySystem rt) (.start transcript)
      as) :
    Runs.Throughout (AgentSystem.step rt) DeliversUnlessShut (.start transcript) as := by
  refine (delivers_keeps rt).throughout ?_ ?_ h
  · exact .inr ⟨.nil, List.nil_sublist _⟩
  · rintro s (hshut | hdelivered) -
    · exact .inl hshut
    · right
      constructor
      · rw [messagesOf_append, messagesOf_append, ← List.append_assoc]
        exact hdelivered.conserved.append_right _
      · exact hdelivered.kept

/-- A steering message enters the run of a prompt, a follow-up behind a `Reset` a later one. -/
theorem delivers_resetAgent : Runs.Throughout (AgentSystem.step .plain) DeliversUnlessShut
    (.start []) [.send (.prompt [helloMessage]), .send (.steer helloMessage), .send .reset,
      .runtime (.receive (.prompt [helloMessage]) ⟨[[]],
        [{ TurnEnv.streaming [.done helloAnswer] with arrived := [.steer helloMessage, .reset] },
          .streaming [.done helloAnswer]]⟩),
      .runtime (.dequeue .silent), .send (.followUp helloMessage),
      .runtime (.receive (.followUp helloMessage) ⟨[], [.streaming [.done helloAnswer]]⟩)] :=
  delivers_throughout (by decide +kernel)

/-- A `Reset` that waits for the end of a run removes a steering message sent behind it, which the
run has taken in meanwhile. -/
theorem lateReset_loses : ¬ KeepsSent (Runs.run (AgentSystem.step .plain) (.start [])
    [.send (.prompt [helloMessage]), .send .reset, .send (.steer (.user ⟨[.text "second"], 0⟩)),
      .runtime (.receive (.prompt [helloMessage])
        ⟨[[.reset, .steer (.user ⟨[.text "second"], 0⟩)]],
          [.streaming [.done helloAnswer], .streaming [.done helloAnswer]]⟩),
      .runtime (.dequeue .silent)]) := by
  intro h
  exact absurd (h (.user ⟨[.text "second"], 0⟩) (by decide +kernel)) (by decide +kernel)

end AgentSystem

end Guigu
