import Guigu.Core.AgentRuns

/-! The order in which an agent takes up the commands that reach it. -/
namespace Guigu

def processing? : Effect → Option AgentCommand
  | .processing cmd => some cmd
  | _ => none

/-- The commands taken up between runs. -/
def processedOf (effects : List Effect) : List AgentCommand := effects.filterMap processing?

/-- The message of a command that is taken up, between runs or in a run. -/
def said? (kind : AgentCommand → Option Message) : Effect → Option Message
  | .processing cmd | .taken cmd => kind cmd
  | _ => none

/-- The messages of one kind of command, in the order they enter the transcript. -/
def saidOf (kind : AgentCommand → Option Message) (effects : List Effect) : List Message :=
  effects.filterMap (said? kind)

/-- Commands are taken up in the order they were sent, and so are steering messages and follow-ups
among themselves. -/
structure AgentSystem.InOrder (s : AgentSystem) : Prop where
  processed : (processedOf s.agent.ctx.trace).Sublist s.sent
  steers : (saidOf AgentCommand.steer? s.agent.ctx.trace).Sublist (steers s.sent)
  followUps : (saidOf AgentCommand.followUp? s.agent.ctx.trace).Sublist (followUps s.sent)

/-- A drain puts the commands into this order. -/
def AgentCommand.rank : AgentCommand → ℕ
  | .steer _ => 1
  | .followUp _ => 2
  | _ => 0

def inRankOrder (cmds : List AgentCommand) : Bool :=
  decide (cmds.Pairwise fun a b => a.rank ≤ b.rank)

/-- The end of the turn does not overtake: newer messages of a kind do not come upon older ones,
and what is put back does not fall behind what stays. -/
def keepsOrder (calls : Bool) (queue arrived : List AgentCommand) : Bool :=
  arrived.any AgentCommand.cuts ||
    if calls then inRankOrder (counted arrived)
    else ((steers arrived).isEmpty || (steers queue).isEmpty) &&
      ((followUps arrived).isEmpty || (followUps queue).isEmpty) &&
      ((steers (queue ++ arrived)).isEmpty ||
        inRankOrder ((queue ++ counted arrived).filter fun cmd => cmd.steer?.isNone))

/-- What a drain puts back comes in the order of a drain, and no end of a turn overtakes. -/
def Demand.orders : Demand where
  takes _ _ := true
  start initial arrivals := (initialDrains initial arrivals).all fun arrived =>
    inRankOrder (counted arrived)
  turn rt s env :=
    ((env.drains rt.loopConfig s.ctx.tokens).all fun arrived => inRankOrder (counted arrived)) &&
      (env.aborts rt s || keepsOrder (env.callsTools rt s) (env.waiting rt s) env.arrived)

@[simp] theorem processedOf_append (es fs : List Effect) :
    processedOf (es ++ fs) = processedOf es ++ processedOf fs := List.filterMap_append

@[simp] theorem saidOf_append (kind : AgentCommand → Option Message) (es fs : List Effect) :
    saidOf kind (es ++ fs) = saidOf kind es ++ saidOf kind fs := List.filterMap_append

theorem processedOf_booked (effects : List Effect) :
    processedOf (booked effects) = processedOf effects := by
  apply filterMap_booked
  intro e he
  unfold processing?
  split
  · cases he
  · rfl

theorem saidOf_booked (kind : AgentCommand → Option Message) (effects : List Effect) :
    saidOf kind (booked effects) = saidOf kind effects := by
  apply filterMap_booked
  intro e he
  unfold said?
  split
  · cases he
  · cases he
  · rfl

@[simp] theorem processedOf_drained (cmds : List AgentCommand) :
    processedOf (cmds.map .drained) = [] := by
  induction cmds with
  | nil => rfl
  | cons cmd cmds ih => exact ih

@[simp] theorem processedOf_taken (cmds : List AgentCommand) :
    processedOf (cmds.map .taken) = [] := by
  induction cmds with
  | nil => rfl
  | cons cmd cmds ih => exact ih

@[simp] theorem saidOf_drained (kind : AgentCommand → Option Message) (cmds : List AgentCommand) :
    saidOf kind (cmds.map .drained) = [] := by
  induction cmds with
  | nil => rfl
  | cons cmd cmds ih => exact ih

@[simp] theorem saidOf_taken (kind : AgentCommand → Option Message) (cmds : List AgentCommand) :
    saidOf kind (cmds.map .taken) = cmds.filterMap kind := by
  unfold saidOf
  rw [List.filterMap_map]
  rfl

/-- The first messages of a run take up nothing new. -/
theorem initialEffects_order (initial : List Message) (arrivals : List (List AgentCommand)) :
    processedOf (initialEffects initial arrivals) = [] ∧
      ∀ kind, saidOf kind (initialEffects initial arrivals) = [] := by
  induction initial generalizing arrivals with
  | nil => exact ⟨rfl, fun _ => rfl⟩
  | cons m ms ih =>
    have hsaid : processedOf (.initial m :: said [m]) = [] ∧
        ∀ kind, saidOf kind (.initial m :: said [m]) = [] := ⟨rfl, fun _ => rfl⟩
    unfold initialEffects
    rw [← List.cons_append]
    constructor
    · rw [processedOf_append, processedOf_append, hsaid.1, processedOf_drained]
      split_ifs
      · rfl
      · exact (ih arrivals.tail).1
    · intro kind
      rw [saidOf_append, saidOf_append, hsaid.2, saidOf_drained]
      split_ifs
      · rfl
      · exact (ih arrivals.tail).2 kind

theorem AgentCommand.isPending_of_rank {cmd : AgentCommand} (h : 1 ≤ cmd.rank) :
    cmd.isPending = true := by
  cases cmd with
  | steer m => rfl
  | followUp m => rfl
  | prompt | continue_ | abort | reset | shutdown => exact absurd h (Nat.not_succ_le_zero 0)

theorem AgentCommand.steer?_of_rank {cmd : AgentCommand} (h : 2 ≤ cmd.rank) :
    cmd.steer? = none := by
  cases cmd with
  | steer m => exact absurd h (Nat.not_succ_le_self 1)
  | prompt | continue_ | followUp | abort | reset | shutdown => rfl

/-- In the order of a drain, commands by kind are the commands. -/
theorem byKind_of_rank {cmds : List AgentCommand}
    (h : cmds.Pairwise fun a b => a.rank ≤ b.rank) :
    (cmds.filter fun cmd => !cmd.isPending) ++
      ((steers cmds).map AgentCommand.steer ++ (followUps cmds).map AgentCommand.followUp) =
      cmds := by
  induction cmds with
  | nil => rfl
  | cons cmd cmds ih =>
    obtain ⟨hhead, hrest⟩ := List.pairwise_cons.mp h
    have htail := ih hrest
    cases cmd with
    | steer m =>
      have hnone : (cmds.filter fun cmd => !cmd.isPending) = [] := by
        apply List.filter_eq_nil_iff.mpr
        intro cmd hcmd
        rw [AgentCommand.isPending_of_rank (hhead cmd hcmd)]
        exact Bool.false_ne_true
      rw [hnone, List.nil_append] at htail
      show (cmds.filter fun cmd => !cmd.isPending) ++ (.steer m :: ((steers cmds).map .steer ++
        (followUps cmds).map .followUp)) = _
      rw [hnone, List.nil_append, htail]
    | followUp m =>
      have hlast : ∀ cmd ∈ cmds, cmd.isPending = true ∧ cmd.steer? = none := by
        intro cmd hcmd
        have hrank : 2 ≤ cmd.rank := hhead cmd hcmd
        exact ⟨AgentCommand.isPending_of_rank (Nat.le_of_succ_le hrank),
          AgentCommand.steer?_of_rank hrank⟩
      have hnone : (cmds.filter fun cmd => !cmd.isPending) = [] := by
        apply List.filter_eq_nil_iff.mpr
        intro cmd hcmd
        rw [(hlast cmd hcmd).1]
        exact Bool.false_ne_true
      have hsteers : steers cmds = [] :=
        List.filterMap_eq_nil_iff.mpr fun cmd hcmd => (hlast cmd hcmd).2
      rw [hnone, hsteers] at htail
      show (cmds.filter fun cmd => !cmd.isPending) ++ ((steers cmds).map .steer ++
        (.followUp m :: (followUps cmds).map .followUp)) = _
      rw [hnone, hsteers]
      exact congrArg (AgentCommand.followUp m :: ·) htail
    | prompt | continue_ | abort | reset | shutdown => exact congrArg (_ :: ·) htail

theorem requeued_of_rank {arrived : List AgentCommand}
    (h : inRankOrder (counted arrived) = true) : requeued arrived = counted arrived := by
  have hkinds := byKind_of_rank (of_decide_eq_true h)
  rw [filter_counted, steers_counted, followUps_counted] at hkinds
  unfold requeued
  rw [List.append_assoc]
  exact hkinds

theorem flatMap_requeued_of_rank {drains : List (List AgentCommand)}
    (h : (drains.all fun arrived => inRankOrder (counted arrived)) = true) :
    drains.flatMap requeued = counted drains.flatten := by
  induction drains with
  | nil => rfl
  | cons arrived drains ih =>
    rw [List.all_cons, Bool.and_eq_true] at h
    rw [List.flatMap_cons, List.flatten_cons, counted_append, requeued_of_rank h.1, ih h.2]

/-- What waits moves on: the taken ones in front, those that are drained behind. -/
theorem sublist_advance {α : Type} {past waiting sent taken waiting' drained : List α}
    (h : (past ++ waiting).Sublist sent)
    (h' : (taken ++ waiting').Sublist (waiting ++ drained)) :
    (past ++ taken ++ waiting').Sublist (sent ++ drained) := by
  rw [List.append_assoc]
  refine (h'.append_left past).trans ?_
  rw [← List.append_assoc]
  exact h.append_right drained

@[simp] theorem steers_append (as bs : List AgentCommand) :
    steers (as ++ bs) = steers as ++ steers bs := List.filterMap_append

@[simp] theorem followUps_append (as bs : List AgentCommand) :
    followUps (as ++ bs) = followUps as ++ followUps bs := List.filterMap_append

@[simp] theorem steers_steer (ms : List Message) : steers (ms.map .steer) = ms := by
  induction ms with
  | nil => rfl
  | cons m ms ih => exact congrArg (m :: ·) ih

@[simp] theorem steers_followUp (ms : List Message) : steers (ms.map .followUp) = [] := by
  induction ms with
  | nil => rfl
  | cons m ms ih => exact ih

@[simp] theorem followUps_followUp (ms : List Message) : followUps (ms.map .followUp) = ms := by
  induction ms with
  | nil => rfl
  | cons m ms ih => exact congrArg (m :: ·) ih

@[simp] theorem followUps_steer (ms : List Message) : followUps (ms.map .steer) = [] := by
  induction ms with
  | nil => rfl
  | cons m ms ih => exact ih

/-- What waits on behind a boundary is of neither kind. -/
theorem pending_boundaryRest (queue arrived : List AgentCommand) :
    steers (boundaryRest queue arrived) = [] ∧ followUps (boundaryRest queue arrived) = [] := by
  apply steers_of_all
  rw [List.all_eq_true]
  intro cmd hcmd
  exact (List.mem_filter.mp hcmd).2

theorem pending_requeued (arrived : List AgentCommand) :
    steers (requeued arrived) = steers arrived ∧
      followUps (requeued arrived) = followUps arrived := by
  obtain ⟨hs, hf⟩ := pending_isDeferred arrived
  unfold requeued
  simp [hs, hf]

theorem pending_flatMap_requeued (drains : List (List AgentCommand)) :
    steers (drains.flatMap requeued) = steers drains.flatten ∧
      followUps (drains.flatMap requeued) = followUps drains.flatten := by
  induction drains with
  | nil => exact ⟨rfl, rfl⟩
  | cons arrived drains ih =>
    obtain ⟨hs, hf⟩ := pending_requeued arrived
    rw [List.flatMap_cons, List.flatten_cons, steers_append, steers_append, followUps_append,
      followUps_append, hs, hf, ih.1, ih.2]
    exact ⟨rfl, rfl⟩

theorem drainedQueue_sublist (queue arrived : List AgentCommand) :
    (drainedQueue queue arrived).Sublist (queue ++ arrived) :=
  List.filter_sublist.append_left queue

theorem boundaryRest_sublist (queue arrived : List AgentCommand) :
    (boundaryRest queue arrived).Sublist (queue ++ arrived) :=
  List.filter_sublist.trans (drainedQueue_sublist queue arrived)

/-- One of two lists is empty, so their order does not matter. -/
theorem append_comm_of_isEmpty {α : Type} {as bs : List α}
    (h : (as.isEmpty || bs.isEmpty) = true) : as ++ bs = bs ++ as := by
  rw [Bool.or_eq_true, List.isEmpty_iff, List.isEmpty_iff] at h
  rcases h with rfl | rfl
  · rw [List.append_nil, List.nil_append]
  · rw [List.append_nil, List.nil_append]

/-- The end of a turn that takes steering messages in puts follow-ups back behind what stays. -/
theorem putBack_sublist {queue arrived : List AgentCommand}
    (hfollow : ((followUps arrived).isEmpty || (followUps queue).isEmpty) = true)
    (hrank : inRankOrder ((queue ++ counted arrived).filter fun cmd => cmd.steer?.isNone) = true) :
    (boundaryRest queue arrived ++
      (boundaryFollowUps queue arrived).map AgentCommand.followUp).Sublist (queue ++ arrived) := by
  have hkinds := byKind_of_rank (of_decide_eq_true hrank)
  have hrest : ((queue ++ counted arrived).filter fun cmd => cmd.steer?.isNone).filter
      (fun cmd => !cmd.isPending) = boundaryRest queue arrived := by
    have hsame : ∀ cmds : List AgentCommand, (cmds.filter fun cmd => cmd.steer?.isNone).filter
        (fun cmd => !cmd.isPending) = cmds.filter fun cmd => !cmd.isPending := by
      intro cmds
      rw [List.filter_filter]
      apply List.filter_congr
      intro cmd _
      cases cmd <;> rfl
    have hdeferred : (arrived.filter AgentCommand.isDeferred).filter (fun cmd => !cmd.isPending) =
        arrived.filter AgentCommand.isDeferred := by
      rw [List.filter_filter]
      apply List.filter_congr
      intro cmd _
      cases cmd <;> rfl
    rw [hsame, boundaryRest, drainedQueue, List.filter_append, List.filter_append, filter_counted,
      hdeferred]
  have hpending : steers ((queue ++ counted arrived).filter fun cmd => cmd.steer?.isNone) = [] ∧
      followUps ((queue ++ counted arrived).filter fun cmd => cmd.steer?.isNone) =
        boundaryFollowUps queue arrived := by
    constructor
    · apply List.filterMap_eq_nil_iff.mpr
      intro cmd hcmd
      exact Option.isNone_iff_eq_none.mp (List.mem_filter.mp hcmd).2
    · rw [boundaryFollowUps_eq, append_comm_of_isEmpty hfollow, ← followUps_counted arrived,
        ← followUps_append, followUps, followUps, List.filterMap_filter]
      apply List.filterMap_congr
      intro cmd _
      cases cmd <;> rfl
  rw [hrest, hpending.1, hpending.2, List.map_nil, List.nil_append] at hkinds
  rw [hkinds]
  exact List.filter_sublist.trans (List.filter_sublist.append_left queue)

/-- No end of a turn that keeps the order lets a waiting command overtake another. -/
theorem Boundary.queue_sublist {queue arrived drained taken queue' : List AgentCommand}
    {calls : Bool} {consumed : ℕ} (h : Boundary queue arrived calls drained taken queue' consumed)
    (horder : keepsOrder calls queue arrived = true) : queue'.Sublist (queue ++ drained) := by
  unfold keepsOrder at horder
  cases h with
  | skipped =>
    rw [List.append_nil]
  | cut => exact boundaryRest_sublist queue arrived
  | steered hcut hsteer =>
    simp only [hcut, Bool.false_or, Bool.false_eq_true, ↓reduceIte, Bool.and_eq_true] at horder
    have hsome : (steers (queue ++ arrived)).isEmpty = false := by
      rw [Bool.eq_false_iff, Ne, List.isEmpty_iff, steers_append, List.append_eq_nil_iff]
      rintro ⟨hqueue, harrived⟩
      rw [boundarySteers_eq, hqueue, harrived] at hsteer
      exact hsteer rfl
    rw [hsome, Bool.false_or] at horder
    exact putBack_sublist horder.1.2 horder.2
  | followed => exact boundaryRest_sublist queue arrived
  | toolCut => exact drainedQueue_sublist queue arrived
  | toolDone hcut =>
    simp only [hcut, Bool.false_or, ↓reduceIte] at horder
    rw [requeued_of_rank horder]
    exact List.filter_sublist.append_left queue

/-- Nor a message of one kind another. -/
theorem Boundary.kind_sublist {queue arrived drained taken queue' : List AgentCommand}
    {calls : Bool} {consumed : ℕ} (h : Boundary queue arrived calls drained taken queue' consumed)
    (horder : keepsOrder calls queue arrived = true) :
    (steers taken ++ steers queue').Sublist (steers queue ++ steers drained) ∧
      (followUps taken ++ followUps queue').Sublist (followUps queue ++ followUps drained) := by
  unfold keepsOrder at horder
  obtain ⟨hrest, hrest'⟩ := pending_boundaryRest queue arrived
  cases h with
  | skipped =>
    simp only [steers, followUps, List.filterMap_nil, List.nil_append, List.append_nil]
    exact ⟨.refl _, .refl _⟩
  | cut =>
    rw [hrest, hrest']
    exact ⟨List.nil_sublist _, List.nil_sublist _⟩
  | steered hcut =>
    simp only [hcut, Bool.false_or, Bool.false_eq_true, ↓reduceIte, Bool.and_eq_true] at horder
    simp only [steers_append, followUps_append, hrest, hrest', steers_steer, steers_followUp,
      followUps_steer, followUps_followUp, boundarySteers_eq, boundaryFollowUps_eq,
      List.append_nil, List.nil_append]
    rw [append_comm_of_isEmpty horder.1.1, append_comm_of_isEmpty horder.1.2]
    exact ⟨.refl _, .refl _⟩
  | followed hcut =>
    simp only [hcut, Bool.false_or, Bool.false_eq_true, ↓reduceIte, Bool.and_eq_true] at horder
    simp only [hrest, hrest', steers_followUp, followUps_followUp, boundaryFollowUps_eq,
      List.append_nil]
    rw [append_comm_of_isEmpty horder.1.2]
    exact ⟨List.nil_sublist _, .refl _⟩
  | toolCut =>
    obtain ⟨hs, hf⟩ := pending_isDeferred arrived
    unfold drainedQueue
    rw [steers_append, followUps_append, hs, hf, List.append_nil, List.append_nil]
    exact ⟨List.sublist_append_left _ _, List.sublist_append_left _ _⟩
  | toolDone =>
    obtain ⟨hs, hf⟩ := pending_requeued arrived
    rw [steers_append, followUps_append, hs, hf]
    exact ⟨.refl _, .refl _⟩

/-- What has been taken up, and behind it what waits, comes in the order of the drains. -/
structure Ordered (ctx : RunContext) : Prop where
  processed : (processedOf ctx.trace ++ ctx.queue).Sublist (drainedOf ctx.trace)
  steers : (saidOf AgentCommand.steer? ctx.trace ++ steers ctx.queue).Sublist
    (steers (drainedOf ctx.trace))
  followUps : (saidOf AgentCommand.followUp? ctx.trace ++ followUps ctx.queue).Sublist
    (followUps (drainedOf ctx.trace))

namespace Ordered

theorem advance {ctx ctx' : RunContext} {effects : List Effect} (h : Ordered ctx)
    (hbooked : booked ctx'.trace = booked ctx.trace ++ effects)
    (hqueue : (processedOf effects ++ ctx'.queue).Sublist (ctx.queue ++ drainedOf effects))
    (hsteers : (saidOf AgentCommand.steer? effects ++ Guigu.steers ctx'.queue).Sublist
      (Guigu.steers ctx.queue ++ Guigu.steers (drainedOf effects)))
    (hfollowUps : (saidOf AgentCommand.followUp? effects ++ Guigu.followUps ctx'.queue).Sublist
      (Guigu.followUps ctx.queue ++ Guigu.followUps (drainedOf effects))) : Ordered ctx' := by
  have hdrained := drainedOf_of_booked hbooked
  have hprocessed : processedOf ctx'.trace = processedOf ctx.trace ++ processedOf effects := by
    rw [← processedOf_booked, hbooked, processedOf_append, processedOf_booked]
  have hsaid : ∀ kind, saidOf kind ctx'.trace = saidOf kind ctx.trace ++ saidOf kind effects := by
    intro kind
    rw [← saidOf_booked, hbooked, saidOf_append, saidOf_booked]
  constructor
  · rw [hprocessed, hdrained]
    exact sublist_advance h.processed hqueue
  · rw [hsaid, hdrained, steers_append]
    exact sublist_advance h.steers hsteers
  · rw [hsaid, hdrained, followUps_append]
    exact sublist_advance h.followUps hfollowUps

/-- A command that is taken up is the next one. -/
theorem of_next {ctx ctx' : RunContext} {cmd : AgentCommand} (h : Ordered ctx)
    (hnext : Next ctx cmd ctx') : Ordered (ctx'.record [.processing cmd]) := by
  have hkind : ∀ (kind : AgentCommand → Option Message) (cmds : List AgentCommand),
      saidOf kind [.processing cmd] ++ cmds.filterMap kind = (cmd :: cmds).filterMap kind := by
    intro kind cmds
    show [cmd].filterMap kind ++ cmds.filterMap kind = _
    rw [← List.filterMap_append]
    rfl
  cases hnext with
  | dequeued hqueue =>
    have hbooked : booked (ctx.trace ++ [.processing cmd]) =
        booked ctx.trace ++ [.processing cmd] := booked_append _ _
    refine h.advance hbooked ?_ ?_ ?_
    · rw [hqueue]
      exact List.sublist_append_left _ _
    · rw [hqueue]
      exact (hkind AgentCommand.steer? _).symm ▸ List.sublist_append_left _ _
    · rw [hqueue]
      exact (hkind AgentCommand.followUp? _).symm ▸ List.sublist_append_left _ _
  | received hqueue =>
    have hbooked : booked (ctx.trace ++ [.drained cmd] ++ [.processing cmd]) =
        booked ctx.trace ++ [.drained cmd, .processing cmd] := by
      rw [List.append_assoc]
      exact booked_append _ _
    refine h.advance hbooked ?_ ?_ ?_
    · show ([cmd] ++ ctx.queue).Sublist (ctx.queue ++ [cmd])
      rw [hqueue]
      exact .refl _
    · show ([cmd].filterMap AgentCommand.steer? ++ Guigu.steers ctx.queue).Sublist
        (Guigu.steers ctx.queue ++ Guigu.steers [cmd])
      rw [hqueue]
      exact (List.append_nil _).symm ▸ .refl _
    · show ([cmd].filterMap AgentCommand.followUp? ++ Guigu.followUps ctx.queue).Sublist
        (Guigu.followUps ctx.queue ++ Guigu.followUps [cmd])
      rw [hqueue]
      exact (List.append_nil _).symm ▸ .refl _

/-- Drains that put back in the order in which they found keep the order. -/
theorem of_drains {ctx ctx' : RunContext} {drains : List (List AgentCommand)}
    {effects : List Effect} (h : Ordered ctx)
    (hbooked : booked ctx'.trace = booked ctx.trace ++ effects)
    (hqueue : ctx'.queue = ctx.queue ++ drains.flatMap requeued)
    (hdrained : drainedOf effects = drains.flatten) (hprocessed : processedOf effects = [])
    (hsaid : ∀ kind, saidOf kind effects = [])
    (hrank : (drains.all fun arrived => inRankOrder (counted arrived)) = true) : Ordered ctx' := by
  obtain ⟨hs, hf⟩ := pending_flatMap_requeued drains
  refine h.advance hbooked ?_ ?_ ?_
  · rw [hprocessed, List.nil_append, hqueue, hdrained, flatMap_requeued_of_rank hrank]
    exact List.filter_sublist.append_left ctx.queue
  · rw [hsaid, List.nil_append, hqueue, hdrained, steers_append, hs]
  · rw [hsaid, List.nil_append, hqueue, hdrained, followUps_append, hf]

end Ordered

theorem orders_keeps (rt : AgentRuntime) : Demand.orders.Keeps rt fun ctx _ => Ordered ctx where
  start := by
    intro ctx ctx' cmd initial n arrivals h hnext hinitial htakes hstart
    obtain ⟨hqueue, hbooked, -⟩ := startLoop_books (ctx'.record [.processing cmd]) initial arrivals
    obtain ⟨hprocessed, hsaid⟩ := initialEffects_order initial arrivals
    refine (h.of_next hnext).of_drains hbooked hqueue ?_ ?_ ?_ hstart
    · rw [drainedOf_booked, drainedOf_initialEffects]
    · rw [processedOf_booked, hprocessed]
    · intro kind
      rw [saidOf_booked, hsaid]
  turn := by
    intro s env n h hturn
    simp only [Demand.orders, Bool.and_eq_true] at hturn
    obtain ⟨hdrains, hbound⟩ := hturn
    cases (turnStep_books env : TurnBooks rt env s (turnStep rt s env)) with
    | kept hqueue hconsumed hbooked =>
      have hsame : booked (turnStep rt s env).ctx.trace = booked s.ctx.trace ++ [] := by
        rw [hbooked, List.append_nil]
      refine h.advance hsame ?_ ?_ ?_
      · rw [hqueue]
        exact List.sublist_append_left _ _
      · rw [hqueue]
        exact List.sublist_append_left _ _
      · rw [hqueue]
        exact List.sublist_append_left _ _
    | cut habort hqueue hconsumed hbooked =>
      exact h.of_drains hbooked hqueue (drainedOf_drained _) (processedOf_drained _)
        (fun kind => saidOf_drained kind _) hdrains
    | moved habort hbound' hconsumed hbooked =>
      rw [habort, Bool.false_or] at hbound
      have hqueue := hbound'.queue_sublist hbound
      obtain ⟨hsteers, hfollowUps⟩ := hbound'.kind_sublist hbound
      obtain ⟨hs, hf⟩ := pending_flatMap_requeued (env.drains rt.loopConfig s.ctx.tokens)
      unfold TurnEnv.waiting at hqueue hsteers hfollowUps
      rw [flatMap_requeued_of_rank hdrains, List.append_assoc] at hqueue
      rw [steers_append, hs, List.append_assoc] at hsteers
      rw [followUps_append, hf, List.append_assoc] at hfollowUps
      refine h.advance hbooked ?_ ?_ ?_
      · simp only [processedOf_append, processedOf_drained, processedOf_taken, drainedOf_append,
          drainedOf_drained, drainedOf_taken, List.append_nil, List.nil_append]
        exact hqueue.trans ((List.filter_sublist.append_right _).append_left _)
      · simp only [saidOf_append, saidOf_drained, saidOf_taken, drainedOf_append,
          drainedOf_drained, drainedOf_taken, List.append_nil, List.nil_append, steers_append]
        exact hsteers
      · simp only [saidOf_append, saidOf_drained, saidOf_taken, drainedOf_append,
          drainedOf_drained, drainedOf_taken, List.append_nil, List.nil_append, followUps_append]
        exact hfollowUps
  close := by
    intro ctx n h
    have hbooked : booked (ctx.send (.agentEnd ctx.transcript)).trace = booked ctx.trace ++ [] :=
      booked_append _ _
    refine h.advance hbooked ?_ ?_ ?_
    · exact List.sublist_append_left _ _
    · exact List.sublist_append_left _ _
    · exact List.sublist_append_left _ _
  reset := by
    intro ctx ctx' n h hnext htakes
    obtain ⟨hprocessed, hsteers, hfollowUps⟩ := h.of_next hnext
    constructor
    · exact ((List.nil_sublist _).append_left _).trans hprocessed
    · exact ((List.nil_sublist _).append_left _).trans hsteers
    · exact ((List.nil_sublist _).append_left _).trans hfollowUps
  skip := by
    intro ctx ctx' cmd n h hnext hcuts htakes
    exact h.of_next hnext

namespace AgentSystem

/-- Commands are taken up in the order they were sent where every drain finds them in the order of
a drain and no end of a turn overtakes. -/
theorem inOrder_throughout {rt : AgentRuntime} {transcript : List Message}
    {as : List SystemAction}
    (h : Runs.Along (AgentSystem.step rt) (Demand.orders.MetBySystem rt) (.start transcript) as) :
    Runs.Throughout (AgentSystem.step rt) InOrder (.start transcript) as := by
  refine (orders_keeps rt).throughout ?_ ?_ h
  · exact ⟨.slnil, .slnil, .slnil⟩
  · intro s hordered hsent
    constructor
    · exact (List.sublist_append_left _ _).trans (hordered.processed.trans hsent.sublist)
    · exact (List.sublist_append_left _ _).trans
        (hordered.steers.trans (hsent.sublist.filterMap _))
    · exact (List.sublist_append_left _ _).trans
        (hordered.followUps.trans (hsent.sublist.filterMap _))

/-- A steering message that waits behind a reset, in the order of a drain. -/
theorem inOrder_waitingSteer : Runs.Throughout (AgentSystem.step .plain) InOrder (.start [])
    [.send (.prompt [helloMessage]), .send .reset, .send (.steer helloMessage),
      .runtime (.receive (.prompt [helloMessage]) ⟨[[.reset, .steer helloMessage]],
        [.streaming [.done helloAnswer]]⟩),
      .runtime (.dequeue .silent)] :=
  inOrder_throughout (by decide +kernel)

/-- A newer steering message, from the channel, is said before an older one, from the queue. -/
theorem newerSteer_first : ¬ InOrder (Runs.run (AgentSystem.step .plain) (.start [])
    [.send (.prompt [helloMessage]), .send (.steer (.user ⟨[.text "first"], 0⟩)),
      .send (.steer (.user ⟨[.text "second"], 0⟩)),
      .runtime (.receive (.prompt [helloMessage]) ⟨[[.steer (.user ⟨[.text "first"], 0⟩)]],
        [{ TurnEnv.streaming [.done helloAnswer] with
            arrived := [.steer (.user ⟨[.text "second"], 0⟩)] },
          .streaming [.done helloAnswer]]⟩)]) := by
  intro h
  exact absurd h.steers (by decide +kernel)

end AgentSystem

end Guigu
