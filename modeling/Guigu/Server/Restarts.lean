import Guigu.Server.LaneStarts

/-! Lanes that start in a new process where they were. -/
namespace Guigu

open Runs

namespace ServedSession

variable {s : ServedSession}

/-- What a session with its heads on record keeps true of them. -/
structure Recorded (s : ServedSession) : Prop where
  committed : ∀ laneId ∈ s.server.storage.headCommitted,
    laneId ∈ s.server.runtimes.map (·.writer.laneId) ∧ s.server.onRecord laneId ≠ none
  tasks : ∀ t ∈ s.server.tasks, s.server.Prepares t
  placed : ∀ (lane : ℕ) (r : LaneRuntime), s.server.runtimes[lane]? = some r →
    s.server.Placed lane r
  follows : ∀ (lane : ℕ) (r : LaneRuntime) (agent : LaneAgent),
    s.server.runtimes[lane]? = some r → s.agents[lane]? = some agent →
      ∃ path, PathOf s.server.log r.writer.head path ∧
        agent.state.ctx.Follows path agent.received

structure Mirrored (s : ServedSession) : Prop where
  sound : s.server.Sound
  legible : ∀ r ∈ s.server.storage.records, r.Legible
  listed : s.server.Listed
  agents : s.agents.length = s.server.runtimes.length
  recorded : s.server.session = true → s.server.storage.headStore = true → s.Recorded

theorem serve_same (h : s.agents.length = s.server.runtimes.length) {a : LaneAction}
    {s' : LaneServer} (hs : s.server.callOver s.file a = s')
    (hruntimes : s'.runtimes = s.server.runtimes)
    (runtime : AgentRuntime) : s.serve a runtime = ⟨s', s.agents⟩ := by
  unfold serve
  have hdrop : s.server.runtimes.drop s.agents.length = [] := by rw [h, List.drop_length]
  simp only [hs, hruntimes, hdrop, List.map_nil, List.append_nil]
  rw [← h, List.take_length]

theorem serve_new (h : s.agents.length = s.server.runtimes.length) {a : LaneAction}
    {s' : LaneServer} {r : LaneRuntime} (hs : s.server.callOver s.file a = s')
    (hruntimes : s'.runtimes = s.server.runtimes ++ [r]) (runtime : AgentRuntime) :
    s.serve a runtime = ⟨s', s.agents ++ [⟨runtime, .start r.transcript, 0⟩]⟩ := by
  unfold serve
  have hdrop : (s.server.runtimes ++ [r]).drop s.agents.length = [r] := by
    rw [h, List.drop_left]
  simp only [hs, hruntimes, hdrop, List.map_cons, List.map_nil]
  rw [List.take_of_length_le]
  simp only [List.length_append, h, List.length_singleton, le_refl]

/-- A round that meets the demand keeps the transcript of its lane behind the path. -/
theorem Mirrored.round (h : s.Mirrored) {lane : ℕ} {a : AgentAction}
    (ha : s.Mirrors (.round lane a)) : (s.step (.round lane a)).Mirrored := by
  cases hagent : s.agents[lane]? with
  | none =>
    have hs : s.step (.round lane a) = s := by simp only [step, hagent]
    rw [hs]
    exact h
  | some agent =>
    have hs : s.step (.round lane a) = { s with
        agents := s.agents.set lane
          { agent with state := agent.state.step agent.runtime a } } := by
      simp only [step, hagent]
    rw [hs]
    refine ⟨h.sound, h.legible, h.listed, ?_, fun hsession hstore => ?_⟩
    · show (s.agents.set lane _).length = _
      rw [List.length_set]
      exact h.agents
    · have hold := h.recorded hsession hstore
      refine ⟨hold.committed, hold.tasks, hold.placed, ?_⟩
      intro other r q hr hq
      by_cases hother : lane = other
      · subst hother
        have hlane : lane < s.agents.length := (List.getElem?_eq_some_iff.mp hagent).1
        rw [List.getElem?_set_self hlane] at hq
        cases hq
        obtain ⟨path, hpath, hfollows⟩ := hold.follows lane r agent hr hagent
        refine ⟨path, hpath, ?_⟩
        exact (growing_keeps agent.runtime path agent.received).step hfollows
          (ha hstore agent hagent)
      · rw [List.getElem?_set_ne hother] at hq
        exact hold.follows other r q hr hq

/-- A new process has no lanes. -/
theorem Mirrored.restart (h : s.Mirrored) : Mirrored ⟨s.server.restart, []⟩ := by
  refine ⟨h.sound.restart, h.legible, ⟨fun _ => ⟨rfl, rfl⟩, rfl, List.nodup_nil⟩, rfl, ?_⟩
  intro hsession
  cases hsession

/-- A call in a session that is there. -/
theorem Recorded.read (h : s.Recorded) {storage : SharedSessionStorage} {session : Bool}
    {tasks : List LaneTask} (hrecords : storage.records = s.server.storage.records)
    (hcommitted : storage.headCommitted = s.server.storage.headCommitted)
    (hstarted : ∀ t ∈ tasks, s.server.Prepares t ∧ t.generation? = none) :
    Recorded ⟨{ s.server with
      storage := storage, session := session, tasks := s.server.tasks ++ tasks }, s.agents⟩ := by
  have hlog : entriesOf storage.records = s.server.log := congrArg entriesOf hrecords
  have hrecord : laneHeads storage.records = s.server.onRecord := congrArg laneHeads hrecords
  refine ⟨?_, ?_, ?_, ?_⟩
  · intro laneId hmem
    have hmem' : laneId ∈ storage.headCommitted := hmem
    rw [hcommitted] at hmem'
    show _ ∧ laneHeads storage.records laneId ≠ none
    rw [hrecord]
    exact h.committed laneId hmem'
  · intro t ht
    have hprepares : s.server.Prepares t := by
      rcases List.mem_append.mp ht with ht | ht
      · exact h.tasks t ht
      · exact (hstarted t ht).1
    refine hprepares.mono [] ?_ ?_
    · rw [List.append_nil]
      exact hlog
    · rintro laneId generation ⟨r, hr, hid, hfirst⟩
      exact ⟨r, hr, hid, fun hno => hfirst (hcommitted ▸ hno)⟩
  · intro lane r hr
    refine (h.placed lane r hr).congr ?_ ?_ (congrFun hrecord _) hlog
    · rintro ⟨t, ht, hgen⟩
      exact ⟨t, List.mem_append_left _ ht, hgen⟩
    · intro hno hmem
      exact hno (hcommitted ▸ hmem)
  · intro lane r agent hr hagent
    show ∃ path, PathOf (entriesOf storage.records) _ path ∧ _
    rw [hlog]
    exact h.follows lane r agent hr hagent

/-- A session that is opened has no lanes yet. -/
theorem Recorded.opened {server : LaneServer} (hruntimes : server.runtimes = [])
    (hcommitted : server.storage.headCommitted = [])
    (htasks : ∀ t ∈ server.tasks, server.Prepares t)
    (agents : List LaneAgent) : Recorded ⟨server, agents⟩ := by
  refine ⟨?_, htasks, ?_, ?_⟩
  · intro laneId hmem
    have hmem' : laneId ∈ server.storage.headCommitted := hmem
    rw [hcommitted] at hmem'
    cases hmem'
  · intro lane r hr
    have hr' : server.runtimes[lane]? = some r := hr
    rw [hruntimes] at hr'
    cases hr'
  · intro lane r agent hr
    have hr' : server.runtimes[lane]? = some r := hr
    rw [hruntimes] at hr'
    cases hr'

/-- A call of a client starts lanes at most. -/
theorem Mirrored.call (h : s.Mirrored) {a : LaneAction} {s' : LaneServer}
    (hcall : s.server.CallStep a s') (hserves : s.server.Serves s') :
    Mirrored ⟨s', s.agents⟩ ∧ s'.runtimes = s.server.runtimes := by
  rcases hserves with rfl | ⟨hsession', hnew⟩
  · exact ⟨h, rfl⟩
  have hsound := h.sound.step_call hcall
  cases hcall with
  | restarted => cases hsession'
  | @read storage session tasks hreads htasks =>
    have hstarted : ∀ t ∈ tasks, s.server.Prepares t ∧ t.generation? = none :=
      fun t ht => (htasks t ht).prepares h.sound
    have hlegible : ∀ r ∈ storage.records, r.Legible := by
      rw [hreads.records]
      exact h.legible
    refine ⟨⟨hsound, hlegible, ⟨?_, h.listed.lanes, h.listed.nodup⟩, h.agents,
      fun _ hstore => ?_⟩, rfl⟩
    · intro hclosed
      rw [hsession'] at hclosed
      cases hclosed
    by_cases hopen : s.server.session = true
    · have hsame : storage.headStore = s.server.storage.headStore ∧
          storage.headCommitted = s.server.storage.headCommitted := by
        rcases hreads.committed with hsame | ⟨hclosed, -⟩
        · exact hsame
        · rw [hopen] at hclosed
          cases hclosed
      have hold := h.recorded hopen (hsame.1 ▸ hstore)
      exact hold.read hreads.records hsame.2 hstarted
    · obtain ⟨hruntimes, hnone⟩ := h.listed.idle (Bool.not_eq_true _ ▸ hopen)
      refine Recorded.opened ?_ (hnew.resolve_left hopen) ?_ s.agents
      · exact hruntimes
      intro t ht
      have ht' : t ∈ s.server.tasks ++ tasks := ht
      rw [hnone, List.nil_append] at ht'
      obtain ⟨hprepares, hgeneration⟩ := hstarted t ht'
      refine hprepares.mono_unregistered hgeneration [] ?_
      rw [List.append_nil]
      exact congrArg entriesOf hreads.records

/-- A task that takes its step leaves the lanes alone. -/
theorem Mirrored.setTasks (h : s.Mirrored) {task : ℕ} {t : LaneTask} {tasks : List LaneTask}
    (ht : s.server.tasks[task]? = some t)
    (hsound : LaneServer.Sound { s.server with tasks := tasks })
    (hnew : ∀ t ∈ tasks, t ∈ s.server.tasks ∨ (s.Recorded → s.server.Prepares t))
    (hkept : s.Recorded → ∀ lane r, s.server.runtimes[lane]? = some r →
      s.server.Registering lane → r.writer.laneId ∉ s.server.storage.headCommitted →
      ∃ t ∈ tasks, t.generation? = some lane) :
    Mirrored ⟨{ s.server with tasks := tasks }, s.agents⟩ := by
  have hopen : s.server.session ≠ false := by
    intro hclosed
    rw [(h.listed.idle hclosed).2] at ht
    cases ht
  refine ⟨hsound, h.legible, ⟨fun hclosed => absurd hclosed hopen, h.listed.lanes,
    h.listed.nodup⟩, h.agents, fun hsession hstore => ?_⟩
  have hold := h.recorded hsession hstore
  refine ⟨hold.committed, ?_, ?_, hold.follows⟩
  · intro t' ht'
    have hprepares : s.server.Prepares t' := by
      rcases hnew t' ht' with hmem | hfresh
      · exact hold.tasks t' hmem
      · exact hfresh hold
    exact hprepares.mono [] (List.append_nil _).symm fun _ _ hfirst => hfirst
  · intro lane r hr
    rcases hold.placed lane r hr with ⟨hregistering, hno⟩ | hplaced
    · exact .inl ⟨hkept hold lane r hr hregistering hno, hno⟩
    · exact .inr hplaced

/-- The insertion of a lane that starts as it is asked. -/
theorem Mirrored.insert (h : s.Mirrored) {task : ℕ} {laneId : LaneId} {head : Option NodeId}
    {transcript : List Message} {persistInitial : Bool} {fromLane : Option LaneId}
    {tasks : List LaneTask}
    (ht : s.server.tasks[task]? = some (.spawned laneId head transcript persistInitial fromLane))
    (hnew : s.server.contains laneId = false)
    (hsound : (s.server.register laneId head transcript tasks).Sound)
    (htasks : tasks = if persistInitial then
        s.server.tasks.set task (.registered laneId head s.server.runtimes.length)
      else s.server.tasks.eraseIdx task)
    (ha : s.server.storage.headStore = true →
      s.server.StartsAtRecord (.spawned laneId head transcript persistInitial fromLane))
    (runtime : AgentRuntime) :
    Mirrored ⟨s.server.register laneId head transcript tasks,
      s.agents ++ [⟨runtime, .start transcript, 0⟩]⟩ := by
  have hopen : s.server.session ≠ false := by
    intro hclosed
    rw [(h.listed.idle hclosed).2] at ht
    cases ht
  refine ⟨hsound, h.legible, ⟨fun hclosed => absurd hclosed hopen, ?_, ?_⟩, ?_,
    fun hsession hstore => ?_⟩
  · rw [LaneServer.register_ids, List.reverse_append, ← h.listed.lanes]
    rfl
  · rw [LaneServer.register_ids]
    exact List.nodup_append_comm.mp
      (List.nodup_cons.mpr ⟨h.listed.not_contains hnew, h.listed.nodup⟩)
  · show (s.agents ++ [_]).length = (s.server.runtimes ++ [_]).length
    rw [List.length_append, List.length_append, h.agents]
    rfl
  have hold := h.recorded hsession hstore
  have hstarts := ha hstore hnew
  refine ⟨?_, ?_, ?_, ?_⟩
  · intro laneId' hmem
    obtain ⟨hlisted, hon⟩ := hold.committed laneId' hmem
    rw [LaneServer.register_ids]
    exact ⟨List.mem_append_left _ hlisted, hon⟩
  · intro t hmem
    have hpast : ∀ t ∈ s.server.tasks,
        (s.server.register laneId head transcript tasks).Prepares t :=
      fun t ht => (hold.tasks t ht).mono [] (List.append_nil _).symm
        fun _ _ hfirst => hfirst.register
    have hmem' : t ∈ tasks := hmem
    rw [htasks] at hmem'
    cases persistInitial with
    | true =>
      rcases List.mem_or_eq_of_mem_set hmem' with hmem' | rfl
      · exact hpast t hmem'
      · have hnone : head = none := hstarts
        refine ⟨hnone, ⟨⟨laneId, head⟩, transcript, []⟩, ?_, rfl, fun _ => hnone⟩
        exact List.getElem?_concat_length
    | false => exact hpast t (List.mem_of_mem_eraseIdx hmem')
  · intro lane r hr
    rcases LaneServer.register_lane hr with hr | ⟨rfl, rfl⟩
    · refine (hold.placed lane r hr).congr (fun hlane => ?_) id rfl rfl
      show ∃ t ∈ tasks, _
      rw [htasks]
      split_ifs
      · exact hlane.setTask ht nofun _
      · exact hlane.eraseTask ht nofun
    · cases persistInitial with
      | true =>
        refine .inl ⟨⟨.registered laneId head s.server.runtimes.length, ?_, rfl⟩, fun hmem =>
          h.listed.not_contains hnew (hold.committed laneId hmem).1⟩
        show _ ∈ tasks
        rw [htasks]
        exact List.mem_set (List.getElem?_eq_some_iff.mp ht).1 _
      | false => exact .inr hstarts
  · intro lane r agent hr hagent
    have hagent' : (s.agents ++ [⟨runtime, .start transcript, 0⟩])[lane]? = some agent := hagent
    rcases LaneServer.register_lane hr with hr | ⟨rfl, rfl⟩
    · have hlt := (List.getElem?_eq_some_iff.mp hr).1
      rw [List.getElem?_append_left (h.agents ▸ hlt)] at hagent'
      exact hold.follows lane r agent hr hagent'
    · rw [← h.agents, List.getElem?_concat_length] at hagent'
      cases hagent'
      refine ⟨transcript, ?_, Nat.zero_le _, (List.append_nil _).symm⟩
      have hprepares := hold.tasks _ (List.mem_of_getElem? ht)
      cases persistInitial with
      | true =>
        have hempty : transcript = [] := hprepares
        have hnone : head = none := hstarts
        rw [hempty, hnone]
        exact ⟨[], .root, rfl⟩
      | false => exact hprepares

/-- A new lane puts on record that it has no node. -/
theorem Recorded.persist (h : s.Recorded) (hlisted : s.server.Listed) {task : ℕ} {laneId : LaneId}
    {head : Option NodeId} {generation : ℕ}
    (ht : s.server.tasks[task]? = some (.registered laneId head generation))
    (hno : laneId ∉ s.server.storage.headCommitted) :
    Recorded ⟨{ s.server with
      storage := s.server.storage.commitHead laneId head
      tasks := s.server.tasks.eraseIdx task }, s.agents⟩ := by
  obtain ⟨rfl, q, hq, hid, hfirst⟩ := h.tasks _ (List.mem_of_getElem? ht)
  have hlog : entriesOf (s.server.storage.commitHead laneId none).records = s.server.log :=
    SharedSessionStorage.entriesOf_commitHead _ _ _
  have honRecord : laneHeads (s.server.storage.commitHead laneId none).records =
      Function.update s.server.onRecord laneId (some none) := laneHeads_laneHead _ _
  refine ⟨?_, ?_, ?_, ?_⟩
  · intro laneId' hmem
    show _ ∧ laneHeads (s.server.storage.commitHead laneId none).records laneId' ≠ none
    rw [honRecord, Function.update_apply]
    rcases List.mem_cons.mp hmem with rfl | hmem
    · exact ⟨List.mem_map.mpr ⟨q, List.mem_of_getElem? hq, hid⟩, by simp⟩
    · obtain ⟨hids, hon⟩ := h.committed laneId' hmem
      refine ⟨hids, ?_⟩
      split_ifs
      · simp
      · exact hon
  · intro t hmem
    refine (h.tasks t (List.mem_of_mem_eraseIdx hmem)).mono [] ?_ ?_
    · rw [List.append_nil]
      exact hlog
    · rintro laneId' generation' ⟨r, hr, hid', hnone⟩
      exact ⟨r, hr, hid', fun hno' => hnone fun hmem' => hno' (List.mem_cons_of_mem _ hmem')⟩
  · intro lane r hr
    by_cases hlane : lane = generation
    · -- the lane itself resumes without a node from now on
      have hsame : r = q := by
        rw [hlane] at hr
        exact Option.some.inj (hr.symm.trans hq)
      have hnone : r.writer.head = none := hsame ▸ hfirst hno
      right
      rw [hnone, hsame, hid]
      refine ⟨.inl ?_, fun i hi => nomatch hi⟩
      show laneHeads (s.server.storage.commitHead laneId none).records laneId = _
      rw [honRecord, Function.update_self]
    · have hne : r.writer.laneId ≠ laneId := by
        intro heq
        exact hlane (hlisted.eq_of_laneId hr hq (heq.trans hid.symm))
      refine (h.placed lane r hr).congr ?_ ?_ ?_ hlog
      · intro hregistering
        apply hregistering.eraseTask ht
        intro heq
        exact hlane (Option.some.inj heq).symm
      · intro hno' hmem
        rcases List.mem_cons.mp hmem with heq | hmem
        · exact hne heq
        · exact hno' hmem
      · show laneHeads (s.server.storage.commitHead laneId none).records _ = _
        rw [honRecord, Function.update_of_ne hne]
  · intro lane r agent hr hagent
    show ∃ path, PathOf (entriesOf (s.server.storage.commitHead laneId none).records) _ path ∧ _
    rw [hlog]
    exact h.follows lane r agent hr hagent

/-- The first head of a lane under creation is a node of the log. -/
theorem Mirrored.headLegible (h : s.Mirrored) {task : ℕ} {laneId : LaneId} {head : Option NodeId}
    {generation : ℕ}
    (ht : s.server.tasks[task]? = some (.registered laneId head generation)) :
    (SessionRecord.laneHead ⟨laneId, head⟩).Legible := by
  obtain ⟨es, hes⟩ := h.sound.tasks _ (List.mem_of_getElem? ht)
  have hchain : ChainTo s.server.log head es := hes
  apply SessionRecord.Storable.legible
  intro n hn
  obtain rfl : head = some n := hn
  obtain ⟨e, he, rfl⟩ := List.mem_map.mp hchain.mem_ids
  exact lt_trans (h.sound.ids_lt e he) (by decide)

/-- The first head of a new lane, which is none, goes on record when it is not late. -/
theorem Mirrored.persist (h : s.Mirrored) {task : ℕ} {laneId : LaneId} {head : Option NodeId}
    {generation : ℕ}
    (ht : s.server.tasks[task]? = some (.registered laneId head generation)) :
    Mirrored ⟨s.server.advance task false, s.agents⟩ ∧
      (s.server.advance task false).runtimes = s.server.runtimes := by
  have hopen : s.server.session ≠ false := by
    intro hclosed
    rw [(h.listed.idle hclosed).2] at ht
    cases ht
  have hsound := h.sound.advance (s.server.advance_step task false)
  unfold LaneServer.advance at hsound ⊢
  simp only [ht] at hsound ⊢
  rcases s.server.storage.persistInitialHead_cases laneId head false with
    ⟨hmem, hp⟩ | ⟨-, -, hfails, -⟩ | ⟨hno, hbound, -, hp⟩ | ⟨-, hunbound, hp⟩
  · simp only [hp] at hsound ⊢
    refine ⟨h.setTasks ht hsound (fun t hmem => .inl (List.mem_of_mem_eraseIdx hmem)) ?_, trivial⟩
    intro hold lane r hr hlane hno
    apply hlane.eraseTask ht
    intro heq
    obtain rfl : generation = lane := Option.some.inj heq
    obtain ⟨-, r', hr', rfl, -⟩ := hold.tasks _ (List.mem_of_getElem? ht)
    rw [hr] at hr'
    cases hr'
    exact hno hmem
  · cases hfails
  · simp only [hp] at hsound ⊢
    refine ⟨⟨hsound, ?_, ⟨fun hclosed => absurd hclosed hopen, h.listed.lanes, h.listed.nodup⟩,
      h.agents, fun hsession hstore => ?_⟩, trivial⟩
    · intro r hr
      rcases List.mem_append.mp hr with hold | hnew
      · exact h.legible r hold
      · rw [List.mem_singleton.mp hnew]
        exact h.headLegible ht
    · exact (h.recorded hsession hstore).persist h.listed ht hno
  · simp only [hp] at hsound ⊢
    have hlisted := h.listed
    refine ⟨⟨hsound, h.legible, ⟨fun hclosed => absurd hclosed hopen, hlisted.lanes, hlisted.nodup⟩,
      h.agents, fun _ hstore => ?_⟩, trivial⟩
    have hbound : s.server.storage.headStore = true := hstore
    rw [hunbound] at hbound
    cases hbound

/-- The next step of a lane under creation. -/
theorem Mirrored.advance (h : s.Mirrored) {task : ℕ} {fails : Bool} {runtime : AgentRuntime}
    (ha : s.Mirrors (.serve (.advance task fails) runtime)) :
    (s.serve (.advance task fails) runtime).Mirrored := by
  obtain ⟨rfl, hstarts⟩ := ha
  have hstep := s.server.advance_step task false
  have hsound := h.sound.advance hstep
  have hsame : ∀ s', s' = s.server.advance task false → s'.runtimes = s.server.runtimes →
      Mirrored ⟨s', s.agents⟩ → (s.serve (.advance task false) runtime).Mirrored := by
    intro s' hs hruntimes hmirrored
    have hserver : s.server.callOver s.file (.advance task false) = s' := hs.symm
    rwa [serve_same h.agents hserver hruntimes]
  generalize hs : s.server.advance task false = s' at hstep hsound
  cases hstep with
  | idle => exact hsame _ hs.symm rfl h
  | @dropped t ht =>
    by_cases hregistered : ∃ generation, t.generation? = some generation
    · obtain ⟨generation, hgen⟩ := hregistered
      cases t with
      | registered laneId head generation =>
        obtain ⟨hmirrored, hruntimes⟩ := h.persist ht
        exact hsame _ rfl hruntimes hmirrored
      | _ => cases hgen
    · refine hsame _ hs.symm rfl (h.setTasks ht hsound
        (fun t hmem => .inl (List.mem_of_mem_eraseIdx hmem)) ?_)
      intro _ lane r _ hlane _
      exact hlane.eraseTask ht fun hgen => hregistered ⟨lane, hgen⟩
  | @checked laneId head transcript ht =>
    refine hsame _ hs.symm rfl (h.setTasks ht hsound ?_ ?_)
    · intro t hmem
      rcases List.mem_or_eq_of_mem_set hmem with hmem | rfl
      · exact .inl hmem
      · right
        intro hold
        have hprepares := hold.tasks _ (List.mem_of_getElem? ht)
        exact hprepares
    · intro _ lane r _ hlane _
      exact hlane.setTask ht nofun _
  | @forked fromLane newLane source r ht hr =>
    refine hsame _ hs.symm rfl (h.setTasks ht hsound ?_ ?_)
    · intro t hmem
      rcases List.mem_or_eq_of_mem_set hmem with hmem | rfl
      · exact .inl hmem
      · exact .inr fun _ => rfl
    · intro _ lane r _ hlane _
      exact hlane.setTask ht nofun _
  | @inserted laneId head transcript persistInitial fromLane ht hnew =>
    have hserver : s.server.callOver s.file (.advance task false) =
        s.server.register laneId head transcript _ := hs
    rw [serve_new h.agents hserver rfl]
    exact h.insert ht hnew hsound rfl (fun hstore => hstarts hstore _ ht) runtime
  | rolledBack _ hfails => cases hfails
  | persisted ht | unbound ht =>
    obtain ⟨hmirrored, hruntimes⟩ := h.persist ht
    exact hsame _ rfl hruntimes hmirrored

/-- A message that its lane writes apart from the others. -/
theorem Recorded.written (h : s.Recorded) (hlisted : s.server.Listed) {lane : ℕ} {r : LaneRuntime}
    {agent : LaneAgent} {message : Message} {rest : List Message} {storage : SharedSessionStorage}
    (hr : s.server.runtimes[lane]? = some r) (hagent : s.agents[lane]? = some agent)
    (hpending : agent.pending = message :: rest) (hstored : s.server.Stored r message storage)
    (hgrown : GrownLog (s.server.log ++ [r.writer.entry s.server.storage message]))
    (hstore : s.server.storage.headStore = true)
    (hapart : ∀ other < s.server.runtimes.length, other ≠ lane →
      s.server.Apart r.writer.head other) :
    Recorded ⟨s.server.written lane r message storage,
      s.agents.set lane { agent with received := agent.received + 1 }⟩ := by
  have hcommitted := hstored.committed hstore
  refine ⟨?_, ?_, ?_, ?_⟩
  · intro laneId hmem
    have hmem' : laneId ∈ storage.headCommitted := hmem
    rw [hcommitted] at hmem'
    rw [LaneServer.written_ids hr]
    show _ ∧ laneHeads storage.records laneId ≠ none
    rw [hstored.onRecord hstore, Function.update_apply]
    rcases List.mem_cons.mp hmem' with rfl | hmem'
    · exact ⟨List.mem_map.mpr ⟨r, List.mem_of_getElem? hr, rfl⟩, by simp⟩
    · obtain ⟨hids, hon⟩ := h.committed laneId hmem'
      refine ⟨hids, ?_⟩
      split_ifs
      · simp
      · exact hon
  · intro t ht
    exact (h.tasks t ht).mono _ hstored.log fun _ _ hfirst => hfirst.written hr hcommitted
  · intro other q hq
    rcases LaneServer.written_lane hq with ⟨rfl, rfl⟩ | ⟨hother, hq⟩
    · exact hstored.placed hstore hgrown
    · have hlt : other < s.server.runtimes.length := (List.getElem?_eq_some_iff.mp hq).1
      obtain ⟨hhead, hon⟩ := hapart other hlt (Ne.symm hother) q hq
      refine (h.placed other q hq).written hstored hstore ?_ hhead hon ?_
      · intro heq
        exact hother (hlisted.eq_of_laneId hr hq heq.symm)
      · intro hmem
        exact (h.committed _ hmem).2
  · intro other q agent' hq hagent'
    have hagent'' : (s.agents.set lane { agent with received := agent.received + 1 })[other]? =
        some agent' := hagent'
    show ∃ path, PathOf (entriesOf storage.records) _ path ∧ _
    rw [hstored.log]
    rcases LaneServer.written_lane hq with ⟨rfl, rfl⟩ | ⟨hother, hq⟩
    · rw [List.getElem?_set_self (List.getElem?_eq_some_iff.mp hagent).1] at hagent''
      obtain rfl := Option.some.inj hagent''
      obtain ⟨path, hpath, hfollows⟩ := h.follows lane r agent hr hagent
      have hparent : PathOf s.server.log (r.writer.entry s.server.storage message).parentId path :=
        hpath
      exact ⟨path ++ [message], hparent.snoc, hfollows.receive hpending⟩
    · rw [List.getElem?_set_ne hother] at hagent''
      obtain ⟨path, hpath, hfollows⟩ := h.follows other q agent' hq hagent''
      exact ⟨path, hpath.append_right _, hfollows⟩

/-- The bridge of a lane moves a message onto the path. -/
theorem Mirrored.bridge (h : s.Mirrored) {lane : ℕ} {fault : WriteFault}
    (ha : s.Mirrors (.bridge lane fault)) : (s.step (.bridge lane fault)).Mirrored := by
  cases hagent : s.agents[lane]? with
  | none =>
    have hs : s.step (.bridge lane fault) = s := by simp only [step, hagent]
    rw [hs]
    exact h
  | some agent =>
    cases hpending : agent.pending with
    | nil =>
      have hs : s.step (.bridge lane fault) = s := by simp only [step, hagent, hpending]
      rw [hs]
      exact h
    | cons message rest =>
      obtain ⟨rfl, hmax, hback, halone⟩ := ha agent hagent message (by rw [hpending]; rfl)
      have hlane : lane < s.agents.length := (List.getElem?_eq_some_iff.mp hagent).1
      obtain ⟨r, hr⟩ : ∃ r, s.server.runtimes[lane]? = some r :=
        ⟨_, List.getElem?_eq_getElem (h.agents ▸ hlane)⟩
      obtain ⟨hroot, hapart⟩ := halone r hr
      have hsound : (s.server.append lane message .clean).Sound := by
        apply h.sound.append
        intro _ q hq hnone
        obtain rfl : r = q := Option.some.inj (hr.symm.trans hq)
        exact hroot hnone
      obtain ⟨storage, hserver, hstored⟩ := s.server.append_clean message hr hmax
      have hs : s.step (.bridge lane .clean) = ⟨s.server.written lane r message storage,
          s.agents.set lane { agent with received := agent.received + 1 }⟩ := by
        simp only [step, hagent, hpending, hserver]
      rw [hserver] at hsound
      rw [hs]
      refine ⟨hsound, ?_, ⟨?_, ?_, ?_⟩, ?_, fun hsession hstore => ?_⟩
      · intro q hq
        rcases hstored.records q hq with hold | rfl | rfl
        · exact h.legible q hold
        · exact hback r hr
        · apply SessionRecord.Storable.legible
          intro n hn
          obtain rfl : s.server.storage.nextId = n := Option.some.inj hn
          exact lt_of_le_of_lt h.sound.cursor (by decide)
      · intro hclosed
        rw [(h.listed.idle hclosed).1] at hr
        cases hr
      · rw [LaneServer.written_ids hr]
        exact h.listed.lanes
      · rw [LaneServer.written_ids hr]
        exact h.listed.nodup
      · show (s.agents.set lane _).length = (s.server.runtimes.set lane _).length
        rw [List.length_set, List.length_set]
        exact h.agents
      · have hstore' : s.server.storage.headStore = true := hstored.headStore ▸ hstore
        have hgrown : GrownLog (s.server.log ++ [r.writer.entry s.server.storage message]) :=
          hstored.log ▸ hsound.grown
        exact (h.recorded hsession hstore').written h.listed hr hagent hpending hstored hgrown
          hstore' (hapart hstore')

/-- Every drained lane starts again where it is. -/
theorem Mirrored.restarts (h : s.Mirrored) : s.Restarts := by
  intro hstore lane r agent hr hagent hdone hdrained
  have hsession : s.server.session = true := by
    by_contra hno
    rw [Bool.not_eq_true] at hno
    rw [(h.listed.idle hno).1] at hr
    cases hr
  have hrecorded := h.recorded hsession hstore
  obtain ⟨path, ⟨es, hes, rfl⟩, -, htranscript⟩ := hrecorded.follows lane r agent hr hagent
  have hpending : (messageEnds agent.state.ctx.trace).drop agent.received = [] := hdrained
  rw [hpending, List.append_nil] at htranscript
  rcases hrecorded.placed lane r hr with ⟨hregistering, -⟩ | ⟨hrecord, hleaf⟩
  · exact absurd hregistering hdone
  obtain ⟨next, hnext, -, -⟩ := cursorAfter_ok h.sound.ids_lt
  have hread : readRecords s.file = .ok s.server.storage.records :=
    readRecords_logBytes h.legible
  refine ⟨⟨⟨s.server.storage.sessionId, next, false⟩, true, []⟩, ?_, ?_⟩
  · simp only [SharedFile.reopen_eq, hread, hnext]
    rfl
  obtain ⟨root, next', hsnap, -, -⟩ := h.sound.snapshot
    ⟨s.server.storage.sessionId, s.server.storage.records, next, true, []⟩ rfl
  have hresolve : resolveResumeHead (treeOf s.server.log s.server.storage.sessionId root) none
      (s.server.onRecord r.writer.laneId) = .ok (r.writer.head, es.map (·.message)) := by
    rcases hrecord with hon | ⟨hnone, hnewest⟩
    · rw [hon]
      exact resolveResumeHead_persisted h.sound.grown hes hleaf
    · rw [hnone]
      exact resolveResumeHead_newest h.sound.grown.rooted hes hnewest hleaf
  rw [htranscript, SharedFile.resumed_eq hread]
  show SharedSessionStorage.resumed
    ⟨s.server.storage.sessionId, s.server.storage.records, next, true, []⟩ _ = _
  simp only [SharedSessionStorage.resumed, hsnap]
  exact hresolve

theorem Mirrored.serve (h : s.Mirrored) {a : LaneAction} {runtime : AgentRuntime}
    (ha : s.Mirrors (.serve a runtime)) : (s.step (.serve a runtime)).Mirrored := by
  rcases s.server.step_serves a with
    rfl | ⟨task, fails, rfl⟩ | ⟨lane, message, fault, rfl⟩ | hserves
  · have hs : s.step (.serve .restart runtime) = ⟨s.server.restart, []⟩ := by
      simp only [step, ServedSession.serve, LaneServer.callOver, LaneAction.reads,
        Bool.false_eq_true, ↓reduceIte, LaneServer.step, LaneServer.restart, List.length_nil,
        List.take_zero]
    rw [hs]
    exact h.restart
  · exact h.advance ha
  · exact h
  rcases h.sound.step_cases a with ⟨lane, message, fault, rfl⟩ | ⟨task, fails, rfl⟩ | hcall
  · exact h
  · exact h.advance ha
  obtain ⟨hmirrored, hruntimes⟩ := h.call hcall hserves
  have hover := h.sound.callOver_eq h.legible a
  rw [← serve_same h.agents hover hruntimes runtime] at hmirrored
  cases a with
  | append lane message fault => exact h
  | _ => exact hmirrored

theorem Mirrored.step (h : s.Mirrored) {a : ServedAction} (ha : s.Mirrors a) :
    (s.step a).Mirrored := by
  cases a with
  | serve a runtime => exact h.serve ha
  | round lane a => exact h.round ha
  | bridge lane fault => exact h.bridge ha

/-- As long as every write goes through and is read back as it is, transcripts grow by what is
announced only, lanes start at what is on record, and none writes where another one depends on it,
every drained lane starts in a new process with the transcript its agent has, over any interleaving
and any number of restarts. -/
theorem restarts_throughout (sessionId : String) (as : List ServedAction)
    (has : Along step Mirrors (fresh sessionId) as) :
    Throughout step Restarts (fresh sessionId) as := by
  have hfresh : (fresh sessionId).Mirrored := by
    have hlisted : (LaneServer.fresh sessionId).Listed := ⟨fun _ => ⟨rfl, rfl⟩, rfl, List.nodup_nil⟩
    refine ⟨LaneServer.Sound.fresh sessionId, nofun, hlisted, rfl, ?_⟩
    intro hsession
    cases hsession
  exact throughout (fun _ _ h ha => h.step ha) (fun _ h => h.restarts) hfresh has

/-- A run over one new message, with a turn that answers. -/
def answering : RunEnv := ⟨[], [.streaming [.done helloAnswer]]⟩

/-- A lane with an answer on record that goes on in a new process, and a lane without a node that
is forked. -/
def answeredLanes : List ServedAction :=
  [.serve (.createSession true) .plain, .serve (.spawnLane "a") .plain,
    .serve (.advance 0 false) .plain, .serve (.advance 0 false) .plain,
    .round 0 (.receive (.prompt [helloMessage]) answering), .bridge 0 .clean, .bridge 0 .clean,
    .serve .restart .plain, .serve (.loadAndResume true "a" none) .plain,
    .serve (.advance 0 false) .plain, .serve (.advance 0 false) .plain,
    .serve (.spawnLane "b") .plain, .serve (.advance 0 false) .plain,
    .serve (.advance 0 false) .plain, .serve (.forkLane "b" "c") .plain,
    .serve (.advance 0 false) .plain, .serve (.advance 0 false) .plain,
    .serve (.advance 0 false) .plain,
    .round 0 (.receive (.prompt [helloMessage]) answering), .bridge 0 .clean, .bridge 0 .clean]

theorem restarts_answeredLanes : Throughout step Restarts (fresh "session") answeredLanes := by
  apply restarts_throughout
  decide +kernel

/-- How long the transcripts are that the agent of a drained lane holds and that the lane would
resume with, from records that are read back as they are. -/
def lengths (s : ServedSession) (lane : ℕ) : Option (ℕ × ℕ) := do
  let r ← s.server.runtimes[lane]?
  let agent ← s.agents[lane]?
  let storage ← (s.server.restart.openStorage true).toOption
  let resumed ← (storage.resumed r.writer.laneId).toOption
  if s.server.storage.headStore ∧ ¬ s.server.Registering lane ∧ agent.pending.isEmpty ∧
      ∀ q ∈ s.server.storage.records, q.Storable then
    some (agent.state.ctx.transcript.length, resumed.2.length)
  else none

theorem Restarts.lengths_eq (h : s.Restarts) {lane held resumed : ℕ}
    (hlengths : s.lengths lane = some (held, resumed)) : held = resumed := by
  obtain ⟨r, hr, hrest⟩ := Option.bind_eq_some_iff.mp hlengths
  obtain ⟨agent, hagent, hrest⟩ := Option.bind_eq_some_iff.mp hrest
  obtain ⟨storage, hopen, hrest⟩ := Option.bind_eq_some_iff.mp hrest
  obtain ⟨resumed', hresumed, hrest⟩ := Option.bind_eq_some_iff.mp hrest
  split_ifs at hrest with hdrained
  obtain ⟨hstore, hdone, hpending, hstorable⟩ := hdrained
  have hlegible : ∀ q ∈ s.server.storage.records, q.Legible := fun q hq => (hstorable q hq).legible
  obtain ⟨st, hfile, hsame⟩ :=
    h hstore lane r agent hr hagent hdone (List.isEmpty_iff.mp hpending)
  obtain ⟨hrecords, -⟩ :=
    SharedFile.Shows.reopen (.of_complete (completeFile_logBytes hlegible)) hfile
  have hstorage : st.withRecords s.server.storage.records = storage := by
    have hrestart : s.server.restart.openStorage true =
        .ok (st.withRecords s.server.storage.records) := congrArg (Except.mapError _) hrecords
    rw [hrestart] at hopen
    exact Option.some.inj hopen
  have hread : readRecords s.file = .ok s.server.storage.records := readRecords_logBytes hlegible
  rw [SharedFile.resumed_eq hread, hstorage] at hsame
  rw [hsame] at hresumed
  obtain rfl := Option.some.inj hresumed
  cases hrest
  rfl

/-- A runtime that compacts whatever it can. -/
def compacting : AgentRuntime :=
  { AgentRuntime.plain with
    loopConfig := { LoopConfig.default with compactor := true, compaction := ⟨0, 1, 0, 0⟩ } }

/-- The second prompt compacts the first one and its answer. -/
def compactedLane : List ServedAction :=
  [.serve (.createSession true) .plain, .serve (.spawnLane "a") .plain,
    .serve (.advance 0 false) compacting, .serve (.advance 0 false) .plain,
    .round 0 (.receive (.prompt [helloMessage]) answering),
    .round 0 (.receive (.prompt [helloMessage])
      ⟨[], [{ TurnEnv.streaming [.done helloAnswer] with compacted := .ok "summary" }]⟩)] ++
    List.replicate 5 (.bridge 0 .clean)

/-- A `Reset` behind an answer. -/
def resetLane : List ServedAction :=
  [.serve (.createSession true) .plain, .serve (.spawnLane "a") .plain,
    .serve (.advance 0 false) .plain, .serve (.advance 0 false) .plain,
    .round 0 (.receive (.prompt [helloMessage]) answering), .bridge 0 .clean, .bridge 0 .clean,
    .round 0 (.receive .reset .silent)]

/-- The agents hold the summary with what came behind it, and nothing; both lanes resume with all
that was ever announced. -/
theorem rewrittenTranscripts_return :
    ¬Throughout step Restarts (fresh "session") compactedLane ∧
      ¬Throughout step Restarts (fresh "session") resetLane := by
  constructor
  · intro hrun
    have hlengths : (run step (fresh "session") compactedLane).lengths 0 = some (3, 5) := by
      decide +kernel
    cases hrun.last.lengths_eq hlengths
  · intro hrun
    have hlengths : (run step (fresh "session") resetLane).lengths 0 = some (0, 2) := by
      decide +kernel
    cases hrun.last.lengths_eq hlengths

end ServedSession

end Guigu
