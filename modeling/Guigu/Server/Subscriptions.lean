import Guigu.Server.Transport

/-! What the subscriptions of a connection deliver: which events, how often, and for how long. -/
namespace Guigu.Server

variable {σ ε : Type*}

/-- The place of an event: its channel, and its number there. -/
def LogEntry.position? : LogEntry σ ε → Option (ℕ × ℕ)
  | .event _ channel index _ => some (channel, index)
  | .request _ | .reply _ _ => none

/-- The receiver that waits for the end of an old forwarder, and its lane. -/
def Continuation.awaited? : Continuation → Option (LaneKey × EventReceiver)
  | .subscribe _ key receiver => some (key, receiver)
  | .unsubscribe _ _ | .close => none

def ConnectionPhase.awaited? : ConnectionPhase → Option (LaneKey × EventReceiver)
  | .subscribing _ key receiver => some (key, receiver)
  | .stopping _ next => next.awaited?
  | .reading | .dispatching _ | .closing | .closed => none

/-- The forwarder whose end is awaited. -/
def ConnectionPhase.stopped? : ConnectionPhase → Option ℕ
  | .stopping f _ => some f
  | .reading | .dispatching _ | .subscribing _ _ _ | .closing | .closed => none

/-- The lane that is to be silent, or to speak again, when the old forwarder has ended. -/
def Continuation.key? : Continuation → Option LaneKey
  | .subscribe _ key _ | .unsubscribe _ key => some key
  | .close => none

/-- An `Unsubscribe` of the lane has been answered, and no `Subscribe` has come since. -/
def Silent (key : LaneKey) (log : List (LogEntry σ ε)) : Prop :=
  ∃ before between id msg, log = before ++ .reply (.unsubscribe id key.1 key.2) msg :: between ∧
    ∀ id, .request (.subscribe id key.1 key.2) ∉ between

namespace Connection

def positions (s : Connection σ ε) : List (ℕ × ℕ) := s.log.filterMap LogEntry.position?

/-- The events among the messages that have been written. -/
def delivered (s : Connection σ ε) : List (ℕ × ℕ) :=
  ((s.log.filter fun e => e.message?.isSome).take s.written).filterMap LogEntry.position?

/-- No event of a lane has been written twice. -/
def DeliversOnce (s : Connection σ ε) : Prop := s.delivered.Nodup

/-- A lane that is silent sends nothing; the messages are written in the order of the log. -/
def KeepsSilence (s : Connection σ ε) : Prop :=
  ∀ before after key channel index event,
    s.log = before ++ .event key channel index event :: after → ¬ Silent key before

/-- The step sends an event that the receiver which is to replace the forwarder gets as well. -/
def overlaps (s : Connection σ ε) : ConnectionAction σ ε → Bool
  | .forward f =>
    match s.phase.awaited?, s.received f with
    | some (_, receiver), (.value _, _) =>
      !(s.forwarder f).done && receiver.channel = (s.forwarder f).receiver.channel &&
        receiver.next ≤ (s.forwarder f).receiver.next
    | _, _ => false
  | _ => false

/-- A forwarder that is replaced sends no event that came after the new receiver. -/
def Replaced (s : Connection σ ε) (a : ConnectionAction σ ε) : Prop := s.overlaps a = false

instance (s : Connection σ ε) (a : ConnectionAction σ ε) : Decidable (s.Replaced a) :=
  inferInstanceAs (Decidable (s.overlaps a = false))

/-- No forwarder of the lane runs. -/
def Unforwarded (s : Connection σ ε) (key : LaneKey) : Prop :=
  ∀ f, (s.forwarder f).done = false → (s.forwarder f).key ≠ key

/-- The receiver is one of the events of the lane. -/
def ReceivesFor (s : Connection σ ε) (key : LaneKey) (receiver : EventReceiver) : Prop :=
  receiver.channel < s.nextChannel ∧ (s.channel receiver.channel).key = key

/-- The forwarders that run are those of the subscriptions, but for one that may be on its way
out; silent lanes have none. -/
structure Steady (s : Connection σ ε) (out : Option ℕ) : Prop where
  fresh : ∀ f, s.nextForwarder ≤ f → (s.forwarder f).done = true
  registered : ∀ key c, s.lanes.lookup key = some c →
    c < s.nextChannel ∧ (s.channel c).key = key
  subscribed : ∀ key f, s.subscriptions.lookup key = some f →
    f < s.nextForwarder ∧ (s.forwarder f).key = key
  placed : ∀ f, (s.forwarder f).done = false →
    s.ReceivesFor (s.forwarder f).key (s.forwarder f).receiver
  running : ∀ f, (s.forwarder f).done = false →
    s.subscriptions.lookup (s.forwarder f).key = some f ∨ out = some f
  silent : ∀ key, Silent key s.log → s.Unforwarded key
  silence : s.KeepsSilence

end Connection

/-- The dispatch is about to make the lane speak. -/
def ConnectionPhase.Wakes (phase : ConnectionPhase) (key : LaneKey) : Prop :=
  ∃ id, phase.request? = some (.subscribe id key.1 key.2)

namespace Connection

structure Sound (s : Connection σ ε) : Prop extends Steady s s.phase.stopped? where
  stopping : ∀ f next, s.phase = .stopping f next →
    s.subscriptions.lookup (s.forwarder f).key = none ∧
      ∀ key, next.key? = some key → (s.forwarder f).key = key
  awaited : ∀ key receiver, s.phase.awaited? = some (key, receiver) → s.ReceivesFor key receiver
  awake : ∀ key, s.phase.Wakes key → ¬ Silent key s.log

end Connection

theorem not_silent_nil (key : LaneKey) : ¬ Silent key ([] : List (LogEntry σ ε)) := by
  rintro ⟨before, between, id, msg, hlog, -⟩
  simp at hlog

/-- A lane becomes silent by the answer to an `Unsubscribe`, and stays so until a `Subscribe`. -/
theorem silent_concat {key : LaneKey} {log : List (LogEntry σ ε)} {e : LogEntry σ ε}
    (h : Silent key (log ++ [e])) :
    (∃ id msg, e = .reply (.unsubscribe id key.1 key.2) msg) ∨
      (Silent key log ∧ ∀ id, e ≠ .request (.subscribe id key.1 key.2)) := by
  obtain ⟨before, between, id, msg, hlog, hbetween⟩ := h
  obtain ⟨-, he, -⟩ | ⟨rest, rfl, hfront⟩ := Runs.split_concat hlog
  · exact .inl ⟨id, msg, he.symm⟩
  · right
    refine ⟨⟨before, rest, id, msg, hfront, fun id' hid' => ?_⟩, fun id' he' => ?_⟩
    · exact hbetween id' (List.mem_append_left _ hid')
    · exact hbetween id' (by simp [he'])

namespace Connection

variable {s : Connection σ ε} {out : Option ℕ}

@[simp] theorem setForwarder_self (s : Connection σ ε) (f : ℕ) (fwd : Forwarder) :
    (s.setForwarder f fwd).forwarder f = fwd := Function.update_self ..

theorem setForwarder_of_ne (s : Connection σ ε) {f g : ℕ} (hg : g ≠ f) (fwd : Forwarder) :
    (s.setForwarder f fwd).forwarder g = s.forwarder g := Function.update_of_ne hg ..

theorem setForwarder_key (s : Connection σ ε) {f : ℕ} {fwd : Forwarder}
    (hkey : fwd.key = (s.forwarder f).key) (g : ℕ) :
    ((s.setForwarder f fwd).forwarder g).key = (s.forwarder g).key := by
  by_cases hg : g = f
  · rw [hg, setForwarder_self, hkey]
  · rw [s.setForwarder_of_ne hg]

@[simp] theorem spawnEventForwarder_self (s : Connection σ ε) (key : LaneKey)
    (receiver : EventReceiver) :
    (s.spawnEventForwarder key receiver).forwarder s.nextForwarder =
      ⟨key, receiver, false, false⟩ := Function.update_self ..

theorem spawnEventForwarder_of_ne (s : Connection σ ε) (key : LaneKey) (receiver : EventReceiver)
    {g : ℕ} (hg : g ≠ s.nextForwarder) :
    (s.spawnEventForwarder key receiver).forwarder g = s.forwarder g := Function.update_of_ne hg ..

/-- Only an event can break the silence. -/
theorem KeepsSilence.concat (h : s.KeepsSilence) {s' : Connection σ ε} {e : LogEntry σ ε}
    (hlog : s'.log = s.log ++ [e])
    (he : ∀ key channel index event, e = .event key channel index event → ¬ Silent key s.log) :
    s'.KeepsSilence := by
  intro before after key channel index event hsplit
  rw [hlog] at hsplit
  obtain ⟨rfl, hlast, -⟩ | ⟨rest, -, hfront⟩ := Runs.split_concat hsplit
  · exact he key channel index event hlast.symm
  · exact h before rest key channel index event hfront

namespace Steady

/-- Nobody is on the way out once the forwarder has ended. -/
theorem settled (h : s.Steady out) (hout : ∀ f, out = some f → (s.forwarder f).done = true) :
    s.Steady none := by
  refine { h with running := fun f hf => ?_ }
  rcases h.running f hf with hlookup | hgone
  · exact .inl hlookup
  · cases hf.symm.trans (hout f hgone)

theorem reply (h : s.Steady out) {r : ServerRequest} (msg : ServerMessage σ ε)
    (hr : ∀ id key, r = .unsubscribe id key.1 key.2 → s.Unforwarded key) :
    Steady { s with log := s.log ++ [.reply r msg] } out := by
  refine { h with silent := fun key hkey => ?_, silence := h.silence.concat rfl nofun }
  rcases silent_concat hkey with ⟨id, msg', he⟩ | ⟨hold, -⟩
  · exact hr id key (LogEntry.reply.inj he).1
  · exact h.silent key hold

theorem request (h : s.Steady out) (r : ServerRequest) :
    Steady { s with log := s.log ++ [.request r] } out := by
  refine { h with silent := fun key hkey => ?_, silence := h.silence.concat rfl nofun }
  rcases silent_concat hkey with ⟨id, msg', he⟩ | ⟨hold, -⟩
  · cases he
  · exact h.silent key hold

/-- A forwarder goes on, or ends. -/
theorem setForwarder (h : s.Steady out) {f : ℕ} {fwd : Forwarder}
    (hkey : fwd.key = (s.forwarder f).key)
    (hchannel : fwd.receiver.channel = (s.forwarder f).receiver.channel)
    (hdone : fwd.done = false → (s.forwarder f).done = false) :
    (s.setForwarder f fwd).Steady out := by
  have hkeys := s.setForwarder_key hkey
  have hruns : ∀ g, ((s.setForwarder f fwd).forwarder g).done = false →
      (s.forwarder g).done = false := by
    intro g hrun
    by_cases hg : g = f
    · rw [hg, setForwarder_self] at hrun
      exact hg ▸ hdone hrun
    · rwa [s.setForwarder_of_ne hg] at hrun
  constructor
  · intro g hg
    by_contra hrun
    exact (Bool.eq_false_iff.mp (hruns g (Bool.eq_false_iff.mpr hrun))) (h.fresh g hg)
  · exact h.registered
  · intro key g hg
    rw [hkeys]
    exact h.subscribed key g hg
  · intro g hrun
    rw [hkeys]
    have hplaced := h.placed g (hruns g hrun)
    by_cases hg : g = f
    · rw [hg, setForwarder_self, ReceivesFor, hchannel]
      exact hg ▸ hplaced
    · rw [s.setForwarder_of_ne hg]
      exact hplaced
  · intro g hrun
    rw [hkeys]
    exact h.running g (hruns g hrun)
  · intro key hsilent g hrun
    rw [hkeys]
    exact h.silent key hsilent g (hruns g hrun)
  · exact h.silence

theorem spawnEventForwarder (h : s.Steady none) {key : LaneKey} {receiver : EventReceiver}
    (hkey : s.Unforwarded key) (hreceiver : s.ReceivesFor key receiver)
    (hawake : ¬ Silent key s.log) : (s.spawnEventForwarder key receiver).Steady none := by
  have hother : ∀ g, g ≠ s.nextForwarder →
      (s.spawnEventForwarder key receiver).forwarder g = s.forwarder g :=
    fun g hg => s.spawnEventForwarder_of_ne key receiver hg
  constructor
  · intro g hg
    rw [hother g (Nat.ne_of_gt hg)]
    exact h.fresh g (Nat.le_of_lt hg)
  · exact h.registered
  · intro key' g hg
    by_cases hsame : key' = key
    · rw [hsame, Connection.spawnEventForwarder, AList.lookup_insert] at hg
      rw [← Option.some.inj hg, spawnEventForwarder_self]
      exact ⟨Nat.lt_succ_self _, hsame.symm⟩
    · rw [Connection.spawnEventForwarder, AList.lookup_insert_ne hsame] at hg
      obtain ⟨hlt, hkey'⟩ := h.subscribed key' g hg
      rw [hother g hlt.ne]
      exact ⟨Nat.lt_succ_of_lt hlt, hkey'⟩
  · intro g hrun
    by_cases hg : g = s.nextForwarder
    · rw [hg, spawnEventForwarder_self]
      exact hreceiver
    · rw [hother g hg] at hrun ⊢
      exact h.placed g hrun
  · intro g hrun
    left
    by_cases hg : g = s.nextForwarder
    · rw [hg, spawnEventForwarder_self]
      exact AList.lookup_insert _
    · rw [hother g hg] at hrun ⊢
      have hlookup := (h.running g hrun).resolve_right nofun
      exact (AList.lookup_insert_ne (hkey g hrun)).trans hlookup
  · intro key' hsilent g hrun
    by_cases hg : g = s.nextForwarder
    · rw [hg, spawnEventForwarder_self]
      rintro rfl
      exact hawake hsilent
    · rw [hother g hg] at hrun ⊢
      exact h.silent key' hsilent g hrun
  · exact h.silence

/-- What is left of a lane without a subscription. -/
theorem unforwarded (h : s.Steady none) {key : LaneKey} (hkey : s.subscriptions.lookup key = none) :
    s.Unforwarded key := by
  rintro f hrun rfl
  have hlookup := (h.running f hrun).resolve_right nofun
  cases hkey.symm.trans hlookup

/-- A phase in which no request is worked on and no forwarder is awaited. -/
theorem sound (h : s.Steady none) (hstopped : s.phase.stopped? = none)
    (hawaited : s.phase.awaited? = none) (hrequest : s.phase.request? = none) : Sound s where
  toSteady := hstopped ▸ h
  stopping f next hphase := by
    rw [hphase] at hstopped
    cases hstopped
  awaited key receiver hreceiver := by cases hawaited.symm.trans hreceiver
  awake key hwakes := by
    obtain ⟨id, hid⟩ := hwakes
    cases hrequest.symm.trans hid

theorem sendMsg (h : s.Steady none) {r : ServerRequest} (msg : ServerMessage σ ε)
    {phase : ConnectionPhase} (hphase : phase = .reading ∨ phase = .closing)
    (hr : ∀ id key, r = .unsubscribe id key.1 key.2 → s.Unforwarded key) :
    Sound (s.sendMsg r msg phase) := by
  unfold Connection.sendMsg
  split_ifs
  · exact Steady.sound { h with } rfl rfl rfl
  · have hreplied := h.reply msg hr
    rcases hphase with rfl | rfl
    · exact Steady.sound { hreplied with } rfl rfl rfl
    · exact Steady.sound { hreplied with } rfl rfl rfl

theorem resume (h : s.Steady none) {next : Continuation}
    (hkey : ∀ key, next.key? = some key → s.Unforwarded key)
    (hawaited : ∀ key receiver, next.awaited? = some (key, receiver) →
      s.ReceivesFor key receiver)
    (hawake : ∀ id key, next.request? = some (.subscribe id key.1 key.2) → ¬ Silent key s.log) :
    Sound (s.resume next) := by
  cases next with
  | subscribe id key receiver =>
    exact (h.spawnEventForwarder (hkey key rfl) (hawaited key receiver rfl)
      (hawake id key rfl)).sendMsg _ (.inl rfl) nofun
  | unsubscribe id key =>
    refine h.sendMsg _ (.inl rfl) fun id' key' hr => ?_
    obtain ⟨-, h1, h2⟩ := ServerRequest.unsubscribe.inj hr
    exact hkey key' (congrArg some (Prod.ext h1 h2))
  | close => exact Steady.sound { h with } rfl rfl rfl

/-- The subscription goes, its forwarder is on the way out. -/
theorem cancel (h : s.Steady none) {key : LaneKey} {next : Continuation}
    (hkey : ∀ key', next.key? = some key' → key' = key)
    (hawaited : ∀ key receiver, next.awaited? = some (key, receiver) →
      s.ReceivesFor key receiver)
    (hawake : ∀ id key, next.request? = some (.subscribe id key.1 key.2) → ¬ Silent key s.log) :
    Sound (s.cancel key next) := by
  unfold Connection.cancel
  cases hlookup : s.subscriptions.lookup key with
  | none =>
    refine h.resume (fun key' hkey' => ?_) hawaited hawake
    rw [hkey key' hkey']
    exact h.unforwarded hlookup
  | some f =>
    have hfkey := (h.subscribed key f hlookup).2
    have herased : Steady { s with
        subscriptions := s.subscriptions.erase key
        phase := .stopping f next } (some f) := by
      refine { h with subscribed := fun key' g hg => ?_, running := fun g hrun => ?_ }
      · by_cases hsame : key' = key
        · rw [hsame, AList.lookup_erase] at hg
          cases hg
        · rw [AList.lookup_erase_ne hsame] at hg
          exact h.subscribed key' g hg
      · have hthere := (h.running g hrun).resolve_right nofun
        by_cases hsame : (s.forwarder g).key = key
        · right
          rw [hsame] at hthere
          exact hlookup.symm.trans hthere
        · left
          exact (AList.lookup_erase_ne hsame).trans hthere
    have hcancelled := herased.setForwarder (f := f)
      (show ({ s.forwarder f with cancelled := true } : Forwarder).key = _ from rfl) rfl id
    have hself : (Function.update s.forwarder f
        { s.forwarder f with cancelled := true } f).key = key := by
      rw [Function.update_self]
      exact hfkey
    exact {
      toSteady := hcancelled
      stopping := by
        intro g next' hphase
        obtain ⟨rfl, rfl⟩ := ConnectionPhase.stopping.inj hphase
        refine ⟨?_, fun key' hkey' => ?_⟩
        · refine Eq.trans ?_ (AList.lookup_erase key s.subscriptions)
          exact congrArg (s.subscriptions.erase key).lookup hself
        · exact hself.trans (hkey key' hkey').symm
      awaited := hawaited
      awake := by
        rintro key' ⟨id, hid⟩
        exact hawake id key' hid }

/-- The channels change, but for their lanes. -/
theorem setChannels (h : s.Steady out) {s' : Connection σ ε}
    (hforwarder : s'.forwarder = s.forwarder)
    (hnext : s'.nextForwarder = s.nextForwarder) (hsubs : s'.subscriptions = s.subscriptions)
    (hlog : s'.log = s.log)
    (hregistered : ∀ key c, s'.lanes.lookup key = some c →
      c < s'.nextChannel ∧ (s'.channel c).key = key)
    (hreceives : ∀ key receiver, s.ReceivesFor key receiver → s'.ReceivesFor key receiver) :
    s'.Steady out := by
  constructor
  · rw [hforwarder, hnext]
    exact h.fresh
  · exact hregistered
  · rw [hsubs, hnext, hforwarder]
    exact h.subscribed
  · rw [hforwarder]
    exact fun f hrun => hreceives _ _ (h.placed f hrun)
  · rw [hforwarder, hsubs]
    exact h.running
  · rw [hlog]
    intro key hsilent f hrun
    rw [hforwarder] at hrun ⊢
    exact h.silent key hsilent f hrun
  · intro before after key channel index event hsplit
    exact h.silence before after key channel index event (hlog.symm.trans hsplit)

end Steady

namespace Sound

theorem serve : Sound (serve : Connection σ ε) where
  fresh _ _ := rfl
  registered _ _ h := by cases h
  subscribed _ _ h := by cases h
  placed _ h := by cases h
  running _ h := by cases h
  silent key h := absurd h (not_silent_nil key)
  silence before after _ _ _ _ h := by simp [Connection.serve] at h
  stopping _ _ h := by cases h
  awaited _ _ h := by cases h
  awake key _ := not_silent_nil key

/-- Nothing changes for the subscriptions. -/
theorem congr (h : Sound s) {s' : Connection σ ε} (hforwarder : s'.forwarder = s.forwarder)
    (hnext : s'.nextForwarder = s.nextForwarder) (hsubs : s'.subscriptions = s.subscriptions)
    (hlog : s'.log = s.log) (hphase : s'.phase = s.phase)
    (hregistered : ∀ key c, s'.lanes.lookup key = some c →
      c < s'.nextChannel ∧ (s'.channel c).key = key)
    (hreceives : ∀ key receiver, s.ReceivesFor key receiver → s'.ReceivesFor key receiver) :
    Sound s' where
  toSteady := by
    rw [hphase]
    exact h.toSteady.setChannels hforwarder hnext hsubs hlog hregistered hreceives
  stopping := by
    rw [hphase, hforwarder, hsubs]
    exact h.stopping
  awaited key receiver hreceiver := by
    rw [hphase] at hreceiver
    exact hreceives key receiver (h.awaited key receiver hreceiver)
  awake := by
    rw [hphase, hlog]
    exact h.awake

/-- A channel changes, but for its lane. -/
theorem setChannel (h : Sound s) {c : ℕ} {ch : EventChannel ε} (hch : ch.key = (s.channel c).key) :
    Sound { s with channel := Function.update s.channel c ch } := by
  have hkeys : ∀ d, (Function.update s.channel c ch d).key = (s.channel d).key := by
    intro d
    by_cases hd : d = c
    · rw [hd, Function.update_self, hch]
    · rw [Function.update_of_ne hd]
  refine h.congr rfl rfl rfl rfl rfl (fun key d hd => ?_) fun key receiver hreceiver => ?_
  · exact (h.registered key d hd).imp_right (hkeys d).trans
  · exact hreceiver.imp_right (hkeys _).trans

theorem register (h : Sound s) (key : LaneKey) (capacity : ℕ) :
    Sound (s.step (.register key capacity)) := by
  have hself : (s.step (.register key capacity)).channel s.nextChannel =
      ⟨key, ⟨capacity, []⟩, false⟩ := Function.update_self ..
  have hother : ∀ d, d < s.nextChannel →
      (s.step (.register key capacity)).channel d = s.channel d :=
    fun d hd => Function.update_of_ne hd.ne ..
  refine h.congr rfl rfl rfl rfl rfl (fun key' d hd => ?_) fun key' receiver hreceiver => ?_
  · by_cases hkey : key' = key
    · rw [hkey, Connection.step, AList.lookup_insert] at hd
      rw [← Option.some.inj hd, hself]
      exact ⟨Nat.lt_succ_self _, hkey.symm⟩
    · rw [Connection.step, AList.lookup_insert_ne hkey] at hd
      obtain ⟨hlt, hkey'⟩ := h.registered key' d hd
      rw [hother d hlt]
      exact ⟨Nat.lt_succ_of_lt hlt, hkey'⟩
  · obtain ⟨hlt, hkey'⟩ := hreceiver
    rw [ReceivesFor, hother _ hlt]
    exact ⟨Nat.lt_succ_of_lt hlt, hkey'⟩

theorem unregister (h : Sound s) (key : LaneKey) : Sound (s.step (.unregister key)) := by
  refine h.congr rfl rfl rfl rfl rfl (fun key' c hc => ?_) fun _ _ hreceiver => hreceiver
  by_cases hkey : key' = key
  · rw [hkey, Connection.step, AList.lookup_erase] at hc
    cases hc
  · rw [Connection.step, AList.lookup_erase_ne hkey] at hc
    exact h.registered key' c hc

/-- A forwarder goes on, or ends. -/
theorem setForwarder (h : Sound s) {f : ℕ} {fwd : Forwarder}
    (hkey : fwd.key = (s.forwarder f).key)
    (hchannel : fwd.receiver.channel = (s.forwarder f).receiver.channel)
    (hdone : fwd.done = false → (s.forwarder f).done = false) : Sound (s.setForwarder f fwd) where
  toSteady := h.toSteady.setForwarder hkey hchannel hdone
  stopping g next hphase := by
    rw [s.setForwarder_key hkey]
    exact h.stopping g next hphase
  awaited := h.awaited
  awake := h.awake

/-- Two forwarders of one lane do not run at the same time. -/
theorem unique (h : Sound s) {f g : ℕ} (hf : (s.forwarder f).done = false)
    (hg : (s.forwarder g).done = false) (hkey : (s.forwarder f).key = (s.forwarder g).key) :
    f = g := by
  have hstopped : ∀ {f g : ℕ}, (s.forwarder f).key = (s.forwarder g).key →
      s.phase.stopped? = some f → s.subscriptions.lookup (s.forwarder g).key ≠ some g := by
    intro f g hkey hf hlookup
    cases hphase : s.phase with
    | stopping f' next =>
      rw [hphase] at hf
      obtain rfl := Option.some.inj hf
      have hnone := (h.stopping f' next hphase).1
      rw [hkey, hlookup] at hnone
      cases hnone
    | reading | dispatching _ | subscribing _ _ _ | closing | closed =>
      rw [hphase] at hf
      cases hf
  rcases h.running f hf with hf' | hf'
  · rcases h.running g hg with hg' | hg'
    · rw [hkey, hg'] at hf'
      exact (Option.some.inj hf').symm
    · exact absurd hf' (hstopped hkey.symm hg')
  · rcases h.running g hg with hg' | hg'
    · exact absurd hg' (hstopped hkey hf')
    · exact Option.some.inj (hf'.symm.trans hg')

theorem forward (h : Sound s) {f : ℕ} (hrun : (s.forwarder f).done = false) :
    Sound (s.forward f) := by
  have hmoved : ∀ next, Sound (s.setForwarder f { s.forwarder f with
      receiver := ⟨(s.forwarder f).receiver.channel, next⟩ }) :=
    fun next => h.setForwarder rfl rfl id
  simp only [Connection.forward]
  split
  · rename_i event next _
    split_ifs
    · exact hmoved next
    · have hawake : ¬ Silent (s.forwarder f).key s.log :=
        fun hsilent => h.silent _ hsilent f hrun rfl
      have hold : ∀ key, Silent key (s.log ++ [.event (s.forwarder f).key
          (s.forwarder f).receiver.channel (s.forwarder f).receiver.next event]) →
          Silent key s.log := by
        intro key hsilent
        rcases silent_concat hsilent with ⟨id, msg, he⟩ | ⟨hold, -⟩
        · cases he
        · exact hold
      have hsteady := (hmoved next).toSteady
      exact {
        toSteady := { hsteady with
          silent := fun key hsilent => hsteady.silent key (hold key hsilent)
          silence := by
            refine hsteady.silence.concat rfl fun key channel index event' he => ?_
            rw [← (LogEntry.event.inj he).1]
            exact hawake }
        stopping := (hmoved next).stopping
        awaited := h.awaited
        awake := fun key hwakes hsilent => h.awake key hwakes (hold key hsilent) }
  · exact hmoved _
  · exact h

/-- In front of the reply nobody is on the way out. -/
theorem dispatch (h : Sound s) {r : ServerRequest} (hphase : s.phase = .dispatching r)
    (o : Outcome σ) : Sound (s.dispatch o r) := by
  have hsteady : s.Steady none := by
    have hsteady := h.toSteady
    rwa [hphase] at hsteady
  have hclosing : ∀ {s' : Connection σ ε}, s'.Steady none → s'.phase = .closing → Sound s' :=
    fun h' hclosing => h'.sound (by rw [hclosing]; rfl) (by rw [hclosing]; rfl)
      (by rw [hclosing]; rfl)
  have hfactory : ∀ {s' : Connection σ ε} (factory : Bool) (msg : ServerMessage σ ε),
      s'.Steady none → (∀ id (key : LaneKey), r ≠ .unsubscribe id key.1 key.2) →
      Sound (s'.withFactory factory (s'.sendMsg r msg .reading)) := by
    intro s' factory msg h' hr
    cases factory with
    | true => exact h'.sendMsg msg (.inl rfl) fun id key hid => absurd hid (hr id key)
    | false => exact hclosing { h' with } rfl
  cases r with
  | createSession id sessionId =>
    cases sessionId with
    | none => exact hfactory s.storageFactory _ { hsteady with } (by simp)
    | some sessionId => exact hfactory s.storageFactory _ hsteady (by simp)
  | loadSession id sessionId => exact hfactory s.storageFactory _ hsteady (by simp)
  | spawnLane id sessionId laneId | forkLane id sessionId fromLane newLane =>
    exact hfactory s.runtimeFactory _ hsteady (by simp)
  | listSessions id | prompt id sessionId laneId messages | «continue» id sessionId laneId
  | abort id sessionId laneId | reset id sessionId laneId =>
    exact hsteady.sendMsg _ (.inl rfl) (by simp)
  | shutdown id => exact hsteady.sendMsg _ (.inr rfl) (by simp)
  | getSnapshot id sessionId laneId =>
    simp only [Connection.dispatch]
    cases s.lanes.lookup (sessionId, laneId) with
    | some c => exact hsteady.sendMsg _ (.inl rfl) (by simp)
    | none => exact hsteady.sendMsg _ (.inl rfl) (by simp)
  | subscribe id sessionId laneId =>
    simp only [Connection.dispatch]
    cases hlookup : s.lanes.lookup (sessionId, laneId) with
    | none => exact hsteady.sendMsg _ (.inl rfl) (by simp)
    | some c =>
      exact {
        toSteady := { hsteady with }
        stopping := fun _ _ hstopping => by cases hstopping
        awaited := by
          intro key receiver hreceiver
          obtain ⟨rfl, rfl⟩ := Prod.mk.inj (Option.some.inj hreceiver)
          exact h.registered _ c hlookup
        awake := by
          rintro key ⟨id', hid⟩
          exact h.awake key ⟨id', (congrArg ConnectionPhase.request? hphase).trans hid⟩ }
  | unsubscribe id sessionId laneId =>
    refine hsteady.cancel (fun key hkey => (Option.some.inj hkey).symm)
      (fun _ _ hreceiver => by cases hreceiver) fun id' key hid => ?_
    cases Option.some.inj hid

/-- The read loop goes on behind the forwarder that has ended. -/
theorem proceed (h : Sound s) : Sound (s.step .proceed) := by
  simp only [Connection.step]
  split
  · rename_i id key receiver hphase
    have hsteady := h.toSteady
    rw [hphase] at hsteady
    refine Steady.cancel hsteady (fun key' hkey' => (Option.some.inj hkey').symm) ?_ ?_
    · intro key' receiver' hreceiver
      exact h.awaited key' receiver' ((congrArg _ hphase).trans hreceiver)
    · intro id' key' hid
      exact h.awake key' ⟨id', (congrArg _ hphase).trans hid⟩
  · rename_i f next hphase
    split_ifs with hdone
    · have hsteady : s.Steady none := by
        refine h.toSteady.settled fun g hg => ?_
        rw [hphase] at hg
        exact Option.some.inj hg ▸ hdone
      obtain ⟨hnone, hkey⟩ := h.stopping f next hphase
      refine hsteady.resume (fun key hkey' => ?_) ?_ ?_
      · exact hsteady.unforwarded (hkey key hkey' ▸ hnone)
      · intro key receiver hreceiver
        exact h.awaited key receiver ((congrArg _ hphase).trans hreceiver)
      · intro id key hid
        exact h.awake key ⟨id, (congrArg _ hphase).trans hid⟩
    · exact h
  · rename_i hphase
    split_ifs
    · have hsteady := h.toSteady
      rw [hphase] at hsteady
      exact Steady.sound { hsteady with } rfl rfl rfl
    · exact h
  · exact h
  · exact h
  · exact h

theorem step (h : Sound s) (a : ConnectionAction σ ε) : Sound (s.step a) := by
  cases a with
  | withRuntimeFactory | withStorageFactory | takeSessionId =>
    exact h.congr rfl rfl rfl rfl rfl h.registered fun _ _ hreceiver => hreceiver
  | register key capacity => exact h.register key capacity
  | unregister key => exact h.unregister key
  | closeChannel c => exact h.setChannel rfl
  | emit c event =>
    simp only [Connection.step]
    split_ifs
    · exact h.setChannel rfl
    · exact h
  | request r =>
    simp only [Connection.step]
    split
    · rename_i hphase
      have hsteady := h.toSteady
      rw [hphase] at hsteady
      have hread := Steady.request hsteady r
      exact {
        toSteady := { hread with }
        stopping := fun _ _ hstopping => by cases hstopping
        awaited := fun _ _ hreceiver => by cases hreceiver
        awake := by
          rintro key ⟨id, hid⟩ hsilent
          rcases silent_concat hsilent with ⟨_, _, he⟩ | ⟨-, hr⟩
          · cases he
          · exact hr id (congrArg LogEntry.request (Option.some.inj hid)) }
    · exact h
  | dispatch o =>
    simp only [Connection.step]
    split
    · rename_i r hphase
      exact h.dispatch hphase o
    · exact h
  | proceed => exact h.proceed
  | endRead =>
    simp only [Connection.step]
    split
    · rename_i hphase
      have hsteady := h.toSteady
      rw [hphase] at hsteady
      exact Steady.sound { hsteady with } rfl rfl rfl
    · exact h
  | drain key =>
    simp only [Connection.step]
    split
    · rename_i hphase
      have hsteady := h.toSteady
      rw [hphase] at hsteady
      exact Steady.cancel hsteady (fun _ hkey => by cases hkey)
        (fun _ _ hreceiver => by cases hreceiver) fun _ _ hid => by cases hid
    · exact h
  | forward f =>
    simp only [Connection.step]
    split_ifs with hdone
    · exact h
    · exact h.forward (Bool.eq_false_iff.mpr hdone)
  | stop f =>
    simp only [Connection.step]
    split_ifs
    · exact h.setForwarder rfl rfl fun hdone => by cases hdone
    · exact h
  | write ok =>
    simp only [Connection.step]
    split_ifs
    · exact h.congr rfl rfl rfl rfl rfl h.registered fun _ _ hreceiver => hreceiver
    · exact h.congr rfl rfl rfl rfl rfl h.registered fun _ _ hreceiver => hreceiver
    · exact h
  | endWriter =>
    simp only [Connection.step]
    split_ifs
    · exact h.congr rfl rfl rfl rfl rfl h.registered fun _ _ hreceiver => hreceiver
    · exact h

end Sound

/-- A lane is silent from the answer to its `Unsubscribe` to the next `Subscribe`, in every run. -/
theorem keepsSilence_throughout (as : List (ConnectionAction σ ε)) :
    Runs.Throughout step KeepsSilence serve as := by
  have hstep : ∀ (s : Connection σ ε) a, Sound s → Sound (s.step a) := fun _ a h => h.step a
  have hprop : ∀ s : Connection σ ε, Sound s → s.KeepsSilence := fun _ h => h.silence
  exact Runs.always hstep hprop Sound.serve as

/-- The receiver is behind all that has been sent of its channel. -/
def Ahead (s : Connection σ ε) (receiver : EventReceiver) : Prop :=
  ∀ i, (receiver.channel, i) ∈ s.positions → i < receiver.next

structure Ordered (s : Connection σ ε) : Prop where
  sent : ∀ p ∈ s.positions, p.1 < s.nextChannel ∧ p.2 < (s.channel p.1).channel.sent.length
  running : ∀ f, (s.forwarder f).done = false → s.Ahead (s.forwarder f).receiver
  awaited : ∀ key receiver, s.phase.awaited? = some (key, receiver) → s.Ahead receiver
  once : s.positions.Nodup

namespace Ordered

theorem serve : Ordered (serve : Connection σ ε) where
  sent _ h := by cases h
  running _ h := by cases h
  awaited _ _ h := by cases h
  once := .nil

/-- No event is sent. -/
theorem congr (h : s.Ordered) {s' : Connection σ ε} (hpositions : s'.positions = s.positions)
    (hsent : ∀ c < s.nextChannel, c < s'.nextChannel ∧
      (s.channel c).channel.sent.length ≤ (s'.channel c).channel.sent.length)
    (hrunning : ∀ f, (s'.forwarder f).done = false → s.Ahead (s'.forwarder f).receiver)
    (hawaited : ∀ key receiver, s'.phase.awaited? = some (key, receiver) → s.Ahead receiver) :
    s'.Ordered := by
  have hahead : ∀ receiver, s.Ahead receiver → s'.Ahead receiver := by
    intro receiver hreceiver
    rw [Ahead, hpositions]
    exact hreceiver
  constructor
  · intro p hp
    rw [hpositions] at hp
    obtain ⟨hlt, hindex⟩ := h.sent p hp
    obtain ⟨hlt', hle⟩ := hsent p.1 hlt
    exact ⟨hlt', hindex.trans_le hle⟩
  · exact fun f hrun => hahead _ (hrunning f hrun)
  · exact fun key receiver hreceiver => hahead _ (hawaited key receiver hreceiver)
  · rw [hpositions]
    exact h.once

/-- The phase changes, and the log grows without an event. -/
theorem setPhase (h : s.Ordered) {phase : ConnectionPhase} {log : List (LogEntry σ ε)}
    (hlog : log.filterMap LogEntry.position? = s.positions)
    (hawaited : ∀ key receiver, phase.awaited? = some (key, receiver) → s.Ahead receiver) :
    Ordered { s with phase := phase, log := log } :=
  h.congr hlog (fun _ hc => ⟨hc, le_rfl⟩) h.running hawaited

theorem sendMsg (h : s.Ordered) (r : ServerRequest) (msg : ServerMessage σ ε)
    {phase : ConnectionPhase} (hphase : phase.awaited? = none) :
    (s.sendMsg r msg phase).Ordered := by
  unfold Connection.sendMsg
  split_ifs
  · exact h.setPhase rfl fun _ _ hreceiver => by cases hreceiver
  · refine h.setPhase ?_ fun key receiver hreceiver => ?_
    · rw [List.filterMap_append]
      exact List.append_nil s.positions
    · cases hphase.symm.trans hreceiver

theorem setForwarder (h : s.Ordered) {f : ℕ} {fwd : Forwarder}
    (hrunning : fwd.done = false → s.Ahead fwd.receiver) : (s.setForwarder f fwd).Ordered := by
  refine h.congr rfl (fun _ hc => ⟨hc, le_rfl⟩) (fun g hrun => ?_) h.awaited
  by_cases hg : g = f
  · rw [hg, setForwarder_self] at hrun ⊢
    exact hrunning hrun
  · rw [s.setForwarder_of_ne hg] at hrun ⊢
    exact h.running g hrun

theorem spawnEventForwarder (h : s.Ordered) (key : LaneKey) {receiver : EventReceiver}
    (hreceiver : s.Ahead receiver) : (s.spawnEventForwarder key receiver).Ordered := by
  refine h.congr rfl (fun _ hc => ⟨hc, le_rfl⟩) (fun g hrun => ?_) h.awaited
  by_cases hg : g = s.nextForwarder
  · rw [hg, spawnEventForwarder_self]
    exact hreceiver
  · rw [s.spawnEventForwarder_of_ne key receiver hg] at hrun ⊢
    exact h.running g hrun

theorem resume (h : s.Ordered) {next : Continuation}
    (hawaited : ∀ key receiver, next.awaited? = some (key, receiver) → s.Ahead receiver) :
    (s.resume next).Ordered := by
  cases next with
  | subscribe id key receiver =>
    exact (h.spawnEventForwarder key (hawaited key receiver rfl)).sendMsg _ _ rfl
  | unsubscribe id key => exact h.sendMsg _ _ rfl
  | close => exact h.setPhase rfl fun _ _ hreceiver => by cases hreceiver

theorem cancel (h : s.Ordered) (key : LaneKey) {next : Continuation}
    (hawaited : ∀ key receiver, next.awaited? = some (key, receiver) → s.Ahead receiver) :
    (s.cancel key next).Ordered := by
  unfold Connection.cancel
  cases s.subscriptions.lookup key with
  | none => exact h.resume hawaited
  | some f =>
    have hstopping : Ordered { s with
        subscriptions := s.subscriptions.erase key
        phase := .stopping f next } :=
      h.congr rfl (fun _ hc => ⟨hc, le_rfl⟩) h.running hawaited
    exact hstopping.setForwarder fun hrun => h.running f hrun

theorem withFactory {s' : Connection σ ε} (h : s.Ordered) (factory : Bool) (h' : s'.Ordered) :
    (s.withFactory factory s').Ordered := by
  cases factory with
  | true => exact h'
  | false => exact h.setPhase rfl fun _ _ hreceiver => by cases hreceiver

theorem dispatch (h : s.Ordered) (o : Outcome σ) (r : ServerRequest) :
    (s.dispatch o r).Ordered := by
  cases r with
  | createSession id sessionId =>
    cases sessionId with
    | none =>
      have htaken : Ordered { s with nextSessionId := s.nextSessionId + 1 } := { h with }
      exact htaken.withFactory _ (htaken.sendMsg _ _ rfl)
    | some sessionId => exact h.withFactory _ (h.sendMsg _ _ rfl)
  | loadSession id sessionId => exact h.withFactory _ (h.sendMsg _ _ rfl)
  | spawnLane id sessionId laneId | forkLane id sessionId fromLane newLane =>
    exact h.withFactory _ (h.sendMsg _ _ rfl)
  | listSessions id | prompt id sessionId laneId messages | «continue» id sessionId laneId
  | abort id sessionId laneId | reset id sessionId laneId | shutdown id =>
    exact h.sendMsg _ _ rfl
  | getSnapshot id sessionId laneId =>
    simp only [Connection.dispatch]
    cases s.lanes.lookup (sessionId, laneId) with
    | some c => exact h.sendMsg _ _ rfl
    | none => exact h.sendMsg _ _ rfl
  | subscribe id sessionId laneId =>
    simp only [Connection.dispatch]
    cases s.lanes.lookup (sessionId, laneId) with
    | some c =>
      refine h.setPhase rfl fun key receiver hreceiver => ?_
      obtain ⟨-, rfl⟩ := Prod.mk.inj (Option.some.inj hreceiver)
      exact fun i hi => (h.sent _ hi).2
    | none => exact h.sendMsg _ _ rfl
  | unsubscribe id sessionId laneId => exact h.cancel _ fun _ _ hreceiver => by cases hreceiver

/-- A forwarder sends the next event of its channel, and no other receiver of the channel has still
to get it. -/
theorem forward (h : s.Ordered) (hsound : Sound s) {f : ℕ} (hrun : (s.forwarder f).done = false)
    (hreplaced : s.Replaced (.forward f)) : (s.forward f).Ordered := by
  have hahead := h.running f hrun
  simp only [Connection.forward]
  split
  · rename_i event next hreceived
    obtain ⟨hnext, hlength⟩ : next = (s.forwarder f).receiver.next + 1 ∧
        (s.forwarder f).receiver.next <
          (s.channel (s.forwarder f).receiver.channel).channel.sent.length := by
      rcases Broadcast.Channel.recv_cases (s.channel (s.forwarder f).receiver.channel).channel
        (s.forwarder f).receiver.next with ⟨a, hr, hle, -⟩ | ⟨_, hr, -⟩ | hr
      · cases hr.symm.trans hreceived
        exact ⟨rfl, hle⟩
      · cases hr.symm.trans hreceived
      · cases hr.symm.trans hreceived
    have hmoved : (s.setForwarder f { s.forwarder f with
        receiver := ⟨(s.forwarder f).receiver.channel, next⟩ }).Ordered := by
      refine h.setForwarder fun _ i hi => ?_
      rw [hnext]
      exact Nat.lt_succ_of_lt (hahead i hi)
    split_ifs
    · exact hmoved
    · have hpositions : (s.log ++ [LogEntry.event (s.forwarder f).key
          (s.forwarder f).receiver.channel (s.forwarder f).receiver.next event]).filterMap
          LogEntry.position? =
          s.positions ++ [((s.forwarder f).receiver.channel, (s.forwarder f).receiver.next)] :=
        List.filterMap_append
      have hother : ∀ {receiver : EventReceiver}, s.Ahead receiver →
          (receiver.channel = (s.forwarder f).receiver.channel →
            (s.forwarder f).receiver.next < receiver.next) →
          ∀ i, (receiver.channel, i) ∈ s.positions ++
            [((s.forwarder f).receiver.channel, (s.forwarder f).receiver.next)] →
            i < receiver.next := by
        intro receiver hreceiver hchannel i hi
        rcases List.mem_append.mp hi with hi | hi
        · exact hreceiver i hi
        · obtain ⟨hc, rfl⟩ := Prod.mk.inj (List.mem_singleton.mp hi)
          exact hchannel hc
      constructor
      · intro p hp
        rw [positions, hpositions] at hp
        rcases List.mem_append.mp hp with hp | hp
        · exact h.sent p hp
        · rw [List.mem_singleton.mp hp]
          exact ⟨(hsound.placed f hrun).1, hlength⟩
      · intro g hg
        rw [Ahead, positions, hpositions]
        refine hother (hmoved.running g hg) fun hchannel => ?_
        by_cases hgf : g = f
        · have hself : (Function.update s.forwarder f { s.forwarder f with
              receiver := ⟨(s.forwarder f).receiver.channel, next⟩ } g).receiver.next = next := by
            rw [hgf, Function.update_self]
          exact (Nat.lt_succ_self _).trans_eq (hnext.symm.trans hself.symm)
        · -- another forwarder of the channel would be one of the same lane
          have hsame := s.setForwarder_of_ne hgf { s.forwarder f with
            receiver := ⟨(s.forwarder f).receiver.channel, next⟩ }
          have hrun' : (s.forwarder g).done = false := (congrArg Forwarder.done hsame).symm.trans hg
          have hchannel' : (s.forwarder g).receiver.channel =
              (s.forwarder f).receiver.channel :=
            (congrArg (fun fwd => fwd.receiver.channel) hsame).symm.trans hchannel
          refine absurd (hsound.unique hrun' hrun ?_) hgf
          rw [← (hsound.placed g hrun').2, hchannel', (hsound.placed f hrun).2]
      · intro key receiver hreceiver
        rw [Ahead, positions, hpositions]
        refine hother (h.awaited key receiver hreceiver) fun hchannel => ?_
        have hawaited : s.phase.awaited? = some (key, receiver) := hreceiver
        have hfree : s.overlaps (.forward f) = false := hreplaced
        simp only [overlaps, hawaited, hreceived, hrun, hchannel, Bool.not_false, decide_true,
          Bool.true_and, decide_eq_false_iff_not, not_le] at hfree
        exact hfree
      · rw [positions, hpositions]
        refine h.once.append (List.nodup_singleton _) ?_
        intro p hp hp'
        rw [List.mem_singleton.mp hp'] at hp
        exact (hahead _ hp).false
  · rename_i missed next hreceived
    refine h.setForwarder fun _ i hi => (hahead i hi).trans_le ?_
    have hforth := Broadcast.Channel.le_recv
      (s.channel (s.forwarder f).receiver.channel).channel (s.forwarder f).receiver.next
    exact hforth.trans_eq (congrArg Prod.snd hreceived)
  · exact h

theorem step (h : s.Ordered) (hsound : Sound s) (a : ConnectionAction σ ε)
    (hreplaced : s.Replaced a) : (s.step a).Ordered := by
  cases a with
  | withRuntimeFactory | withStorageFactory | takeSessionId | unregister key => exact { h with }
  | register key capacity =>
    refine h.congr rfl (fun c hc => ⟨Nat.lt_succ_of_lt hc, ?_⟩) h.running h.awaited
    simp only [Connection.step]
    rw [Function.update_of_ne hc.ne]
  | closeChannel c =>
    refine h.congr rfl (fun d hd => ⟨hd, ?_⟩) h.running h.awaited
    simp only [Connection.step]
    by_cases hdc : d = c
    · rw [hdc, Function.update_self]
    · rw [Function.update_of_ne hdc]
  | emit c event =>
    simp only [Connection.step]
    split_ifs
    · refine h.congr rfl (fun d hd => ⟨hd, ?_⟩) h.running h.awaited
      simp only
      by_cases hdc : d = c
      · rw [hdc, Function.update_self, Broadcast.Channel.send, List.length_append]
        exact Nat.le_add_right ..
      · rw [Function.update_of_ne hdc]
    · exact h
  | request r =>
    simp only [Connection.step]
    split
    · refine h.setPhase ?_ fun _ _ hreceiver => by cases hreceiver
      rw [List.filterMap_append]
      exact List.append_nil s.positions
    · exact h
  | dispatch o =>
    simp only [Connection.step]
    split
    · exact h.dispatch o _
    · exact h
  | proceed =>
    simp only [Connection.step]
    split
    · rename_i id key receiver hphase
      refine h.cancel key fun key' receiver' hreceiver => ?_
      exact h.awaited key' receiver' ((congrArg _ hphase).trans hreceiver)
    · rename_i f next hphase
      split_ifs
      · refine h.resume fun key receiver hreceiver => ?_
        exact h.awaited key receiver ((congrArg _ hphase).trans hreceiver)
      · exact h
    · split_ifs
      · exact h.setPhase rfl fun _ _ hreceiver => by cases hreceiver
      · exact h
    · exact h
    · exact h
    · exact h
  | endRead =>
    simp only [Connection.step]
    split
    · exact h.setPhase rfl fun _ _ hreceiver => by cases hreceiver
    · exact h
  | drain key =>
    simp only [Connection.step]
    split
    · exact h.cancel key fun _ _ hreceiver => by cases hreceiver
    · exact h
  | forward f =>
    simp only [Connection.step]
    split_ifs with hdone
    · exact h
    · exact h.forward hsound (Bool.eq_false_iff.mpr hdone) hreplaced
  | stop f =>
    simp only [Connection.step]
    split_ifs
    · exact h.setForwarder fun hdone => by cases hdone
    · exact h
  | write ok =>
    simp only [Connection.step]
    split_ifs
    · exact { h with }
    · exact { h with }
    · exact h
  | endWriter =>
    simp only [Connection.step]
    split_ifs
    · exact { h with }
    · exact h

end Ordered

/-- What has been written is among what has been sent. -/
theorem delivered_sublist (s : Connection σ ε) : s.delivered.Sublist s.positions :=
  ((List.take_sublist ..).trans List.filter_sublist).filterMap _

/-- As long as no forwarder that is replaced sends an event that its successor gets too, no event
is written twice; silent lanes are silent anyway. -/
theorem deliversOnce_throughout {as : List (ConnectionAction σ ε)}
    (h : Runs.Along step Replaced serve as) :
    Runs.Throughout step (fun s => s.DeliversOnce ∧ s.KeepsSilence) serve as := by
  have hstep : ∀ (s : Connection σ ε) a, Sound s ∧ s.Ordered → s.Replaced a →
      Sound (s.step a) ∧ (s.step a).Ordered :=
    fun s a hs hreplaced => ⟨hs.1.step a, hs.2.step hs.1 a hreplaced⟩
  have hprop : ∀ s : Connection σ ε, Sound s ∧ s.Ordered → s.DeliversOnce ∧ s.KeepsSilence :=
    fun s hs => ⟨hs.2.once.sublist s.delivered_sublist, hs.1.silence⟩
  exact Runs.throughout hstep hprop ⟨.serve, .serve⟩ h

/-- A lane is subscribed to, its event is forwarded and written, and it is subscribed to again. -/
def resubscription : List (ConnectionAction Unit Unit) :=
  [.register ("s", "main") 128, .request (.subscribe 1 "s" "main"), .dispatch ⟨.ok (), [], ()⟩,
    .proceed, .emit 0 (), .forward 0, .request (.subscribe 2 "s" "main"),
    .dispatch ⟨.ok (), [], ()⟩, .proceed, .stop 0, .proceed, .emit 0 (), .forward 1, .write true,
    .write true, .write true, .write true]

theorem resubscription_delivers :
    Runs.Throughout step (fun s => s.DeliversOnce ∧ s.KeepsSilence) serve resubscription :=
  deliversOnce_throughout (by decide +kernel)

/-- The same, but the event comes between the new receiver and the end of the old forwarder. -/
def overlappingSubscriptions : List (ConnectionAction Unit Unit) :=
  [.register ("s", "main") 128, .request (.subscribe 1 "s" "main"), .dispatch ⟨.ok (), [], ()⟩,
    .proceed, .request (.subscribe 2 "s" "main"), .dispatch ⟨.ok (), [], ()⟩, .emit 0 (),
    .forward 0, .proceed, .stop 0, .proceed, .forward 1, .write true, .write true, .write true,
    .write true]

/-- The event is forwarded by both, and written twice. -/
theorem overlapping_delivers_twice :
    ¬ ∀ as : List (ConnectionAction Unit Unit),
      Runs.Throughout step (fun s => s.DeliversOnce ∧ s.KeepsSilence) serve as := by
  intro h
  have htwice : ¬ (Runs.run step serve overlappingSubscriptions).DeliversOnce := by
    unfold DeliversOnce
    decide +kernel
  exact htwice (h overlappingSubscriptions).last.1

end Connection

end Guigu.Server
