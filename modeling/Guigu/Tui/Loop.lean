import Guigu.Library.Runs
import Guigu.Tui.Input

/-! The event loop of the terminal interface and the task that runs its commands. -/
namespace Guigu.Tui

/-- The keys that are told from the others. -/
inductive KeyCode where
  | char (c : Char)
  | enter
  | backspace
  | up
  | down
  | pageUp
  | pageDown
  | esc
  | other
  deriving DecidableEq, Repr

structure KeyEvent where
  code : KeyCode
  control : Bool
  deriving DecidableEq, Repr

def fromCrossterm (event : KeyEvent) : Key :=
  if event.control then
    match event.code with
    | .char 'c' => .ctrlC
    | _ => .other
  else
    match event.code with
    | .char c => .char c
    | .enter => .enter
    | .backspace => .backspace
    | .up => .up
    | .down => .down
    | .pageUp => .pageUp
    | .pageDown => .pageDown
    | .esc => .esc
    | .other => .other

inductive ReaderEvent where
  | key (event : KeyEvent)
  | error (reason : String)
  deriving DecidableEq, Repr

inductive TuiCommand where
  | prompt (messages : List Message)
  | abort
  deriving DecidableEq, Repr

inductive CommandResult where
  | promptAccepted
  | promptFailed (error : String)
  deriving DecidableEq, Repr

/-- What the subscription yields. -/
inductive EventReceipt where
  | event (e : AgentEvent)
  | lagged
  | closed

/-- What one turn of the loop takes up. -/
inductive Selected where
  | key (input : Option ReaderEvent)
  | event (receipt : EventReceipt)
  | result
  | tick

inductive Looping where
  | looping
  | ended (result : Except String Unit)
  | panicked

inductive CommandTask where
  | waiting
  | calling (command : TuiCommand)
  | exited

/-- What the loop has done. -/
inductive LoopEvent where
  | submitted (prompt : List Char)
  | aborted
  | applied (event : AgentEvent)
  | answered (result : CommandResult)

structure TuiLoop where
  ui : TuiInput
  loop : Looping
  commands : List TuiCommand
  task : CommandTask
  results : List CommandResult
  /-- The calls of the server that have returned. -/
  returned : List (TuiCommand × Except String Unit)
  log : List LoopEvent

/-- What the loop, the command task or the end of the program does next. -/
inductive LoopAction where
  /-- The loop takes something up and draws. -/
  | turn (selected : Selected) (drawn : Except String Unit)
  | call
  | ret (result : Except String Unit)
  /-- The call panics. -/
  | taskPanics
  /-- The command task is aborted once the loop is ended. -/
  | stop

def promptOf (text : List Char) : TuiCommand :=
  .prompt [.user ⟨[.text (String.ofList text)], 0⟩]

namespace LoopEvent

def prompt? : LoopEvent → Option (List Char)
  | .submitted text => some text
  | .aborted | .applied _ | .answered _ => none

def command? : LoopEvent → Option TuiCommand
  | .submitted text => some (promptOf text)
  | .aborted => some .abort
  | .applied _ | .answered _ => none

def event? : LoopEvent → Option AgentEvent
  | .applied event => some event
  | .submitted _ | .aborted | .answered _ => none

def result? : LoopEvent → Option CommandResult
  | .answered result => some result
  | .submitted _ | .aborted | .applied _ => none

end LoopEvent

/-- The call that the task is in. -/
def CommandTask.current : CommandTask → List TuiCommand
  | .calling command => [command]
  | .waiting | .exited => []

def CommandTask.live : CommandTask → Bool
  | .exited => false
  | .waiting | .calling _ => true

/-- What the loop is told of a call that has returned. -/
def commandResult? : TuiCommand × Except String Unit → Option CommandResult
  | (.prompt _, .ok ()) => some .promptAccepted
  | (.prompt _, .error e) => some (.promptFailed e)
  | (.abort, _) => none

namespace TuiLoop

/-- The interface when its loop begins. -/
def start : TuiLoop := ⟨.new, .looping, [], .waiting, [], [], []⟩

def fail (ui : TuiInput) (error : String) : TuiInput :=
  { ui with state := { ui.state with error := some error, status := .error } }

/-- A command that is sent to a task that has exited is lost. -/
def send (s : TuiLoop) (command : TuiCommand) : TuiLoop :=
  if s.task.live then { s with commands := s.commands ++ [command] } else s

/-- What the loop does about a key that has been handled. -/
def act (s : TuiLoop) : KeyAction → TuiLoop
  | .none => s
  | .submit prompt =>
    let s : TuiLoop := { s with log := s.log ++ [.submitted prompt] }
    if s.task.live then s.send (promptOf prompt)
    else { s with ui := fail s.ui "command task exited" }
  | .abort =>
    let s : TuiLoop := { s with log := s.log ++ [.aborted] }
    s.send .abort
  | .exit => { s with loop := .ended (.ok ()) }

def select (s : TuiLoop) : Selected → TuiLoop
  | .key (some (.key event)) =>
    match s.ui.handleKey (fromCrossterm event) with
    | some (action, ui) => { s with ui := ui }.act action
    | none => { s with loop := .panicked }
  | .key (some (.error reason)) =>
    { s with ui := fail s.ui reason, loop := .ended (.error reason) }
  | .key none => { s with loop := .ended (.ok ()) }
  | .event (.event e) =>
    { s with
      ui := { s.ui with state := applyEvent s.ui.state e }
      log := s.log ++ [.applied e] }
  | .event .lagged => s
  | .event .closed => { s with loop := .ended (.ok ()) }
  | .result =>
    match s.results with
    | result :: results =>
      let s : TuiLoop := { s with results := results, log := s.log ++ [.answered result] }
      match result with
      | .promptFailed error => { s with ui := fail s.ui error }
      | .promptAccepted => s
    | [] => s
  | .tick => s

/-- A loop that still runs ends when it cannot draw. -/
def draw (s : TuiLoop) (drawn : Except String Unit) : TuiLoop :=
  match s.loop, drawn with
  | .looping, .error error => { s with loop := .ended (.error error) }
  | .looping, .ok () | .ended _, _ | .panicked, _ => s

def step (s : TuiLoop) : LoopAction → TuiLoop
  | .turn selected drawn =>
    match s.loop with
    | .looping => (s.select selected).draw drawn
    | .ended _ | .panicked => s
  | .call =>
    match s.task, s.commands with
    | .waiting, command :: commands =>
      { s with task := .calling command, commands := commands }
    | .waiting, [] | .calling _, _ | .exited, _ => s
  | .ret result =>
    match s.task with
    | .calling command =>
      { s with
        task := .waiting
        returned := s.returned ++ [(command, result)]
        results := s.results ++ (commandResult? (command, result)).toList }
    | .waiting | .exited => s
  | .taskPanics =>
    match s.task with
    | .calling _ => { s with task := .exited, commands := [] }
    | .waiting | .exited => s
  | .stop =>
    match s.loop with
    | .ended _ => { s with task := .exited, commands := [] }
    | .looping | .panicked => s

end TuiLoop

/-! ### What an event changes -/

namespace TuiState

/-- The two show the same conversation. -/
structure SameShown (s t : TuiState) : Prop where
  conv : s.conv = t.conv
  streaming : s.streaming = t.streaming
  usage : s.usage = t.usage

namespace SameShown

variable {s t : TuiState}

theorem finalizeStreaming (h : SameShown s t) :
    SameShown s.finalizeStreaming t.finalizeStreaming := by
  unfold TuiState.finalizeStreaming
  rw [h.streaming]
  cases t.streaming with
  | none => exact h
  | some bubble =>
    dsimp only
    split_ifs
    · exact ⟨h.conv, rfl, h.usage⟩
    · exact ⟨congrArg (· ++ _) h.conv, rfl, h.usage⟩

theorem updateToolCard (h : SameShown s t) (id : String) (f : ToolCard → ToolCard) :
    SameShown (s.updateToolCard id f) (t.updateToolCard id f) := by
  unfold TuiState.updateToolCard
  rw [h.conv]
  cases changeToolCard id f t.conv with
  | none => exact h
  | some conv => exact ⟨rfl, h.streaming, h.usage⟩

theorem upsertToolCard (h : SameShown s t) (id name args : String) (status : ToolCardStatus) :
    SameShown (s.upsertToolCard id name args status) (t.upsertToolCard id name args status) := by
  unfold TuiState.upsertToolCard
  rw [h.conv]
  cases changeToolCard id (fun card => { card with name := name, args := args, status := status })
      t.conv with
  | none => exact ⟨rfl, h.streaming, h.usage⟩
  | some conv => exact ⟨rfl, h.streaming, h.usage⟩

theorem applyUpdate (h : SameShown s t) (update : AssistantEvent) :
    SameShown (applyUpdate s update) (applyUpdate t update) := by
  cases update with
  | textDelta | thinkingDelta =>
    refine ⟨h.conv, ?_, h.usage⟩
    unfold Tui.applyUpdate
    dsimp only
    rw [h.streaming]
  | toolCallStart id name arguments => exact h.upsertToolCard id name arguments .running
  | toolCallDelta id argumentsDelta => exact h.updateToolCard id _
  | toolCallEnd | done => exact h
  | error message aborted =>
    have hfailed : SameShown { s with error := some message, status := .error }
        { t with error := some message, status := .error } := ⟨h.conv, h.streaming, h.usage⟩
    exact hfailed.finalizeStreaming

/-- An event changes the conversation as it is shown, whatever else the state holds. -/
theorem applyEvent (h : SameShown s t) (e : AgentEvent) :
    SameShown (applyEvent s e) (applyEvent t e) := by
  cases e with
  | agentStart => exact ⟨h.conv, h.streaming, h.usage⟩
  | agentEnd messages =>
    have hend := h.finalizeStreaming
    exact ⟨hend.conv, hend.streaming, hend.usage⟩
  | turnStart => exact h
  | turnEnd => exact h.finalizeStreaming
  | messageStart message =>
    cases message with
    | user user => exact ⟨congrArg (· ++ _) h.conv, h.streaming, h.usage⟩
    | assistant assistant => exact ⟨h.conv, rfl, h.usage⟩
    | toolResult result => exact h
  | messageUpdate message update => exact h.applyUpdate update
  | messageEnd message =>
    cases message with
    | assistant assistant =>
      have hused : SameShown { s with usage := assistant.usage.or s.usage }
          { t with usage := assistant.usage.or t.usage } :=
        ⟨h.conv, h.streaming, congrArg assistant.usage.or h.usage⟩
      exact hused.finalizeStreaming
    | user | toolResult => exact h
  | toolExecutionStart toolCallId toolName args =>
    exact h.upsertToolCard toolCallId toolName _ .running
  | toolExecutionUpdate toolCallId => exact h.updateToolCard toolCallId _
  | toolExecutionEnd toolCallId => exact h.updateToolCard toolCallId _

end SameShown

/-- A run that can be aborted is being shown. -/
def Abortable (s : TuiState) : Prop := s.status = .running ∧ s.abortRequested = false

theorem Abortable.finalizeStreaming {s : TuiState} (h : s.finalizeStreaming.Abortable) :
    s.Abortable := by
  unfold TuiState.finalizeStreaming at h
  split at h
  · split_ifs at h <;> exact h
  · exact h

theorem Abortable.updateToolCard {s : TuiState} {id : String} {f : ToolCard → ToolCard}
    (h : (s.updateToolCard id f).Abortable) : s.Abortable := by
  unfold TuiState.updateToolCard at h
  split at h <;> exact h

theorem Abortable.upsertToolCard {s : TuiState} {id name args : String} {status : ToolCardStatus}
    (h : (s.upsertToolCard id name args status).Abortable) : s.Abortable := by
  unfold TuiState.upsertToolCard at h
  split at h <;> exact h

theorem Abortable.applyUpdate {s : TuiState} {update : AssistantEvent}
    (h : (applyUpdate s update).Abortable) : s.Abortable := by
  cases update with
  | textDelta | thinkingDelta | toolCallEnd | done => exact h
  | toolCallStart => exact h.upsertToolCard
  | toolCallDelta => exact h.updateToolCard
  | error =>
    obtain ⟨hrunning, -⟩ := h.finalizeStreaming
    cases hrunning

end TuiState

namespace LoopEvent

/-- A run begins or ends here, or is aborted. -/
def delimits : LoopEvent → Bool
  | .aborted | .applied .agentStart | .applied (.agentEnd _) => true
  | .submitted _ | .applied _ | .answered _ => false

end LoopEvent

/-- Only the start of a run makes a run abortable, and its end leaves none. -/
theorem TuiState.Abortable.applyEvent {s : TuiState} {e : AgentEvent}
    (h : (applyEvent s e).Abortable) :
    e = .agentStart ∨ s.Abortable ∧ (LoopEvent.applied e).delimits = false := by
  cases e with
  | agentStart => exact .inl rfl
  | agentEnd =>
    obtain ⟨hrunning, -⟩ := h
    cases hrunning
  | turnStart => exact .inr ⟨h, rfl⟩
  | turnEnd => exact .inr ⟨h.finalizeStreaming, rfl⟩
  | messageStart message =>
    refine .inr ⟨?_, rfl⟩
    cases message <;> exact h
  | messageUpdate => exact .inr ⟨h.applyUpdate, rfl⟩
  | messageEnd message =>
    refine .inr ⟨?_, rfl⟩
    cases message with
    | assistant => exact h.finalizeStreaming
    | user | toolResult => exact h
  | toolExecutionStart => exact .inr ⟨h.upsertToolCard, rfl⟩
  | toolExecutionUpdate => exact .inr ⟨h.updateToolCard, rfl⟩
  | toolExecutionEnd => exact .inr ⟨h.updateToolCard, rfl⟩

/-! ### What holds all along -/

/-- A run has begun in the log that has not ended and has not been aborted. -/
def RunUnaborted (log : List LoopEvent) : Prop :=
  ∃ early late, log = early ++ .applied .agentStart :: late ∧ ∀ e ∈ late, e.delimits = false

theorem RunUnaborted.push {log : List LoopEvent} (h : RunUnaborted log) {e : LoopEvent}
    (he : e.delimits = false) : RunUnaborted (log ++ [e]) := by
  obtain ⟨early, late, rfl, hlate⟩ := h
  refine ⟨early, late ++ [e], by rw [List.append_assoc, List.cons_append], ?_⟩
  intro e' he'
  obtain he' | he' := List.mem_append.mp he'
  · exact hlate e' he'
  · rw [List.mem_singleton.mp he']
    exact he

namespace TuiLoop

/-- The commands that have been taken from the loop, in their order. -/
def sent (s : TuiLoop) : List TuiCommand :=
  s.returned.map Prod.fst ++ s.task.current ++ s.commands

section Send

variable (s : TuiLoop) (command : TuiCommand)

@[simp] theorem send_ui : (s.send command).ui = s.ui := by unfold send; split_ifs <;> rfl

@[simp] theorem send_loop : (s.send command).loop = s.loop := by unfold send; split_ifs <;> rfl

@[simp] theorem send_task : (s.send command).task = s.task := by unfold send; split_ifs <;> rfl

@[simp] theorem send_results : (s.send command).results = s.results := by
  unfold send; split_ifs <;> rfl

@[simp] theorem send_returned : (s.send command).returned = s.returned := by
  unfold send; split_ifs <;> rfl

@[simp] theorem send_log : (s.send command).log = s.log := by unfold send; split_ifs <;> rfl

theorem send_sent : (s.send command).sent =
    s.sent ++ if s.task.live then [command] else [] := by
  unfold send sent
  split_ifs
  · exact (List.append_assoc _ _ _).symm
  · exact (List.append_nil _).symm

end Send

structure Orderly (s : TuiLoop) : Prop where
  steady : s.loop ≠ .panicked
  input : s.ui.Valid
  history : s.ui.history = s.log.filterMap LoopEvent.prompt?
  inOrder : s.sent <+: s.log.filterMap LoopEvent.command?
  complete : s.task.live = true → s.sent = s.log.filterMap LoopEvent.command?
  answers : s.returned.filterMap commandResult? = s.log.filterMap LoopEvent.result? ++ s.results
  shown : s.ui.state.SameShown ((s.log.filterMap LoopEvent.event?).foldl applyEvent .new)
  abortable : s.ui.state.Abortable → RunUnaborted s.log
  /-- Every abort has a run of its own. -/
  aborts : ∀ before after, s.log = before ++ .aborted :: after → RunUnaborted before

namespace Orderly

variable {s : TuiLoop}

theorem start : Orderly .start where
  steady := by intro h; cases h
  input := .of_cursor rfl (fun _ h => absurd h List.not_mem_nil)
  history := rfl
  inOrder := List.prefix_refl []
  complete _ := rfl
  answers := rfl
  shown := ⟨rfl, rfl, rfl⟩
  abortable h := by
    obtain ⟨hrunning, -⟩ := h
    cases hrunning
  aborts before after h := by
    have hlen := congrArg List.length h
    rw [List.length_append, List.length_cons] at hlen
    exact absurd hlen (by rw [TuiLoop.start, List.length_nil]; omega)

/-- An abort in the log that has grown by something else is one of before. -/
theorem aborts_push (h : Orderly s) {e : LoopEvent} (he : e ≠ .aborted) :
    ∀ before after, s.log ++ [e] = before ++ .aborted :: after → RunUnaborted before := by
  intro before after hlog
  obtain ⟨-, heq, -⟩ | ⟨rest, rfl, hold⟩ := Runs.split_concat hlog
  · exact absurd heq.symm he
  · exact h.aborts before rest hold

/-- The input line may be edited, and the interface scrolled. -/
theorem edited (h : Orderly s) {ui : TuiInput} (hvalid : ui.Valid)
    (hhistory : ui.history = s.ui.history) (hshown : ui.state.SameShown s.ui.state)
    (habortable : ui.state.Abortable → s.ui.state.Abortable) : Orderly { s with ui := ui } where
  steady := h.steady
  input := hvalid
  history := hhistory.trans h.history
  inOrder := h.inOrder
  complete := h.complete
  answers := h.answers
  shown := ⟨hshown.conv.trans h.shown.conv, hshown.streaming.trans h.shown.streaming,
    hshown.usage.trans h.shown.usage⟩
  abortable hs := h.abortable (habortable hs)
  aborts := h.aborts

theorem fail (h : Orderly s) (error : String) : Orderly { s with ui := fail s.ui error } := by
  refine h.edited ⟨h.input.recalled, h.input.submitted⟩ rfl ⟨rfl, rfl, rfl⟩ ?_
  rintro ⟨hrunning, -⟩
  cases hrunning

theorem ended (h : Orderly s) (result : Except String Unit) :
    Orderly { s with loop := .ended result } :=
  { h with steady := fun heq => by cases heq }

/-- A command is logged, and sent unless the task has exited. -/
theorem command (h : Orderly s) {e : LoopEvent} {command : TuiCommand} {ui : TuiInput}
    (he : e.command? = some command) (hvalid : ui.Valid)
    (hhistory : ui.history = s.ui.history ++ e.prompt?.toList)
    (hshown : ui.state.SameShown s.ui.state)
    (habortable : ui.state.Abortable → s.ui.state.Abortable ∧ e.delimits = false)
    (habort : e = .aborted → RunUnaborted s.log) :
    Orderly (send { s with ui := ui, log := s.log ++ [e] } command) := by
  have hlog : (s.log ++ [e]).filterMap LoopEvent.command? =
      s.log.filterMap LoopEvent.command? ++ [command] := by
    rw [List.filterMap_append, List.filterMap_cons_some he]
    rfl
  have hquiet : e.event? = none ∧ e.result? = none := by
    cases e with
    | submitted | aborted => exact ⟨rfl, rfl⟩
    | applied | answered => cases he
  refine ⟨?_, ?_, ?_, ?_, ?_, ?_, ?_, ?_, ?_⟩
  · rw [send_loop]
    exact h.steady
  · rw [send_ui]
    exact hvalid
  · rw [send_ui, send_log, hhistory, h.history, List.filterMap_append]
    cases hprompt : e.prompt? <;> simp [hprompt]
  · rw [send_sent, send_log, hlog]
    split_ifs with hlive
    · have hsent : sent { s with ui := ui, log := s.log ++ [e] } = s.sent := rfl
      exact ⟨[], by rw [List.append_nil, hsent, h.complete hlive]⟩
    · rw [List.append_nil]
      exact h.inOrder.trans (List.prefix_append _ _)
  · rw [send_task, send_sent, send_log, hlog]
    intro hlive
    have hsent : sent { s with ui := ui, log := s.log ++ [e] } = s.sent := rfl
    rw [if_pos hlive, hsent, h.complete hlive]
  · rw [send_returned, send_log, send_results, List.filterMap_append, List.filterMap_cons_none
      hquiet.2, List.filterMap_nil, List.append_nil]
    exact h.answers
  · rw [send_ui, send_log, List.filterMap_append, List.filterMap_cons_none hquiet.1,
      List.filterMap_nil, List.append_nil]
    exact ⟨hshown.conv.trans h.shown.conv, hshown.streaming.trans h.shown.streaming,
      hshown.usage.trans h.shown.usage⟩
  · rw [send_ui, send_log]
    intro hs
    obtain ⟨hold, hdelimits⟩ := habortable hs
    exact (h.abortable hold).push hdelimits
  · rw [send_log]
    intro before after hsplit
    obtain ⟨rfl, heq, -⟩ | ⟨rest, rfl, hold⟩ := Runs.split_concat hsplit
    · exact habort heq.symm
    · exact h.aborts before rest hold

/-- What is done about a key keeps the order. -/
theorem act (h : Orderly s) {action : KeyAction} {ui : TuiInput}
    (hhandled : TuiInput.Handled s.ui (action, ui)) (hvalid : ui.Valid) :
    Orderly (TuiLoop.act { s with ui := ui } action) := by
  cases hhandled with
  | edited input cursor scroll => exact h.edited hvalid rfl ⟨rfl, rfl, rfl⟩ id
  | exited input => exact (h.edited hvalid rfl ⟨rfl, rfl, rfl⟩ id).ended (.ok ())
  | aborted hrunning hfirst =>
    refine h.command (e := .aborted) rfl hvalid (List.append_nil _).symm ⟨rfl, rfl, rfl⟩ ?_ ?_
    · rintro ⟨-, hfirst'⟩
      cases hfirst'
    · exact fun _ => h.abortable ⟨hrunning, hfirst⟩
  | submitted prompt hprompt =>
    have hsent := h.command (e := .submitted prompt) rfl hvalid rfl ⟨rfl, rfl, rfl⟩
      (fun hs => ⟨hs, rfl⟩) (fun heq => by cases heq)
    rw [TuiLoop.act]
    dsimp only
    split_ifs with hlive
    · exact hsent
    · rw [send, if_neg hlive] at hsent
      exact hsent.fail "command task exited"

theorem apply (h : Orderly s) (e : AgentEvent) :
    Orderly { s with
      ui := { s.ui with state := applyEvent s.ui.state e }
      log := s.log ++ [.applied e] } where
  steady := h.steady
  input := ⟨h.input.recalled, h.input.submitted⟩
  history := by
    rw [List.filterMap_append]
    exact h.history.trans (List.append_nil _).symm
  inOrder := by
    rw [List.filterMap_append]
    exact h.inOrder.trans (List.prefix_append _ _)
  complete hlive := by
    rw [List.filterMap_append]
    exact (h.complete hlive).trans (List.append_nil _).symm
  answers := by
    rw [List.filterMap_append, List.append_assoc]
    exact h.answers
  shown := by
    rw [List.filterMap_append, List.foldl_append]
    exact h.shown.applyEvent e
  abortable hs := by
    obtain rfl | ⟨hold, hdelimits⟩ := hs.applyEvent
    · exact ⟨s.log, [], rfl, fun _ h => absurd h List.not_mem_nil⟩
    · exact (h.abortable hold).push hdelimits
  aborts := h.aborts_push (fun heq => by cases heq)

/-- The loop takes a result up. -/
theorem answer (h : Orderly s) {result : CommandResult} {results : List CommandResult}
    (hresults : s.results = result :: results) :
    Orderly { s with results := results, log := s.log ++ [.answered result] } where
  steady := h.steady
  input := h.input
  history := by
    rw [List.filterMap_append]
    exact h.history.trans (List.append_nil _).symm
  inOrder := by
    rw [List.filterMap_append]
    exact h.inOrder.trans (List.prefix_append _ _)
  complete hlive := by
    rw [List.filterMap_append]
    exact (h.complete hlive).trans (List.append_nil _).symm
  answers := by
    rw [List.filterMap_append, List.append_assoc, h.answers, hresults]
    rfl
  shown := by
    rw [List.filterMap_append, List.foldl_append]
    exact h.shown
  abortable hs := (h.abortable hs).push rfl
  aborts := h.aborts_push (fun heq => by cases heq)

theorem select (h : Orderly s) (selected : Selected) : Orderly (s.select selected) := by
  cases selected with
  | key input =>
    cases input with
    | none => exact h.ended (.ok ())
    | some event =>
      cases event with
      | error reason => exact (h.fail reason).ended (.error reason)
      | key event =>
        obtain ⟨⟨action, ui⟩, hkey, hhandled, hvalid⟩ := h.input.handleKey (fromCrossterm event)
        rw [TuiLoop.select, hkey]
        exact h.act hhandled hvalid
  | event receipt =>
    cases receipt with
    | event e => exact h.apply e
    | lagged => exact h
    | closed => exact h.ended (.ok ())
  | result =>
    rw [TuiLoop.select]
    cases hresults : s.results with
    | nil => exact h
    | cons result results =>
      have hanswer := h.answer hresults
      cases result with
      | promptAccepted => exact hanswer
      | promptFailed error => exact hanswer.fail error
  | tick => exact h

theorem draw (h : Orderly s) (drawn : Except String Unit) : Orderly (s.draw drawn) := by
  unfold TuiLoop.draw
  split
  · exact h.ended _
  all_goals exact h

/-- The task exits in the middle of a call or between two, and its channel goes with it. -/
theorem exit (h : Orderly s) : Orderly { s with task := .exited, commands := [] } where
  steady := h.steady
  input := h.input
  history := h.history
  inOrder := by
    refine List.IsPrefix.trans ⟨s.task.current ++ s.commands, ?_⟩ h.inOrder
    rw [sent, sent, CommandTask.current, List.append_nil, List.append_nil, List.append_assoc]
  complete hlive := by cases hlive
  answers := h.answers
  shown := h.shown
  abortable := h.abortable
  aborts := h.aborts

theorem step (h : Orderly s) (action : LoopAction) : Orderly (s.step action) := by
  cases action with
  | turn selected drawn =>
    rw [TuiLoop.step]
    cases hloop : s.loop with
    | looping => exact (h.select selected).draw drawn
    | ended | panicked => exact h
  | call =>
    rw [TuiLoop.step]
    split
    next command commands htask hcommands =>
      have hsent : sent { s with task := .calling command, commands := commands } = s.sent := by
        rw [sent, sent, htask, hcommands]
        rw [CommandTask.current, CommandTask.current, List.append_nil, List.append_assoc]
        rfl
      refine { h with inOrder := ?_, complete := fun _ => ?_ }
      · rw [hsent]
        exact h.inOrder
      · rw [hsent]
        exact h.complete (by rw [htask]; rfl)
    all_goals exact h
  | ret result =>
    rw [TuiLoop.step]
    cases htask : s.task with
    | waiting | exited => exact h
    | calling command =>
      have hsent : sent { s with
          task := .waiting
          returned := s.returned ++ [(command, result)]
          results := s.results ++ (commandResult? (command, result)).toList } = s.sent := by
        rw [sent, sent, htask, List.map_append]
        rw [CommandTask.current, CommandTask.current, List.append_nil]
        rfl
      refine { h with inOrder := ?_, complete := fun _ => ?_, answers := ?_ }
      · rw [hsent]
        exact h.inOrder
      · rw [hsent]
        exact h.complete (by rw [htask]; rfl)
      · rw [List.filterMap_append, h.answers, List.append_assoc]
        cases hresult : commandResult? (command, result) <;> simp [hresult]
  | taskPanics =>
    rw [TuiLoop.step]
    cases s.task with
    | calling => exact h.exit
    | waiting | exited => exact h
  | stop =>
    rw [TuiLoop.step]
    split
    · exact h.exit
    all_goals exact h

end Orderly

/-- In whatever order the loop and the command task go on: no key makes the program panic, the
server is called with the commands in the order in which they were given, every prompt that has been
answered has its result, the conversation is that of the events, and no run is aborted twice. -/
theorem loop_orderly (actions : List LoopAction) :
    Runs.Throughout TuiLoop.step Orderly .start actions :=
  Runs.always (fun _ action h => h.step action) (fun _ h => h) .start actions

end TuiLoop

end Guigu.Tui
