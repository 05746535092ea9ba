import Guigu.Core.Provider
import Guigu.Library.Fallible
import Guigu.Library.ProcessPipe
import Guigu.Library.Runs
import Guigu.Library.Serde
import Guigu.Library.Utf8

/-! One call of the bash tool: the shell and the processes it starts, the pipes that they write
into, the tasks that drain these, and the wait for the shell against the cancellation and the
timer. -/
namespace Guigu.Tools

structure BashArgs where
  command : String
  cwd : Option String
  timeoutMs : Option UInt64
  deriving DecidableEq, Repr

/-- The arguments as fields, or as the array of them. -/
def BashArgs.fromValue : Json → Option BashArgs
  | .arr [.str command, cwd, timeoutMs] =>
    (Serde.option Serde.string cwd).bind fun cwd =>
      (Serde.option Serde.u64 timeoutMs).map fun timeoutMs => ⟨command, cwd, timeoutMs⟩
  | args =>
    (Serde.getString "command" args).bind fun command =>
      (Serde.maybe Serde.string (Serde.get "cwd" args)).bind fun cwd =>
        (Serde.maybe Serde.u64 (Serde.get "timeout_ms" args)).map fun timeoutMs =>
          ⟨command, cwd, timeoutMs⟩

/-- What is spawned; without a directory it runs in that of the process of the tool. -/
structure BashCommand where
  program : String
  args : List String
  currentDir : Option (List Char)
  deriving DecidableEq, Repr

structure BashTool where
  defaultCwd : Option (List Char)

inductive ExitStatus where
  | exited (code : Int32)
  | signaled (signal : ℕ)
  deriving DecidableEq

def ExitStatus.code : ExitStatus → Option Int32
  | exited code => some code
  | signaled _ => none

/-- The two pipes of a command. -/
inductive OutputStream where
  | stdout | stderr
  deriving DecidableEq, Repr

def OutputStream.label : OutputStream → String
  | stdout => "stdout"
  | stderr => "stderr"

/-- How a task that drains a pipe fails. -/
inductive DrainError where
  | join (e : String)
  | read (e : String)
  deriving DecidableEq

def DrainError.display (stream : OutputStream) : DrainError → String
  | join e => "bash: join " ++ stream.label ++ " drain task: " ++ e
  | read e => "bash: read " ++ stream.label ++ ": " ++ e

/-- Where an execution stands. -/
inductive BashPhase where
  /-- It waits for the shell, for the cancellation and for the timer. -/
  | waiting
  /-- It has been stopped with this error, and reaps the shell. -/
  | killing (error : String)
  /-- It joins the tasks that drain `stdout` and `stderr`, one after the other; `stdout` is what the
  first one has read. -/
  | joining (status : ExitStatus) (stdout : Option String)
  | ended (result : Except String ToolResult)

/-- The shell is process 0. -/
structure BashRun where
  timeoutMs : Option UInt64
  phase : BashPhase
  /-- How the shell has ended. -/
  shell : Option ExitStatus
  nextProcess : ℕ
  pipe : OutputStream → ProcessPipe UInt8
  /-- How the task that drains a pipe has failed. -/
  failure : OutputStream → Option DrainError
  cancelled : Bool
  elapsed : Bool

inductive BashStop where
  | cancelled | timeout
  deriving DecidableEq

/-- What a process or a task does next. -/
inductive BashAction where
  | write (process : ℕ) (stream : OutputStream) (data : List UInt8)
  | fork (process : ℕ)
  | close (process : ℕ) (stream : OutputStream)
  | exit (status : ExitStatus)
  | drain (stream : OutputStream) (amount : ℕ)
  | fail (stream : OutputStream) (error : DrainError)
  | cancel
  | elapse
  | wait (result : Except String Unit)
  /-- The cancellation or the timer is first; the kill may fail. -/
  | stop (reason : BashStop) (killed : Bool)
  | reap (failed : Bool)
  | join

/-- What a call of the tool meets: whether it is cancelled before it spawns the shell, and the
errors of the arguments and of the spawn. -/
structure BashEnv where
  cancelled : Bool
  argumentsError : String
  spawn : BashCommand → Except String Unit

def BashEnv.calm : BashEnv := ⟨false, "", fun _ => .ok ()⟩

namespace BashTool

/-- An empty directory is none. -/
def buildCommand (tool : BashTool) (args : BashArgs) : BashCommand where
  program := "sh"
  args := ["-c", args.command]
  currentDir := ((args.cwd.filter (· ≠ "")).map String.toList).or tool.defaultCwd

def assembleResult (status : ExitStatus) (stdout stderr : String) : ToolResult :=
  let code := (status.code.map Int32.toInt64).getD (-1)
  if code = 0 then ⟨[.text stdout], false, some (.obj [("exit_code", Serde.ofNat 0)])⟩
  else
    let text :=
      if stdout = "" ∧ stderr = "" then ""
      else if stderr = "" then stdout
      else if stdout = "" then stderr
      else stdout ++ "\n" ++ stderr
    { content := [.text text]
      isError := true
      details := some (.obj [("exit_code", Serde.ofI64 code), ("stderr", .str stderr),
        ("stdout", .str stdout)]) }

end BashTool

namespace BashRun

/-- The shell has been spawned. -/
def start (timeoutMs : Option UInt64) : BashRun where
  timeoutMs := timeoutMs
  phase := .waiting
  shell := none
  nextProcess := 1
  pipe _ := .opened 0
  failure _ := none
  cancelled := false
  elapsed := false

def setPipe (s : BashRun) (stream : OutputStream) (p : ProcessPipe UInt8) : BashRun :=
  { s with pipe := Function.update s.pipe stream p }

/-- The shell ends, unless it has. -/
def exit (s : BashRun) (status : ExitStatus) : BashRun :=
  { s with shell := s.shell.or (some status), pipe := fun stream => (s.pipe stream).close 0 }

def wait (s : BashRun) : Except String Unit → BashRun
  | .error e => { s with phase := .ended (.error ("bash wait: " ++ e)) }
  | .ok () =>
    match s.shell with
    | some status => { s with phase := .joining status none }
    | none => s

/-- What an execution that is stopped for this reason returns. -/
def stopError (s : BashRun) : BashStop → Option String
  | .cancelled => if s.cancelled then some "cancelled: bash killed" else none
  | .timeout =>
    if s.elapsed then
      s.timeoutMs.map fun ms => "timeout: bash killed after " ++ toString ms.toNat ++ "ms"
    else none

/-- The kill; the wait behind it is a step of its own. -/
def killAndReap (s : BashRun) (killed : Bool) (error : String) : BashRun :=
  { (if killed then s.exit (.signaled 9) else s) with phase := .killing error }

def reap (s : BashRun) (failed : Bool) (error : String) : BashRun :=
  if failed ∨ s.shell.isSome then { s with phase := .ended (.error error) } else s

/-- What a task that drains a pipe has returned. -/
def joinDrain (s : BashRun) (stream : OutputStream) : Option (Except String String) :=
  match s.failure stream with
  | some e => some (.error (e.display stream))
  | none =>
    if (s.pipe stream).ended then
      some (.ok (String.ofList (Utf8.decodeLossy (s.pipe stream).read)))
    else none

/-- An error of the first task is returned without a look at the second. -/
def join (s : BashRun) (status : ExitStatus) : Option String → BashRun
  | none =>
    match s.joinDrain .stdout with
    | none => s
    | some (.error e) => { s with phase := .ended (.error e) }
    | some (.ok stdout) => { s with phase := .joining status (some stdout) }
  | some stdout =>
    match s.joinDrain .stderr with
    | none => s
    | some (.error e) => { s with phase := .ended (.error e) }
    | some (.ok stderr) =>
      { s with phase := .ended (.ok (BashTool.assembleResult status stdout stderr)) }

/-- A task that has failed has closed its end of the pipe. -/
def step (capacity : ℕ) (s : BashRun) : BashAction → BashRun
  | .write process stream data =>
    if (s.failure stream).isSome then s
    else s.setPipe stream ((s.pipe stream).write capacity process data)
  | .fork process =>
    { s with
      pipe := fun stream => (s.pipe stream).fork process s.nextProcess
      nextProcess := s.nextProcess + 1 }
  | .close process stream => s.setPipe stream ((s.pipe stream).close process)
  | .exit status => s.exit status
  | .drain stream amount =>
    if (s.failure stream).isSome then s else s.setPipe stream ((s.pipe stream).drain amount)
  | .fail stream error =>
    if (s.pipe stream).ended ∨ (s.failure stream).isSome then s
    else { s with failure := Function.update s.failure stream (some error) }
  | .cancel => { s with cancelled := true }
  | .elapse => { s with elapsed := true }
  | .wait result =>
    match s.phase with
    | .waiting => s.wait result
    | _ => s
  -- behind the `select!` neither the cancellation nor the timer is looked at
  | .stop reason killed =>
    match s.phase, s.stopError reason with
    | .waiting, some error => s.killAndReap killed error
    | _, _ => s
  | .reap failed =>
    match s.phase with
    | .killing error => s.reap failed error
    | _ => s
  | .join =>
    match s.phase with
    | .joining status stdout => s.join status stdout
    | _ => s

end BashRun

/-- The errors before the shell is there, or the execution that goes on by steps. -/
def BashTool.execute (tool : BashTool) (env : BashEnv) (json : Json) : Except String BashRun :=
  if env.cancelled then .error "cancelled: bash aborted before spawn"
  else
    match BashArgs.fromValue json with
    | none => .error env.argumentsError
    | some args => do
      (env.spawn (tool.buildCommand args)).mapError ("bash spawn: " ++ ·)
      return .start args.timeoutMs

namespace BashRun

variable {capacity : ℕ} {s s' : BashRun} {stream : OutputStream}

/-- All that has been written to a pipe, as text. -/
def output (s : BashRun) (stream : OutputStream) : String :=
  String.ofList (Utf8.decodeLossy (s.pipe stream).written)

/-- The pipe has been read to its end. -/
def Drained (s : BashRun) (stream : OutputStream) (text : String) : Prop :=
  (s.pipe stream).ended = true ∧ s.failure stream = none ∧ s.output stream = text

/-- What a phase has seen. -/
def Seen (s : BashRun) : BashPhase → Prop
  | .waiting | .killing _ | .ended (.error _) => True
  | .joining status none => s.shell = some status
  | .joining status (some stdout) => s.shell = some status ∧ s.Drained .stdout stdout
  | .ended (.ok r) => ∃ status stdout stderr, s.shell = some status ∧ s.Drained .stdout stdout ∧
      s.Drained .stderr stderr ∧ r = BashTool.assembleResult status stdout stderr

structure Sound (capacity : ℕ) (s : BashRun) : Prop where
  pipe : ∀ stream, (s.pipe stream).Sound capacity
  seen : s.Seen s.phase

/-- What has come to its end stays as it is. -/
structure Keeps (s s' : BashRun) : Prop where
  shell : ∀ status, s.shell = some status → s'.shell = some status
  pipe : ∀ stream, (s.pipe stream).ended = true →
    s'.pipe stream = s.pipe stream ∧ s'.failure stream = s.failure stream

theorem setPipe_pipe_self (s : BashRun) (stream : OutputStream) (p : ProcessPipe UInt8) :
    (s.setPipe stream p).pipe stream = p := Function.update_self ..

theorem setPipe_pipe_of_ne {other : OutputStream} (s : BashRun) (h : other ≠ stream)
    (p : ProcessPipe UInt8) : (s.setPipe stream p).pipe other = s.pipe other :=
  Function.update_of_ne h ..

theorem step_write (hfailure : s.failure stream = none) {process : ℕ} {data : List UInt8} :
    s.step capacity (.write process stream data) =
      s.setPipe stream ((s.pipe stream).write capacity process data) := by
  simp only [step, hfailure, Option.isSome_none, Bool.false_eq_true, if_false]

theorem step_drain (hfailure : s.failure stream = none) {amount : ℕ} :
    s.step capacity (.drain stream amount) =
      s.setPipe stream ((s.pipe stream).drain amount) := by
  simp only [step, hfailure, Option.isSome_none, Bool.false_eq_true, if_false]

namespace Keeps

theorem setPipe {p : ProcessPipe UInt8} (h : (s.pipe stream).ended = true → p = s.pipe stream) :
    s.Keeps (s.setPipe stream p) := by
  refine ⟨fun _ hshell => hshell, fun other hended => ⟨?_, rfl⟩⟩
  by_cases hother : other = stream
  · subst hother
    rw [setPipe_pipe_self, h hended]
  · exact setPipe_pipe_of_ne s hother p

theorem exit (h : ∀ stream, (s.pipe stream).Sound capacity) (status : ExitStatus) :
    s.Keeps (s.exit status) := by
  refine ⟨fun _ hshell => ?_, fun stream hended => ⟨(h stream).close_ended hended 0, rfl⟩⟩
  rw [BashRun.exit, hshell]
  rfl

theorem drained (h : s.Keeps s') {text : String} (hdrained : s.Drained stream text) :
    s'.Drained stream text := by
  obtain ⟨hended, hfailure, htext⟩ := hdrained
  obtain ⟨hpipe, hsame⟩ := h.pipe stream hended
  refine ⟨hpipe ▸ hended, hsame.trans hfailure, ?_⟩
  rw [output, hpipe]
  exact htext

theorem seen (h : s.Keeps s') {phase : BashPhase} (hseen : s.Seen phase) : s'.Seen phase := by
  cases phase with
  | waiting | killing _ => trivial
  | joining status stdout =>
    cases stdout with
    | none => exact h.shell _ hseen
    | some stdout => exact ⟨h.shell _ hseen.1, h.drained hseen.2⟩
  | ended result =>
    cases result with
    | error e => trivial
    | ok r =>
      obtain ⟨status, stdout, stderr, hshell, hstdout, hstderr, hr⟩ := hseen
      exact ⟨status, stdout, stderr, h.shell _ hshell, h.drained hstdout, h.drained hstderr, hr⟩

end Keeps

theorem joinDrain_ok (h : (s.pipe stream).Sound capacity) {text : String}
    (hjoin : s.joinDrain stream = some (.ok text)) : s.Drained stream text := by
  unfold joinDrain at hjoin
  split at hjoin
  · cases hjoin
  next hfailure =>
    split_ifs at hjoin with hended
    cases hjoin
    refine ⟨hended, hfailure, ?_⟩
    rw [output, h.read_eq hended]

namespace Sound

theorem start (timeoutMs : Option UInt64) : Sound capacity (start timeoutMs) :=
  ⟨fun _ => .opened 0, trivial⟩

/-- A step that leaves the phase alone. -/
theorem of_keeps (h : s.Sound capacity) (hkeeps : s.Keeps s') (hphase : s'.phase = s.phase)
    (hpipe : ∀ stream, (s'.pipe stream).Sound capacity) : s'.Sound capacity :=
  ⟨hpipe, hphase ▸ hkeeps.seen h.seen⟩

theorem setPipe (h : s.Sound capacity) {p : ProcessPipe UInt8} (hp : p.Sound capacity)
    (hended : (s.pipe stream).ended = true → p = s.pipe stream) :
    (s.setPipe stream p).Sound capacity := by
  refine h.of_keeps (.setPipe hended) rfl fun other => ?_
  by_cases hother : other = stream
  · subst hother
    rwa [setPipe_pipe_self]
  · rw [setPipe_pipe_of_ne s hother]
    exact h.pipe other

theorem exit (h : s.Sound capacity) (status : ExitStatus) : (s.exit status).Sound capacity :=
  h.of_keeps (.exit h.pipe status) rfl fun stream => (h.pipe stream).close 0

theorem fail (h : s.Sound capacity) (hended : (s.pipe stream).ended = false)
    (error : DrainError) :
    ({ s with failure := Function.update s.failure stream (some error) } : BashRun).Sound
      capacity := by
  refine h.of_keeps ⟨fun _ hshell => hshell, fun other hother => ⟨rfl, ?_⟩⟩ rfl h.pipe
  refine Function.update_of_ne ?_ ..
  rintro rfl
  rw [hended] at hother
  cases hother

theorem wait (h : s.Sound capacity) (result : Except String Unit) :
    (s.wait result).Sound capacity := by
  unfold BashRun.wait
  split
  · exact ⟨h.pipe, trivial⟩
  · split
    next status hshell => exact ⟨h.pipe, hshell⟩
    · exact h

theorem killAndReap (h : s.Sound capacity) (killed : Bool) (error : String) :
    (s.killAndReap killed error).Sound capacity := by
  cases killed with
  | false => exact ⟨h.pipe, trivial⟩
  | true => exact ⟨(h.exit (.signaled 9)).pipe, trivial⟩

theorem reap (h : s.Sound capacity) (failed : Bool) (error : String) :
    (s.reap failed error).Sound capacity := by
  unfold BashRun.reap
  split_ifs
  · exact ⟨h.pipe, trivial⟩
  · exact h

theorem join (h : s.Sound capacity) {status : ExitStatus} {stdout : Option String}
    (hphase : s.phase = .joining status stdout) : (s.join status stdout).Sound capacity := by
  have hseen := h.seen
  rw [hphase] at hseen
  cases stdout with
  | none =>
    simp only [BashRun.join]
    split
    · exact h
    · exact ⟨h.pipe, trivial⟩
    next stdout hjoin => exact ⟨h.pipe, hseen, joinDrain_ok (h.pipe _) hjoin⟩
  | some stdout =>
    simp only [BashRun.join]
    split
    · exact h
    · exact ⟨h.pipe, trivial⟩
    next stderr hjoin =>
      exact ⟨h.pipe, status, stdout, stderr, hseen.1, hseen.2, joinDrain_ok (h.pipe _) hjoin, rfl⟩

theorem step (h : s.Sound capacity) (a : BashAction) : (s.step capacity a).Sound capacity := by
  cases a with
  | write process stream data =>
    simp only [BashRun.step]
    split_ifs
    · exact h
    · exact h.setPipe ((h.pipe stream).write process data)
        fun hended => (h.pipe stream).write_ended hended process data
  | fork process =>
    refine h.of_keeps ⟨fun _ hshell => hshell, fun stream hended => ⟨?_, rfl⟩⟩ rfl
      fun stream => (h.pipe stream).fork process s.nextProcess
    exact (h.pipe stream).fork_ended hended process s.nextProcess
  | close process stream =>
    exact h.setPipe ((h.pipe stream).close process)
      fun hended => (h.pipe stream).close_ended hended process
  | exit status => exact h.exit status
  | drain stream amount =>
    simp only [BashRun.step]
    split_ifs
    · exact h
    · exact h.setPipe ((h.pipe stream).drain amount)
        fun hended => (h.pipe stream).drain_ended hended amount
  | fail stream error =>
    simp only [BashRun.step]
    split_ifs with hnot
    · exact h
    · exact h.fail (eq_false_of_ne_true fun hended => hnot (.inl hended)) error
  | cancel => exact ⟨h.pipe, h.seen⟩
  | elapse => exact ⟨h.pipe, h.seen⟩
  | wait result =>
    simp only [BashRun.step]
    split
    · exact h.wait result
    · exact h
  | stop reason killed =>
    simp only [BashRun.step]
    split
    next error _ _ => exact h.killAndReap killed error
    · exact h
  | reap failed =>
    simp only [BashRun.step]
    split
    next error _ => exact h.reap failed error
    · exact h
  | join =>
    simp only [BashRun.step]
    split
    next hphase => exact h.join hphase
    · exact h

end Sound

theorem Sound.run (h : s.Sound capacity) (as : List BashAction) :
    (Runs.run (BashRun.step capacity) s as).Sound capacity :=
  (Runs.always (fun _ a h => h.step a) (fun _ h => h) h as).last

/-- A result has seen the end of everything. -/
theorem Sound.complete (h : s.Sound capacity) {r : ToolResult} (hr : s.phase = .ended (.ok r)) :
    ∃ status, s.shell = some status ∧ (∀ stream, (s.pipe stream).holders = []) ∧
      r = BashTool.assembleResult status (s.output .stdout) (s.output .stderr) := by
  have hseen := h.seen
  rw [hr] at hseen
  obtain ⟨status, stdout, stderr, hshell, hstdout, hstderr, rfl⟩ := hseen
  refine ⟨status, hshell, fun stream => ?_, ?_⟩
  · cases stream with
    | stdout => exact ((h.pipe _).last hstdout.1).2
    | stderr => exact ((h.pipe _).last hstderr.1).2
  · rw [hstdout.2.2, hstderr.2.2]

end BashRun

/-- The action is none of a process, and no pipe fails with it. -/
def BashAction.own : BashAction → Bool
  | .write .. | .fork _ | .close .. | .exit _ | .fail .. => false
  | .drain .. | .cancel | .elapse | .wait _ | .stop .. | .reap _ | .join => true

def BashPhase.isEnded : BashPhase → Bool
  | .ended _ => true
  | .waiting | .killing _ | .joining .. => false

namespace BashRun

variable {capacity : ℕ} {s s' : BashRun} {stream : OutputStream}

/-- The task that drains the pipe does not depend on processes any more. -/
def Free (s : BashRun) (stream : OutputStream) : Prop :=
  (s.failure stream).isSome = true ∨ (s.pipe stream).holders = []

theorem Free.holders (h : s.Free stream) (hfailure : s.failure stream = none) :
    (s.pipe stream).holders = [] := by
  obtain hfailed | hholders := h
  · rw [hfailure] at hfailed
    cases hfailed
  · exact hholders

/-- Both tasks come to an end, or the first of them has failed. -/
def CanReturn (s : BashRun) : Prop :=
  s.Free .stdout ∧ (s.failure .stdout = none → s.Free .stderr)

theorem canReturn_setPipe {p : ProcessPipe UInt8} (hp : p.holders = (s.pipe stream).holders) :
    (s.setPipe stream p).CanReturn ↔ s.CanReturn := by
  have hholders : ∀ other, ((s.setPipe stream p).pipe other).holders = (s.pipe other).holders := by
    intro other
    by_cases hother : other = stream
    · subst hother
      rw [setPipe_pipe_self, hp]
    · rw [setPipe_pipe_of_ne s hother]
  have hfailure : (s.setPipe stream p).failure = s.failure := rfl
  simp only [CanReturn, Free, hfailure, hholders]

theorem failure_of_joinDrain {e : String} (hjoin : s.joinDrain stream = some (.error e)) :
    (s.failure stream).isSome = true := by
  unfold joinDrain at hjoin
  split at hjoin
  next hfailure => rw [hfailure, Option.isSome_some]
  · split_ifs at hjoin
    cases hjoin

theorem joinDrain_of_ended (hfailure : s.failure stream = none)
    (hended : (s.pipe stream).ended = true) :
    s.joinDrain stream =
      some (.ok (String.ofList (Utf8.decodeLossy (s.pipe stream).read))) := by
  rw [joinDrain, hfailure]
  exact if_pos hended

/-- While a process holds the pipe, its task does not return. -/
theorem joinDrain_eq_none (h : (s.pipe stream).Sound capacity) (hfree : ¬s.Free stream) :
    s.joinDrain stream = none := by
  obtain ⟨hfailure, hholders⟩ := not_or.mp hfree
  rw [joinDrain, Option.not_isSome_iff_eq_none.mp hfailure]
  exact if_neg fun hended => hholders (h.last hended).2

theorem Drained.free (h : s.Sound capacity) {text : String} (hdrained : s.Drained stream text) :
    s.Free stream := .inr ((h.pipe stream).last hdrained.1).2

/-- It waits for a task that waits for a process. -/
def Stuck (s : BashRun) : Prop := (∃ status stdout, s.phase = .joining status stdout) ∧ ¬s.CanReturn

theorem Stuck.join (h : s.Sound capacity) (hnot : ¬s.CanReturn) {status : ExitStatus}
    {stdout : Option String} (hphase : s.phase = .joining status stdout) :
    (s.join status stdout).Stuck := by
  have hstuck : s.Stuck := ⟨⟨status, stdout, hphase⟩, hnot⟩
  cases stdout with
  | none =>
    simp only [BashRun.join]
    split
    · exact hstuck
    next e hjoin =>
      have hfailure := failure_of_joinDrain hjoin
      refine absurd ⟨.inl hfailure, fun hnone => ?_⟩ hnot
      rw [hnone] at hfailure
      cases hfailure
    next stdout _ => exact ⟨⟨status, some stdout, rfl⟩, hnot⟩
  | some stdout =>
    have hseen := h.seen
    rw [hphase] at hseen
    have hfree : ¬s.Free .stderr := fun hfree => hnot ⟨hseen.2.free h, fun _ => hfree⟩
    simp only [BashRun.join, joinDrain_eq_none (h.pipe .stderr) hfree]
    exact hstuck

/-- Neither the cancellation nor the timer helps. -/
theorem Stuck.step (h : s.Sound capacity) (hstuck : s.Stuck) {a : BashAction}
    (ha : a.own = true) : (s.step capacity a).Stuck := by
  have ⟨⟨status, stdout, hphase⟩, hnot⟩ := hstuck
  cases a with
  | write | fork | close | exit | fail => cases ha
  | drain stream amount =>
    simp only [BashRun.step]
    split_ifs
    · exact hstuck
    · exact ⟨⟨status, stdout, hphase⟩,
        mt (canReturn_setPipe ((s.pipe stream).drain_holders amount)).mp hnot⟩
  | cancel | elapse => exact hstuck
  | wait | stop | reap =>
    simp only [BashRun.step, hphase]
    exact hstuck
  | join =>
    simp only [BashRun.step, hphase]
    exact Stuck.join h hnot hphase

theorem Stuck.run (h : s.Sound capacity) (hstuck : s.Stuck) {as : List BashAction}
    (has : ∀ a ∈ as, a.own = true) : (Runs.run (BashRun.step capacity) s as).Stuck := by
  have hstep : ∀ (t : BashRun) (a : BashAction), t.Sound capacity ∧ t.Stuck → a.own = true →
      (t.step capacity a).Sound capacity ∧ (t.step capacity a).Stuck :=
    fun _ a ht ha => ⟨ht.1.step a, ht.2.step ht.1 ha⟩
  exact (Runs.invariant hstep ⟨h, hstuck⟩ (Runs.along_of_forall fun a ha _ => has a ha)).2

theorem own_concat_join {bs : List BashAction} (hbs : ∀ b ∈ bs, b.own = true) :
    ∀ b ∈ bs ++ [.join], b.own = true :=
  List.forall_mem_append.mpr ⟨hbs, List.forall_mem_singleton.mpr rfl⟩

/-- A task that drains a pipe comes to its end by itself. -/
theorem exists_joinDrain (h : s.Sound capacity) (hfree : s.Free stream) :
    ∃ bs : List BashAction, (∀ b ∈ bs, b.own = true) ∧
      (Runs.run (BashRun.step capacity) s bs).joinDrain stream ≠ none ∧
      (Runs.run (BashRun.step capacity) s bs).phase = s.phase ∧
      ((Runs.run (BashRun.step capacity) s bs).CanReturn ↔ s.CanReturn) := by
  cases hfailure : s.failure stream with
  | some e =>
    refine ⟨[], fun b hb => absurd hb List.not_mem_nil, ?_, rfl, Iff.rfl⟩
    rw [Runs.run_nil, joinDrain, hfailure]
    exact Option.some_ne_none _
  | none =>
    -- the first reading empties the pipe, the second one finds its end
    refine ⟨[.drain stream capacity, .drain stream capacity], by simp [BashAction.own], ?_⟩
    have hnone : (s.setPipe stream ((s.pipe stream).drain capacity)).failure stream = none :=
      hfailure
    rw [Runs.run_cons, Runs.run_cons, Runs.run_nil, step_drain hfailure, step_drain hnone,
      setPipe_pipe_self]
    refine ⟨?_, rfl, ?_⟩
    · have hended := (h.pipe stream).ended_drain (hfree.holders hfailure)
      rw [joinDrain_of_ended]
      · exact Option.some_ne_none _
      · exact hfailure
      · rwa [setPipe_pipe_self]
    · rw [canReturn_setPipe, canReturn_setPipe]
      · exact ProcessPipe.drain_holders _ _
      · rw [setPipe_pipe_self]
        exact ProcessPipe.drain_holders _ _

/-- With `stdout` joined, only `stderr` is left. -/
theorem returns_of_joined (h : s.Sound capacity) {status : ExitStatus} {stdout : String}
    (hphase : s.phase = .joining status (some stdout)) (hcan : s.CanReturn) :
    ∃ bs : List BashAction, (∀ b ∈ bs, b.own = true) ∧
      (Runs.run (BashRun.step capacity) s bs).phase.isEnded = true := by
  have hseen := h.seen
  rw [hphase] at hseen
  obtain ⟨bs, hbs, hjoin, hsame, -⟩ := exists_joinDrain h (hcan.2 hseen.2.2.1)
  refine ⟨bs ++ [.join], own_concat_join hbs, ?_⟩
  obtain ⟨result, hresult⟩ := Option.ne_none_iff_exists'.mp hjoin
  rw [Runs.run_append, Runs.run_cons, Runs.run_nil]
  simp only [BashRun.step, hsame, hphase, BashRun.join, hresult]
  cases result <;> rfl

theorem returns (h : s.Sound capacity) {status : ExitStatus} {stdout : Option String}
    (hphase : s.phase = .joining status stdout) (hcan : s.CanReturn) :
    ∃ bs : List BashAction, (∀ b ∈ bs, b.own = true) ∧
      (Runs.run (BashRun.step capacity) s bs).phase.isEnded = true := by
  cases stdout with
  | some stdout => exact returns_of_joined h hphase hcan
  | none =>
    obtain ⟨bs, hbs, hjoin, hsame, hcongr⟩ := exists_joinDrain h hcan.1
    obtain ⟨result, hresult⟩ := Option.ne_none_iff_exists'.mp hjoin
    have hbs' := own_concat_join hbs
    cases result with
    | error e =>
      refine ⟨bs ++ [.join], hbs', ?_⟩
      rw [Runs.run_append, Runs.run_cons, Runs.run_nil]
      simp only [BashRun.step, hsame, hphase, BashRun.join, hresult]
      rfl
    | ok stdout =>
      have hnext : Runs.run (BashRun.step capacity) s (bs ++ [.join]) =
          { Runs.run (BashRun.step capacity) s bs with
            phase := .joining status (some stdout) } := by
        rw [Runs.run_append, Runs.run_cons, Runs.run_nil]
        simp only [BashRun.step, hsame, hphase, BashRun.join, hresult]
      have hcan' : (Runs.run (BashRun.step capacity) s (bs ++ [.join])).CanReturn := by
        rw [hnext]
        exact hcongr.mpr hcan
      obtain ⟨cs, hcs, hended⟩ := returns_of_joined (h.run (bs ++ [.join]))
        (by rw [hnext]) hcan'
      refine ⟨bs ++ [.join] ++ cs, fun c hc => ?_, ?_⟩
      · exact (List.mem_append.mp hc).elim (hbs' c) (hcs c)
      · rwa [Runs.run_append]

theorem Sound.returns_iff (h : s.Sound capacity) {status : ExitStatus} {stdout : Option String}
    (hphase : s.phase = .joining status stdout) :
    (∃ bs : List BashAction, (∀ b ∈ bs, b.own = true) ∧
      (Runs.run (BashRun.step capacity) s bs).phase.isEnded = true) ↔ s.CanReturn := by
  refine ⟨?_, returns h hphase⟩
  rintro ⟨bs, hbs, hended⟩
  by_contra hnot
  obtain ⟨⟨_, _, hjoining⟩, -⟩ := Stuck.run h ⟨⟨status, stdout, hphase⟩, hnot⟩ hbs
  rw [hjoining] at hended
  cases hended

end BashRun

namespace BashTool

open BashRun

variable {tool : BashTool} {env : BashEnv} {json : Json} {s : BashRun}

theorem execute_eq_ok :
    tool.execute env json = .ok s ↔ env.cancelled = false ∧ ∃ args,
      BashArgs.fromValue json = some args ∧ env.spawn (tool.buildCommand args) = .ok () ∧
      s = .start args.timeoutMs := by
  unfold execute
  constructor
  · intro h
    split_ifs at h with hcancelled
    split at h
    · cases h
    next args hargs =>
      obtain ⟨_, hspawn, h⟩ := Except.bind_eq_ok.mp h
      exact ⟨eq_false_of_ne_true hcancelled, args, hargs, Except.mapError_eq_ok.mp hspawn,
        (Except.ok.inj h).symm⟩
  · rintro ⟨hcancelled, args, hargs, hspawn, rfl⟩
    rw [hcancelled, hargs]
    simp only [hspawn, Except.mapError_ok, Except.ok_bind]
    rfl

/-- However the processes, the tasks, the cancellation and the timer take turns: a result comes only
when the shell has ended and no process holds a pipe, and says all that was written; and behind the
shell the call can return by itself if and only if no process holds a pipe that it waits for. -/
theorem execute_answers (h : tool.execute env json = .ok s) (capacity : ℕ)
    (as : List BashAction) :
    Runs.Throughout (step capacity) (fun t =>
      (∀ r, t.phase = .ended (.ok r) → ∃ status, t.shell = some status ∧
        (∀ stream, (t.pipe stream).holders = []) ∧
        r = assembleResult status (t.output .stdout) (t.output .stderr)) ∧
      ∀ status stdout, t.phase = .joining status stdout →
        ((∃ bs : List BashAction, (∀ b ∈ bs, b.own = true) ∧
          (Runs.run (step capacity) t bs).phase.isEnded = true) ↔ t.CanReturn)) s as := by
  obtain ⟨-, args, -, -, rfl⟩ := execute_eq_ok.mp h
  refine Runs.always (fun t a (ht : t.Sound capacity) => ht.step a) (fun t ht => ⟨?_, ?_⟩)
    (.start args.timeoutMs) as
  · exact fun r hr => ht.complete hr
  · exact fun status stdout hphase => ht.returns_iff hphase

def sleepArgs : Json :=
  .obj [("command", .str "sleep 60 &"), ("timeout_ms", Serde.ofNat 100)]

theorem execute_sleep : BashTool.execute ⟨none⟩ .calm sleepArgs = .ok (.start (some 100)) :=
  execute_eq_ok.mpr ⟨rfl, ⟨"sleep 60 &", none, some 100⟩, by decide, rfl, rfl⟩

/-- The shell is gone, but the timeout does not end a call whose background process has `stdout`. -/
theorem execute_answers_sleep :
    ¬∃ bs : List BashAction, (∀ b ∈ bs, b.own = true) ∧
      (Runs.run (step 65536) (Runs.run (step 65536) (.start (some 100))
        [.fork 0, .exit (.exited 0), .wait (.ok ()), .elapse]) bs).phase.isEnded = true := by
  intro hends
  have hanswers := (execute_answers execute_sleep 65536
    [.fork 0, .exit (.exited 0), .wait (.ok ()), .elapse]).last
  have hcan := (hanswers.2 (.exited 0) none rfl).mp hends
  obtain hfailure | hholders := hcan.1
  · cases hfailure
  · exact absurd hholders (by decide)

example : (Runs.run (step 65536) (.start none) [.write 0 .stdout (Utf8.encode ['h', 'i']),
    .drain .stdout 65536, .exit (.exited 0), .wait (.ok ()), .drain .stdout 65536,
    .drain .stderr 65536, .join, .join]).phase =
      .ended (.ok (assembleResult (.exited 0) "hi" "")) := rfl

/-- No process waits for good to write: the task that drains its pipe makes room, whether or not the
call is over. -/
theorem execute_drains (h : tool.execute env json = .ok s) (capacity : ℕ)
    (as : List BashAction) :
    Runs.Throughout (step capacity) (fun t => ∀ stream process (data : List UInt8),
      t.failure stream = none → process ∈ (t.pipe stream).holders → data.length ≤ capacity →
        ((Runs.run (step capacity) t [.drain stream capacity,
          .write process stream data]).pipe stream).written =
          (t.pipe stream).written ++ data) s as := by
  obtain ⟨-, args, -, -, rfl⟩ := execute_eq_ok.mp h
  refine Runs.always (fun t a (ht : t.Sound capacity) => ht.step a) ?_ (.start args.timeoutMs) as
  intro t ht stream process data hfailure hholds hdata
  have hroom := (ht.pipe stream).written_drain hholds hdata
  rw [Runs.run_cons, Runs.run_cons, Runs.run_nil, step_drain hfailure, step_write,
    setPipe_pipe_self, setPipe_pipe_self, hroom]
  exact hfailure

end BashTool

end Guigu.Tools
