import Guigu.Acp.Teardown
import Guigu.Core.Provider

/-! File access through the client: the permission modes of the sessions, and the executions of the
tool that ask for a permission first when the mode wants it. -/
namespace Guigu.Acp

inductive PermissionMode where
  | default | acceptEdits | plan | bypassPermissions | dontAsk | auto
  deriving DecidableEq, Repr

namespace PermissionMode

def requiresPermission : PermissionMode → Bool
  | .default | .plan => true
  | .acceptEdits | .bypassPermissions | .dontAsk | .auto => false

def fromModeId (id : String) : PermissionMode :=
  if id = "default" then .default
  else if id = "acceptEdits" then .acceptEdits
  else if id = "plan" then .plan
  else if id = "bypassPermissions" then .bypassPermissions
  else if id = "dontAsk" then .dontAsk
  else if id = "auto" then .auto
  else .default

end PermissionMode

inductive PermissionOutcome where
  | selected (optionId : String)
  | cancelled
  deriving DecidableEq, Repr

namespace PermissionOutcome

def allowed : PermissionOutcome → Bool
  | .selected optionId => decide (optionId = "allow_once") || decide (optionId = "allow_always")
  | .cancelled => false

def fromValue (value : Json) : PermissionOutcome :=
  let outcome := Serde.get "outcome" value
  match outcome.bind (Serde.getString "outcome") with
  | some kind =>
    if kind = "selected" then
      .selected ((outcome.bind (Serde.getString "optionId")).getD "")
    else .cancelled
  | none => .cancelled

end PermissionOutcome

structure FsArgs where
  operation : String
  path : String
  content : Option String
  deriving DecidableEq, Repr

/-- The arguments as fields, or as the array of them; the content may be left out. -/
def FsArgs.fromValue : Json → Option FsArgs
  | .arr [.str operation, .str path] => some ⟨operation, path, none⟩
  | .arr [.str operation, .str path, content] =>
    (Serde.option Serde.string content).map fun content => ⟨operation, path, content⟩
  | args =>
    (Serde.getString "operation" args).bind fun operation =>
      (Serde.getString "path" args).bind fun path =>
        (Serde.maybe Serde.string (Serde.get "content" args)).map fun content =>
          ⟨operation, path, content⟩

/-- What a request to the client is for. -/
inductive Purpose where
  | permission | access
  deriving DecidableEq, Repr

/-- Why an execution may go on: so many changes of modes had been made when its mode wanted no
permission, or the client has allowed it in its reply to this request. -/
inductive Grant where
  | free (changes : ℕ)
  | asked (call : ℕ)
  deriving DecidableEq

/-- Where an execution stands. -/
inductive FsPhase where
  /-- Its arguments are read; it reads the mode of its session next. -/
  | judging
  /-- The mode wants a permission; it sends the request next. -/
  | mustAsk
  | asking (call : ℕ)
  | permitted (grant : Grant)
  | operating (grant : Grant) (call : ℕ)
  /-- It has returned, and this is the access it has made. -/
  | ended (access : Option (Grant × ℕ)) (result : Except String ToolResult)

/-- One execution of the tool. -/
structure FsExecution where
  sessionId : String
  toolCallId : String
  args : FsArgs
  /-- The changes of modes that had been made when it began. -/
  begun : ℕ
  phase : FsPhase

namespace FsExecution

def kind (t : FsExecution) : String := if t.args.operation = "read" then "read" else "edit"

def permissionParams (t : FsExecution) : Json :=
  .obj [
    ("options", .arr [
      .obj [("kind", .str "allow_once"), ("name", .str "Allow once"),
        ("optionId", .str "allow_once")],
      .obj [("kind", .str "reject_once"), ("name", .str "Reject"),
        ("optionId", .str "reject_once")]]),
    ("sessionId", .str t.sessionId),
    ("toolCall", .obj [("kind", .str t.kind), ("sessionUpdate", .str "tool_call_update"),
      ("status", .str "pending"), ("title", .str (t.args.operation ++ " " ++ t.args.path)),
      ("toolCallId", .str t.toolCallId)])]

/-- The method and the parameters of the access, unless the arguments ask for none. -/
def operation (t : FsExecution) : Except String (String × Json) :=
  if t.args.operation = "read" then
    .ok ("fs/read_text_file", .obj [("path", .str t.args.path), ("sessionId", .str t.sessionId)])
  else if t.args.operation = "write" then
    match t.args.content with
    | some content => .ok ("fs/write_text_file", .obj [("content", .str content),
        ("path", .str t.args.path), ("sessionId", .str t.sessionId)])
    | none => .error "missing content for write"
  else .error ("unknown operation: " ++ t.args.operation)

/-- What a request of the execution says. -/
def message? (t : FsExecution) : Purpose → Option (String × Json)
  | .permission => some ("session/request_permission", t.permissionParams)
  | .access => t.operation.toOption

def details (t : FsExecution) : Json := .obj [("path", .str t.args.path)]

/-- The result behind the access. -/
def answered (t : FsExecution) : Except AcpError Json → Except String ToolResult
  | .error (.jsonRpc message) => .error ("json-rpc error: " ++ message)
  | .ok value =>
    if t.args.operation = "read" then
      .ok ⟨[.text ((Serde.getString "content" value).getD "")], false, some t.details⟩
    else .ok ⟨[.text "ok"], false, some t.details⟩

/-- Where an execution goes on behind the reply to its request. -/
def judged (call : ℕ) : Except AcpError Json → FsPhase
  | .error (.jsonRpc message) => .ended none (.error ("json-rpc error: " ++ message))
  | .ok value =>
    if (PermissionOutcome.fromValue value).allowed then .permitted (.asked call)
    else .ended none (.ok (.error "permission denied by client"))

end FsExecution

structure FsSystem where
  connection : Connection
  /-- The mode of a session that has never been set is `default`. -/
  modes : String → PermissionMode
  /-- The modes that were set, and for which session. -/
  changes : List (String × PermissionMode)
  execution : ℕ → Option FsExecution
  nextExecution : ℕ
  /-- The execution that a request belongs to, and what it is for. -/
  purpose : ℕ → Option (ℕ × Purpose)
  /-- The requests that were handed to the writer. -/
  sent : List (ℕ × String × Json)
  received : List InboundMessage

/-- What a task does next. -/
inductive FsAction where
  /-- `session/set_mode`, while these sessions are registered. -/
  | setMode (sessions : List String) (params : Json)
  /-- `execute` of the tool of a session, and what it would say about its arguments. -/
  | execute (sessionId toolCallId : String) (args : Json) (cancelled : Bool)
    (argumentsError : String)
  | readMode (execution : ℕ)
  | ask (execution : ℕ)
  /-- The reply to the request has come. -/
  | judge (execution : ℕ)
  | operate (execution : ℕ)
  | finish (execution : ℕ)
  /-- The calls of `request` and the tasks of the connection; only the tool makes requests. -/
  | connection (a : ConnectionAction)

namespace FsSystem

def start : FsSystem where
  connection := .start
  modes _ := .default
  changes := []
  execution _ := none
  nextExecution := 0
  purpose _ := none
  sent := []
  received := []

def handleSetMode (s : FsSystem) (sessions : List String) (params : Json) :
    Except String FsSystem :=
  match Serde.getString "sessionId" params with
  | none => .error "json-rpc error: missing sessionId"
  | some sessionId =>
    match Serde.getString "modeId" params with
    | none => .error "json-rpc error: missing modeId"
    | some modeId =>
      if sessionId ∈ sessions then
        let mode := PermissionMode.fromModeId modeId
        .ok { s with modes := Function.update s.modes sessionId mode
                     changes := s.changes ++ [(sessionId, mode)] }
      else .error ("server error: session not found: " ++ sessionId)

def setPhase (s : FsSystem) (i : ℕ) (t : FsExecution) (phase : FsPhase) : FsSystem :=
  { s with execution := Function.update s.execution i (some { t with phase := phase }) }

@[simp] theorem setPhase_execution (s : FsSystem) (i : ℕ) (t : FsExecution) (phase : FsPhase) :
    (s.setPhase i t phase).execution i = some { t with phase := phase } := Function.update_self ..

theorem setPhase_execution_of_ne (s : FsSystem) {i j : ℕ} (h : j ≠ i) (t : FsExecution)
    (phase : FsPhase) : (s.setPhase i t phase).execution j = s.execution j :=
  Function.update_of_ne h ..

/-- A new execution, and where it begins. -/
def begin (s : FsSystem) (sessionId toolCallId : String) (args : FsArgs) (phase : FsPhase) :
    FsSystem :=
  { s with
    execution := Function.update s.execution s.nextExecution
      (some ⟨sessionId, toolCallId, args, s.changes.length, phase⟩)
    nextExecution := s.nextExecution + 1 }

/-- A request of the execution begins; its identifier is the next one. -/
def request (s : FsSystem) (i : ℕ) (p : Purpose) : FsSystem :=
  { s with
    connection := s.connection.step (.request false)
    purpose := Function.update s.purpose s.connection.nextId (some (i, p)) }

/-- What a request says. -/
def message? (s : FsSystem) (call : ℕ) : Option (String × Json) :=
  (s.purpose call).bind fun owner => (s.execution owner.1).bind fun t => t.message? owner.2

/-- What the writer is handed in a step of the connection. -/
def handed (s : FsSystem) : ConnectionAction → List (ℕ × String × Json)
  | .send call =>
    if s.connection.call call = .entered ∧ s.connection.writerOpen then
      (s.message? call).toList.map fun m => (call, m)
    else []
  | _ => []

/-- What the read loop reads in a step of the connection. -/
def heard (s : FsSystem) : ConnectionAction → List InboundMessage
  | .receive msg => if s.connection.teardown = .serving then [msg] else []
  | _ => []

def stepConnection (s : FsSystem) : ConnectionAction → FsSystem
  | .request _ => s
  | a => { s with connection := s.connection.step a
                  sent := s.sent ++ s.handed a
                  received := s.received ++ s.heard a }

/-- One step of some task; a step that is not possible leaves everything as it is. -/
def step (s : FsSystem) : FsAction → FsSystem
  | .setMode sessions params =>
    match s.handleSetMode sessions params with
    | .ok s' => s'
    | .error _ => s
  | .execute sessionId toolCallId args cancelled argumentsError =>
    if cancelled then
      s.begin sessionId toolCallId ⟨"", "", none⟩
        (.ended none (.error "cancelled: fs aborted before IO"))
    else
      match FsArgs.fromValue args with
      | none => s.begin sessionId toolCallId ⟨"", "", none⟩ (.ended none (.error argumentsError))
      | some args => s.begin sessionId toolCallId args .judging
  | .readMode i =>
    match s.execution i with
    | some t =>
      match t.phase with
      | .judging =>
        if (s.modes t.sessionId).requiresPermission then s.setPhase i t .mustAsk
        else s.setPhase i t (.permitted (.free s.changes.length))
      | _ => s
    | none => s
  | .ask i =>
    match s.execution i with
    | some t =>
      match t.phase with
      | .mustAsk => (s.request i .permission).setPhase i t (.asking s.connection.nextId)
      | _ => s
    | none => s
  | .judge i =>
    match s.execution i with
    | some t =>
      match t.phase with
      | .asking call =>
        match s.connection.call call with
        | .returned result => s.setPhase i t (FsExecution.judged call result)
        | _ => s
      | _ => s
    | none => s
  | .operate i =>
    match s.execution i with
    | some t =>
      match t.phase with
      | .permitted grant =>
        match t.operation with
        | .ok _ => (s.request i .access).setPhase i t (.operating grant s.connection.nextId)
        | .error e => s.setPhase i t (.ended none (.error e))
      | _ => s
    | none => s
  | .finish i =>
    match s.execution i with
    | some t =>
      match t.phase with
      | .operating grant call =>
        match s.connection.call call with
        | .returned result => s.setPhase i t (.ended (some (grant, call)) (t.answered result))
        | _ => s
      | _ => s
    | none => s
  | .connection a => s.stepConnection a

end FsSystem

end Guigu.Acp
