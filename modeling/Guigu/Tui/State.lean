import Guigu.Core.Provider

/-! The state that the terminal interface shows, and how the events of an agent change it. -/
namespace Guigu.Tui

/-- How much of an output is shown. -/
def maxOutput : ℕ := 400

inductive Status where
  | idle
  | running
  /-- The latest run has failed. -/
  | error
  deriving DecidableEq, Repr

structure StreamingBubble where
  text : String
  thinking : String
  deriving DecidableEq, Repr

inductive ToolCardStatus where
  | running | runningPartial | done | failed
  deriving DecidableEq, Repr

structure ToolCard where
  id : String
  name : String
  args : String
  status : ToolCardStatus
  output : String
  deriving DecidableEq, Repr

inductive ConvItem where
  | user (text : String)
  | assistant (text : String)
  | tool (card : ToolCard)
  deriving DecidableEq, Repr

structure TuiState where
  conv : List ConvItem
  streaming : Option StreamingBubble
  scroll : ℕ
  status : Status
  usage : Option Usage
  error : Option String
  abortRequested : Bool
  deriving DecidableEq, Repr

/-- The first card of a call is changed, if there is one. -/
def changeToolCard (id : String) (f : ToolCard → ToolCard) :
    List ConvItem → Option (List ConvItem)
  | [] => none
  | .tool card :: conv =>
    if card.id = id then some (.tool (f card) :: conv)
    else (changeToolCard id f conv).map (.tool card :: ·)
  | .user text :: conv => (changeToolCard id f conv).map (.user text :: ·)
  | .assistant text :: conv => (changeToolCard id f conv).map (.assistant text :: ·)

namespace TuiState

def new : TuiState := ⟨[], none, 0, .idle, none, none, false⟩

def finalizeStreaming (s : TuiState) : TuiState :=
  match s.streaming with
  | some bubble =>
    if bubble.text.isEmpty then { s with streaming := none }
    else { s with streaming := none, conv := s.conv ++ [.assistant bubble.text], scroll := 0 }
  | none => s

def updateToolCard (s : TuiState) (id : String) (f : ToolCard → ToolCard) : TuiState :=
  match changeToolCard id f s.conv with
  | some conv => { s with conv := conv }
  | none => s

def upsertToolCard (s : TuiState) (id name args : String) (status : ToolCardStatus) : TuiState :=
  match changeToolCard id (fun card => { card with name := name, args := args, status := status })
      s.conv with
  | some conv => { s with conv := conv }
  | none => { s with conv := s.conv ++ [.tool ⟨id, name, args, status, ""⟩], scroll := 0 }

end TuiState

def userText (user : UserMessage) : String :=
  String.intercalate " " (user.content.filterMap fun
    | .text text => some text
    | .image _ => none)

def toolResultText (result : ToolResult) : String :=
  String.intercalate " " (result.content.filterMap fun
    | .text text => some text
    | .image _ => none)

def truncate (s : String) (max : ℕ) : String :=
  if s.toList.length ≤ max then s else String.ofList (s.toList.take max) ++ "…"

open TuiState

/-- What a part of a streamed answer changes. -/
def applyUpdate (s : TuiState) : AssistantEvent → TuiState
  | .textDelta text =>
    let bubble := s.streaming.getD ⟨"", ""⟩
    { s with streaming := some { bubble with text := bubble.text ++ text }, scroll := 0 }
  | .thinkingDelta thinking =>
    let bubble := s.streaming.getD ⟨"", ""⟩
    { s with streaming := some { bubble with thinking := bubble.thinking ++ thinking } }
  | .toolCallStart id name arguments => s.upsertToolCard id name arguments .running
  | .toolCallDelta id argumentsDelta =>
    s.updateToolCard id fun card => { card with args := card.args ++ argumentsDelta }
  | .toolCallEnd _ | .done _ => s
  | .error message _ => { s with error := some message, status := .error }.finalizeStreaming

def applyEvent (s : TuiState) : AgentEvent → TuiState
  | .agentStart => { s with status := .running, error := none, abortRequested := false }
  | .agentEnd _ => { s.finalizeStreaming with status := .idle, abortRequested := false }
  | .turnStart => s
  | .turnEnd _ _ => s.finalizeStreaming
  | .messageStart message =>
    match message with
    | .user user => { s with conv := s.conv ++ [.user (userText user)], scroll := 0 }
    | .assistant _ => { s with streaming := none }
    | .toolResult _ => s
  | .messageUpdate _ assistantEvent => applyUpdate s assistantEvent
  | .messageEnd message =>
    match message with
    | .assistant assistant =>
      { s with usage := assistant.usage.or s.usage }.finalizeStreaming
    | .user _ | .toolResult _ => s
  | .toolExecutionStart toolCallId toolName args =>
    s.upsertToolCard toolCallId toolName (String.ofList args.render) .running
  | .toolExecutionUpdate toolCallId _ _ partialResult =>
    s.updateToolCard toolCallId fun card =>
      { card with
        status := .runningPartial
        output := truncate (toolResultText partialResult) maxOutput }
  | .toolExecutionEnd toolCallId _ result isError =>
    s.updateToolCard toolCallId fun card =>
      { card with
        status := if isError then .failed else .done
        output := truncate (toolResultText result) maxOutput }

end Guigu.Tui
