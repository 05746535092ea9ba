import Guigu.Core.Provider
import Mathlib.Data.UInt

/-! The context budget of a request, its truncation, and the plan of a compaction. Estimates
are machine integers of 32 and 64 bits that wrap around; sizes are counted in `ℕ`. -/
namespace Guigu

def Message.isUser : Message → Bool
  | .user _ => true
  | _ => false

def Message.isToolResult : Message → Bool
  | .toolResult _ => true
  | _ => false

/-- The calls of an assistant message, in order. -/
def extractToolCalls (m : AssistantMessage) : List ToolCall :=
  m.content.filterMap fun
    | .toolCall c => some c
    | _ => none

def Message.toolCalls : Message → List ToolCall
  | .assistant m => extractToolCalls m
  | _ => []

def estimateTokens (text : String) : UInt32 := UInt32.ofNat text.utf8ByteSize / 4 + 1

def estimateMessageTokens : Message → UInt32
  | .user u => (u.content.map fun
      | .text t => estimateTokens t
      | .image img => estimateTokens img.data + 8).sum
  | .assistant a => (a.content.map fun
      | .text t => estimateTokens t
      | .thinking t => estimateTokens t
      | .toolCall c => estimateTokens c.name + estimateTokens c.arguments).sum
  | .toolResult t => estimateTokens t.toolName + (t.content.map fun
      | .text s => estimateTokens s
      | .image img => estimateTokens img.data + 8).sum

/-- The input tokens of the last message with a usage, and the messages behind it. -/
def lastUsage : List Message → Option (UInt64 × List Message)
  | [] => none
  | m :: ms =>
    match lastUsage ms with
    | some r => some r
    | none =>
      match m with
      | .assistant a => a.usage.map fun u => (u.input, ms)
      | _ => none

def estimateTotal (messages : List Message) (fixedOverhead : UInt32) : UInt64 :=
  match lastUsage messages with
  | some (input, behind) => input + (behind.map fun m => (estimateMessageTokens m).toUInt64).sum
  | none =>
    fixedOverhead.toUInt64 + (messages.map fun m => (estimateMessageTokens m).toUInt64).sum

/-- `saturating_add`. -/
def saturatingAdd (a b : UInt32) : UInt32 :=
  if a.toNat + b.toNat < 2 ^ 32 then a + b else UInt32.ofNat (2 ^ 32 - 1)

/-- A size cut down to 32 bits. -/
def clampSize (n : ℕ) : UInt32 := UInt32.ofNat (min n (2 ^ 32 - 1))

structure ContextBudget where
  contextWindow : UInt32
  fixedOverhead : UInt32
  reserveOutputTokens : UInt32
  deriving DecidableEq, Repr

def ContextBudget.withOverhead (contextWindow : UInt32) (systemPrompt toolSchemas : String)
    (reserveOutputTokens protocolWrapperTokens : ℕ) : ContextBudget where
  contextWindow := contextWindow
  fixedOverhead := saturatingAdd
    (saturatingAdd (estimateTokens systemPrompt) (estimateTokens toolSchemas))
    (clampSize protocolWrapperTokens)
  reserveOutputTokens := clampSize reserveOutputTokens

/-- `context_window.saturating_sub(reserve_output_tokens)`. -/
def ContextBudget.available (b : ContextBudget) : UInt32 :=
  if b.reserveOutputTokens ≤ b.contextWindow then b.contextWindow - b.reserveOutputTokens else 0

/-- Where turns start. -/
def userBoundaries (messages : List Message) : List ℕ :=
  (List.range messages.length).filter fun i => messages[i]?.any Message.isUser

/-- A cut between an assistant message with calls and a tool result. -/
def isToolCallResultSplit (prev next : Message) : Bool :=
  !prev.toolCalls.isEmpty && next.isToolResult

/-- The rest behind the first boundary that fits. -/
def firstFitting (messages : List Message) (maxTokens : ℕ) (fixedOverhead : UInt32) :
    List ℕ → Option (List Message)
  | [] => none
  | b :: bs =>
    let split := (messages[b - 1]?.bind fun prev =>
      messages[b]?.map fun next => isToolCallResultSplit prev next).getD false
    if 0 < b ∧ split then firstFitting messages maxTokens fixedOverhead bs
    else if (estimateTotal (messages.drop b) fixedOverhead).toNat ≤ maxTokens then
      some (messages.drop b)
    else firstFitting messages maxTokens fixedOverhead bs

def truncateToBudgetWithOverhead (messages : List Message) (maxTokens : ℕ)
    (fixedOverhead : UInt32) : List Message :=
  if (estimateTotal messages fixedOverhead).toNat ≤ maxTokens then messages
  else
    match messages with
    | [] => []
    | first :: _ =>
      let boundaries := userBoundaries messages
      let boundaries := if first.isUser then boundaries else 0 :: boundaries
      match firstFitting messages maxTokens fixedOverhead boundaries with
      | some rest => rest
      | none => messages.drop (boundaries.getLastD (messages.length - 1))

def truncateToBudget (messages : List Message) (maxTokens : ℕ) : List Message :=
  truncateToBudgetWithOverhead messages maxTokens 0

def ContextBudget.truncate (b : ContextBudget) (messages : List Message) : List Message :=
  truncateToBudgetWithOverhead messages b.available.toNat b.fixedOverhead

structure CompactionPolicy where
  budgetTokens : ℕ
  keepRecent : ℕ
  reserveOutputTokens : ℕ
  protocolWrapperTokens : ℕ
  deriving DecidableEq, Repr

def CompactionPolicy.default : CompactionPolicy := ⟨2 ^ 64 - 1, 1, 1024, 128⟩

/-- The messages as they are. -/
def defaultConvertToLlm (messages : List Message) : List Message := messages

inductive CompactionError where
  | provider (error : ProviderError)
  | cancelled
  | emptyInput
  | emptySummary
  deriving DecidableEq, Repr

/-- Replace the messages in front of `keepFrom` by the summary. -/
structure CompactionCommit where
  summary : String
  keepFrom : ℕ
  deriving DecidableEq, Repr

structure PreparedContext where
  requestMessages : List Message
  commit : Option CompactionCommit
  deriving DecidableEq, Repr

/-- How many messages are compacted so that the last turns stay; `0` for none. -/
def computeSplit (messages : List Message) (keepRecent : ℕ) : ℕ :=
  let boundaries := userBoundaries messages
  let keep := max keepRecent 1
  if boundaries.length ≤ keep then 0 else boundaries.getD (boundaries.length - keep) 0

/-- A summary stands in the transcript as a user message. -/
def summaryMessage (summary : String) : Message := .user ⟨[.text summary], 0⟩

/-- `compacted` is the answer of the compactor, should it be asked. -/
def planContext (transcript : List Message) (policy : CompactionPolicy)
    (compacted : Except CompactionError String) : Except CompactionError PreparedContext :=
  if (estimateTotal transcript 0).toNat ≤ policy.budgetTokens then .ok ⟨transcript, none⟩
  else
    let split := computeSplit transcript policy.keepRecent
    if split = 0 then .ok ⟨truncateToBudget transcript policy.budgetTokens, none⟩
    else
      match compacted with
      | .ok summary =>
        .ok ⟨summaryMessage summary :: transcript.drop split, some ⟨summary, split⟩⟩
      | .error .cancelled => .error .cancelled
      | .error _ => .ok ⟨truncateToBudget transcript policy.budgetTokens, none⟩

/-- A compaction cuts in front of a turn. -/
theorem computeSplit_user {messages : List Message} {keepRecent : ℕ}
    (h : computeSplit messages keepRecent ≠ 0) :
    ∃ m, messages[computeSplit messages keepRecent]? = some m ∧ m.isUser = true := by
  unfold computeSplit at h ⊢
  simp only at h ⊢
  split_ifs at h ⊢ with hle
  · exact absurd rfl h
  · have hlt : (userBoundaries messages).length - max keepRecent 1 <
        (userBoundaries messages).length := by omega
    have hmem := List.getElem_mem hlt
    rw [List.getD_eq_getElem?_getD, List.getElem?_eq_getElem hlt, Option.getD_some]
    unfold userBoundaries at hmem
    rw [List.mem_filter, Option.any_eq_true] at hmem
    obtain ⟨-, m, hm, huser⟩ := hmem
    exact ⟨m, hm, huser⟩

/-- What becomes of a transcript, by the estimate, the split and the answer of the compactor. -/
inductive Planned (transcript : List Message) (policy : CompactionPolicy)
    (compacted : Except CompactionError String) : Except CompactionError PreparedContext → Prop
  | fits (h : (estimateTotal transcript 0).toNat ≤ policy.budgetTokens) :
    Planned transcript policy compacted (.ok ⟨transcript, none⟩)
  | truncated (hover : policy.budgetTokens < (estimateTotal transcript 0).toNat)
    (h : computeSplit transcript policy.keepRecent = 0 ∨
      ∃ e, e ≠ .cancelled ∧ compacted = .error e) :
    Planned transcript policy compacted
      (.ok ⟨truncateToBudget transcript policy.budgetTokens, none⟩)
  | committed {summary : String}
    (hover : policy.budgetTokens < (estimateTotal transcript 0).toNat)
    (hsplit : computeSplit transcript policy.keepRecent ≠ 0) (h : compacted = .ok summary) :
    Planned transcript policy compacted
      (.ok ⟨summaryMessage summary :: transcript.drop (computeSplit transcript policy.keepRecent),
        some ⟨summary, computeSplit transcript policy.keepRecent⟩⟩)
  | cancelled (hover : policy.budgetTokens < (estimateTotal transcript 0).toNat)
    (hsplit : computeSplit transcript policy.keepRecent ≠ 0) (h : compacted = .error .cancelled) :
    Planned transcript policy compacted (.error .cancelled)

theorem planContext_planned (transcript : List Message) (policy : CompactionPolicy)
    (compacted : Except CompactionError String) :
    Planned transcript policy compacted (planContext transcript policy compacted) := by
  unfold planContext
  by_cases hfits : (estimateTotal transcript 0).toNat ≤ policy.budgetTokens
  · rw [if_pos hfits]
    exact .fits hfits
  · rw [if_neg hfits]
    by_cases hsplit : computeSplit transcript policy.keepRecent = 0
    · simp only [if_pos hsplit]
      exact .truncated (not_le.mp hfits) (.inl hsplit)
    · simp only [if_neg hsplit]
      cases compacted with
      | ok summary => exact .committed (not_le.mp hfits) hsplit rfl
      | error e =>
        cases e with
        | cancelled => exact .cancelled (not_le.mp hfits) hsplit rfl
        | provider | emptyInput | emptySummary =>
          exact .truncated (not_le.mp hfits) (.inr ⟨_, by simp, rfl⟩)

/-- A plan that commits cuts in front of a turn, and requests what it commits. -/
theorem planContext_commit {transcript : List Message} {policy : CompactionPolicy}
    {compacted : Except CompactionError String} {p : PreparedContext} {c : CompactionCommit}
    (h : planContext transcript policy compacted = .ok p) (hc : p.commit = some c) :
    (∃ m, transcript[c.keepFrom]? = some m ∧ m.isUser = true) ∧ compacted = .ok c.summary ∧
      p.requestMessages = summaryMessage c.summary :: transcript.drop c.keepFrom := by
  have hplanned := planContext_planned transcript policy compacted
  rw [h] at hplanned
  cases hplanned with
  | fits | truncated => cases hc
  | committed _ hsplit hok =>
    cases hc
    exact ⟨computeSplit_user hsplit, hok, rfl⟩

end Guigu
