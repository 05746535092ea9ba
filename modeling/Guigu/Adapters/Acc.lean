import Guigu.Core.Provider
import Guigu.Library.Fallible

/-! What an adapter gathers of an answer while its stream goes on. -/
namespace Guigu

/-- A piece of the answer, by its place among the pieces of its kind. -/
inductive SegmentKind where
  | text (i : ℕ)
  | thinking (i : ℕ)
  | toolCall (i : ℕ)
  deriving DecidableEq, Repr

structure ToolCallAcc where
  id : String
  name : String
  arguments : String
  done : Bool
  deriving DecidableEq, Repr

/-- A table by index with gaps: it is filled up to the index, which then gets its value. -/
def noteAt {α : Type*} (xs : List (Option α)) (i : ℕ) (a : α) : List (Option α) :=
  (xs ++ List.replicate (i + 1 - xs.length) none).set i (some a)

def lookAt {α : Type*} (xs : List (Option α)) (i : ℕ) : Option α := xs[i]?.join

theorem lookAt_noteAt {α : Type*} (xs : List (Option α)) (i j : ℕ) (a : α) :
    lookAt (noteAt xs i a) j = if j = i then some a else lookAt xs j := by
  unfold lookAt noteAt
  have hlong : i < (xs ++ List.replicate (i + 1 - xs.length) none).length := by
    simp only [List.length_append, List.length_replicate]
    omega
  split_ifs with hji
  · rw [hji, List.getElem?_set_self hlong]
    rfl
  · rw [List.getElem?_set_ne (Ne.symm hji), List.getElem?_append]
    split_ifs with hj
    · rfl
    · rw [List.getElem?_replicate, List.getElem?_eq_none (not_lt.mp hj)]
      split_ifs <;> rfl

/-- The cost of a usage is not computed: `0.0`. -/
def noCost : Option Json.Numeral := some ⟨['0', '.', '0'], by decide⟩

structure Acc where
  texts : List String
  thinkings : List String
  toolCalls : List ToolCallAcc
  segments : List SegmentKind
  /-- By the index of a content block (Anthropic). -/
  blockKinds : List (Option SegmentKind)
  /-- By the index the provider gives a call (OpenAI). -/
  toolIndexMap : List (Option ℕ)
  usage : Option Usage
  stopReason : Option StopReason
  model : String
  inputTokens : UInt64
  deriving DecidableEq, Repr

namespace Acc

def new (model : String) : Acc := ⟨[], [], [], [], [], [], none, none, model, 0⟩

def firstText? (segments : List SegmentKind) : Option ℕ :=
  segments.findSome? fun | .text i => some i | _ => none

def firstThinking? (segments : List SegmentKind) : Option ℕ :=
  segments.findSome? fun | .thinking i => some i | _ => none

def startTextBlock (acc : Acc) : ℕ × Acc :=
  let i := acc.texts.length
  (i, { acc with texts := acc.texts ++ [""], segments := acc.segments ++ [.text i] })

def startThinkingBlock (acc : Acc) : ℕ × Acc :=
  let i := acc.thinkings.length
  (i, { acc with thinkings := acc.thinkings ++ [""], segments := acc.segments ++ [.thinking i] })

def appendTextBlock (acc : Acc) (i : ℕ) (text : String) : Acc :=
  { acc with texts := acc.texts.modify i (· ++ text) }

def appendThinkingBlock (acc : Acc) (i : ℕ) (thinking : String) : Acc :=
  { acc with thinkings := acc.thinkings.modify i (· ++ thinking) }

/-- All text goes into one block. -/
def appendText (acc : Acc) (text : String) : Acc :=
  let r := match firstText? acc.segments with
    | some i => (i, acc)
    | none => acc.startTextBlock
  r.2.appendTextBlock r.1 text

def appendThinking (acc : Acc) (thinking : String) : Acc :=
  let r := match firstThinking? acc.segments with
    | some i => (i, acc)
    | none => acc.startThinkingBlock
  r.2.appendThinkingBlock r.1 thinking

def startToolCall (acc : Acc) (id name : String) : ℕ × Acc :=
  let i := acc.toolCalls.length
  (i, { acc with toolCalls := acc.toolCalls ++ [⟨id, name, "", false⟩],
                 segments := acc.segments ++ [.toolCall i] })

def appendArguments (acc : Acc) (i : ℕ) (args : String) : Acc :=
  let append (tc : ToolCallAcc) := { tc with arguments := tc.arguments ++ args }
  { acc with toolCalls := acc.toolCalls.modify i append }

/-- The first call with that identifier is done. -/
def endToolCall (acc : Acc) (id : String) : Acc :=
  let i := acc.toolCalls.findIdx fun tc => tc.id = id
  { acc with toolCalls := acc.toolCalls.modify i fun tc => { tc with done := true } }

def mapToolIndex (acc : Acc) (providerIndex localIndex : ℕ) : Except ProviderError Acc :=
  match lookAt acc.toolIndexMap providerIndex with
  | none => .ok { acc with toolIndexMap := noteAt acc.toolIndexMap providerIndex localIndex }
  | some _ => .error (.parse
      ("duplicate tool_call start at provider index " ++ toString providerIndex))

def toolLocalIndex (acc : Acc) (providerIndex : ℕ) : Option ℕ :=
  lookAt acc.toolIndexMap providerIndex

def noteBlock (acc : Acc) (index : ℕ) (kind : SegmentKind) : Acc :=
  { acc with blockKinds := noteAt acc.blockKinds index kind }

def blockKind (acc : Acc) (index : ℕ) : Option SegmentKind := lookAt acc.blockKinds index

/-- The content of a segment; texts without a character are left out. -/
def content? (acc : Acc) : SegmentKind → Option AssistantContent
  | .text i => (acc.texts[i]?.filter (· ≠ "")).map .text
  | .thinking i => (acc.thinkings[i]?.filter (· ≠ "")).map .thinking
  | .toolCall i => acc.toolCalls[i]?.map fun tc => .toolCall ⟨tc.id, tc.name, tc.arguments⟩

def buildMessage (acc : Acc) : AssistantMessage where
  content := acc.segments.filterMap acc.content?
  model := some acc.model
  usage := acc.usage
  stopReason := acc.stopReason
  errorMessage := none
  timestamp := 0

end Acc

end Guigu
