import Guigu.Core.Provider

/-! An answer as its pieces in order, and the events that announce them. -/
namespace Guigu

/-- What a piece of an answer is, its text apart. -/
inductive Block where
  | text
  | thinking
  | toolUse (id name : String)
  deriving DecidableEq, Repr

namespace AssistantEvent

def callStart? : AssistantEvent → Option (String × String)
  | .toolCallStart id name _ => some (id, name)
  | _ => none

/-- Not the start of a call, and no text of a piece. -/
def isQuiet : AssistantEvent → Bool
  | .toolCallEnd _ | .done _ | .error _ _ => true
  | _ => false

end AssistantEvent

namespace Block

/-- The event for the start of a piece. -/
def starts : Block → List AssistantEvent
  | .toolUse id name => [.toolCallStart id name ""]
  | _ => []

def delta (t : String) : Block → AssistantEvent
  | .text => .textDelta t
  | .thinking => .thinkingDelta t
  | .toolUse id _ => .toolCallDelta id t

/-- The text that an event has for the piece. -/
def deltaOf : Block → AssistantEvent → Option String
  | .text, .textDelta t | .thinking, .thinkingDelta t => some t
  | .toolUse id _, .toolCallDelta id' t => if id' = id then some t else none
  | _, _ => none

/-- All text of the events for the piece. -/
def joined (b : Block) (events : List AssistantEvent) : String :=
  String.join (events.filterMap b.deltaOf)

/-- The content of a message for a piece; texts without a character are left out. -/
def content? (t : String) : Block → Option AssistantContent
  | .text => if t = "" then none else some (.text t)
  | .thinking => if t = "" then none else some (.thinking t)
  | .toolUse id name => some (.toolCall ⟨id, name, t⟩)

end Block

/-- A piece with its text. -/
abbrev Piece := Block × String

namespace Piece

def content? (p : Piece) : Option AssistantContent := p.1.content? p.2

def call? : Piece → Option ToolCall
  | (.toolUse id name, t) => some ⟨id, name, t⟩
  | _ => none

/-- The text of a piece that is `b`. -/
def textOf? (b : Block) (p : Piece) : Option String := if p.1 = b then some p.2 else none

end Piece

/-- Pieces start and grow, and events say so; `single` if there is one text and one thinking. -/
inductive Gathers (single : Bool) : List Piece → List AssistantEvent → List Piece → Prop
  | quiet {pieces : List Piece} {events : List AssistantEvent}
      (h : ∀ e ∈ events, e.isQuiet = true) : Gathers single pieces events pieces
  | start {pieces : List Piece} {b : Block}
      (h : single = true → b = .text ∨ b = .thinking → b ∉ pieces.map Prod.fst) :
      Gathers single pieces b.starts (pieces ++ [(b, "")])
  | append {before after : List Piece} {b : Block} {s t : String} :
      Gathers single (before ++ (b, s) :: after) [b.delta t] (before ++ (b, s ++ t) :: after)
  | trans {first second third : List Piece} {events events' : List AssistantEvent}
      (h : Gathers single first events second) (h' : Gathers single second events' third) :
      Gathers single first (events ++ events') third

namespace Gathers

variable {single : Bool}

theorem refl (pieces : List Piece) : Gathers single pieces [] pieces :=
  .quiet (List.forall_mem_nil _)

theorem deltaOf_quiet (b : Block) {e : AssistantEvent} (h : e.isQuiet = true) :
    b.deltaOf e = none := by
  cases e with
  | toolCallEnd id => cases b <;> rfl
  | done m => cases b <;> rfl
  | error message aborted => cases b <;> rfl
  | _ => cases h

theorem joined_append (b : Block) (events events' : List AssistantEvent) :
    b.joined (events ++ events') = b.joined events ++ b.joined events' := by
  simp only [Block.joined, List.filterMap_append, String.join_append]

theorem joined_of_none {b : Block} {events : List AssistantEvent}
    (h : ∀ e ∈ events, b.deltaOf e = none) : b.joined events = "" := by
  rw [Block.joined, List.filterMap_eq_nil_iff.mpr h]
  rfl

/-! ### Calls -/

/-- The calls are the ones that were announced, with the arguments that were announced. -/
structure Calls (events : List AssistantEvent) (calls : List ToolCall) : Prop where
  starts : calls.map (fun c => (c.id, c.name)) = events.filterMap AssistantEvent.callStart?
  known : ∀ id t, .toolCallDelta id t ∈ events → id ∈ calls.map ToolCall.id
  joined : (calls.map ToolCall.id).Nodup →
    ∀ c ∈ calls, c.arguments = (Block.toolUse c.id c.name).joined events

/-- An event that has to do with calls. -/
def OfCall (e : AssistantEvent) : Prop :=
  (∃ id name t, e = .toolCallStart id name t) ∨ ∃ id t, e = .toolCallDelta id t

theorem Calls.frame {events events' : List AssistantEvent} {calls : List ToolCall}
    (h : Calls events calls) (hother : ∀ e ∈ events', ¬ OfCall e) :
    Calls (events ++ events') calls where
  starts := by
    have hnone : events'.filterMap AssistantEvent.callStart? = [] := by
      rw [List.filterMap_eq_nil_iff]
      intro e he
      cases e with
      | toolCallStart id name t => exact absurd (.inl ⟨id, name, t, rfl⟩) (hother _ he)
      | _ => rfl
    rw [List.filterMap_append, hnone, List.append_nil, h.starts]
  known := by
    intro id t hmem
    rcases List.mem_append.mp hmem with hmem | hmem
    · exact h.known id t hmem
    · exact absurd (.inr ⟨id, t, rfl⟩) (hother _ hmem)
  joined := by
    intro hnodup c hc
    have hnone : (Block.toolUse c.id c.name).joined events' = "" := by
      apply joined_of_none
      intro e he
      cases e with
      | toolCallDelta id t => exact absurd (.inr ⟨id, t, rfl⟩) (hother _ he)
      | _ => rfl
    rw [joined_append, hnone, String.append_empty]
    exact h.joined hnodup c hc

theorem Calls.start {events : List AssistantEvent} {calls : List ToolCall} (h : Calls events calls)
    (id name : String) :
    Calls (events ++ [.toolCallStart id name ""]) (calls ++ [⟨id, name, ""⟩]) where
  starts := by
    rw [List.map_append, h.starts, List.filterMap_append]
    rfl
  known := by
    intro id' t hmem
    rw [List.map_append, List.mem_append]
    rcases List.mem_append.mp hmem with hmem | hmem
    · exact .inl (h.known id' t hmem)
    · cases List.mem_singleton.mp hmem
  joined := by
    intro hnodup c hc
    rw [List.map_append, List.nodup_append] at hnodup
    obtain ⟨hold, -, hnew⟩ := hnodup
    have hnone : (Block.toolUse c.id c.name).joined [.toolCallStart id name ""] = "" := rfl
    rw [joined_append, hnone, String.append_empty]
    rcases List.mem_append.mp hc with hc | hc
    · exact h.joined hold c hc
    · obtain rfl := List.mem_singleton.mp hc
      -- Nothing was announced for an identifier that is new.
      apply (joined_of_none _).symm
      intro e he
      cases e with
      | toolCallDelta id' t =>
        have hne : id' ≠ id := by
          rintro rfl
          exact hnew _ (h.known _ t he) _ (by simp) rfl
        simp only [Block.deltaOf, hne, if_false]
      | _ => rfl

theorem Calls.append {events : List AssistantEvent} {before after : List ToolCall}
    {id name s : String} (h : Calls events (before ++ ⟨id, name, s⟩ :: after)) (t : String) :
    Calls (events ++ [.toolCallDelta id t]) (before ++ ⟨id, name, s ++ t⟩ :: after) where
  starts := by
    have hstarts := h.starts
    simp only [List.map_append, List.map_cons, List.filterMap_append, List.filterMap_cons,
      AssistantEvent.callStart?, List.filterMap_nil, List.append_nil] at hstarts ⊢
    exact hstarts
  known := by
    intro id' t' hmem
    rcases List.mem_append.mp hmem with hmem | hmem
    · have hknown := h.known id' t' hmem
      simp only [List.map_append, List.map_cons] at hknown ⊢
      exact hknown
    · cases List.mem_singleton.mp hmem
      simp
  joined := by
    intro hnodup c hc
    have hids : (before ++ (⟨id, name, s⟩ : ToolCall) :: after).map ToolCall.id =
        (before ++ (⟨id, name, s ++ t⟩ : ToolCall) :: after).map ToolCall.id := by
      simp only [List.map_append, List.map_cons]
    have hjoined := h.joined (hids ▸ hnodup)
    rw [joined_append]
    by_cases hid : c = ⟨id, name, s ++ t⟩
    · have hs := hjoined ⟨id, name, s⟩ (by simp)
      subst hid
      rw [← hs]
      simp [Block.joined, Block.deltaOf]
    · -- No other call has the identifier.
      have hne : c.id ≠ id := by
        simp only [List.map_append, List.map_cons, List.nodup_append, List.nodup_cons] at hnodup
        obtain ⟨-, ⟨hafter, -⟩, hbefore⟩ := hnodup
        rintro rfl
        rcases List.mem_append.mp hc with hc | hc
        · exact hbefore _ (List.mem_map_of_mem hc) _ List.mem_cons_self rfl
        · rcases List.mem_cons.mp hc with hc | hc
          · exact hid hc
          · exact hafter (List.mem_map_of_mem hc)
      have hnone : (Block.toolUse c.id c.name).joined [.toolCallDelta id t] = "" := by
        simp [Block.joined, Block.deltaOf, Ne.symm hne]
      rw [hnone, String.append_empty]
      apply hjoined
      simp only [List.mem_append, List.mem_cons] at hc ⊢
      exact hc.imp_right fun h => .inr (h.resolve_left hid)

theorem calls {events events' : List AssistantEvent} {pieces pieces' : List Piece}
    (h : Calls events (pieces.filterMap Piece.call?))
    (hgathers : Gathers single pieces events' pieces') :
    Calls (events ++ events') (pieces'.filterMap Piece.call?) := by
  induction hgathers generalizing events with
  | trans h₁ h₂ ih₁ ih₂ =>
    rw [← List.append_assoc]
    exact ih₂ (ih₁ h)
  | quiet hquiet =>
    apply h.frame
    intro e he hcall
    have hquiet := hquiet e he
    rcases hcall with ⟨id, name, t, rfl⟩ | ⟨id, t, rfl⟩ <;> cases hquiet
  | @start pieces b _ =>
    rw [List.filterMap_append]
    cases b with
    | text =>
      show Calls (events ++ []) (pieces.filterMap Piece.call? ++ [])
      simpa using h
    | thinking =>
      show Calls (events ++ []) (pieces.filterMap Piece.call? ++ [])
      simpa using h
    | toolUse id name => exact h.start id name
  | @append before after b s t =>
    simp only [List.filterMap_append, List.filterMap_cons] at h ⊢
    cases b with
    | text => exact h.frame (by simp [Block.delta, OfCall])
    | thinking => exact h.frame (by simp [Block.delta, OfCall])
    | toolUse id name => exact h.append t

/-! ### The one text -/

/-- There is no piece of that kind and no text for it, or one piece with all the text. -/
def Sole (b : Block) (events : List AssistantEvent) (pieces : List Piece) : Prop :=
  pieces.filterMap (Piece.textOf? b) = [] ∧ b.joined events = "" ∨
    pieces.filterMap (Piece.textOf? b) = [b.joined events]

theorem sole {b : Block} (hb : b = .text ∨ b = .thinking) {events events' : List AssistantEvent}
    {pieces pieces' : List Piece} (h : Sole b events pieces)
    (hgathers : Gathers true pieces events' pieces') : Sole b (events ++ events') pieces' := by
  induction hgathers generalizing events with
  | trans h₁ h₂ ih₁ ih₂ =>
    rw [← List.append_assoc]
    exact ih₂ (ih₁ h)
  | quiet hquiet =>
    rwa [Sole, joined_append, joined_of_none fun e he => deltaOf_quiet b (hquiet e he),
      String.append_empty]
  | @start pieces b' hnew =>
    have hnone : b.joined b'.starts = "" := by
      cases b' <;> rcases hb with rfl | rfl <;> rfl
    rw [Sole, joined_append, hnone, String.append_empty, List.filterMap_append]
    by_cases heq : b' = b
    · subst heq
      have hempty : pieces.filterMap (Piece.textOf? b') = [] := by
        rw [List.filterMap_eq_nil_iff]
        intro p hp
        have hne : p.1 ≠ b' := fun heq => hnew rfl hb (heq ▸ List.mem_map_of_mem hp)
        simp only [Piece.textOf?, hne, if_false]
      rcases h with ⟨-, hjoined⟩ | hone
      · right
        rw [hempty, hjoined]
        simp [Piece.textOf?]
      · rw [hempty] at hone
        cases hone
    · have hother : [((b', "") : Piece)].filterMap (Piece.textOf? b) = [] := by
        simp [Piece.textOf?, heq]
      rw [hother, List.append_nil]
      exact h
  | @append before after b' s t =>
    rw [Sole, List.filterMap_append, List.filterMap_cons] at h ⊢
    rw [joined_append]
    by_cases heq : b' = b
    · subst heq
      have hdelta : b'.joined [b'.delta t] = t := by
        rcases hb with rfl | rfl <;> simp [Block.joined, Block.delta, Block.deltaOf]
      simp only [Piece.textOf?, if_true] at h ⊢
      rcases h with ⟨hempty, -⟩ | hone
      · simp at hempty
      · rcases List.append_eq_singleton_iff.mp hone with ⟨hbefore, hcons⟩ | ⟨-, hcons⟩
        · obtain ⟨hs, hafter⟩ := List.cons.inj hcons
          right
          rw [hbefore, hdelta, ← hs]
          exact congrArg ((s ++ t) :: ·) hafter
        · cases hcons
    · have hdelta : b.joined [b'.delta t] = "" := by
        apply joined_of_none
        intro e he
        rw [List.mem_singleton.mp he]
        rcases hb with rfl | rfl <;> cases b' <;> first | exact absurd rfl heq | rfl
      simp only [Piece.textOf?, heq, if_false, hdelta, String.append_empty] at h ⊢
      exact h

end Gathers

end Guigu
