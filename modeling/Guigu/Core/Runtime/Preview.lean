import Guigu.Adapters.Sending
import Guigu.Core.Runtime.Turn

/-! What the loop gathers of an answer while it is streamed, against what was sent. One call is
open at a time here, so pieces of another call are lost. -/
namespace Guigu

namespace TurnAccumulator

/-- The accumulator behind events. -/
def gather (acc : TurnAccumulator) (events : List AssistantEvent) : TurnAccumulator :=
  events.foldl (fun acc e => (acc.handleEvent e).2) acc

@[simp] theorem gather_nil (acc : TurnAccumulator) : acc.gather [] = acc := rfl

@[simp] theorem gather_cons (acc : TurnAccumulator) (e : AssistantEvent)
    (events : List AssistantEvent) :
    acc.gather (e :: events) = (acc.handleEvent e).2.gather events := rfl

theorem gather_append (acc : TurnAccumulator) (events events' : List AssistantEvent) :
    acc.gather (events ++ events') = (acc.gather events).gather events' :=
  List.foldl_append

/-- The accumulator when the stream ends without a `Done`. -/
def cut (acc : TurnAccumulator) (error : Option String) (aborted : Bool) : TurnAccumulator :=
  { acc with errorMessage := error, aborted := aborted }

def textOf (b : Block) (acc : TurnAccumulator) : String :=
  if b = .text then acc.text else acc.thinking

/-- The calls, with the open one. -/
def calls (acc : TurnAccumulator) : List ToolCall := acc.toolCalls ++ acc.currentTool.toList

/-! ### What an event changes -/

theorem handleEvent_toolCallDelta (acc : TurnAccumulator) (id t : String) :
    acc.handleEvent (.toolCallDelta id t) = (false, { acc with
      currentTool := acc.currentTool.map fun tc =>
        if tc.id = id then { tc with arguments := tc.arguments ++ t } else tc }) := by
  obtain ⟨text, thinking, toolCalls, currentTool, finalMessage, errorMessage, aborted⟩ := acc
  cases currentTool with
  | none => rfl
  | some tc => by_cases hid : tc.id = id <;> simp [handleEvent, hid]

theorem handleEvent_toolCallEnd (acc : TurnAccumulator) (id : String) :
    acc.handleEvent (.toolCallEnd id) = (false, { acc with
      toolCalls := acc.toolCalls ++ (acc.currentTool.filter fun tc => tc.id = id).toList
      currentTool := acc.currentTool.filter fun tc => tc.id ≠ id }) := by
  obtain ⟨text, thinking, toolCalls, currentTool, finalMessage, errorMessage, aborted⟩ := acc
  cases currentTool with
  | none => simp [handleEvent]
  | some tc => by_cases hid : tc.id = id <;> simp [handleEvent, hid, Option.filter]

theorem handleEvent_fst (acc : TurnAccumulator) (e : AssistantEvent) :
    (acc.handleEvent e).1 = e.isTerminal := by
  cases e with
  | toolCallDelta id t => rw [handleEvent_toolCallDelta]; rfl
  | toolCallEnd id => rw [handleEvent_toolCallEnd]; rfl
  | _ => rfl

/-- The events that come through to the loop are gathered. -/
theorem run_delivered (acc : TurnAccumulator) {sent : List (List AgentCommand × AssistantEvent)}
    (h : ∀ p ∈ sent, p.1.any AgentCommand.cuts = false ∧ p.2.isTerminal = false)
    (items : List StreamItem) :
    acc.run (sent.map (fun p => .event p.1 p.2) ++ items) =
      (acc.gather (sent.map Prod.snd)).run items := by
  induction sent generalizing acc with
  | nil => rfl
  | cons p sent ih =>
    obtain ⟨hcuts, hterminal⟩ := h p List.mem_cons_self
    rw [List.map_cons, List.cons_append, TurnAccumulator.run, hcuts, if_neg Bool.false_ne_true,
      handleEvent_fst, hterminal, if_neg Bool.false_ne_true,
      ih _ fun q hq => h q (List.mem_cons_of_mem p hq)]
    rfl

theorem handleEvent_textOf (acc : TurnAccumulator) (e : AssistantEvent) {b : Block}
    (hb : b = .text ∨ b = .thinking) :
    (acc.handleEvent e).2.textOf b = acc.textOf b ++ b.joined [e] := by
  cases e with
  | toolCallDelta id t =>
    rw [handleEvent_toolCallDelta]
    rcases hb with rfl | rfl <;> exact String.append_empty.symm
  | toolCallEnd id =>
    rw [handleEvent_toolCallEnd]
    rcases hb with rfl | rfl <;> exact String.append_empty.symm
  | textDelta t =>
    rcases hb with rfl | rfl
    · simp [handleEvent, textOf, Block.joined, Block.deltaOf]
    · exact String.append_empty.symm
  | thinkingDelta t =>
    rcases hb with rfl | rfl
    · exact String.append_empty.symm
    · simp [handleEvent, textOf, Block.joined, Block.deltaOf]
  | _ => rcases hb with rfl | rfl <;> exact String.append_empty.symm

/-- What is closed stays as it is. -/
theorem handleEvent_toolCalls (acc : TurnAccumulator) (e : AssistantEvent) :
    acc.toolCalls <+: (acc.handleEvent e).2.toolCalls := by
  cases e with
  | toolCallStart id name arguments => exact List.prefix_append _ _
  | toolCallDelta id t => rw [handleEvent_toolCallDelta]
  | toolCallEnd id =>
    rw [handleEvent_toolCallEnd]
    exact List.prefix_append _ _
  | _ => exact List.prefix_rfl

theorem gather_textOf (acc : TurnAccumulator) (events : List AssistantEvent) {b : Block}
    (hb : b = .text ∨ b = .thinking) :
    (acc.gather events).textOf b = acc.textOf b ++ b.joined events := by
  induction events generalizing acc with
  | nil => exact String.append_empty.symm
  | cons e events ih =>
    rw [gather_cons, ih, handleEvent_textOf acc e hb, String.append_assoc,
      ← Gathers.joined_append]
    rfl

theorem gather_toolCalls (acc : TurnAccumulator) (events : List AssistantEvent) :
    acc.toolCalls <+: (acc.gather events).toolCalls := by
  induction events generalizing acc with
  | nil => exact List.prefix_rfl
  | cons e events ih => exact (handleEvent_toolCalls acc e).trans (ih _)

theorem gather_final {acc : TurnAccumulator} {events : List AssistantEvent}
    (hacc : acc.finalMessage = none) (h : ∀ e ∈ events, e.isDone = false) :
    (acc.gather events).finalMessage = none := by
  induction events generalizing acc with
  | nil => exact hacc
  | cons e events ih =>
    refine ih ?_ fun e' he' => h e' (List.mem_cons_of_mem e he')
    rw [Option.eq_none_iff_forall_ne_some]
    intro m hm
    obtain rfl := (handleEvent_final hacc m).mp hm
    exact absurd (h _ List.mem_cons_self) (Bool.noConfusion)

/-- Ends close the open call if its identifier is among them. -/
theorem gather_ends (acc : TurnAccumulator) (ids : List String) :
    (acc.gather (ids.map .toolCallEnd)).calls = acc.calls ∧
      ((∀ tc ∈ acc.currentTool, tc.id ∈ ids) →
        (acc.gather (ids.map .toolCallEnd)).currentTool = none) := by
  induction ids generalizing acc with
  | nil =>
    refine ⟨rfl, fun h => ?_⟩
    rw [Option.eq_none_iff_forall_ne_some]
    intro tc htc
    cases h tc htc
  | cons id ids ih =>
    rw [List.map_cons, gather_cons]
    have hstep : (acc.handleEvent (.toolCallEnd id)).2.calls = acc.calls ∧
        ((∀ tc ∈ acc.currentTool, tc.id ∈ id :: ids) →
          ∀ tc ∈ (acc.handleEvent (.toolCallEnd id)).2.currentTool, tc.id ∈ ids) := by
      rw [handleEvent_toolCallEnd, calls, calls]
      refine ⟨?_, fun h tc htc => ?_⟩
      · cases acc.currentTool with
        | none => simp
        | some tc => by_cases hid : tc.id = id <;> simp [Option.filter, hid]
      · obtain ⟨htc, hid⟩ := Option.filter_eq_some_iff.mp htc
        exact (List.mem_cons.mp (h tc htc)).resolve_left (of_decide_eq_true hid)
    exact ⟨(ih _).1.trans hstep.1, fun h => (ih _).2 (hstep.2 h)⟩

/-- A `Done` or an `Error` changes no piece. -/
theorem gather_terminal (acc : TurnAccumulator) {events : List AssistantEvent}
    (h : ∀ e ∈ events, e.isTerminal = true) :
    (acc.gather events).toolCalls = acc.toolCalls ∧
      (acc.gather events).currentTool = acc.currentTool := by
  induction events generalizing acc with
  | nil => exact ⟨rfl, rfl⟩
  | cons e events ih =>
    obtain ⟨hcalls, hcurrent⟩ :=
      ih (acc.handleEvent e).2 fun e' he' => h e' (List.mem_cons_of_mem e he')
    have hterminal := h e List.mem_cons_self
    rw [gather_cons, hcalls, hcurrent]
    cases e <;> first | exact ⟨rfl, rfl⟩ | exact absurd hterminal Bool.false_ne_true

end TurnAccumulator

/-! ### The calls gathered and the calls sent -/

section Following

variable {κ : Type} {w : Wire κ} {acc : TurnAccumulator}

/-- The calls gathered are the calls sent, and the open call is the current one. -/
structure Follows (acc : TurnAccumulator) (w : Wire κ) : Prop where
  calls : acc.calls = w.calls.map Prod.snd
  current : acc.currentTool.isSome = w.current.isSome

/-- A call that is closed lacks some of what was sent for it. -/
def Lags (acc : TurnAccumulator) (w : Wire κ) : Prop :=
  ∃ (i : ℕ) (call : ToolCall) (sent : κ × ToolCall), acc.toolCalls[i]? = some call ∧
    w.calls[i]? = some sent ∧ call.arguments.length < sent.2.arguments.length

theorem Lags.ne (h : Lags acc w) : acc.calls ≠ w.calls.map Prod.snd := by
  obtain ⟨i, call, sent, hcall, hsent, hlt⟩ := h
  intro heq
  have hheld : acc.calls[i]? = some call := by
    rw [TurnAccumulator.calls, List.getElem?_append_left (List.getElem?_eq_some_iff.mp hcall).1,
      hcall]
  rw [heq, List.getElem?_map, hsent, Option.map_some] at hheld
  rw [Option.some.inj hheld] at hlt
  exact lt_irrefl _ hlt

/-- The last of the calls gathered is the current one, under its key. -/
theorem Follows.open (h : Follows acc w) (hw : w.Sound) {c : κ × String} (hc : w.current = some c) :
    ∃ front call, w.calls = front ++ [(c.1, call)] ∧ call.id = c.2 ∧
      acc.toolCalls = front.map Prod.snd ∧ acc.currentTool = some call := by
  obtain ⟨call, hlast, hid⟩ := hw.last c hc
  obtain ⟨front, hfront⟩ := List.getLast?_eq_some_iff.mp hlast
  have hsome := h.current
  rw [hc, Option.isSome_some] at hsome
  obtain ⟨tc, htc⟩ := Option.isSome_iff_exists.mp hsome
  have hcalls := h.calls
  rw [TurnAccumulator.calls, htc, hfront, List.map_append] at hcalls
  obtain ⟨hclosed, hopen⟩ := List.append_inj' hcalls rfl
  obtain rfl := List.singleton_inj.mp hopen
  exact ⟨front, _, hfront, hid, hclosed, htc⟩

theorem Follows.closed (h : Follows acc w) (hc : w.current = none) :
    acc.currentTool = none ∧ acc.toolCalls = w.calls.map Prod.snd := by
  have hnone : acc.currentTool = none := by
    have hcurrent := h.current
    rw [hc] at hcurrent
    exact Option.isNone_iff_eq_none.mp (Option.isSome_eq_false_iff.mp hcurrent)
  have hcalls := h.calls
  rw [TurnAccumulator.calls, hnone, Option.toList_none, List.append_nil] at hcalls
  exact ⟨hnone, hcalls⟩

variable [DecidableEq κ]

/-- What was sent for a call never gets less. -/
theorem calls_grown {i : ℕ} {sent : κ × ToolCall} (h : w.calls[i]? = some sent)
    (steps : List (WireStep κ)) : ∃ sent', (w.run steps).calls[i]? = some sent' ∧
      sent.2.arguments.length ≤ sent'.2.arguments.length := by
  induction steps generalizing w sent with
  | nil => exact ⟨sent, h, le_rfl⟩
  | cons s steps ih =>
    have hstep : ∃ sent', (w.take s).calls[i]? = some sent' ∧
        sent.2.arguments.length ≤ sent'.2.arguments.length := by
      cases s with
      | start k b =>
        by_cases hk : k ∈ w.keys
        · exact ⟨sent, by rwa [Wire.start_of_mem hk], le_rfl⟩
        · refine ⟨sent, ?_, le_rfl⟩
          rw [Wire.calls_start hk, List.getElem?_append_left (List.getElem?_eq_some_iff.mp h).1, h]
      | grow k t =>
        rw [Wire.calls_grow, Wire.atKey, List.getElem?_map, h, Option.map_some]
        refine ⟨_, rfl, ?_⟩
        split_ifs
        · rw [String.length_append]
          exact Nat.le_add_right _ _
        · exact le_rfl
      | _ => exact ⟨sent, h, le_rfl⟩
    obtain ⟨sent', hsent', hle⟩ := hstep
    obtain ⟨sent'', hsent'', hle'⟩ := ih hsent'
    exact ⟨sent'', hsent'', hle.trans hle'⟩

theorem Lags.run (h : Lags acc w) (events : List AssistantEvent) (steps : List (WireStep κ)) :
    Lags (acc.gather events) (w.run steps) := by
  obtain ⟨i, call, sent, hcall, hsent, hlt⟩ := h
  obtain ⟨sent', hsent', hle⟩ := calls_grown hsent steps
  obtain ⟨more, hmore⟩ := acc.gather_toolCalls events
  refine ⟨i, call, sent', ?_, hsent', hlt.trans_le hle⟩
  rw [← hmore, List.getElem?_append_left (List.getElem?_eq_some_iff.mp hcall).1, hcall]

theorem Follows.start (h : Follows acc w) {k : κ} (hk : k ∉ w.keys) (b : Block) :
    Follows (acc.gather b.starts) (w.take (.start k b)) := by
  refine ⟨?_, ?_⟩
  · rw [Wire.calls_start hk, List.map_append, ← h.calls]
    cases b with
    | toolUse id name => rfl
    | _ => exact (List.append_nil _).symm
  · cases b with
    | toolUse id name =>
      simp only [Wire.take, if_neg hk]
      rfl
    | _ =>
      simp only [Wire.take, if_neg hk]
      exact h.current

/-- A call is told by its key and its identifier. -/
theorem any_calls (hw : w.Sound) {k : κ} {call : ToolCall} (hcall : (k, call) ∈ w.calls)
    (id : String) : (w.calls.any fun p => p.1 = k && p.2.id = id) = decide (call.id = id) := by
  rw [Bool.eq_iff_iff, List.any_eq_true, decide_eq_true_iff]
  constructor
  · rintro ⟨⟨k', call'⟩, hmem, hboth⟩
    rw [Bool.and_eq_true, decide_eq_true_iff, decide_eq_true_iff] at hboth
    obtain ⟨rfl, rfl⟩ := hboth
    have heq := List.inj_on_of_nodup_map (hw.nodup_select _) hcall hmem rfl
    rw [(Prod.mk.inj heq).2]
  · intro heq
    exact ⟨(k, call), hcall, by simp [heq]⟩

theorem Follows.stop (h : Follows acc w) (hw : w.Sound) {k : κ} {call : ToolCall}
    (hcall : (k, call) ∈ w.calls) :
    Follows (acc.gather [.toolCallEnd call.id]) (w.take (.stop k)) := by
  refine ⟨(acc.gather_ends [call.id]).1.trans h.calls, ?_⟩
  rw [TurnAccumulator.gather_cons, TurnAccumulator.gather_nil,
    TurnAccumulator.handleEvent_toolCallEnd, Wire.take]
  cases hc : w.current with
  | none =>
    rw [(h.closed hc).1]
    rfl
  | some c =>
    obtain ⟨front, tc, -, hid, -, hcurrent⟩ := h.open hw hc
    simp only [hcurrent, any_calls hw hcall, Option.filter_some, ← hid]
    by_cases heq : call.id = tc.id
    · simp [heq]
    · simp [heq, Ne.symm heq]

theorem Follows.pass (h : Follows acc w) {k : κ} (hk : k ∉ w.calls.map Prod.fst) :
    Follows acc (w.take (.stop k)) := by
  have hany : ∀ id, (w.calls.any fun p => p.1 = k && p.2.id = id) = false := by
    intro id
    rw [List.any_eq_false]
    intro p hp
    rw [Bool.and_eq_true, decide_eq_true_iff]
    rintro ⟨rfl, -⟩
    exact hk (List.mem_map_of_mem hp)
  have hcurrent : (w.take (.stop k)).current = w.current := by
    simp only [Wire.take, hany]
    cases w.current <;> rfl
  exact ⟨h.calls, hcurrent ▸ h.current⟩

theorem Follows.finish (h : Follows acc w) (hw : w.Sound) {ids : List String}
    (hids : ∀ c ∈ w.current, c.2 ∈ ids) :
    Follows (acc.gather (ids.map .toolCallEnd)) (w.take .finish) := by
  obtain ⟨hcalls, hclose⟩ := acc.gather_ends ids
  have hopen : ∀ tc ∈ acc.currentTool, tc.id ∈ ids := by
    intro tc htc
    cases hc : w.current with
    | none =>
      rw [(h.closed hc).1] at htc
      cases htc
    | some c =>
      obtain ⟨front, call, -, hid, -, hcurrent⟩ := h.open hw hc
      rw [hcurrent] at htc
      rw [← Option.some.inj htc, hid]
      exact hids c hc
  exact ⟨hcalls.trans h.calls, by rw [hclose hopen]; rfl⟩

theorem TurnAccumulator.gather_text_delta (acc : TurnAccumulator) {b : Block}
    (hb : Piece.call? (b, "") = none) (t : String) :
    (acc.gather [b.delta t]).calls = acc.calls ∧
      (acc.gather [b.delta t]).currentTool = acc.currentTool := by
  cases b with
  | toolUse id name => cases hb
  | _ => exact ⟨rfl, rfl⟩

theorem gather_call_delta (id name t : String) :
    acc.gather [(Block.toolUse id name).delta t] = { acc with
      currentTool := acc.currentTool.map fun tc =>
        if tc.id = id then { tc with arguments := tc.arguments ++ t } else tc } := by
  rw [TurnAccumulator.gather_cons, TurnAccumulator.gather_nil, Block.delta,
    TurnAccumulator.handleEvent_toolCallDelta]

/-- Text that comes in turn is gathered where it belongs. -/
theorem Follows.grow (h : Follows acc w) (hw : w.Sound) {k : κ} {p : Piece} {t : String}
    (hp : (k, p) ∈ w.pieces) (hturn : w.CallInTurn (.grow k t)) :
    Follows (acc.gather [p.1.delta t]) (w.take (.grow k t)) := by
  obtain ⟨b, s⟩ := p
  have hcurrent : (w.take (.grow k t)).current = w.current := rfl
  by_cases hb : ∃ id name, b = .toolUse id name
  · obtain ⟨id, name, rfl⟩ := hb
    have hcall : (k, (⟨id, name, s⟩ : ToolCall)) ∈ w.calls := Wire.mem_select.mpr ⟨_, hp, rfl⟩
    rw [gather_call_delta]
    by_cases ht : t = ""
    · subst ht
      refine ⟨?_, by rw [Option.isSome_map, hcurrent, h.current]⟩
      rw [Wire.calls_grow, Wire.atKey_of_forall k _ fun p _ _ => by simp, ← h.calls,
        TurnAccumulator.calls, TurnAccumulator.calls]
      cases acc.currentTool <;> simp
    · have hkey := hturn ht (List.mem_map_of_mem hcall)
      obtain ⟨c, hc, rfl⟩ := Option.map_eq_some_iff.mp hkey
      obtain ⟨front, call, hcalls, -, hclosed, hopen⟩ := h.open hw hc
      have hnodup := hw.nodup_select Piece.call?
      have hmem : (c.1, call) ∈ w.calls := by
        rw [hcalls]
        exact List.mem_append_right _ List.mem_cons_self
      obtain rfl := (Prod.mk.inj (List.inj_on_of_nodup_map hnodup hmem hcall rfl)).2
      have hfresh : c.1 ∉ front.map Prod.fst := by
        rw [← Wire.calls, hcalls, List.map_append, List.nodup_append] at hnodup
        intro hfront
        exact hnodup.2.2 _ hfront _ List.mem_cons_self rfl
      refine ⟨?_, by rw [Option.isSome_map, hcurrent, h.current]⟩
      rw [Wire.calls_grow, hcalls, Wire.atKey_append, Wire.atKey_of_not_mem _ _ hfresh,
        TurnAccumulator.calls, hclosed, hopen, List.map_append]
      simp [Wire.atKey]
  · have hnone : ∀ s, Piece.call? (b, s) = none := by
      intro s
      cases b with
      | toolUse id name => exact absurd ⟨id, name, rfl⟩ hb
      | _ => rfl
    obtain ⟨hcalls, hopen⟩ := acc.gather_text_delta (hnone "") t
    have hother : k ∉ w.calls.map Prod.fst := by
      intro hmem
      obtain ⟨⟨k, call⟩, hcall, rfl⟩ := List.mem_map.mp hmem
      obtain ⟨p, hp', hpiece⟩ := Wire.mem_select.mp hcall
      obtain rfl := hw.unique hp hp'
      rw [hnone] at hpiece
      cases hpiece
    refine ⟨?_, by rw [hopen, hcurrent, h.current]⟩
    rw [hcalls, Wire.calls_grow, Wire.atKey_of_not_mem k _ hother, h.calls]

/-- A piece of a call that is not open is lost. -/
theorem Follows.lags (h : Follows acc w) (hw : w.Sound) {k : κ} {p : Piece} {t : String}
    (hp : (k, p) ∈ w.pieces) (hturn : ¬ w.CallInTurn (.grow k t)) :
    Lags (acc.gather [p.1.delta t]) (w.take (.grow k t)) := by
  simp only [Wire.CallInTurn, Classical.not_imp] at hturn
  obtain ⟨ht, hmem, hother⟩ := hturn
  obtain ⟨⟨k, call⟩, hcall, rfl⟩ := List.mem_map.mp hmem
  obtain ⟨p', hp', hpiece⟩ := Wire.mem_select.mp hcall
  obtain rfl := hw.unique hp hp'
  obtain ⟨i, hi⟩ := List.mem_iff_getElem?.mp hcall
  have hclosed : acc.toolCalls[i]? = some call := by
    cases hc : w.current with
    | none =>
      rw [(h.closed hc).2, List.getElem?_map, hi, Option.map_some]
    | some c =>
      obtain ⟨front, last, hcalls, -, hfront, -⟩ := h.open hw hc
      rw [hcalls, List.getElem?_append] at hi
      rw [hfront, List.getElem?_map]
      split_ifs at hi with hlt
      · rw [hi, Option.map_some]
      · obtain rfl := (Prod.mk.inj (List.mem_singleton.mp (List.mem_of_getElem? hi))).1
        exact absurd (by rw [hc]; rfl) hother
  have hsame : (acc.gather [p.1.delta t]).toolCalls = acc.toolCalls := by
    obtain ⟨b, s⟩ := p
    cases b with
    | toolUse id name => rw [gather_call_delta]
    | _ => rfl
  refine ⟨i, call, (k, { call with arguments := call.arguments ++ t }), ?_, ?_, ?_⟩
  · rw [hsame, hclosed]
  · rw [Wire.calls_grow, Wire.atKey, List.getElem?_map, hi, Option.map_some, if_pos rfl]
  · have hpos : 0 < t.length := by
      rw [Nat.pos_iff_ne_zero, Ne, String.length_eq_zero_iff]
      exact ht
    rw [String.length_append]
    exact Nat.lt_add_of_pos_right hpos

/-- The calls gathered are those sent exactly when the calls are sent one after the other. -/
theorem Follows.gather (h : Follows acc w) (hw : w.Sound) {steps : List (WireStep κ)}
    {events : List AssistantEvent} (hannounces : w.Announces steps events) :
    (w.CallsInTurn steps → Follows (acc.gather events) (w.run steps)) ∧
      (¬ w.CallsInTurn steps → Lags (acc.gather events) (w.run steps)) := by
  induction hannounces generalizing acc with
  | trans _ _ ih ih' =>
    rename_i w steps steps' events events' _ _
    rw [Wire.callsInTurn_append, Wire.run_append, TurnAccumulator.gather_append]
    obtain ⟨hfollows, hlags⟩ := ih h hw
    refine ⟨fun hturn => (ih' (hfollows hturn.1) (hw.run _)).1 hturn.2, fun hturn => ?_⟩
    by_cases hfirst : w.CallsInTurn steps
    · exact (ih' (hfollows hfirst) (hw.run _)).2 fun hsecond => hturn ⟨hfirst, hsecond⟩
    · exact (hlags hfirst).run events' steps'
  | quiet hquiet =>
    obtain ⟨hcalls, hcurrent⟩ := acc.gather_terminal hquiet
    refine ⟨fun _ => ⟨?_, hcurrent ▸ h.current⟩, fun hturn => absurd (.nil _) hturn⟩
    rw [TurnAccumulator.calls, hcalls, hcurrent]
    exact h.calls
  | start hk =>
    exact ⟨fun _ => h.start hk _, fun hturn => absurd (.cons trivial (.nil _)) hturn⟩
  | again hk =>
    refine ⟨fun _ => ?_, fun hturn => absurd (.cons trivial (.nil _)) hturn⟩
    rw [Wire.run_cons, Wire.start_of_mem hk]
    exact h
  | stop hcall =>
    exact ⟨fun _ => h.stop hw hcall, fun hturn => absurd (.cons trivial (.nil _)) hturn⟩
  | pass hk => exact ⟨fun _ => h.pass hk, fun hturn => absurd (.cons trivial (.nil _)) hturn⟩
  | finish hids =>
    exact ⟨fun _ => h.finish hw hids, fun hturn => absurd (.cons trivial (.nil _)) hturn⟩
  | grow hp =>
    exact ⟨fun hturn => h.grow hw hp (Wire.callsInTurn_cons.mp hturn).1,
      fun hturn => h.lags hw hp fun hone => hturn (.cons hone (.nil _))⟩

end Following

/-! ### The message kept and the message of the `Done` -/

/-- All text of a kind in a message. -/
def AssistantMessage.joined (b : Block) (m : AssistantMessage) : String :=
  String.join (m.content.filterMap b.textIn?)

/-- The same calls in the same order, and the same text and thinking. -/
structure AgreesWith (m kept : AssistantMessage) : Prop where
  calls : extractToolCalls kept = extractToolCalls m
  text : kept.joined .text = m.joined .text
  thinking : kept.joined .thinking = m.joined .thinking

/-- What is sent for calls and for texts comes in its turn; with OpenAI there is one text and one
thinking. -/
def Adapter.SentInOrder : Adapter → List SseEvent → Prop
  | .openAi, sses => Wire.empty.CallsInTurn (sses.flatMap OpenAi.steps)
  | .anthropic, sses => Wire.InOrder (sses.flatMap Anthropic.steps)

section Built

variable (text thinking : String) (calls : List ToolCall) (modelId : String)

theorem extractToolCalls_buildAssistant :
    extractToolCalls (buildAssistant text thinking calls none modelId) = calls := by
  simp only [extractToolCalls, buildAssistant, List.filterMap_append]
  split_ifs <;> simp

theorem joined_buildAssistant {b : Block} (hb : b = .text ∨ b = .thinking) :
    (buildAssistant text thinking calls none modelId).joined b =
      if b = .text then text else thinking := by
  have hcalls : (calls.map AssistantContent.toolCall).filterMap b.textIn? = [] := by
    rw [List.filterMap_map, List.filterMap_eq_nil_iff]
    intro call _
    rcases hb with rfl | rfl <;> rfl
  have hpart : ∀ (t : String) (c : AssistantContent),
      String.join ((if t.isEmpty then [] else [c]).filterMap b.textIn?) =
        if t.isEmpty then "" else (b.textIn? c).getD "" := by
    intro t c
    split_ifs
    · rfl
    · cases hc : b.textIn? c <;> simp [hc]
  simp only [AssistantMessage.joined, buildAssistant, List.filterMap_append, hcalls,
    String.join_append, hpart]
  rcases hb with rfl | rfl <;> simp [Block.textIn?]

end Built

namespace TurnAccumulator

theorem content_build (acc : TurnAccumulator) (modelId : String) :
    (acc.build modelId).content =
      (buildAssistant acc.text acc.thinking acc.calls none modelId).content := by
  simp [build, buildAssistant, calls]

theorem content_finalize {acc : TurnAccumulator} (h : acc.finalMessage = none)
    (error : Option String) (aborted : Bool) (modelId : String) :
    ((acc.cut error aborted).finalize modelId).content =
      (buildAssistant acc.text acc.thinking acc.calls none modelId).content := by
  simp only [finalize, cut, h]
  split_ifs
  · rfl
  · cases error <;> rfl

end TurnAccumulator

theorem map_snd_select {κ β : Type} (g : Piece → Option β) (w : Wire κ) :
    (w.select g).map Prod.snd = (w.pieces.map Prod.snd).filterMap g := by
  rw [Wire.select, List.map_filterMap, List.filterMap_map]
  apply List.filterMap_congr
  intro p _
  rw [Option.map_map, Function.comp_apply]
  exact Option.map_id'

theorem join_filter_ne_empty (l : List String) :
    String.join (l.filter (· ≠ "")) = String.join l := by
  induction l with
  | nil => rfl
  | cons s l ih =>
    by_cases hs : s = ""
    · rw [List.filter_cons_of_neg (by simpa using hs), ih, String.join_cons, hs,
        String.empty_append]
    · rw [List.filter_cons_of_pos (by simpa using hs), String.join_cons, String.join_cons, ih]

section Agreement

variable {κ : Type} [DecidableEq κ] {steps : List (WireStep κ)} {events : List AssistantEvent}
  {sent : Acc} (hannounces : (Wire.empty : Wire κ).Announces steps events)
  (hpieces : sent.pieces = ((Wire.empty : Wire κ).run steps).pieces.map Prod.snd)
include hannounces hpieces

/-- A message with what was gathered agrees with the final one exactly when everything was sent in
order. -/
theorem agreesWith_iff {kept : AssistantMessage} {modelId : String}
    (hkept : kept.content = (buildAssistant (TurnAccumulator.empty.gather events).text
      (TurnAccumulator.empty.gather events).thinking (TurnAccumulator.empty.gather events).calls
      none modelId).content) :
    AgreesWith sent.buildMessage kept ↔ Wire.InOrder steps := by
  have hsound : (Wire.empty : Wire κ).Sound := .empty
  have hcontent := sent.buildMessage_content
  have hcalls : extractToolCalls sent.buildMessage =
      ((Wire.empty : Wire κ).run steps).calls.map Prod.snd := by
    rw [callsOf_pieces hcontent, hpieces, Wire.calls, map_snd_select]
  have htexts : ∀ b, b = .text ∨ b = .thinking →
      sent.buildMessage.joined b = ((Wire.empty : Wire κ).run steps).spelled b := by
    intro b hb
    rw [AssistantMessage.joined, hcontent, textIn?_pieces hb, join_filter_ne_empty, hpieces,
      Wire.spelled, Wire.texts, map_snd_select]
  have hkeptCalls : extractToolCalls kept = (TurnAccumulator.empty.gather events).calls := by
    rw [extractToolCalls, hkept]
    exact extractToolCalls_buildAssistant _ _ _ modelId
  have hkeptTexts : ∀ b, b = .text ∨ b = .thinking →
      kept.joined b = (Wire.empty : Wire κ).arrived b steps := by
    intro b hb
    have hjoined := joined_buildAssistant (TurnAccumulator.empty.gather events).text
      (TurnAccumulator.empty.gather events).thinking (TurnAccumulator.empty.gather events).calls
      modelId hb
    have hempty : TurnAccumulator.empty.textOf b = "" := ite_self _
    rw [AssistantMessage.joined, hkept]
    refine hjoined.trans ((TurnAccumulator.gather_textOf .empty events hb).trans ?_)
    rw [hannounces.joined hsound hb, hempty, String.empty_append]
  have hnothing : Follows .empty (Wire.empty : Wire κ) := ⟨rfl, rfl⟩
  obtain ⟨hfollows, hlags⟩ := hnothing.gather hsound hannounces
  constructor
  · rintro ⟨hsame, htext, hthinking⟩
    refine ⟨?_, ?_⟩
    · by_contra hturn
      rw [hkeptCalls, hcalls] at hsame
      exact (hlags hturn).ne hsame
    · rintro b (rfl | rfl)
      · rw [← hkeptTexts _ (.inl rfl), ← htexts _ (.inl rfl), htext]
      · rw [← hkeptTexts _ (.inr rfl), ← htexts _ (.inr rfl), hthinking]
  · rintro ⟨hturn, hsame⟩
    refine ⟨?_, ?_, ?_⟩
    · rw [hkeptCalls, hcalls, (hfollows hturn).calls]
    · rw [hkeptTexts _ (.inl rfl), htexts _ (.inl rfl), hsame _ (.inl rfl)]
    · rw [hkeptTexts _ (.inr rfl), htexts _ (.inr rfl), hsame _ (.inr rfl)]

end Agreement

/-- The preview, and what is kept however the stream is cut, agree with the message of the `Done`
exactly when the calls were sent one after the other, and with Anthropic the texts of each kind
spell the same in the order of their arrival as block by block. -/
theorem gathered_agrees_iff (adapter : Adapter) (jsonError : String → String)
    (model modelId : String) {sses : List SseEvent} {last : SseEvent}
    {events : List AssistantEvent} {acc acc' : Acc} {m : AssistantMessage}
    (haccepted : mapAll (adapter.mapEvent jsonError) (.new model) sses = (events, acc, none))
    (hopen : ∀ e ∈ events, e.isDone = false)
    (hdone : adapter.mapEvent jsonError last acc = .ok ([.done m], acc')) :
    AgreesWith m ((TurnAccumulator.empty.gather events).build modelId) ∧
        (∀ error aborted, AgreesWith m
          (((TurnAccumulator.empty.gather events).cut error aborted).finalize modelId)) ↔
      adapter.SentInOrder sses := by
  have hm : m = acc.buildMessage := Adapter.done_eq hdone
  have hbuild := (TurnAccumulator.empty.gather events).content_build modelId
  have hnofinal : (TurnAccumulator.empty.gather events).finalMessage = none :=
    TurnAccumulator.gather_final rfl hopen
  have hfinal := TurnAccumulator.content_finalize hnofinal
  have hboth : ∀ {κ : Type} [DecidableEq κ] {steps : List (WireStep κ)},
      (Wire.empty : Wire κ).Announces steps events →
      acc.pieces = ((Wire.empty : Wire κ).run steps).pieces.map Prod.snd →
      (AgreesWith m ((TurnAccumulator.empty.gather events).build modelId) ∧
        (∀ error aborted, AgreesWith m
          (((TurnAccumulator.empty.gather events).cut error aborted).finalize modelId)) ↔
      Wire.InOrder steps) := by
    intro κ _ steps hannounces hpieces
    rw [hm]
    constructor
    · exact fun h => (agreesWith_iff hannounces hpieces hbuild).mp h.1
    · exact fun h => ⟨(agreesWith_iff hannounces hpieces hbuild).mpr h, fun error aborted =>
        (agreesWith_iff hannounces hpieces (hfinal error aborted modelId)).mpr h⟩
  have hnone : ∀ {κ : Type} {place : κ → Option SegmentKind} (hplace : ∀ k, place k = none),
      Placed place .empty (.new model) := by
    intro κ place hplace
    refine ⟨.empty, ⟨List.nodup_nil, List.forall_mem_nil _⟩, rfl, ?_, List.forall_mem_nil _⟩
    intro k seg hseg
    rw [hplace] at hseg
    cases hseg
  cases adapter with
  | openAi =>
    have hsent : OpenAi.Sent .empty (.new model) :=
      ⟨hnone fun slot => by cases slot <;> rfl, fun _ h => by cases h⟩
    obtain ⟨hend, hannounces⟩ := OpenAi.mapAll_sends haccepted _ hsent
    refine (hboth hannounces hend.placed.pieces_eq).trans ⟨fun h => h.calls, fun h => ⟨h, ?_⟩⟩
    exact fun b hb => OpenAi.texts_inOrder sses hb
  | anthropic =>
    obtain ⟨hend, hannounces⟩ := Anthropic.mapAll_sends haccepted _ (hnone fun _ => rfl)
    exact hboth hannounces hend.pieces_eq

/-- A chunk of an OpenAI stream with one piece of a call. -/
def callChunk (index call : String) : SseEvent :=
  .data ("\x7b\"choices\":[\x7b\"delta\":\x7b\"tool_calls\":[\x7b\"index\":" ++ index ++ "," ++
    call ++ "\x7d]\x7d\x7d]\x7d")

def callStart (index id : String) : SseEvent :=
  callChunk index ("\"id\":\"" ++ id ++ "\",\"function\":\x7b\"name\":\"ls\"\x7d")

def callArguments (index args : String) : SseEvent :=
  callChunk index ("\"function\":\x7b\"arguments\":\"" ++ args ++ "\"\x7d")

/-- What an OpenAI stream has come to. -/
def streamedSoFar (sses : List SseEvent) : List AssistantEvent × Acc × Option ProviderError :=
  mapAll (Adapter.openAi.mapEvent fun _ => "") (.new "m") sses

theorem mapAll_streamedSoFar {sses : List SseEvent} (h : (streamedSoFar sses).2.2 = none) :
    mapAll (Adapter.openAi.mapEvent fun _ => "") (.new "m") sses =
      ((streamedSoFar sses).1, (streamedSoFar sses).2.1, none) := by
  rw [← h]
  rfl

theorem mapEvent_openAi_done (acc : Acc) :
    (Adapter.openAi.mapEvent fun _ => "") .done acc = .ok ([.done acc.buildMessage], acc) := rfl

/-- Two calls, one after the other. -/
def callsInTurn : List SseEvent :=
  [callStart "0" "a", callArguments "0" "[]", callStart "1" "b"]

theorem gathered_agrees_callsInTurn :
    AgreesWith (streamedSoFar callsInTurn).2.1.buildMessage
      ((TurnAccumulator.empty.gather (streamedSoFar callsInTurn).1).build "m") := by
  obtain ⟨haccepted, hopen, hturn⟩ : (streamedSoFar callsInTurn).2.2 = none ∧
      (∀ e ∈ (streamedSoFar callsInTurn).1, e.isDone = false) ∧
      Wire.empty.CallsInTurn (callsInTurn.flatMap OpenAi.steps) := by
    decide +kernel
  exact ((gathered_agrees_iff .openAi (fun _ => "") "m" "m" (mapAll_streamedSoFar haccepted) hopen
    (mapEvent_openAi_done _)).mpr hturn).1

/-- The second call starts before the arguments of the first one come. -/
def callsInterleaved : List SseEvent :=
  [callStart "0" "a", callStart "1" "b", callArguments "0" "[]"]

theorem gathered_disagrees_callsInterleaved :
    ¬ ∀ (adapter : Adapter) (jsonError : String → String) (model modelId : String)
      (sses : List SseEvent) (last : SseEvent) (events : List AssistantEvent) (acc acc' : Acc)
      (m : AssistantMessage),
      mapAll (adapter.mapEvent jsonError) (.new model) sses = (events, acc, none) →
      (∀ e ∈ events, e.isDone = false) →
      adapter.mapEvent jsonError last acc = .ok ([.done m], acc') →
      AgreesWith m ((TurnAccumulator.empty.gather events).build modelId) ∧
        ∀ error aborted, AgreesWith m
          (((TurnAccumulator.empty.gather events).cut error aborted).finalize modelId) := by
  intro h
  obtain ⟨haccepted, hopen, hcalls⟩ : (streamedSoFar callsInterleaved).2.2 = none ∧
      (∀ e ∈ (streamedSoFar callsInterleaved).1, e.isDone = false) ∧
      extractToolCalls
          ((TurnAccumulator.empty.gather (streamedSoFar callsInterleaved).1).build "m") ≠
        extractToolCalls (streamedSoFar callsInterleaved).2.1.buildMessage := by
    decide +kernel
  have hagrees := h .openAi (fun _ => "") "m" "m" callsInterleaved .done _ _ _ _
    (mapAll_streamedSoFar haccepted) hopen (mapEvent_openAi_done _)
  exact hcalls hagrees.1.calls

end Guigu
