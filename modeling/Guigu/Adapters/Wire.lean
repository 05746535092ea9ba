import Guigu.Adapters.Segments
import Guigu.Adapters.Stream
import Mathlib.Data.List.Nodup

/-! An answer as it is sent: blocks by their keys, which start, grow and end in any order. -/
namespace Guigu

/-- A step of what is sent; the last one ends every call. -/
inductive WireStep (κ : Type) where
  | start (key : κ) (b : Block)
  | grow (key : κ) (t : String)
  | stop (key : κ)
  | finish
  deriving DecidableEq, Repr

/-- The blocks in the order of their starts, and the call that was started last, with its
identifier, while no call of that identifier has been ended. -/
structure Wire (κ : Type) where
  pieces : List (κ × Piece)
  current : Option (κ × String)

namespace Wire

variable {κ : Type}

def empty : Wire κ := ⟨[], none⟩

def keys (w : Wire κ) : List κ := w.pieces.map Prod.fst

def select {β : Type} (g : Piece → Option β) (w : Wire κ) : List (κ × β) :=
  w.pieces.filterMap fun p => (g p.2).map fun x => (p.1, x)

def calls (w : Wire κ) : List (κ × ToolCall) := w.select Piece.call?

def texts (b : Block) (w : Wire κ) : List (κ × String) := w.select (Piece.textOf? b)

/-- The texts of one kind, block by block. -/
def spelled (b : Block) (w : Wire κ) : String := String.join ((w.texts b).map Prod.snd)

/-- Keys are not given twice, and the current call is the last one. -/
structure Sound (w : Wire κ) : Prop where
  nodup : w.keys.Nodup
  last : ∀ c ∈ w.current, ∃ call, w.calls.getLast? = some (c.1, call) ∧ call.id = c.2

section Select

variable {β : Type} {g : Piece → Option β}

theorem mem_select {w : Wire κ} {k : κ} {x : β} :
    (k, x) ∈ w.select g ↔ ∃ p, (k, p) ∈ w.pieces ∧ g p = some x := by
  simp only [select, List.mem_filterMap, Option.map_eq_some_iff, Prod.mk.injEq]
  constructor
  · rintro ⟨⟨k, p⟩, hmem, x, hx, rfl, rfl⟩
    exact ⟨p, hmem, hx⟩
  · rintro ⟨p, hmem, hx⟩
    exact ⟨(k, p), hmem, x, hx, rfl, rfl⟩

theorem Sound.nodup_select {w : Wire κ} (h : w.Sound) (g : Piece → Option β) :
    ((w.select g).map Prod.fst).Nodup := by
  have hkeys : (w.select g).map Prod.fst =
      (w.pieces.filter fun p => (g p.2).isSome).map Prod.fst := by
    rw [select, List.map_filterMap, ← List.filterMap_eq_filter, List.map_filterMap]
    apply List.filterMap_congr
    intro p _
    cases hp : g p.2 <;> simp [Option.guard, hp]
  rw [hkeys]
  exact h.nodup.sublist (List.filter_sublist.map _)

theorem Sound.empty : Sound (empty : Wire κ) := ⟨List.nodup_nil, fun _ h => by cases h⟩

/-- A key has one piece. -/
theorem Sound.unique {w : Wire κ} (h : w.Sound) {k : κ} {p p' : Piece} (hp : (k, p) ∈ w.pieces)
    (hp' : (k, p') ∈ w.pieces) : p = p' :=
  (Prod.mk.inj (List.inj_on_of_nodup_map h.nodup hp hp' rfl)).2

end Select

variable [DecidableEq κ]

/-- What is kept under a key is changed. -/
def atKey {β : Type} (k : κ) (f : β → β) (l : List (κ × β)) : List (κ × β) :=
  l.map fun p => if p.1 = k then (p.1, f p.2) else p

/-- A block that has started does not start again. -/
def take (w : Wire κ) : WireStep κ → Wire κ
  | .start k b =>
    if k ∈ w.keys then w
    else
      { pieces := w.pieces ++ [(k, b, "")]
        current := match b with
          | .toolUse id _ => some (k, id)
          | _ => w.current }
  | .grow k t => { w with pieces := atKey k (fun p => (p.1, p.2 ++ t)) w.pieces }
  | .stop k =>
    { w with current := w.current.filter fun c => !w.calls.any fun p => p.1 = k && p.2.id = c.2 }
  | .finish => { w with current := none }

def run (w : Wire κ) (steps : List (WireStep κ)) : Wire κ := steps.foldl take w

/-- Arguments come for the current call only. -/
def CallInTurn (w : Wire κ) : WireStep κ → Prop
  | .grow k t => t ≠ "" → k ∈ w.calls.map Prod.fst → w.current.map Prod.fst = some k
  | _ => True

inductive CallsInTurn : Wire κ → List (WireStep κ) → Prop
  | nil (w : Wire κ) : CallsInTurn w []
  | cons {w : Wire κ} {s : WireStep κ} {steps : List (WireStep κ)} (first : w.CallInTurn s)
      (rest : (w.take s).CallsInTurn steps) : CallsInTurn w (s :: steps)

theorem callsInTurn_cons {w : Wire κ} {s : WireStep κ} {steps : List (WireStep κ)} :
    w.CallsInTurn (s :: steps) ↔ w.CallInTurn s ∧ (w.take s).CallsInTurn steps := by
  constructor
  · rintro ⟨⟩
    exact ⟨‹_›, ‹_›⟩
  · exact fun h => .cons h.1 h.2

instance decidableCallInTurn (w : Wire κ) : (s : WireStep κ) → Decidable (w.CallInTurn s)
  | .grow k t => inferInstanceAs
      (Decidable (t ≠ "" → k ∈ w.calls.map Prod.fst → w.current.map Prod.fst = some k))
  | .start _ _ | .stop _ | .finish => inferInstanceAs (Decidable True)

instance decidableCallsInTurn :
    (w : Wire κ) → (steps : List (WireStep κ)) → Decidable (w.CallsInTurn steps)
  | w, [] => .isTrue (.nil w)
  | w, s :: steps =>
    have : Decidable ((w.take s).CallsInTurn steps) := decidableCallsInTurn (w.take s) steps
    decidable_of_iff _ callsInTurn_cons.symm

/-- What a step has for the texts of one kind. -/
def arrival (b : Block) (w : Wire κ) : WireStep κ → String
  | .grow k t => if k ∈ (w.texts b).map Prod.fst then t else ""
  | _ => ""

/-- The texts of one kind in the order of their arrival. -/
def arrived (b : Block) : Wire κ → List (WireStep κ) → String
  | _, [] => ""
  | w, s :: steps => w.arrival b s ++ (w.take s).arrived b steps

/-- The calls are sent one after the other, and the texts of each kind spell the same in the order
of their arrival as block by block. -/
structure InOrder (steps : List (WireStep κ)) : Prop where
  calls : (empty : Wire κ).CallsInTurn steps
  texts : ∀ b, b = .text ∨ b = .thinking →
    (empty : Wire κ).arrived b steps = ((empty : Wire κ).run steps).spelled b

/-! ### Steps one after the other -/

@[simp] theorem run_nil (w : Wire κ) : w.run [] = w := rfl

@[simp] theorem run_cons (w : Wire κ) (s : WireStep κ) (steps : List (WireStep κ)) :
    w.run (s :: steps) = (w.take s).run steps := rfl

theorem run_append (w : Wire κ) (steps steps' : List (WireStep κ)) :
    w.run (steps ++ steps') = (w.run steps).run steps' :=
  List.foldl_append

theorem callsInTurn_append (w : Wire κ) (steps steps' : List (WireStep κ)) :
    w.CallsInTurn (steps ++ steps') ↔ w.CallsInTurn steps ∧ (w.run steps).CallsInTurn steps' := by
  induction steps generalizing w with
  | nil => exact (and_iff_right (.nil w)).symm
  | cons s steps ih =>
    rw [List.cons_append, callsInTurn_cons, callsInTurn_cons, ih, and_assoc, run_cons]

theorem arrived_append (b : Block) (w : Wire κ) (steps steps' : List (WireStep κ)) :
    w.arrived b (steps ++ steps') = w.arrived b steps ++ (w.run steps).arrived b steps' := by
  induction steps generalizing w with
  | nil => simp [arrived]
  | cons s steps ih => rw [List.cons_append, arrived, arrived, ih, String.append_assoc, run_cons]

/-! ### What a step changes -/

theorem start_of_mem {w : Wire κ} {k : κ} (h : k ∈ w.keys) (b : Block) :
    w.take (.start k b) = w := if_pos h

theorem pieces_start {w : Wire κ} {k : κ} (h : k ∉ w.keys) (b : Block) :
    (w.take (.start k b)).pieces = w.pieces ++ [(k, b, "")] := by
  simp only [take, if_neg h]

section AtKey

variable {β : Type} (k : κ) (f : β → β)

theorem map_fst_atKey (l : List (κ × β)) : (atKey k f l).map Prod.fst = l.map Prod.fst := by
  rw [atKey, List.map_map]
  apply List.map_congr_left
  intro p _
  rw [Function.comp_apply]
  split_ifs <;> rfl

theorem atKey_append (l l' : List (κ × β)) : atKey k f (l ++ l') = atKey k f l ++ atKey k f l' :=
  List.map_append

theorem atKey_of_forall {l : List (κ × β)} (h : ∀ p ∈ l, p.1 = k → f p.2 = p.2) :
    atKey k f l = l := by
  conv_rhs => rw [← List.map_id l]
  apply List.map_congr_left
  intro p hp
  split_ifs with hk
  · rw [h p hp hk, id]
  · rfl

theorem atKey_of_not_mem {l : List (κ × β)} (h : k ∉ l.map Prod.fst) : atKey k f l = l :=
  atKey_of_forall k f fun _ hp hk => absurd (hk ▸ List.mem_map_of_mem hp) h

end AtKey

theorem keys_grow (w : Wire κ) (k : κ) (t : String) : (w.take (.grow k t)).keys = w.keys :=
  map_fst_atKey k (fun p : Piece => (p.1, p.2 ++ t)) w.pieces

section Select

variable {β : Type} (g : Piece → Option β)

theorem select_start {w : Wire κ} {k : κ} (h : k ∉ w.keys) (b : Block) :
    (w.take (.start k b)).select g = w.select g ++ ((g (b, "")).map fun x => (k, x)).toList := by
  rw [select, pieces_start h, List.filterMap_append]
  cases hb : g (b, "") <;> simp [select, hb]

theorem select_grow (w : Wire κ) (k : κ) (t : String) {f : β → β}
    (hf : ∀ b s, g (b, s ++ t) = (g (b, s)).map f) :
    (w.take (.grow k t)).select g = atKey k f (w.select g) := by
  rw [select, take, atKey, select, List.filterMap_map, atKey, List.map_filterMap]
  apply List.filterMap_congr
  rintro ⟨k', b, s⟩ -
  rw [Function.comp_apply]
  by_cases hk : k' = k
  · rw [if_pos hk, hf]
    cases g (b, s) <;> simp [hk]
  · rw [if_neg hk]
    cases g (b, s) <;> simp [hk]

end Select

theorem calls_grow (w : Wire κ) (k : κ) (t : String) : (w.take (.grow k t)).calls =
    atKey k (fun call => { call with arguments := call.arguments ++ t }) w.calls := by
  refine select_grow _ w k t fun b s => ?_
  cases b <;> rfl

theorem texts_grow (b : Block) (w : Wire κ) (k : κ) (t : String) :
    (w.take (.grow k t)).texts b = atKey k (· ++ t) (w.texts b) := by
  refine select_grow _ w k t fun b' s => ?_
  simp only [Piece.textOf?]
  split_ifs <;> rfl

theorem calls_start {w : Wire κ} {k : κ} (h : k ∉ w.keys) (b : Block) :
    (w.take (.start k b)).calls =
      w.calls ++ ((Piece.call? (b, "")).map fun call => (k, call)).toList :=
  select_start _ h b

namespace Sound

variable {w : Wire κ}

theorem take (h : w.Sound) (s : WireStep κ) : (w.take s).Sound := by
  cases s with
  | start k b =>
    by_cases hk : k ∈ w.keys
    · rwa [start_of_mem hk]
    refine ⟨?_, ?_⟩
    · rw [keys, pieces_start hk, List.map_append]
      refine List.nodup_append.mpr ⟨h.nodup, List.nodup_singleton k, ?_⟩
      rintro k' hk' _ hmem rfl
      have heq : k' = k := List.mem_singleton.mp hmem
      exact hk (heq ▸ hk')
    · intro c hc
      rw [calls_start hk]
      simp only [Wire.take, if_neg hk] at hc
      cases b with
      | toolUse id name =>
        obtain rfl := Option.some.inj hc
        exact ⟨⟨id, name, ""⟩, List.getLast?_concat, rfl⟩
      | _ =>
        rw [show (Option.map _ _).toList = ([] : List (κ × ToolCall)) from rfl, List.append_nil]
        exact h.last c hc
  | grow k t =>
    refine ⟨keys_grow w k t ▸ h.nodup, ?_⟩
    intro c hc
    obtain ⟨call, hlast, hid⟩ := h.last c hc
    rw [calls_grow, atKey, List.getLast?_map, hlast, Option.map_some]
    split_ifs
    · exact ⟨_, rfl, hid⟩
    · exact ⟨call, rfl, hid⟩
  | stop k =>
    refine ⟨h.nodup, ?_⟩
    intro c hc
    exact h.last c (Option.filter_eq_some_iff.mp hc).1
  | finish => exact ⟨h.nodup, fun _ h => by cases h⟩

theorem run (h : w.Sound) (steps : List (WireStep κ)) : (w.run steps).Sound := by
  induction steps generalizing w with
  | nil => exact h
  | cons s steps ih => exact ih (h.take s)

end Sound

/-! ### Texts in turn -/

/-- Text of a kind comes for the last block of that kind only. -/
def TextInTurn (b : Block) (w : Wire κ) : WireStep κ → Prop
  | .grow k t => t ≠ "" → k ∈ (w.texts b).map Prod.fst →
      ((w.texts b).map Prod.fst).getLast? = some k
  | _ => True

theorem spelled_take {w : Wire κ} (hw : w.Sound) {b : Block} {s : WireStep κ}
    (h : w.TextInTurn b s) : (w.take s).spelled b = w.spelled b ++ w.arrival b s := by
  cases s with
  | start k b' =>
    show _ = w.spelled b ++ ""
    rw [String.append_empty]
    by_cases hk : k ∈ w.keys
    · rw [start_of_mem hk]
    · have hempty : String.join ((((Piece.textOf? b (b', "")).map fun t => (k, t)).toList).map
          Prod.snd) = "" := by
        rw [Piece.textOf?]
        split_ifs <;> rfl
      rw [spelled, texts, select_start _ hk, List.map_append, String.join_append, hempty,
        String.append_empty, spelled, texts]
  | grow k t =>
    rw [spelled, texts_grow, arrival]
    by_cases hk : k ∈ (w.texts b).map Prod.fst
    · rw [if_pos hk]
      by_cases ht : t = ""
      · rw [ht, String.append_empty, atKey_of_forall k _ fun _ _ _ => String.append_empty, spelled]
      · -- all other texts stand in front
        obtain ⟨before, hbefore⟩ := List.getLast?_eq_some_iff.mp (h ht hk)
        obtain ⟨front, last, heq, rfl, hlast⟩ := List.map_eq_append_iff.mp hbefore
        obtain ⟨p, rest, rfl, hp, hrest⟩ := List.map_eq_cons_iff.mp hlast
        obtain rfl := List.map_eq_nil_iff.mp hrest
        have hnodup : ((w.texts b).map Prod.fst).Nodup := hw.nodup_select _
        have hfresh : k ∉ front.map Prod.fst := by
          rw [hbefore, List.nodup_append] at hnodup
          intro hmem
          exact hnodup.2.2 k hmem k List.mem_cons_self rfl
        have hlast : atKey k (· ++ t) [p] = [(p.1, p.2 ++ t)] := by
          simp [atKey, hp]
        rw [heq, atKey_append, atKey_of_not_mem k _ hfresh, hlast, spelled, heq]
        simp [String.append_assoc, String.join_append]
    · rw [if_neg hk, String.append_empty, atKey_of_not_mem k _ hk, spelled]
  | stop k => exact String.append_empty.symm
  | finish => exact String.append_empty.symm

theorem spelled_run {w : Wire κ} (hw : w.Sound) {b : Block} {steps : List (WireStep κ)}
    (h : ∀ before s after, steps = before ++ s :: after → (w.run before).TextInTurn b s) :
    (w.run steps).spelled b = w.spelled b ++ w.arrived b steps := by
  induction steps generalizing w with
  | nil => exact String.append_empty.symm
  | cons s steps ih =>
    have hrest := ih (hw.take s) fun before s' after heq => h (s :: before) s' after (heq ▸ rfl)
    rw [run_cons, hrest, spelled_take hw (h [] s steps rfl), arrived, String.append_assoc]

theorem mem_texts_run {w : Wire κ} {b : Block} {steps : List (WireStep κ)} {j : κ}
    (h : j ∈ ((w.run steps).texts b).map Prod.fst) :
    j ∈ (w.texts b).map Prod.fst ∨ .start j b ∈ steps := by
  induction steps generalizing w with
  | nil => exact .inl h
  | cons s steps ih =>
    rcases ih h with hmem | hmem
    · cases s with
      | start k b' =>
        by_cases hk : k ∈ w.keys
        · rw [start_of_mem hk] at hmem
          exact .inl hmem
        · rw [texts, select_start _ hk, List.map_append, List.mem_append] at hmem
          refine hmem.imp_right fun hnew => ?_
          rw [Piece.textOf?] at hnew
          split_ifs at hnew with hb
          · obtain rfl := List.mem_singleton.mp hnew
            exact hb ▸ List.mem_cons_self
          · cases hnew
      | grow k t =>
        rw [texts_grow, map_fst_atKey] at hmem
        exact .inl hmem
      | _ => exact .inl hmem
    · exact .inr (List.mem_cons_of_mem _ hmem)

/-- A kind that starts under one key only is always in order. -/
theorem spelled_run_of_sole {b : Block} {k : κ} {steps : List (WireStep κ)}
    (h : ∀ j, .start j b ∈ steps → j = k) :
    ((empty : Wire κ).run steps).spelled b = (empty : Wire κ).arrived b steps := by
  have hempty : (empty : Wire κ).spelled b = "" := rfl
  rw [spelled_run .empty ?_, hempty, String.empty_append]
  rintro before s after rfl
  cases s with
  | grow j t =>
    intro _ hj
    have hsole : ∀ j ∈ (((empty : Wire κ).run before).texts b).map Prod.fst, j = k := by
      intro j hj
      rcases mem_texts_run hj with hmem | hmem
      · cases hmem
      · exact h j (List.mem_append_left _ hmem)
    rw [List.getLast?_eq_some_getLast (List.ne_nil_of_mem hj),
      hsole _ (List.getLast_mem _), hsole j hj]
  | _ => trivial

/-! ### What is handed out for the steps -/

/-- The events for steps: each start, piece and end of a call is told with the identifier of the
call, and the last step ends at least the current call. -/
inductive Announces : Wire κ → List (WireStep κ) → List AssistantEvent → Prop
  | quiet {w : Wire κ} {events : List AssistantEvent} (h : ∀ e ∈ events, e.isTerminal = true) :
      Announces w [] events
  | start {w : Wire κ} {k : κ} {b : Block} (h : k ∉ w.keys) : Announces w [.start k b] b.starts
  | again {w : Wire κ} {k : κ} {b : Block} (h : k ∈ w.keys) : Announces w [.start k b] []
  | grow {w : Wire κ} {k : κ} {p : Piece} {t : String} (h : (k, p) ∈ w.pieces) :
      Announces w [.grow k t] [p.1.delta t]
  | stop {w : Wire κ} {k : κ} {call : ToolCall} (h : (k, call) ∈ w.calls) :
      Announces w [.stop k] [.toolCallEnd call.id]
  | pass {w : Wire κ} {k : κ} (h : k ∉ w.calls.map Prod.fst) : Announces w [.stop k] []
  | finish {w : Wire κ} {ids : List String} (h : ∀ c ∈ w.current, c.2 ∈ ids) :
      Announces w [.finish] (ids.map .toolCallEnd)
  | trans {w : Wire κ} {steps steps' : List (WireStep κ)} {events events' : List AssistantEvent}
      (h : Announces w steps events) (h' : Announces (w.run steps) steps' events') :
      Announces w (steps ++ steps') (events ++ events')

/-- The texts are handed out as they arrive. -/
theorem Announces.joined {w : Wire κ} {steps : List (WireStep κ)} {events : List AssistantEvent}
    (h : Announces w steps events) (hw : w.Sound) {b : Block} (hb : b = .text ∨ b = .thinking) :
    b.joined events = w.arrived b steps := by
  have hquiet : ∀ {events : List AssistantEvent}, (∀ e ∈ events, b.deltaOf e = none) →
      b.joined events = "" := Gathers.joined_of_none
  induction h with
  | trans h h' ih ih' =>
    rw [Gathers.joined_append, arrived_append, ih hw, ih' (hw.run _)]
  | quiet h =>
    refine hquiet fun e he => Gathers.deltaOf_quiet b ?_
    have hterminal := h e he
    cases e <;> first | rfl | exact absurd hterminal Bool.false_ne_true
  | @start w k b' h =>
    refine hquiet fun e he => ?_
    cases b' <;> rcases hb with rfl | rfl <;> simp_all [Block.starts, Block.deltaOf]
  | again | pass => rfl
  | stop =>
    refine hquiet fun e he => ?_
    rcases hb with rfl | rfl <;> rw [List.mem_singleton.mp he] <;> rfl
  | finish =>
    refine hquiet fun e he => ?_
    obtain ⟨id, -, rfl⟩ := List.mem_map.mp he
    rcases hb with rfl | rfl <;> rfl
  | @grow w k p t h =>
    show _ = (if k ∈ (w.texts b).map Prod.fst then t else "") ++ ""
    have hkind : k ∈ (w.texts b).map Prod.fst ↔ p.1 = b := by
      constructor
      · intro hkey
        obtain ⟨⟨k, s⟩, htext, rfl⟩ := List.mem_map.mp hkey
        obtain ⟨p', hp', htext⟩ := mem_select.mp htext
        rw [hw.unique h hp']
        by_contra hne
        rw [Piece.textOf?, if_neg hne] at htext
        cases htext
      · intro heq
        exact List.mem_map_of_mem (f := Prod.fst)
          (mem_select.mpr ⟨p, h, if_pos heq⟩ : (k, p.2) ∈ w.texts b)
    rw [String.append_empty]
    by_cases heq : p.1 = b
    · rw [if_pos (hkind.mpr heq), heq]
      rcases hb with rfl | rfl <;> simp [Block.joined, Block.delta, Block.deltaOf]
    · rw [if_neg (mt hkind.mp heq)]
      refine hquiet fun e he => ?_
      rw [List.mem_singleton.mp he]
      obtain ⟨b', s⟩ := p
      rcases hb with rfl | rfl <;> cases b' <;> first | exact absurd rfl heq | rfl

end Wire

end Guigu
