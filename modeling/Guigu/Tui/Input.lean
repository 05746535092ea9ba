import Guigu.Library.BufReader
import Guigu.Tui.State

/-! The input line of the terminal interface, the history of what was submitted, and the keys. -/
namespace Guigu.Tui

inductive Key where
  | char (c : Char)
  | enter
  | backspace
  | up
  | down
  | pageUp
  | pageDown
  | ctrlC
  | esc
  | other
  deriving DecidableEq, Repr

inductive KeyAction where
  | none
  | submit (prompt : List Char)
  | abort
  | exit
  deriving DecidableEq, Repr

def pageLines : ℕ := 10

/-- `usize::MAX`. -/
def maxUsize : ℕ := 2 ^ 64 - 1

/-- The state with its input line; the cursor stands at `maxUsize` while no entry of the history is
looked at. -/
structure TuiInput where
  state : TuiState
  input : List Char
  history : List (List Char)
  historyCursor : ℕ
  deriving DecidableEq, Repr

namespace TuiInput

def new : TuiInput := ⟨.new, [], [], maxUsize⟩

/-- The input line is the entry at the cursor; without such an entry the program panics. -/
def lookUp (s : TuiInput) (cursor : ℕ) : Option (KeyAction × TuiInput) :=
  s.history[cursor]?.map fun text => (.none, { s with input := text, historyCursor := cursor })

/-- What a key does; `none` is a panic. -/
def handleKey (s : TuiInput) : Key → Option (KeyAction × TuiInput)
  | .enter =>
    let input := trimWhiteSpace s.input
    if input = [] then some (.none, s)
    else if input = "/quit".toList ∨ input = "/exit".toList then
      some (.exit, { s with input := [] })
    else
      some (.submit input, { s with
        input := [], history := s.history ++ [input], historyCursor := maxUsize })
  | .char c =>
    if s.historyCursor ≠ maxUsize then
      some (.none, { s with input := [c], historyCursor := maxUsize })
    else some (.none, { s with input := s.input ++ [c] })
  | .backspace => some (.none, { s with input := s.input.dropLast })
  | .up =>
    if s.history = [] then some (.none, s)
    else if s.historyCursor = maxUsize then s.lookUp (s.history.length - 1)
    else s.lookUp (s.historyCursor - 1)
  | .down =>
    if s.historyCursor = maxUsize then some (.none, s)
    else if s.historyCursor + 1 < s.history.length then s.lookUp (s.historyCursor + 1)
    else some (.none, { s with input := [], historyCursor := maxUsize })
  | .ctrlC =>
    if s.state.status = .running then
      if s.state.abortRequested then some (.exit, s)
      else some (.abort, { s with state := { s.state with abortRequested := true } })
    else some (.exit, s)
  | .esc => some (.exit, s)
  | .pageUp => some (.none, { s with
      state := { s.state with scroll := min (s.state.scroll + pageLines) maxUsize } })
  | .pageDown => some (.none, { s with
      state := { s.state with scroll := s.state.scroll - pageLines } })
  | .other => some (.none, s)

/-- What may be submitted. -/
def Submittable (text : List Char) : Prop :=
  text ≠ [] ∧ trimWhiteSpace text = text ∧ text ≠ "/quit".toList ∧ text ≠ "/exit".toList

/-- While an entry of the history is looked at, the input line is the entry or what has been left of
it. -/
structure Valid (s : TuiInput) : Prop where
  recalled : s.historyCursor ≠ maxUsize → ∃ text, s.history[s.historyCursor]? = some text ∧
    s.input <+: text
  submitted : ∀ text ∈ s.history, Submittable text

theorem trimWhiteSpace_idem (cs : List Char) :
    trimWhiteSpace (trimWhiteSpace cs) = trimWhiteSpace cs := by
  unfold trimWhiteSpace
  have hprefix := List.rdropWhile_prefix Char.isWhiteSpace (cs.dropWhile Char.isWhiteSpace)
  have hfront : ((cs.dropWhile Char.isWhiteSpace).rdropWhile Char.isWhiteSpace).dropWhile
      Char.isWhiteSpace = (cs.dropWhile Char.isWhiteSpace).rdropWhile Char.isWhiteSpace := by
    cases htrim : (cs.dropWhile Char.isWhiteSpace).rdropWhile Char.isWhiteSpace with
    | nil => rfl
    | cons c rest =>
      rw [htrim] at hprefix
      obtain ⟨behind, hbehind⟩ := hprefix
      have hvisible : c.isWhiteSpace = false := by
        have hhead := List.head?_dropWhile_not Char.isWhiteSpace cs
        rw [← hbehind] at hhead
        simpa using hhead
      rw [List.dropWhile_cons_of_neg (by simp [hvisible])]
  rw [hfront, List.rdropWhile_idempotent]

theorem Valid.of_cursor {s : TuiInput} (h : s.historyCursor = maxUsize)
    (hsubmitted : ∀ text ∈ s.history, Submittable text) : Valid s :=
  ⟨fun hne => absurd h hne, hsubmitted⟩

/-- An entry that is there is recalled. -/
theorem Valid.lookUp {s : TuiInput} (h : Valid s) {cursor : ℕ} (hlt : cursor < s.history.length) :
    ∃ text, s.lookUp cursor =
        some (.none, { s with input := text, historyCursor := cursor }) ∧
      Valid { s with input := text, historyCursor := cursor } := by
  have hentry := List.getElem?_eq_getElem hlt
  refine ⟨s.history[cursor], by rw [TuiInput.lookUp, hentry]; rfl, ?_, h.submitted⟩
  intro _
  exact ⟨_, hentry, List.prefix_refl _⟩

/-- What one key can do. -/
inductive Handled (s : TuiInput) : KeyAction × TuiInput → Prop
  /-- The input line or the scroll position may change. -/
  | edited (input : List Char) (cursor scroll : ℕ) :
    Handled s (.none, { s with
      state := { s.state with scroll := scroll }, input := input, historyCursor := cursor })
  | submitted (prompt : List Char) (h : Submittable prompt) :
    Handled s (.submit prompt, { s with
      input := [], history := s.history ++ [prompt], historyCursor := maxUsize })
  | aborted (hrunning : s.state.status = .running) (hfirst : s.state.abortRequested = false) :
    Handled s (.abort, { s with state := { s.state with abortRequested := true } })
  | exited (input : List Char) : Handled s (.exit, { s with input := input })

theorem Valid.handled_lookUp {s : TuiInput} (h : Valid s) {cursor : ℕ}
    (hlt : cursor < s.history.length) :
    ∃ next, s.lookUp cursor = some next ∧ Handled s next ∧ Valid next.2 := by
  obtain ⟨text, hrecall, hvalid⟩ := h.lookUp hlt
  exact ⟨_, hrecall, .edited text cursor s.state.scroll, hvalid⟩

theorem Valid.cursor_lt {s : TuiInput} (h : Valid s) (hcursor : s.historyCursor ≠ maxUsize) :
    s.historyCursor < s.history.length := by
  obtain ⟨text, hentry, -⟩ := h.recalled hcursor
  exact (List.getElem?_eq_some_iff.mp hentry).1

/-- No key makes the program panic. -/
theorem Valid.handleKey {s : TuiInput} (h : Valid s) (key : Key) :
    ∃ next, s.handleKey key = some next ∧ Handled s next ∧ Valid next.2 := by
  cases key with
  | enter =>
    rw [TuiInput.handleKey]
    by_cases hempty : trimWhiteSpace s.input = []
    · rw [if_pos hempty]
      exact ⟨_, rfl, .edited s.input s.historyCursor s.state.scroll, h⟩
    rw [if_neg hempty]
    by_cases hexit : trimWhiteSpace s.input = "/quit".toList ∨
        trimWhiteSpace s.input = "/exit".toList
    · rw [if_pos hexit]
      refine ⟨_, rfl, .exited [], fun hcursor => ?_, h.submitted⟩
      obtain ⟨text, hentry, -⟩ := h.recalled hcursor
      exact ⟨text, hentry, List.nil_prefix⟩
    rw [if_neg hexit]
    obtain ⟨hquit, hexit⟩ := not_or.mp hexit
    have hprompt : Submittable (trimWhiteSpace s.input) :=
      ⟨hempty, trimWhiteSpace_idem s.input, hquit, hexit⟩
    refine ⟨_, rfl, .submitted _ hprompt, .of_cursor rfl ?_⟩
    intro text htext
    obtain htext | htext := List.mem_append.mp htext
    · exact h.submitted text htext
    · rw [List.mem_singleton.mp htext]
      exact hprompt
  | char c =>
    rw [TuiInput.handleKey]
    by_cases hcursor : s.historyCursor ≠ maxUsize
    · rw [if_pos hcursor]
      exact ⟨_, rfl, .edited [c] maxUsize s.state.scroll, .of_cursor rfl h.submitted⟩
    · rw [if_neg hcursor]
      exact ⟨_, rfl, .edited (s.input ++ [c]) s.historyCursor s.state.scroll,
        .of_cursor (not_not.mp hcursor) h.submitted⟩
  | backspace =>
    refine ⟨_, rfl, .edited s.input.dropLast s.historyCursor s.state.scroll, fun hcursor => ?_,
      h.submitted⟩
    obtain ⟨text, hentry, hprefix⟩ := h.recalled hcursor
    exact ⟨text, hentry, (List.dropLast_prefix _).trans hprefix⟩
  | up =>
    rw [TuiInput.handleKey]
    by_cases hempty : s.history = []
    · rw [if_pos hempty]
      exact ⟨_, rfl, .edited s.input s.historyCursor s.state.scroll, h⟩
    rw [if_neg hempty]
    have hpos := List.length_pos_iff.mpr hempty
    by_cases hcursor : s.historyCursor = maxUsize
    · rw [if_pos hcursor]
      exact h.handled_lookUp (by omega)
    · rw [if_neg hcursor]
      have hlt := h.cursor_lt hcursor
      exact h.handled_lookUp (by omega)
  | down =>
    rw [TuiInput.handleKey]
    by_cases hcursor : s.historyCursor = maxUsize
    · rw [if_pos hcursor]
      exact ⟨_, rfl, .edited s.input s.historyCursor s.state.scroll, h⟩
    rw [if_neg hcursor]
    by_cases hlt : s.historyCursor + 1 < s.history.length
    · rw [if_pos hlt]
      exact h.handled_lookUp hlt
    · rw [if_neg hlt]
      exact ⟨_, rfl, .edited [] maxUsize s.state.scroll, .of_cursor rfl h.submitted⟩
  | ctrlC =>
    rw [TuiInput.handleKey]
    by_cases hrunning : s.state.status = .running
    · rw [if_pos hrunning]
      cases hfirst : s.state.abortRequested with
      | true => exact ⟨_, rfl, .exited s.input, h⟩
      | false => exact ⟨_, rfl, .aborted hrunning hfirst, h.recalled, h.submitted⟩
    · rw [if_neg hrunning]
      exact ⟨_, rfl, .exited s.input, h⟩
  | pageUp => exact ⟨_, rfl, .edited s.input s.historyCursor _, h.recalled, h.submitted⟩
  | pageDown => exact ⟨_, rfl, .edited s.input s.historyCursor _, h.recalled, h.submitted⟩
  | esc => exact ⟨_, rfl, .exited s.input, h⟩
  | other => exact ⟨_, rfl, .edited s.input s.historyCursor s.state.scroll, h⟩

end TuiInput

end Guigu.Tui
