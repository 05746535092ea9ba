import Guigu.Tui.Input

/-! The conversation as lines of the screen, and the part of them that the scroll position shows. -/
namespace Guigu.Tui

/-- One character of the text: `lines` are full, `current` is being filled. -/
def wrapStep (width : ℕ) (acc : List (List Char) × List Char) (ch : Char) :
    List (List Char) × List Char :=
  if ch = '\n' then (acc.1 ++ [acc.2], [])
  else if width ≤ acc.2.length then (acc.1 ++ [acc.2], [ch])
  else (acc.1, acc.2 ++ [ch])

def wrapText (text : List Char) (width : ℕ) : List (List Char) :=
  if width = 0 then [text]
  else
    let (lines, current) := text.foldl (wrapStep width) ([], [])
    if current ≠ [] ∨ lines = [] then lines ++ [current] else lines

def truncateDisplay (s : List Char) (max : ℕ) : List Char :=
  if s.length ≤ max then s else s.take max ++ ['…']

def ToolCardStatus.text : ToolCardStatus → String
  | .running | .runningPartial => "running"
  | .done => "done"
  | .failed => "failed"

def ToolCard.title (card : ToolCard) : List Char :=
  "┌─ tool: ".toList ++ card.name.toList ++ " ─ ".toList ++ card.status.text.toList

def renderToolCard (card : ToolCard) (width : ℕ) : List (List Char) :=
  [card.title] ++
    (if card.args = "" then []
    else ["│ $ ".toList ++ truncateDisplay card.args.toList (width - 6)]) ++
    (if card.output = "" then []
    else (wrapText card.output.toList (width - 2)).map ("│ ".toList ++ ·)) ++
    ["└─".toList]

def itemLines (width : ℕ) : ConvItem → List (List Char)
  | .user text =>
    ["> ".toList] ++
      (if text = "" then [] else (wrapText text.toList (width - 2)).map ("  ".toList ++ ·))
  | .assistant text => if text = "" then [] else wrapText text.toList width
  | .tool card => renderToolCard card width

/-- What has been wrapped: no line is too long, and no character but the line breaks is missing. -/
structure Wrapped (width : ℕ) (text : List Char) (lines : List (List Char)) : Prop where
  fits : ∀ line ∈ lines, line.length ≤ width
  text : lines.flatten = text.filter (· ≠ '\n')

theorem wrapped_foldl {width : ℕ} (hwidth : 0 < width) (text : List Char) :
    Wrapped width text ((text.foldl (wrapStep width) ([], [])).1 ++
      [(text.foldl (wrapStep width) ([], [])).2]) := by
  induction text using List.reverseRecOn with
  | nil => exact ⟨by simp, rfl⟩
  | append_singleton text ch ih =>
    rw [List.foldl_append]
    generalize text.foldl (wrapStep width) ([], []) = acc at ih ⊢
    obtain ⟨lines, current⟩ := acc
    obtain ⟨hfits, htext⟩ := ih
    have hlines : ∀ line ∈ lines, line.length ≤ width := fun line h =>
      hfits line (List.mem_append_left _ h)
    have hcurrent : current.length ≤ width := hfits current (by simp)
    rw [List.flatten_append, List.flatten_singleton] at htext
    rw [List.foldl_cons, List.foldl_nil, wrapStep]
    dsimp only
    by_cases hbreak : ch = '\n'
    · rw [if_pos hbreak]
      refine ⟨?_, ?_⟩
      · simpa [or_imp, forall_and] using ⟨hlines, hcurrent⟩
      · simpa [hbreak] using htext
    have hmore : (text ++ [ch]).filter (· ≠ '\n') = text.filter (· ≠ '\n') ++ [ch] := by
      simp [hbreak]
    rw [if_neg hbreak]
    split_ifs with hfull
    · refine ⟨?_, by rw [hmore, ← htext]; simp⟩
      simp only [List.mem_append, List.mem_singleton]
      rintro line ((h | rfl) | rfl)
      · exact hlines line h
      · exact hcurrent
      · exact hwidth
    · refine ⟨?_, by rw [hmore, ← htext]; simp⟩
      simp only [List.mem_append, List.mem_singleton]
      rintro line (h | rfl)
      · exact hlines line h
      · rw [List.length_append, List.length_singleton]
        omega

theorem wrapText_wrapped {width : ℕ} (hwidth : 0 < width) (text : List Char) :
    Wrapped width text (wrapText text width) := by
  have h := wrapped_foldl hwidth text
  unfold wrapText
  rw [if_neg hwidth.ne']
  generalize text.foldl (wrapStep width) ([], []) = acc at h ⊢
  obtain ⟨lines, current⟩ := acc
  dsimp only at h ⊢
  split_ifs with hlast
  · exact h
  · -- an empty last line is left out
    obtain ⟨hcurrent, -⟩ := not_or.mp hlast
    rw [not_not.mp hcurrent] at h
    refine ⟨fun line hline => h.fits line (List.mem_append_left _ hline), ?_⟩
    rw [← h.text, List.flatten_append]
    exact (List.append_nil _).symm

/-- The line has no more characters than the screen has columns, or is the title of a card. -/
def Short (width : ℕ) (line : List Char) : Prop :=
  line.length ≤ width ∨ ∃ card : ToolCard, line = card.title

/-- On a terminal that gives characters so many columns, the line is the title of a card or it fits,
unless a character of it takes more than one column: the code counts characters. -/
def Fits (columns : Char → ℕ) (width : ℕ) (line : List Char) : Prop :=
  (∃ card : ToolCard, line = card.title) ∨
    ((∀ c ∈ line, columns c ≤ 1) → (line.map columns).sum ≤ width)

theorem sum_columns_le {columns : Char → ℕ} {line : List Char} (h : ∀ c ∈ line, columns c ≤ 1) :
    (line.map columns).sum ≤ line.length := by
  induction line with
  | nil => exact le_rfl
  | cons c line ih =>
    obtain ⟨hc, hline⟩ := List.forall_mem_cons.mp h
    have hrest := ih hline
    rw [List.map_cons, List.sum_cons, List.length_cons]
    omega

theorem Short.fits {width : ℕ} {line : List Char} (h : Short width line) (columns : Char → ℕ) :
    Fits columns width line := by
  rcases h with hlength | htitle
  · exact .inr fun hnarrow => (sum_columns_le hnarrow).trans hlength
  · exact .inl htitle

/-- The lines are pieces of the text, each behind a mark, with every character but line breaks. -/
def Carries (lines : List (List Char)) (mark text : List Char) : Prop :=
  ∃ pieces : List (List Char), lines = pieces.map (mark ++ ·) ∧
    pieces.flatten = text.filter (· ≠ '\n')

/-- What is said or put out can be read off the lines of the item; the title and the arguments of a
card are left aside, the arguments are cut. -/
def ConvItem.Readable (width : ℕ) : ConvItem → Prop
  | .user text => Carries (itemLines width (.user text)).tail "  ".toList text.toList
  | .assistant text => Carries (itemLines width (.assistant text)) [] text.toList
  | .tool card => ∃ head output, itemLines width (.tool card) = head ++ output ++ ["└─".toList] ∧
      Carries output "│ ".toList card.output.toList

theorem carries_wrapText {width : ℕ} (hwidth : 0 < width) (mark : List Char) (text : String) :
    Carries (if text = "" then [] else (wrapText text.toList width).map (mark ++ ·)) mark
      text.toList := by
  split_ifs with hempty
  · exact ⟨[], rfl, by rw [hempty]; rfl⟩
  · exact ⟨_, rfl, (wrapText_wrapped hwidth text.toList).text⟩

theorem ConvItem.readable {width : ℕ} (hwidth : 2 < width) (item : ConvItem) :
    item.Readable width := by
  cases item with
  | user text => exact carries_wrapText (by omega) "  ".toList text
  | assistant text =>
    have hcarries := carries_wrapText (by omega : 0 < width) [] text
    have hmap : (wrapText text.toList width).map ([] ++ ·) = wrapText text.toList width :=
      List.map_id _
    rwa [hmap] at hcarries
  | tool card => exact ⟨_, _, rfl, carries_wrapText (by omega) "│ ".toList card.output⟩

/-! ### Paging -/

namespace TuiInput

end TuiInput

end Guigu.Tui
