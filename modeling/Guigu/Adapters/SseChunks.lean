import Guigu.Adapters.Sse

/-! Server-sent events at a glance: a body is split into lines, and its lines into events. The
parser finds the same events, whatever chunks the body comes in. -/
namespace Guigu
namespace SseParser

/-! ### Chunks -/

theorem flush_withBuffer (p : SseParser) (buffer : List UInt8) :
    { p with buffer := buffer }.flush = (p.flush.1, { p.flush.2 with buffer := buffer }) := by
  unfold flush
  simp only
  split <;> rfl

/-- A line is processed without a look at the buffer. -/
theorem processLine_withBuffer (p : SseParser) (buffer line : List UInt8) :
    { p with buffer := buffer }.processLine line =
      ((p.processLine line).1, { (p.processLine line).2 with buffer := buffer }) := by
  unfold processLine
  simp only
  split_ifs
  · exact p.flush_withBuffer buffer
  all_goals rfl

theorem processLine_buffer (p : SseParser) (line : List UInt8) :
    (p.processLine line).2.buffer = p.buffer :=
  congrArg (fun r => r.2.buffer) (p.processLine_withBuffer p.buffer line)

/-- The lines that have ended are drained from the buffer, one after the other. -/
def drainLines (p : SseParser) : List SseEvent × SseParser :=
  match hpos : p.buffer.idxOf? 10 with
  | none => ([], p)
  | some pos =>
    let r := { p with buffer := p.buffer.drop (pos + 1) }.processLine
      (stripReturn (p.buffer.take pos))
    let rest := r.2.drainLines
    (r.1.toList ++ rest.1, rest.2)
termination_by p.buffer.length
decreasing_by
  rw [processLine_buffer, List.length_drop]
  obtain ⟨hlt, -⟩ := List.idxOf?_eq_some_iff.mp hpos
  omega

/-- `feed`: the chunk joins the buffer. -/
def feedChunk (p : SseParser) (chunk : List UInt8) : List SseEvent × SseParser :=
  { p with buffer := p.buffer ++ chunk }.drainLines

def feedChunks (p : SseParser) : List (List UInt8) → List SseEvent × SseParser
  | [] => ([], p)
  | chunk :: chunks =>
    let r := p.feedChunk chunk
    let rest := r.2.feedChunks chunks
    (r.1 ++ rest.1, rest.2)

/-- The events of a body that comes in chunks. -/
def parseChunks (chunks : List (List UInt8)) : List SseEvent :=
  let r := new.feedChunks chunks
  r.1 ++ r.2.finish

end SseParser

/-! ### Events at a glance -/

namespace SseBody
open SseParser

/-- The lines of a body: what stands between line feeds, without a carriage return at its end. -/
def linesOf (body : List UInt8) : List (List Char) :=
  (body.splitOn 10).map fun line => Utf8.decodeLossy (stripReturn line)

/-- The name and the value of a field; none for a comment. -/
def fieldOf (line : List Char) : Option (String × String) :=
  if line.head? = some ':' then none
  else some (String.ofList (line.takeWhile (· ≠ ':')),
    String.ofList (stripBlank ((line.dropWhile (· ≠ ':')).drop 1)))

def valuesOf (name : String) (lines : List (List Char)) : List String :=
  (lines.filterMap fieldOf).filterMap fun field => if field.1 = name then some field.2 else none

/-- The event of the lines between two blank ones: their data, under the last name. -/
def eventOf (lines : List (List Char)) : Option SseEvent :=
  if valuesOf "data" lines = [] ∧ valuesOf "event" lines = [] then none
  else
    let data := "\n".intercalate (valuesOf "data" lines)
    if data = "[DONE]" then some .done
    else
      match (valuesOf "event" lines).getLast? with
      | some name => some (.named name data)
      | none => some (.data data)

/-- Blank lines end the events, and so does the end of the body. -/
def eventsOf (body : List UInt8) : List SseEvent := ((linesOf body).splitOn []).filterMap eventOf

theorem valuesOf_append (name : String) (lines rest : List (List Char)) :
    valuesOf name (lines ++ rest) = valuesOf name lines ++ valuesOf name rest := by
  unfold valuesOf
  rw [List.filterMap_append, List.filterMap_append]

end SseBody

namespace SseParser
open SseBody

/-- The parser holds the fields of the lines behind the last blank one. -/
structure Holds (p : SseParser) (lines : List (List Char)) : Prop where
  data : p.data = valuesOf "data" lines
  event : p.event = (valuesOf "event" lines).getLast?

theorem Holds.flush_fst {p : SseParser} {lines : List (List Char)} (h : p.Holds lines) :
    p.flush.1 = eventOf lines := by
  unfold SseParser.flush eventOf
  simp only [h.data, h.event, List.getLast?_eq_none_iff]
  split
  · rfl
  · simp only
    split
    · rfl
    · cases (valuesOf "event" lines).getLast? <;> rfl

theorem holds_flush (p : SseParser) : p.flush.2.Holds [] := by
  unfold flush
  split
  · rename_i h
    exact ⟨h.1, h.2⟩
  · exact ⟨rfl, rfl⟩

/-- A line that is not blank joins the lines of its event. -/
theorem Holds.processLine {p : SseParser} {lines : List (List Char)} (h : p.Holds lines)
    {line : List UInt8} (hblank : Utf8.decodeLossy line ≠ []) :
    (p.processLine line).1 = none ∧
      (p.processLine line).2.Holds (lines ++ [Utf8.decodeLossy line]) := by
  unfold SseParser.processLine
  generalize Utf8.decodeLossy line = text at hblank ⊢
  simp only [if_neg hblank]
  by_cases hcomment : text.head? = some ':'
  · have hnone (name : String) : valuesOf name [text] = [] := by
      simp [valuesOf, fieldOf, hcomment]
    rw [if_pos hcomment]
    exact ⟨rfl, by rw [valuesOf_append, hnone, List.append_nil, h.data],
      by rw [valuesOf_append, hnone, List.append_nil, h.event]⟩
  · have hone (name : String) : valuesOf name [text] =
        if String.ofList (text.takeWhile (· ≠ ':')) = name then
          [String.ofList (stripBlank ((text.dropWhile (· ≠ ':')).drop 1))]
        else [] := by
      simp only [valuesOf, fieldOf, if_neg hcomment, List.filterMap_cons, List.filterMap_nil]
      split_ifs <;> rfl
    rw [if_neg hcomment]
    generalize String.ofList (text.takeWhile (· ≠ ':')) = field at hone ⊢
    by_cases hdata : field = "data"
    · rw [if_pos hdata]
      refine ⟨rfl, ?_, ?_⟩
      · simp [valuesOf_append, hone, hdata, h.data]
      · simp [valuesOf_append, hone, hdata, h.event]
    · rw [if_neg hdata]
      by_cases hevent : field = "event"
      · rw [if_pos hevent]
        refine ⟨rfl, ?_, ?_⟩
        · simp [valuesOf_append, hone, hevent, h.data]
        · simp [valuesOf_append, hone, hevent]
      · rw [if_neg hevent]
        refine ⟨rfl, ?_, ?_⟩
        · simp [valuesOf_append, hone, hdata, h.data]
        · simp [valuesOf_append, hone, hevent, h.event]

/-- Lines one after the other, and the end of the body. -/
def processLines (p : SseParser) : List (List UInt8) → List SseEvent
  | [] => p.flush.1.toList
  | line :: lines =>
    (p.processLine (stripReturn line)).1.toList ++
      (p.processLine (stripReturn line)).2.processLines lines

theorem Holds.processLines {p : SseParser} {before : List (List Char)} (h : p.Holds before)
    (hbefore : [] ∉ before) (lines : List (List UInt8)) :
    p.processLines lines =
      ((before ++ lines.map fun line => Utf8.decodeLossy (stripReturn line)).splitOn
        []).filterMap eventOf := by
  induction lines generalizing p before with
  | nil =>
    rw [SseParser.processLines, h.flush_fst, List.map_nil, List.append_nil,
      List.splitOn_eq_singleton hbefore, List.filterMap_cons]
    cases eventOf before <;> rfl
  | cons line lines ih =>
    rw [SseParser.processLines, List.map_cons]
    by_cases hblank : Utf8.decodeLossy (stripReturn line) = []
    · -- a blank line ends the event
      have hflush : p.processLine (stripReturn line) = p.flush := by
        unfold SseParser.processLine
        simp only [if_pos hblank]
      rw [hflush, h.flush_fst, hblank, List.splitOn_append_cons_self_of_not_mem hbefore,
        ih p.holds_flush List.not_mem_nil, List.nil_append, List.filterMap_cons]
      cases eventOf before <;> rfl
    · obtain ⟨hnone, hholds⟩ := h.processLine hblank
      rw [hnone, ih hholds (by simp [hbefore, Ne.symm hblank]), List.append_assoc]
      rfl

/-- At the end of the body the last line is processed; an empty one would change nothing. -/
theorem finish_eq_processLines (p : SseParser) :
    p.finish = { p with buffer := [] }.processLines [p.buffer] := by
  unfold finish processLines processLines
  split
  · rename_i hempty
    have hline : p.processLine (stripReturn []) = p.flush := rfl
    have hagain := p.holds_flush.flush_fst
    have hp : { p with buffer := [] } = p := by rw [← hempty]
    rw [hempty, hp, hline, hagain]
    simp [eventOf, valuesOf]
  · rfl

theorem feed_finish (p : SseParser) (body : List UInt8) (h : 10 ∉ p.buffer) :
    (p.feed body).1 ++ (p.feed body).2.finish =
      { p with buffer := [] }.processLines ((p.buffer ++ body).splitOn 10) := by
  induction body generalizing p with
  | nil =>
    rw [List.append_nil, List.splitOn_eq_singleton h]
    exact p.finish_eq_processLines
  | cons b body ih =>
    rw [feed]
    simp only
    by_cases hb : b = 10
    · subst hb
      rw [List.splitOn_append_cons_self_of_not_mem h, processLines]
      have hstep : p.feedByte 10 =
          { p with buffer := [] }.processLine (stripReturn p.buffer) := if_pos rfl
      have hbuffer : (p.feedByte 10).2.buffer = [] := by
        rw [hstep, processLine_buffer]
      have hnext : { (p.feedByte 10).2 with buffer := [] } = (p.feedByte 10).2 := by
        rw [← hbuffer]
      rw [List.append_assoc, ih _ (by rw [hbuffer]; exact List.not_mem_nil), hnext, hbuffer,
        List.nil_append, hstep]
    · have hstep : p.feedByte b = (none, { p with buffer := p.buffer ++ [b] }) := if_neg hb
      rw [hstep, List.append_assoc, ih _ (by simp [h, Ne.symm hb]), List.append_assoc]
      rfl

/-! ### The chunks of a body -/

theorem feed_eq_nil {bs : List UInt8} (h : 10 ∉ bs) (p : SseParser) :
    p.feed bs = ([], { p with buffer := p.buffer ++ bs }) := by
  induction bs generalizing p with
  | nil => simp [feed]
  | cons b bs ih =>
    have hb : b ≠ 10 := fun heq => h (heq ▸ List.mem_cons_self)
    rw [feed, feedByte, if_neg hb, ih fun hmem => h (List.mem_cons_of_mem _ hmem)]
    simp

/-- Draining the buffer is feeding it byte by byte. -/
theorem drainLines_eq (p : SseParser) :
    p.drainLines = { p with buffer := [] }.feed p.buffer := by
  induction p using drainLines.induct with
  | case1 p hpos =>
    have hnone : 10 ∉ p.buffer := List.idxOf?_eq_none_iff.mp hpos
    rw [drainLines, feed_eq_nil hnone]
    split
    · rfl
    · rename_i pos hsome
      cases hpos.symm.trans hsome
  | case2 p pos hpos r ih =>
    obtain ⟨hlt, heq, hbefore⟩ := List.idxOf?_eq_some_iff.mp hpos
    have hline : 10 ∉ p.buffer.take pos := by
      rw [List.mem_take_iff_getElem]
      rintro ⟨j, hj, heq⟩
      exact hbefore j (by omega) heq
    have hbuffer : p.buffer = p.buffer.take pos ++ 10 :: p.buffer.drop (pos + 1) := by
      rw [← heq, ← List.drop_eq_getElem_cons hlt, List.take_append_drop]
    have hstep : ({ p with buffer := p.buffer.take pos } : SseParser).feedByte 10 =
        { p with buffer := [] }.processLine (stripReturn (p.buffer.take pos)) := if_pos rfl
    have hr : r = { p with buffer := p.buffer.drop (pos + 1) }.processLine
      (stripReturn (p.buffer.take pos)) := rfl
    have hfed : p.drainLines = (r.1.toList ++ r.2.drainLines.1, r.2.drainLines.2) := by
      rw [drainLines]
      split
      · rename_i hnone
        cases hpos.symm.trans hnone
      · rename_i pos' hsome
        obtain rfl := Option.some.inj (hpos.symm.trans hsome)
        rfl
    rw [processLine_withBuffer p (p.buffer.drop (pos + 1))] at hr
    rw [processLine_withBuffer p []] at hstep
    rw [hfed, ih, hr]
    conv_rhs => rw [hbuffer]
    rw [feed_append, feed_eq_nil hline, List.nil_append, List.nil_append, feed, hstep]

/-- Between two chunks no line in the buffer has ended, so a chunk is fed as its bytes are. -/
theorem feedChunk_eq {p : SseParser} (h : 10 ∉ p.buffer) (chunk : List UInt8) :
    p.feedChunk chunk = p.feed chunk := by
  rw [feedChunk, drainLines_eq, feed_append, feed_eq_nil h, List.nil_append, List.nil_append]

theorem feed_buffer {p : SseParser} (h : 10 ∉ p.buffer) (bs : List UInt8) :
    10 ∉ (p.feed bs).2.buffer := by
  induction bs generalizing p with
  | nil => exact h
  | cons b bs ih =>
    refine ih ?_
    unfold feedByte
    split_ifs with hb
    · rw [processLine_buffer]
      exact List.not_mem_nil
    · simp [h, Ne.symm hb]

theorem feedChunks_eq {p : SseParser} (h : 10 ∉ p.buffer) (chunks : List (List UInt8)) :
    p.feedChunks chunks = p.feed chunks.flatten := by
  induction chunks generalizing p with
  | nil => rfl
  | cons chunk chunks ih =>
    rw [feedChunks, feedChunk_eq h, ih (feed_buffer h chunk), List.flatten_cons, feed_append]

/-- However a body is cut into chunks, its events are those of the body at a glance. -/
theorem parseChunks_eq_eventsOf (chunks : List (List UInt8)) :
    parseChunks chunks = SseBody.eventsOf chunks.flatten := by
  have hholds : new.Holds [] := ⟨rfl, rfl⟩
  rw [parseChunks, feedChunks_eq List.not_mem_nil, feed_finish _ _ List.not_mem_nil,
    SseBody.eventsOf, SseBody.linesOf]
  exact hholds.processLines List.not_mem_nil _

end SseParser

end Guigu
