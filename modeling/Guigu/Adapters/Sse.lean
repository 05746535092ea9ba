import Guigu.Library.Utf8

/-! Server-sent events: bytes into events, fed in chunks of any size. -/
namespace Guigu

inductive SseEvent where
  | named (event data : String)
  | data (data : String)
  | done
  deriving DecidableEq, Repr

/-- The line that has not ended, and the fields of the event that has not ended. -/
structure SseParser where
  buffer : List UInt8
  data : List String
  event : Option String
  deriving DecidableEq, Repr

namespace SseParser

def new : SseParser := ⟨[], [], none⟩

def flush (p : SseParser) : Option SseEvent × SseParser :=
  if p.data = [] ∧ p.event = none then (none, p)
  else
    let data := "\n".intercalate p.data
    let event :=
      if data = "[DONE]" then .done
      else
        match p.event with
        | some name => .named name data
        | none => .data data
    (some event, { p with data := [], event := none })

/-- The value of a field loses one blank at its front. -/
def stripBlank : List Char → List Char
  | ' ' :: cs => cs
  | cs => cs

/-- An empty line ends an event; comments and unknown fields are skipped. -/
def processLine (p : SseParser) (line : List UInt8) : Option SseEvent × SseParser :=
  let text := Utf8.decodeLossy line
  if text = [] then p.flush
  else if text.head? = some ':' then (none, p)
  else
    let field := String.ofList (text.takeWhile (· ≠ ':'))
    let value := String.ofList (stripBlank ((text.dropWhile (· ≠ ':')).drop 1))
    if field = "data" then (none, { p with data := p.data ++ [value] })
    else if field = "event" then (none, { p with event := some value })
    else (none, p)

/-- `strip_suffix(b"\r")`. -/
def stripReturn (line : List UInt8) : List UInt8 :=
  if line.getLast? = some 13 then line.dropLast else line

/-- One byte of a chunk: a line feed ends the line, which stands in the buffer without one. -/
def feedByte (p : SseParser) (b : UInt8) : Option SseEvent × SseParser :=
  if b = 10 then { p with buffer := [] }.processLine (stripReturn p.buffer)
  else (none, { p with buffer := p.buffer ++ [b] })

def feed (p : SseParser) : List UInt8 → List SseEvent × SseParser
  | [] => ([], p)
  | b :: bs =>
    let r := p.feedByte b
    let rest := r.2.feed bs
    (r.1.toList ++ rest.1, rest.2)

/-- The end of the body ends the line and the event. -/
def finish (p : SseParser) : List SseEvent :=
  let r := if p.buffer = [] then (none, p)
    else { p with buffer := [] }.processLine (stripReturn p.buffer)
  r.1.toList ++ r.2.flush.1.toList

theorem feed_append (p : SseParser) (as bs : List UInt8) :
    p.feed (as ++ bs) = ((p.feed as).1 ++ ((p.feed as).2.feed bs).1,
      ((p.feed as).2.feed bs).2) := by
  induction as generalizing p with
  | nil => rfl
  | cons a as ih => simp only [List.cons_append, feed, ih, List.append_assoc]

end SseParser

end Guigu
