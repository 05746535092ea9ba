import Guigu.Library.Json

/-! A one-pass JSON reader: a scanner state for every position of the text, so that what a
prefix of a text can still become is a question about one state. -/
namespace Json

/-- Where the scanner stands inside a string literal. A pair of `\u` escapes may spell one
character outside the basic plane. -/
inductive StrState where
  | plain
  | slash
  | hex (digits acc : ℕ)
  | high (unit : ℕ)
  | highSlash (unit : ℕ)
  | low (unit digits acc : ℕ)
  deriving DecidableEq, Repr

inductive StrStep where
  | more (st : StrState)
  | char (c : Char)
  | close

def hexVal (c : Char) : Option ℕ :=
  if c.isDigit then some (c.toNat - '0'.toNat)
  else if 'a' ≤ c ∧ c ≤ 'f' then some (c.toNat - 'a'.toNat + 10)
  else if 'A' ≤ c ∧ c ≤ 'F' then some (c.toNat - 'A'.toNat + 10)
  else none

def StrState.step : StrState → Char → Option StrStep
  | .plain, c =>
    if c = '"' then some .close
    else if c = '\\' then some (.more .slash)
    else if c.toNat < 32 then none
    else some (.char c)
  | .slash, c =>
    if c = '"' ∨ c = '\\' ∨ c = '/' then some (.char c)
    else if c = 'b' then some (.char '\x08')
    else if c = 'f' then some (.char '\x0c')
    else if c = 'n' then some (.char '\n')
    else if c = 'r' then some (.char '\r')
    else if c = 't' then some (.char '\t')
    else if c = 'u' then some (.more (.hex 0 0))
    else none
  | .hex k acc, c =>
    (hexVal c).bind fun d =>
      let unit := 16 * acc + d
      if k < 3 then some (.more (.hex (k + 1) unit))
      else if 0xD800 ≤ unit ∧ unit ≤ 0xDBFF then some (.more (.high unit))
      else if 0xDC00 ≤ unit ∧ unit ≤ 0xDFFF then none
      else some (.char (Char.ofNat unit))
  | .high u, c => if c = '\\' then some (.more (.highSlash u)) else none
  | .highSlash u, c => if c = 'u' then some (.more (.low u 0 0)) else none
  | .low u k acc, c =>
    (hexVal c).bind fun d =>
      let unit := 16 * acc + d
      if k < 3 then some (.more (.low u (k + 1) unit))
      else if 0xDC00 ≤ unit ∧ unit ≤ 0xDFFF then
        some (.char (Char.ofNat (0x10000 + (u - 0xD800) * 1024 + (unit - 0xDC00))))
      else none

/-- An array or object around the value being read, with what it already holds. -/
inductive Frame where
  | arr (done : List Json)
  | obj (done : List (String × Json)) (key : String)

/-- What the scanner expects next. A string being read becomes a value, or a key of the
object that holds `done`. -/
inductive Mode where
  | value
  | firstItem
  | firstKey
  | nextKey (done : List (String × Json))
  | colon (done : List (String × Json)) (key : String)
  | string (key : Option (List (String × Json))) (text : List Char) (st : StrState)
  | number (text : List Char) (st : NumState)
  | literal (rest : List Char) (v : Json)
  | itemEnd (done : List Json)
  | fieldEnd (done : List (String × Json))
  | finished (v : Json)

structure Scan where
  stack : List Frame
  mode : Mode

/-- Hand a complete value to the innermost open container. -/
def deliver : List Frame → Json → Scan
  | [], v => ⟨[], .finished v⟩
  | .arr done :: s, v => ⟨s, .itemEnd (done ++ [v])⟩
  | .obj done k :: s, v => ⟨s, .fieldEnd (done ++ [(k, v)])⟩

def isWhitespace (c : Char) : Bool := c = ' ' ∨ c = '\t' ∨ c = '\n' ∨ c = '\r'

/-- The character behind a complete value. -/
def Scan.stepEnd (sc : Scan) (c : Char) : Option Scan :=
  if isWhitespace c then some sc
  else match sc.mode with
    | .itemEnd done =>
      if c = ',' then some ⟨.arr done :: sc.stack, .value⟩
      else if c = ']' then some (deliver sc.stack (.arr done))
      else none
    | .fieldEnd done =>
      if c = ',' then some ⟨sc.stack, .nextKey done⟩
      else if c = '}' then some (deliver sc.stack (.obj done))
      else none
    | _ => none

/-- The first character of a value. -/
def startValue (s : List Frame) (c : Char) : Option Scan :=
  if c = '"' then some ⟨s, .string none [] .plain⟩
  else if c = '[' then some ⟨s, .firstItem⟩
  else if c = '{' then some ⟨s, .firstKey⟩
  else if c = 't' then some ⟨s, .literal ['r', 'u', 'e'] (.bool true)⟩
  else if c = 'f' then some ⟨s, .literal ['a', 'l', 's', 'e'] (.bool false)⟩
  else if c = 'n' then some ⟨s, .literal ['u', 'l', 'l'] .null⟩
  else (NumState.start.step c).map fun st => ⟨s, .number [c] st⟩

/-- A closed string literal is a value, or the key in front of a colon. -/
def closeString (s : List Frame) (text : List Char) : Option (List (String × Json)) → Scan
  | none => deliver s (.str (String.ofList text))
  | some done => ⟨s, .colon done (String.ofList text)⟩

def Scan.step (sc : Scan) (c : Char) : Option Scan :=
  match sc.mode with
  | .value => if isWhitespace c then some sc else startValue sc.stack c
  | .firstItem =>
    if isWhitespace c then some sc
    else if c = ']' then some (deliver sc.stack (.arr []))
    else startValue (.arr [] :: sc.stack) c
  | .firstKey =>
    if isWhitespace c then some sc
    else if c = '"' then some ⟨sc.stack, .string (some []) [] .plain⟩
    else if c = '}' then some (deliver sc.stack (.obj []))
    else none
  | .nextKey done =>
    if isWhitespace c then some sc
    else if c = '"' then some ⟨sc.stack, .string (some done) [] .plain⟩
    else none
  | .colon done k =>
    if isWhitespace c then some sc
    else if c = ':' then some ⟨.obj done k :: sc.stack, .value⟩
    else none
  | .string key text st =>
    (st.step c).map fun
      | .more st' => ⟨sc.stack, .string key text st'⟩
      | .char d => ⟨sc.stack, .string key (text ++ [d]) .plain⟩
      | .close => closeString sc.stack text key
  | .number text st =>
    match st.step c with
    | some st' => some ⟨sc.stack, .number (text ++ [c]) st'⟩
    | none => (Numeral.ofChars? text).bind fun n => (deliver sc.stack (.num n)).stepEnd c
  | .literal rest v =>
    match rest with
    | [] => none
    | d :: ds =>
      if c ≠ d then none
      else if ds = [] then some (deliver sc.stack v)
      else some ⟨sc.stack, .literal ds v⟩
  | .itemEnd _ | .fieldEnd _ | .finished _ => sc.stepEnd c

def Scan.run : Scan → List Char → Option Scan
  | sc, [] => some sc
  | sc, c :: cs => (sc.step c).bind (·.run cs)

/-- The value at the end of the text: a number ends there as well. -/
def Scan.finish (sc : Scan) : Option Json :=
  match sc.stack, sc.mode with
  | [], .finished v => some v
  | [], .number text _ => (Numeral.ofChars? text).map .num
  | _, _ => none

def Scan.init : Scan := ⟨[], .value⟩

/-- The value a whole text spells. -/
def parse (cs : List Char) : Option Json := (Scan.init.run cs).bind Scan.finish

@[simp] theorem Scan.run_nil (sc : Scan) : sc.run [] = some sc := rfl

theorem Scan.run_cons (sc : Scan) (c : Char) (cs : List Char) :
    sc.run (c :: cs) = (sc.step c).bind (·.run cs) := rfl

theorem Scan.run_append (sc : Scan) (as bs : List Char) :
    sc.run (as ++ bs) = (sc.run as).bind (·.run bs) := by
  induction as generalizing sc with
  | nil => rfl
  | cons c as ih =>
    simp only [List.cons_append, Scan.run_cons]
    cases sc.step c with
    | none => rfl
    | some t => exact ih t

example : parse "[1,\x7b\"k\":\"\\u00e9\"\x7d]".toList =
    some (.arr [.num (Numeral.ofNat 1), .obj [("k", .str "é")]]) := by rfl

end Json
