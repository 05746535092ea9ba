import Mathlib.Algebra.Ring.Int.Defs
import Mathlib.Algebra.Ring.Nat
import Mathlib.Data.Nat.Log
import Mathlib.Data.List.TakeWhile

/-! JSON values and their compact text. A number is kept as the text of its token; members of
an object stand in text order. -/
namespace Json

/-- States of the number grammar `-? (0 | [1-9][0-9]*) (. [0-9]+)? ([eE] [+-]? [0-9]+)?`. -/
inductive NumState where
  | start | minus | zero | int | point | frac | exp | expSign | expDigits
  deriving DecidableEq, Repr

def NumState.step : NumState → Char → Option NumState
  | .start, c =>
    if c = '-' then some .minus else if c = '0' then some .zero
    else if c.isDigit then some .int else none
  | .minus, c => if c = '0' then some .zero else if c.isDigit then some .int else none
  | .zero, c =>
    if c = '.' then some .point else if c = 'e' ∨ c = 'E' then some .exp else none
  | .int, c =>
    if c.isDigit then some .int else if c = '.' then some .point
    else if c = 'e' ∨ c = 'E' then some .exp else none
  | .point, c => if c.isDigit then some .frac else none
  | .frac, c =>
    if c.isDigit then some .frac else if c = 'e' ∨ c = 'E' then some .exp else none
  | .exp, c =>
    if c = '+' ∨ c = '-' then some .expSign else if c.isDigit then some .expDigits else none
  | .expSign, c => if c.isDigit then some .expDigits else none
  | .expDigits, c => if c.isDigit then some .expDigits else none

def NumState.accepts : NumState → Bool
  | .zero | .int | .frac | .expDigits => true
  | .start | .minus | .point | .exp | .expSign => false

def NumState.run : NumState → List Char → Option NumState
  | s, [] => some s
  | s, c :: cs => (s.step c).bind (·.run cs)

theorem NumState.run_append (s : NumState) (as bs : List Char) :
    s.run (as ++ bs) = (s.run as).bind (·.run bs) := by
  induction as generalizing s with
  | nil => rfl
  | cons c as ih =>
    simp only [List.cons_append, NumState.run]
    cases s.step c with
    | none => rfl
    | some t => exact ih t

def isNumber (text : List Char) : Bool := (NumState.start.run text).any NumState.accepts

/-- A number token. -/
structure Numeral where
  text : List Char
  valid : isNumber text = true
  deriving DecidableEq, Repr

def Numeral.ofChars? (text : List Char) : Option Numeral :=
  if h : isNumber text = true then some ⟨text, h⟩ else none

@[simp] theorem Numeral.ofChars?_text (n : Numeral) : Numeral.ofChars? n.text = some n := by
  simp [Numeral.ofChars?, n.valid]

/-- Digits keep the scanner inside the integer part. -/
theorem NumState.int_run_digits {cs : List Char} (h : ∀ c ∈ cs, c.isDigit = true) :
    NumState.int.run cs = some .int := by
  induction cs with
  | nil => rfl
  | cons c cs ih =>
    obtain ⟨hc, hcs⟩ := List.forall_mem_cons.mp h
    simp only [NumState.run, NumState.step, hc, ↓reduceIte, Option.bind_some, ih hcs]

theorem digitChar_ne_zero : ∀ d < 10, 0 < d → d.digitChar ≠ '0' := by decide

/-- A positive number starts with a nonzero digit. -/
theorem start_run_toDigits (n : ℕ) (h : 0 < n) :
    NumState.start.run (Nat.toDigits 10 n) = some .int := by
  induction n using Nat.strong_induction_on with
  | _ n ih =>
    by_cases hn : n < 10
    · rw [Nat.toDigits_of_lt_base hn]
      have h0 := digitChar_ne_zero n hn h
      have hd : n.digitChar.isDigit = true :=
        Nat.isDigit_of_mem_toDigits (b := 10) (n := n) (by decide) (by decide)
          (by rw [Nat.toDigits_of_lt_base hn]; exact List.mem_singleton.mpr rfl)
      have hm : n.digitChar ≠ '-' := by
        intro he
        rw [he] at hd
        exact absurd hd (by decide)
      simp [NumState.run, NumState.step, h0, hd, hm]
    · rw [Nat.toDigits_of_base_le (by decide) (by omega), NumState.run_append,
        ih (n / 10) (by omega) (by omega), Option.bind_some]
      refine NumState.int_run_digits ?_
      intro c hc
      refine Nat.isDigit_of_mem_toDigits (n := n % 10) (by decide) (b := 10) (by decide) ?_
      rw [Nat.toDigits_of_lt_base (Nat.mod_lt _ (by decide))]
      exact hc

theorem isNumber_toDigits (n : ℕ) : isNumber (Nat.toDigits 10 n) = true := by
  rcases Nat.eq_zero_or_pos n with rfl | h
  · decide
  · rw [isNumber, start_run_toDigits n h]
    rfl

/-- The decimal token of a natural number. -/
def Numeral.ofNat (n : ℕ) : Numeral := ⟨Nat.toDigits 10 n, isNumber_toDigits n⟩

/-- The value of a token without sign, fraction and exponent. -/
def Numeral.toNat? (n : Numeral) : Option ℕ :=
  if n.text.all Char.isDigit then some (Nat.ofDigitChars 10 n.text 0) else none

@[simp] theorem Numeral.toNat?_ofNat (n : ℕ) : (Numeral.ofNat n).toNat? = some n := by
  have hd : (Nat.toDigits 10 n).all Char.isDigit = true :=
    List.all_eq_true.mpr fun c hc => Nat.isDigit_of_mem_toDigits (by decide) (by decide) hc
  simp [Numeral.toNat?, Numeral.ofNat, hd]

/-- Behind a sign a number goes on as without one. -/
theorem NumState.minus_run {cs : List Char} (hne : cs ≠ []) (h : cs.head? ≠ some '-') :
    NumState.minus.run cs = NumState.start.run cs := by
  cases cs with
  | nil => exact absurd rfl hne
  | cons c cs =>
    have hc : c ≠ '-' := fun hc => h (congrArg some hc)
    simp only [NumState.run, NumState.step, hc, ↓reduceIte]

theorem isNumber_neg_toDigits {n : ℕ} (h : 0 < n) : isNumber ('-' :: Nat.toDigits 10 n) = true := by
  have hhead : (Nat.toDigits 10 n).head? ≠ some '-' := by
    intro hminus
    have hdigit : ('-').isDigit = true :=
      Nat.isDigit_of_mem_toDigits (by decide) (by decide) (List.mem_of_head? hminus)
    exact absurd hdigit (by decide)
  have hrun : NumState.minus.run (Nat.toDigits 10 n) = some .int := by
    rw [NumState.minus_run Nat.toDigits_ne_nil hhead, start_run_toDigits n h]
  unfold isNumber
  show Option.any _ ((NumState.start.step '-').bind _) = true
  rw [show NumState.start.step '-' = some .minus from rfl, Option.bind_some, hrun]
  rfl

/-- The decimal token of an integer. -/
def Numeral.ofInt : ℤ → Numeral
  | .ofNat n => Numeral.ofNat n
  | .negSucc n => ⟨'-' :: Nat.toDigits 10 (n + 1), isNumber_neg_toDigits n.succ_pos⟩

/-- The value of a token without fraction and exponent; minus zero is a double. -/
def Numeral.toInt? (n : Numeral) : Option ℤ :=
  match n.text with
  | '-' :: ds =>
    let size := Nat.ofDigitChars 10 ds 0
    if ds.all Char.isDigit ∧ 0 < size then some (-(size : ℤ)) else none
  | _ => n.toNat?.map Int.ofNat

theorem Numeral.ofNat_head (n : ℕ) (ds : List Char) : (Numeral.ofNat n).text ≠ '-' :: ds := by
  intro h
  have hdigit : ('-').isDigit = true :=
    Nat.isDigit_of_mem_toDigits (b := 10) (n := n) (by decide) (by decide)
      (show '-' ∈ (Numeral.ofNat n).text from h ▸ List.mem_cons_self)
  exact absurd hdigit (by decide)

@[simp] theorem Numeral.toInt?_ofInt (n : ℤ) : (Numeral.ofInt n).toInt? = some n := by
  cases n with
  | ofNat n =>
    unfold Numeral.ofInt Numeral.toInt?
    split
    · rename_i ds h
      exact absurd h (Numeral.ofNat_head n ds)
    · rw [Numeral.toNat?_ofNat]
      rfl
  | negSucc n =>
    have hd : (Nat.toDigits 10 (n + 1)).all Char.isDigit = true :=
      List.all_eq_true.mpr fun c hc => Nat.isDigit_of_mem_toDigits (by decide) (by decide) hc
    have hvalue : Nat.ofDigitChars 10 (Nat.toDigits 10 (n + 1)) 0 = n + 1 :=
      Nat.ofDigitChars_toDigits (by decide) (by decide)
    simp only [Numeral.ofInt, Numeral.toInt?, hd, hvalue]
    rw [if_pos ⟨trivial, n.succ_pos⟩]
    rfl

/-- The digits before the exponent, and the power of ten they are scaled by. -/
def Numeral.mantissa (n : Numeral) : ℕ :=
  Nat.ofDigitChars 10 ((n.text.takeWhile fun c => c ≠ 'e' ∧ c ≠ 'E').filter Char.isDigit) 0

def Numeral.scale (n : Numeral) : ℤ :=
  let body := n.text.takeWhile fun c => c ≠ 'e' ∧ c ≠ 'E'
  let expo := (n.text.dropWhile fun c => c ≠ 'e' ∧ c ≠ 'E').drop 1
  let size : ℤ := Nat.ofDigitChars 10 (expo.filter Char.isDigit) 0
  (if expo.head? = some '-' then -size else size) -
    ((body.dropWhile (· ≠ '.')).filter Char.isDigit).length

/-- The token denotes a finite double: it stays below the point halfway past the largest one.
The two outer tests keep the exact comparison small. -/
def Numeral.finite (n : Numeral) : Bool :=
  let m := n.mantissa
  let e := n.scale
  let digits : ℤ := (Nat.log 10 m : ℕ) + 1
  if m = 0 ∨ digits + e ≤ 308 then true
  else if 310 ≤ digits + e then false
  else if 0 ≤ e then decide (m * 10 ^ e.toNat < 2 ^ 1024 - 2 ^ 970)
  else decide (m < (2 ^ 1024 - 2 ^ 970) * 10 ^ (-e).toNat)

end Json

/-- A JSON value as its text spells it. -/
inductive Json where
  | null
  | bool (b : Bool)
  | num (n : Json.Numeral)
  | str (s : String)
  | arr (items : List Json)
  | obj (fields : List (String × Json))
  deriving Repr

namespace Json

def hexDigit (d : ℕ) : Char := if d < 10 then d.digitChar else Char.ofNat ('a'.toNat + d - 10)

/-- The characters a compact writer puts for one character of a string. -/
def escape (c : Char) : List Char :=
  if c = '"' then ['\\', '"']
  else if c = '\\' then ['\\', '\\']
  else if c = '\n' then ['\\', 'n']
  else if c = '\r' then ['\\', 'r']
  else if c = '\t' then ['\\', 't']
  else if c = '\x08' then ['\\', 'b']
  else if c = '\x0c' then ['\\', 'f']
  else if c.toNat < 32 then ['\\', 'u', '0', '0', hexDigit (c.toNat / 16), hexDigit (c.toNat % 16)]
  else [c]

def renderString (s : String) : List Char := '"' :: (s.toList.flatMap escape ++ ['"'])

mutual
/-- The compact text of a value. -/
def render : Json → List Char
  | .null => ['n', 'u', 'l', 'l']
  | .bool true => ['t', 'r', 'u', 'e']
  | .bool false => ['f', 'a', 'l', 's', 'e']
  | .num n => n.text
  | .str s => renderString s
  | .arr [] => ['[', ']']
  | .arr (v :: vs) => '[' :: (render v ++ renderItems vs)
  | .obj [] => ['{', '}']
  | .obj (f :: fs) => '{' :: (renderField f ++ renderFields fs)

/-- The remaining items of an array, with its closing bracket. -/
def renderItems : List Json → List Char
  | [] => [']']
  | v :: vs => ',' :: (render v ++ renderItems vs)

/-- The remaining members of an object, with its closing brace. -/
def renderFields : List (String × Json) → List Char
  | [] => ['}']
  | f :: fs => ',' :: (renderField f ++ renderFields fs)

def renderField : String × Json → List Char
  | (k, v) => renderString k ++ ':' :: render v
end

mutual
/-- How deep arrays and objects nest. -/
def depth : Json → ℕ
  | .null | .bool _ | .num _ | .str _ => 0
  | .arr vs => depthItems vs + 1
  | .obj fs => depthFields fs + 1

def depthItems : List Json → ℕ
  | [] => 0
  | v :: vs => max (depth v) (depthItems vs)

def depthFields : List (String × Json) → ℕ
  | [] => 0
  | f :: fs => max (depthField f) (depthFields fs)

def depthField : String × Json → ℕ
  | (_, v) => depth v
end

mutual
/-- Every number of the value is a finite double. -/
def finite : Json → Bool
  | .null | .bool _ | .str _ => true
  | .num n => n.finite
  | .arr vs => finiteItems vs
  | .obj fs => finiteFields fs

def finiteItems : List Json → Bool
  | [] => true
  | v :: vs => finite v && finiteItems vs

def finiteFields : List (String × Json) → Bool
  | [] => true
  | f :: fs => finiteField f && finiteFields fs

def finiteField : String × Json → Bool
  | (_, v) => finite v
end

theorem depthItems_map_le {α : Type*} (write : α → Json) {d : ℕ} (xs : List α)
    (h : ∀ a ∈ xs, (write a).depth ≤ d) : depthItems (xs.map write) ≤ d := by
  induction xs with
  | nil => exact Nat.zero_le d
  | cons x xs ih =>
    obtain ⟨hx, hxs⟩ := List.forall_mem_cons.mp h
    exact max_le hx (ih hxs)

theorem finiteItems_map {α : Type*} (write : α → Json) (xs : List α)
    (h : ∀ a ∈ xs, (write a).finite = true) : finiteItems (xs.map write) = true := by
  induction xs with
  | nil => rfl
  | cons x xs ih =>
    obtain ⟨hx, hxs⟩ := List.forall_mem_cons.mp h
    simp [finiteItems, hx, ih hxs]

theorem Numeral.mem_ofNat {n : ℕ} {c : Char} (h : c ∈ (Numeral.ofNat n).text) : c.isDigit = true :=
  Nat.isDigit_of_mem_toDigits (by decide) (by decide) h

/-- A natural number of ordinary size is a finite double. -/
theorem Numeral.finite_ofNat {n : ℕ} (h : n < 2 ^ 64) : (Numeral.ofNat n).finite = true := by
  have hne : ∀ c ∈ (Numeral.ofNat n).text, c ≠ 'e' ∧ c ≠ 'E' ∧ c ≠ '.' := by
    intro c hc
    have hd := Numeral.mem_ofNat hc
    refine ⟨?_, ?_, ?_⟩ <;> (rintro rfl; exact absurd hd (by decide))
  have htake : ((Numeral.ofNat n).text.takeWhile fun c => c ≠ 'e' ∧ c ≠ 'E') =
      (Numeral.ofNat n).text :=
    List.takeWhile_eq_self_iff.mpr fun c hc => by simp [(hne c hc).1, (hne c hc).2.1]
  have hdrop : ((Numeral.ofNat n).text.dropWhile fun c => c ≠ 'e' ∧ c ≠ 'E') = [] :=
    List.dropWhile_eq_nil_iff.mpr fun c hc => by simp [(hne c hc).1, (hne c hc).2.1]
  have hpoint : ((Numeral.ofNat n).text.dropWhile (· ≠ '.')) = [] :=
    List.dropWhile_eq_nil_iff.mpr fun c hc => by simp [(hne c hc).2.2]
  have hscale : (Numeral.ofNat n).scale = 0 := by
    rw [Numeral.scale, htake, hdrop, hpoint]
    rfl
  have hfilter : (Numeral.ofNat n).text.filter Char.isDigit = (Numeral.ofNat n).text :=
    List.filter_eq_self.mpr fun c hc => Numeral.mem_ofNat hc
  have hmant : (Numeral.ofNat n).mantissa = n := by
    rw [Numeral.mantissa, htake, hfilter]
    exact Nat.ofDigitChars_toDigits (by decide) (by decide)
  have hlog : Nat.log 10 n ≤ 63 :=
    (Nat.log_anti_left (by decide) (by decide : 2 ≤ 10)).trans
      (Nat.lt_succ_iff.mp (Nat.log_lt_of_lt_pow' (by decide) h))
  simp only [Numeral.finite, hscale, hmant]
  rw [if_pos (Or.inr (by omega))]

end Json
