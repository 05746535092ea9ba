import Guigu.Library.JsonRoundTrip

/-! Derived JSON readers: structs, internally tagged enums, and the values they are built
from. A struct is also accepted as the array of its fields. -/
namespace Serde

/-- The longest nesting a reader follows. -/
def maxDepth : ℕ := 127

/-- A whole text as one value: too deep a nesting and numbers beyond the doubles are errors. -/
def fromStr (cs : List Char) : Option Json :=
  (Json.parse cs).filter fun j => decide (j.depth ≤ maxDepth) && j.finite

def string : Json → Option String
  | .str s => some s
  | _ => none

def bool : Json → Option Bool
  | .bool b => some b
  | _ => none

/-- A double is kept as its token: what the reader of a text rounds it to is left aside. -/
def float : Json → Option Json.Numeral
  | .num n => some n
  | _ => none

def nat64 : Json → Option ℕ
  | .num n => n.toNat?.filter (· < 2 ^ 64)
  | _ => none

def u64 (j : Json) : Option UInt64 := (nat64 j).map UInt64.ofNat

def i64 : Json → Option Int64
  | .num n => (n.toInt?.filter fun i => -2 ^ 63 ≤ i ∧ i < 2 ^ 63).map Int64.ofInt
  | _ => none

def ofNat (n : ℕ) : Json := .num (Json.Numeral.ofNat n)

def ofU64 (n : UInt64) : Json := ofNat n.toNat

def ofI64 (n : Int64) : Json := .num (Json.Numeral.ofInt n.toInt)

/-- `null` is the missing value. -/
def option {α : Type*} (read : Json → Option α) : Json → Option (Option α)
  | .null => some none
  | j => (read j).map some

def ofOption {α : Type*} (write : α → Json) : Option α → Json
  | none => .null
  | some a => write a

def items {α : Type*} (read : Json → Option α) : List Json → Option (List α)
  | [] => some []
  | v :: vs => (read v).bind fun a => (items read vs).map (a :: ·)

def list {α : Type*} (read : Json → Option α) : Json → Option (List α)
  | .arr vs => items read vs
  | _ => none

/-- A field that must be there. -/
def required {α : Type*} (read : Json → Option α) (field : Option Json) : Option α :=
  field.bind read

/-- A field of optional type may be left out. -/
def maybe {α : Type*} (read : Json → Option α) : Option Json → Option (Option α)
  | none => some none
  | some j => option read j

/-- A field of any value: `null` is no value. -/
def nonNull : Option Json → Option Json
  | some .null => none
  | o => o

/-- One field of an object: `none` when it stands there twice. -/
def field (fs : List (String × Json)) (name : String) : Option (Option Json) :=
  match fs.filter fun f => f.1 = name with
  | [] => some none
  | [f] => some (some f.2)
  | _ => none

/-- The fields of a struct in declaration order; unknown members are skipped. -/
def fields (names : List String) : Json → Option (List (Option Json))
  | .obj fs => names.mapM (field fs)
  | .arr vs => if vs.length = names.length then some (vs.map some) else none
  | _ => none

/-- A variant is spelt by its name or by its position. -/
def variant (names : List String) : Json → Option String
  | .str s => if s ∈ names then some s else none
  | .num n => n.toNat?.bind (names[·]?)
  | _ => none

/-- Split an internally tagged value into its variant and the rest. -/
def tagged (tag : String) (names : List String) : Json → Option (String × Json)
  | .obj fs =>
    (field fs tag).bind fun t =>
      (t.bind (variant names)).map fun v => (v, .obj (fs.filter fun f => f.1 ≠ tag))
  | .arr (t :: vs) => (variant names t).map fun v => (v, .arr vs)
  | _ => none

/-- A member of an object as a value keeps it: a repeated name overwrites. -/
def get (name : String) : Json → Option Json
  | .obj fs => (fs.filter fun f => f.1 = name).getLast?.map Prod.snd
  | _ => none

def array : Json → Option (List Json)
  | .arr vs => some vs
  | _ => none

/-- The text of a member that is there and a text. -/
def getString (name : String) (j : Json) : Option String := (get name j).bind string

/-- The number of a member that is there and fits. -/
def getU64 (name : String) (j : Json) : Option ℕ := (get name j).bind nat64

theorem getU64_lt {name : String} {v : Json} {n : ℕ} (h : getU64 name v = some n) :
    n < 2 ^ 64 := by
  obtain ⟨j, -, hj⟩ := Option.bind_eq_some_iff.mp h
  cases j with
  | num m => simpa using (Option.filter_eq_some_iff.mp hj).2
  | _ => cases hj

@[simp] theorem nat64_ofNat {n : ℕ} (h : n < 2 ^ 64) : nat64 (ofNat n) = some n := by
  simpa [nat64, ofNat] using h

theorem nat64_ofNat_eq {n m : ℕ} (h : nat64 (ofNat n) = some m) : m = n := by
  have h' : (Json.Numeral.ofNat n).toNat?.filter (· < 2 ^ 64) = some m := h
  rw [Json.Numeral.toNat?_ofNat] at h'
  exact (Option.some.inj (Option.filter_eq_some_iff.mp h').1).symm

@[simp] theorem u64_ofU64 (n : UInt64) : u64 (ofU64 n) = some n := by
  rw [u64, ofU64, nat64_ofNat n.toNat_lt]
  simp

theorem i64_ofInt (n : ℤ) : i64 (.num (Json.Numeral.ofInt n)) =
    if -2 ^ 63 ≤ n ∧ n < 2 ^ 63 then some (Int64.ofInt n) else none := by
  simp only [i64, Json.Numeral.toInt?_ofInt, Option.filter_some, decide_eq_true_eq]
  split_ifs <;> rfl

@[simp] theorem i64_ofI64 (n : Int64) : i64 (ofI64 n) = some n := by
  rw [ofI64, i64_ofInt, if_pos ⟨n.le_toInt, n.toInt_lt⟩, Int64.ofInt_toInt]

@[simp] theorem string_str (s : String) : string (.str s) = some s := rfl

@[simp] theorem bool_bool (b : Bool) : bool (.bool b) = some b := rfl

theorem maybe_some (o : Option Json) : maybe some o = some (nonNull o) := by
  cases o with
  | none => rfl
  | some j => cases j <;> rfl

/-- The fields of an object without repeated names. -/
theorem exists_field {fs : List (String × Json)} (h : (fs.map Prod.fst).Nodup) (name : String) :
    ∃ o, field fs name = some o ∧ ∀ j, (name, j) ∈ fs ↔ o = some j := by
  have hmem (j : Json) : (name, j) ∈ fs ↔ (name, j) ∈ fs.filter fun f => f.1 = name := by
    simp
  have hnodup : ((fs.filter fun f => f.1 = name).map Prod.fst).Nodup :=
    (List.filter_sublist.map Prod.fst).nodup h
  have hname : ∀ f ∈ fs.filter fun f => f.1 = name, f.1 = name := by
    intro f hf
    exact of_decide_eq_true (List.mem_filter.mp hf).2
  unfold field
  generalize fs.filter (fun f => f.1 = name) = found at hmem hnodup hname
  match found with
  | [] => exact ⟨none, rfl, fun j => by simp [hmem]⟩
  | [(k, v)] =>
    obtain rfl : k = name := hname (k, v) List.mem_cons_self
    exact ⟨some v, rfl, fun j => by simp [hmem, eq_comm]⟩
  | (k, v) :: (k', v') :: _ =>
    obtain rfl : k = name := hname (k, v) List.mem_cons_self
    obtain rfl : k' = k := hname (k', v') (List.mem_cons_of_mem _ List.mem_cons_self)
    simp at hnodup

/-- An optional value is read back when no value of its type is written as `null`. -/
theorem option_ofOption {α : Type*} {read : Json → Option α} {write : α → Json} {o : Option α}
    (h : ∀ a ∈ o, read (write a) = some a ∧ write a ≠ .null) :
    option read (ofOption write o) = some o := by
  cases o with
  | none => rfl
  | some a =>
    obtain ⟨hread, hnull⟩ := h a rfl
    rw [ofOption, option]
    · rw [hread]
      rfl
    · exact hnull

/-- What is read back as it was had a text of its own. -/
theorem option_ofOption_inv {α : Type*} {read : Json → Option α} {write : α → Json} {a : α}
    (h : option read (ofOption write (some a)) = some (some a)) :
    read (write a) = some a ∧ write a ≠ .null := by
  have hnull : write a ≠ .null := by
    intro hnull
    rw [ofOption, hnull] at h
    cases h
  refine ⟨?_, hnull⟩
  rw [ofOption, option] at h
  · obtain ⟨b, hb, hab⟩ := Option.map_eq_some_iff.mp h
    rw [hb, Option.some.inj hab]
  · exact hnull

theorem items_map {α : Type*} {read : Json → Option α} {write : α → Json} {xs : List α}
    (h : ∀ a ∈ xs, read (write a) = some a) : items read (xs.map write) = some xs := by
  induction xs with
  | nil => rfl
  | cons x xs ih =>
    obtain ⟨hx, hxs⟩ := List.forall_mem_cons.mp h
    simp [items, hx, ih hxs]

theorem list_map {α : Type*} {read : Json → Option α} {write : α → Json} (xs : List α)
    (h : ∀ a ∈ xs, read (write a) = some a) : list read (.arr (xs.map write)) = some xs :=
  items_map h

theorem fromStr_render {j : Json} (hd : j.depth ≤ maxDepth) (hf : j.finite = true) :
    fromStr j.render = some j := by
  simp [fromStr, Json.parse_render, hd, hf]

theorem fromStr_eq_none {cs : List Char} (h : Json.parse cs = none) : fromStr cs = none := by
  simp [fromStr, h]

theorem depth_ofNat (n : ℕ) : (ofNat n).depth = 0 := rfl

theorem depth_ofU64 (n : UInt64) : (ofU64 n).depth = 0 := rfl

theorem depth_ofOption_le {α : Type*} {write : α → Json} {o : Option α} {d : ℕ}
    (h : ∀ a ∈ o, (write a).depth ≤ d) : (ofOption write o).depth ≤ d := by
  cases o with
  | none => exact Nat.zero_le d
  | some a => exact h a rfl

theorem finite_ofOption {α : Type*} {write : α → Json} {o : Option α}
    (h : ∀ a ∈ o, (write a).finite = true) : (ofOption write o).finite = true := by
  cases o with
  | none => rfl
  | some a => exact h a rfl

theorem finite_ofNat {n : ℕ} (h : n < 2 ^ 64) : (ofNat n).finite = true :=
  Json.Numeral.finite_ofNat h

theorem finite_ofU64 (n : UInt64) : (ofU64 n).finite = true := finite_ofNat n.toNat_lt

end Serde
