import Guigu.Library.Serde

/-! Which values come back from the JSON that they are written as. -/
namespace Serde

variable {α : Type*} {read : Json → Option α} {write : α → Json}

theorem items_map_iff {xs : List α} :
    items read (xs.map write) = some xs ↔ ∀ a ∈ xs, read (write a) = some a := by
  induction xs with
  | nil => simp [items]
  | cons x xs ih =>
    rw [List.forall_mem_cons, ← ih, List.map_cons, items]
    cases hx : read (write x) with
    | none => simp
    | some a =>
      cases hxs : items read (xs.map write) with
      | none => simp
      | some as => simp

@[simp] theorem list_map_iff {xs : List α} :
    list read (.arr (xs.map write)) = some xs ↔ ∀ a ∈ xs, read (write a) = some a := items_map_iff

theorem option_ofOption_iff {o : Option α} :
    option read (ofOption write o) = some o ↔
      ∀ a ∈ o, read (write a) = some a ∧ write a ≠ .null := by
  constructor
  · intro h a ha
    obtain rfl := Option.mem_def.mp ha
    exact option_ofOption_inv h
  · exact option_ofOption

/-- A value of an enumeration that is tagged from outside, if its variant has fields: an object with
the variant for its only name. -/
def variantOf (names : List String) : Json → Option (String × Json)
  | .obj [(name, j)] => if name ∈ names then some (name, j) else none
  | _ => none

/-- The rest of a variant without fields may be an object of any kind. -/
def unit : Json → Option Unit
  | .obj _ => some ()
  | .arr [] => some ()
  | _ => none

/-- The variant of an enumeration that is tagged from outside and has no fields. -/
def unitVariantOf (names : List String) : Json → Option String
  | .str name | .obj [(name, .null)] | .obj [(name, .obj [])] =>
    if name ∈ names then some name else none
  | _ => none

/-- Some value: `null` is one too. -/
def value (j : Json) : Option Json := some j

/-- A variant with one field. -/
def oneField (name : String) (read : Json → Option α) (j : Json) : Option α :=
  (fields [name] j).bind fun
    | [a] => required read a
    | _ => none

/-- A variant with two fields. -/
def twoFields {β : Type*} (name : String) (read : Json → Option α) (name' : String)
    (read' : Json → Option β) (j : Json) : Option (α × β) :=
  (fields [name, name'] j).bind fun
    | [a, b] => (required read a).bind fun a => (required read' b).map fun b => (a, b)
    | _ => none

/-- The value is not too large to be read. -/
def Fits (j : Json) : Prop := j.depth ≤ maxDepth ∧ j.finite = true

instance (j : Json) : Decidable (Fits j) := inferInstanceAs (Decidable (_ ∧ _))

/-- A text is read as the value that was written, if that is not too large. -/
theorem fromStr_render_eq (j : Json) : fromStr j.render = if Fits j then some j else none := by
  rw [fromStr, Json.parse_render, Option.filter_some]
  by_cases h : Fits j
  · rw [if_pos h, if_pos (by simpa [Fits] using h)]
  · rw [if_neg h, if_neg (by simpa [Fits] using h)]

end Serde
