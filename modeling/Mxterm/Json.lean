import Mathlib.Algebra.Order.Ring.Nat
import Mathlib.Data.Rat.Defs

/-! JSON values, as the code reads and builds them (`serde_json::Value`). -/
namespace Mxterm

inductive Json
  | null
  | bool (value : Bool)
  | number (value : ℚ)
  | text (value : String)
  | array (items : List Json)
  | object (fields : List (String × Json))

namespace Json

/-- `get` with a field name. -/
def get? (value : Json) (name : String) : Option Json :=
  match value with
  | .object fields => (fields.find? (·.1 = name)).map Prod.snd
  | _ => none

/-- `as_str`. -/
def text? : Json → Option String
  | .text value => some value
  | _ => none

/-- `as_u64`. -/
def u64? : Json → Option ℕ
  | .number value => if value.den = 1 ∧ 0 ≤ value.num ∧ value.num < 2 ^ 64 then some value.num.toNat else none
  | _ => none

/-- `as_array`. -/
def array? : Json → Option (List Json)
  | .array items => some items
  | _ => none

def isObject : Json → Bool
  | .object _ => true
  | _ => false

def isNull : Json → Bool
  | .null => true
  | _ => false

/-- `get(name).and_then(Value::as_str)`. -/
def getText? (value : Json) (name : String) : Option String := (value.get? name).bind text?

/-- The items of an array field, none where the field is missing or is no array. -/
def items (value : Json) (name : String) : List Json := ((value.get? name).bind array?).getD []

/-- `value[name] = …`. -/
def set (value : Json) (name : String) (new : Json) : Json :=
  match value with
  | .object fields =>
    if fields.any (·.1 = name) then
      .object (fields.map fun field => if field.1 = name then (name,new) else field)
    else .object (fields ++ [(name,new)])
  | other => other

theorem get?_set_self {fields : List (String × Json)} (name : String) (new : Json) :
    ((object fields).set name new).get? name = some new := by
  by_cases h : fields.any (·.1 = name)
  · induction fields with
    | nil => simp at h
    | cons field fields ih =>
      by_cases hf : field.1 = name
      · simp [set,get?,hf]
      · have hrest : fields.any (·.1 = name) = true := by simpa [hf] using h
        have hih := ih hrest
        simp only [set,hrest,if_true,get?] at hih
        simpa [set,h,get?,hf] using hih
  · have hnone : fields.find? (·.1 = name) = none := by
      rw [List.find?_eq_none]
      intro field hfield hname
      exact h (List.any_eq_true.mpr ⟨field,hfield,hname⟩)
    simp [set,h,get?,List.find?_append,hnone]

theorem find?_replace (fields : List (String × Json)) {name other : String} (hne : other ≠ name)
    (new : Json) :
    (fields.map fun field => if field.1 = name then (name,new) else field).find? (·.1 = other) =
      fields.find? (·.1 = other) := by
  induction fields with
  | nil => rfl
  | cons field fields ih =>
    by_cases hf : field.1 = name
    · simpa [hf,hne.symm] using ih
    · by_cases ho : field.1 = other
      · simp [ho,hne]
      · simpa [hf,ho] using ih

theorem get?_set_of_ne (value : Json) {name other : String} (hne : other ≠ name) (new : Json) :
    (value.set name new).get? other = value.get? other := by
  cases value with
  | object fields =>
    by_cases h : fields.any (·.1 = name)
    · simp only [set,h,if_true,get?,find?_replace fields hne]
    · simp [set,h,get?,List.find?_append,hne.symm]
  | _ => rfl

end Json
end Mxterm
