import TsProject.Number.Binary64

/-!
# Data values

The values of the data format: null, truth values, whole numbers of any size, floating-point
numbers, texts, lists and objects. The members of an object keep their order, and no key occurs
twice: `Fields.set` replaces the value of a key where it stands and appends a new key.
-/

namespace TsProject

/-- A data value. -/
inductive Json where
  | null
  | bool (b : Bool)
  | int (n : Int)
  | real (x : Binary64)
  | str (s : String)
  | arr (items : List Json)
  | obj (members : List (String × Json))
  deriving Inhabited, BEq

/-- The members of an object, in order. -/
abbrev Fields := List (String × Json)

namespace Fields

/-- The value of a key. -/
def get? (key : String) : Fields → Option Json
  | [] => none
  | (k, v) :: rest => if k = key then some v else get? key rest

/-- The fields with `value` under `key`, in place when the key occurs and at the end otherwise. -/
def set (key : String) (value : Json) : Fields → Fields
  | [] => [(key, value)]
  | (k, v) :: rest => if k = key then (k, value) :: rest else (k, v) :: set key value rest

/-- The keys, in order. -/
def keys (fields : Fields) : List String := fields.map (·.1)

/-- The key occurs. -/
def has (key : String) (fields : Fields) : Bool := (fields.get? key).isSome

/-- `base` with the value of every key of `top` put on top, one key after the other. -/
def update (base top : Fields) : Fields := top.foldl (fun fs kv => fs.set kv.1 kv.2) base

/-- The fields that a list of members amounts to: a repeated key keeps its first place and its
last value. -/
def ofMembers (members : Fields) : Fields := update [] members

@[simp] theorem get?_nil (key : String) : get? key [] = none := rfl

/-- **The value just set** is found under its key, and every other key keeps its own. -/
theorem get?_set (fields : Fields) (key other : String) (value : Json) :
    (fields.set key value).get? other = if other = key then some value else fields.get? other := by
  induction fields with
  | nil => simp [set, get?, eq_comm]
  | cons kv rest ih =>
    obtain ⟨k, v⟩ := kv
    by_cases hk : k = key
    · subst hk; by_cases ho : other = k <;> simp_all [set, get?, eq_comm]
    · by_cases ho : k = other
      · subst ho; simp [set, get?, hk]
      · simp [set, get?, hk, ho, ih]

end Fields

namespace Json

/-- The text of a text value. -/
def text? : Json → Option String
  | .str s => some s
  | _ => none

/-- The value counts as set: it is neither null nor false, nor zero, nor empty. -/
def isTruthy : Json → Bool
  | .null => false
  | .bool b => b
  | .int n => n != 0
  | .real x => !x.isZero
  | .str s => s != ""
  | .arr items => !items.isEmpty
  | .obj members => !members.isEmpty

end Json

end TsProject
