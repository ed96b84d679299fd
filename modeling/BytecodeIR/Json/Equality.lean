import BytecodeIR.Json.Value
/-!
Deciding whether two JSON values are equal.

The order of members counts: two objects with the same members in another order are different
values, as their texts are.
-/

namespace BytecodeIR.Json

mutual

/-- Whether two values are the same. -/
def same : Json → Json → Bool
  | .null, .null => true
  | .bool b, .bool c => b == c
  | .number m, .number n => m == n
  | .string s, .string t => s == t
  | .array js, .array is => sameItems js is
  | .object ms, .object ns => sameMembers ms ns
  | _, _ => false

/-- Whether two lists have the same items. -/
def sameItems : List Json → List Json → Bool
  | [], [] => true
  | j :: js, i :: is => j.same i && sameItems js is
  | _, _ => false

/-- Whether two lists have the same members. -/
def sameMembers : List (String × Json) → List (String × Json) → Bool
  | [], [] => true
  | (name, j) :: ms, (other, i) :: ns => name == other && j.same i && sameMembers ms ns
  | _, _ => false

end

mutual

theorem same_iff : ∀ j i : Json, j.same i = true ↔ j = i
  | .null, i => by cases i <;> simp [same]
  | .bool b, i => by cases i <;> simp [same]
  | .number n, i => by cases i <;> simp [same]
  | .string s, i => by cases i <;> simp [same]
  | .array js, i => by cases i <;> simp [same, sameItems_iff js]
  | .object ms, i => by cases i <;> simp [same, sameMembers_iff ms]

theorem sameItems_iff : ∀ js is : List Json, sameItems js is = true ↔ js = is
  | [], is => by cases is <;> simp [sameItems]
  | j :: js, is => by cases is <;> simp [sameItems, same_iff j, sameItems_iff js]

theorem sameMembers_iff : ∀ ms ns : List (String × Json), sameMembers ms ns = true ↔ ms = ns
  | [], ns => by cases ns <;> simp [sameMembers]
  | (name, j) :: ms, ns => by
    cases ns <;> simp [sameMembers, same_iff j, sameMembers_iff ms, Prod.ext_iff]

end

instance : DecidableEq Json := fun j i => decidable_of_iff _ (same_iff j i)

end BytecodeIR.Json
