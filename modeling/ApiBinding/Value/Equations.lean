import ApiBinding.Value.Basic

/-! Computation rules for keys and ordered mappings. -/

namespace ApiBinding

namespace Key

@[simp] theorem same_text (a b : String) : (Key.text a).same (.text b) = (a == b) := by
  rw [Bool.eq_iff_iff]
  simp [same, canonical]

@[simp] theorem ofValue?_toValue (key : Key) : ofValue? key.toValue = some key := by
  cases key <;> rfl

end Key

namespace Mapping

@[simp] theorem find?_nil (name : String) : find? [] name = none := rfl

theorem find?_cons (key : Key) (value : Value) (m : Mapping) (name : String) :
    find? ((key, value) :: m) name = if key.same (.text name) then some value else find? m name :=
  rfl

/-- The value put under a name is found under it. -/
@[simp] theorem find?_insert_self (m : Mapping) (name : String) (value : Value) :
    find? (m.insert (.text name) value) name = some value := by
  induction m with
  | nil => simp [insert, find?_cons]
  | cons entry rest ih =>
    obtain ⟨key, old⟩ := entry
    by_cases h : key.same (.text name) <;> simp [insert, find?_cons, h, ih]

/-- Putting a value under a name changes nothing under the other names. -/
theorem find?_insert_of_ne (m : Mapping) {name other : String} (value : Value)
    (h : name ≠ other) : find? (m.insert (.text name) value) other = find? m other := by
  induction m with
  | nil => simp [insert, find?_cons, h]
  | cons entry rest ih =>
    obtain ⟨key, old⟩ := entry
    by_cases hk : key.same (.text name)
    · have hko : key.same (.text other) = false := by
        cases key with
        | text own => simp_all
        | float number => cases hn : number.toInt? <;> simp_all [Key.same, Key.canonical]
        | _ => simp_all [Key.same, Key.canonical]
      simp [insert, find?_cons, hk, hko]
    · simp [insert, find?_cons, hk, ih]

theorem find?_append (m added : Mapping) (name : String) :
    find? (m ++ added) name = (find? m name).or (find? added name) := by
  induction m with
  | nil => rfl
  | cons entry rest ih =>
    obtain ⟨key, value⟩ := entry
    by_cases h : key.same (.text name) <;> simp [find?_cons, h, ih]

end Mapping

end ApiBinding
