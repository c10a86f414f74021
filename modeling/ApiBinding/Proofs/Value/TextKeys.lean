import ApiBinding.Proofs.Value.Parts

/-! Values whose mappings have texts as keys, at any depth: what a document in plain object
notation is made of. -/

namespace ApiBinding

namespace Value

open Relation

mutual

/-- Whether every key in a value is a text. -/
def isTextKeyed : Value → Bool
  | .list items => areTextKeyed items
  | .object entries => haveTextKeys entries
  | _ => true

def areTextKeyed : List Value → Bool
  | [] => true
  | item :: rest => isTextKeyed item && areTextKeyed rest

def haveTextKeys : List (Key × Value) → Bool
  | [] => true
  | (.text _, value) :: rest => isTextKeyed value && haveTextKeys rest
  | _ :: _ => false

end

theorem isTextKeyed_list_iff {items : List Value} :
    (Value.list items).isTextKeyed = true ↔ ∀ item ∈ items, item.isTextKeyed = true := by
  rw [isTextKeyed]
  induction items with
  | nil => simp [areTextKeyed]
  | cons item rest ih => simp [areTextKeyed, ih]

theorem isTextKeyed_object_iff {m : Mapping} :
    (Value.object m).isTextKeyed = true ↔
      ∀ entry ∈ m, (∃ name, entry.1 = .text name) ∧ entry.2.isTextKeyed = true := by
  rw [isTextKeyed]
  induction m with
  | nil => simp [haveTextKeys]
  | cons entry rest ih =>
      obtain ⟨key, value⟩ := entry
      cases key <;> simp [haveTextKeys, ih]

/-- What is written in a value has texts as keys, too. -/
theorem isTextKeyed_of_holds {value part : Value} (h : Holds value part)
    (texts : value.isTextKeyed = true) : part.isTextKeyed = true := by
  cases h with
  | item member => exact isTextKeyed_list_iff.mp texts _ member
  | entry member => exact (isTextKeyed_object_iff.mp texts _ member).2

theorem isTextKeyed_of_contains {value part : Value} (h : ReflTransGen Holds value part)
    (texts : value.isTextKeyed = true) : part.isTextKeyed = true := by
  induction h with
  | refl => exact texts
  | tail _ held ih => exact isTextKeyed_of_holds held ih

theorem isTextKeyed_field {m : Mapping} (texts : (Value.object m).isTextKeyed = true)
    (name : String) : (m.field name).isTextKeyed = true := by
  by_cases missing : m.field name = .null
  · rw [missing]
    rfl
  · exact isTextKeyed_of_holds (holds_field rfl missing) texts

/-- A text-keyed value may be put under a name. -/
theorem isTextKeyed_insert {m : Mapping} (texts : (Value.object m).isTextKeyed = true)
    (name : String) {value : Value} (hvalue : value.isTextKeyed = true) :
    (Value.object (m.insert (.text name) value)).isTextKeyed = true := by
  rw [isTextKeyed] at texts ⊢
  induction m with
  | nil => simp [Mapping.insert, haveTextKeys, hvalue]
  | cons entry rest ih =>
      obtain ⟨key, old⟩ := entry
      cases key with
      | text own =>
          obtain ⟨hold, hrest⟩ := Bool.and_eq_true_iff.mp texts
          rw [Mapping.insert]
          split
          · simp [haveTextKeys, hvalue, hrest]
          · simp [haveTextKeys, hold, ih hrest]
      | _ => simp [haveTextKeys] at texts

end Value

end ApiBinding
