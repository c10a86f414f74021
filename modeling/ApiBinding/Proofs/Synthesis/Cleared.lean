import ApiBinding.Proofs.Schema.Cleared
import ApiBinding.Proofs.Synthesis.Termination

/-! The types of schemas with their parameter lists cleared: each step does what it does on the
schema itself. -/

namespace ApiBinding.Synthesis

open Value ApiBinding.Schema

variable {scope : Scope} {typing : Typing}

/-- A typing that looks into no parameter list. -/
def Typing.Overlooks (typing : Typing) : Prop :=
  ∀ node : Value, typing node.cleared = typing node

/-! ## Properties -/

section

variable (h : typing.Overlooks)
include h

theorem typing_cleared_object (schema : Mapping) :
    typing (.object (clearedEntries schema)) = typing (.object schema) :=
  h (.object schema)

theorem membersWith_cleared (requirement : Requirement) (properties : Mapping) :
    membersWith typing requirement (clearedEntries properties) =
      membersWith typing requirement properties := by
  induction properties with
  | nil => rfl
  | cons entry rest ih =>
      obtain ⟨name, value⟩ := entry
      cases value with
      | object property =>
          simp only [clearedEntries, clearedUnder_object, membersWith, isTyped_cleared, ih,
            typing_cleared_object h, isRequired_cleared, description?_cleared]
      | _ => simp only [clearedEntries, clearedUnder, membersWith, ih]

theorem fieldOf_cleared (requirement : Requirement) (name : Key) (property : Mapping) :
    fieldOf typing requirement name (clearedEntries property) =
      fieldOf typing requirement name property := by
  simp only [fieldOf, printed, typing_cleared_object h, isRequired_cleared, description?_cleared,
    format?_cleared]

theorem fieldsWith_cleared (owner : String) (requirement : Requirement) (properties : Mapping) :
    fieldsWith typing owner requirement (clearedEntries properties) =
      fieldsWith typing owner requirement properties := by
  induction properties with
  | nil => rfl
  | cons entry rest ih =>
      obtain ⟨name, value⟩ := entry
      cases value with
      | object property =>
          simp only [clearedEntries, clearedUnder_object, fieldsWith, isTyped_cleared, ih,
            fieldOf_cleared h]
      | _ => simp only [clearedEntries, clearedUnder, fieldsWith, ih]

end

/-! ## Types -/

theorem shapeType_cleared (h : typing.Overlooks) (found : Shape) :
    shapeType scope typing found.cleared = shapeType scope typing found := by
  cases found with
  | reference target => cases target <;> rfl
  | array items => simp only [Shape.cleared, shapeType, h items]
  | object properties requirement =>
      simp only [Shape.cleared, shapeType, membersWith_cleared h]
  | _ => rfl

theorem typeStep_cleared (h : typing.Overlooks) (node : Value) :
    typeStep scope typing node.cleared = typeStep scope typing node := by
  cases node with
  | object schema =>
      simp only [cleared_object, typeStep, shape_cleared]
      cases shape schema with
      | error failure => rfl
      | ok found => exact shapeType_cleared h found
  | _ => rfl

theorem typeWithin_overlooks (scope : Scope) (depth : Nat) :
    (typeWithin scope depth).Overlooks := by
  induction depth with
  | zero => exact fun _ => rfl
  | succ depth ih => exact typeStep_cleared ih

/-- A smaller node has a smaller bound, and the larger one does as well. -/
theorem typeOf_overlooks (scope : Scope) : Typing.Overlooks (typeOf scope) := by
  intro node
  funext session
  have enough := depthBound_cleared_le scope.table node
  calc outcome (typeOf scope node.cleared) session
      = outcome (typeWithin scope (depthBound scope.table node) node.cleared) session :=
        ((Request.type node.cleared).performWithin_eq scope session enough).symm
    _ = outcome (typeOf scope node) session := by
        rw [typeWithin_overlooks scope _ node]
        rfl

theorem printedType_cleared (scope : Scope) (node : Value) :
    printedType scope node.cleared = printedType scope node := by
  simp only [printedType, printed, typeOf_overlooks scope node]

/-! ## Records -/

theorem lift_bind_of_map {α β γ : Type} {f : α → β} {result result' : Except Failure α}
    {next next' : α → Synthesis γ} (same : result.map f = result'.map f)
    (h : ∀ value value', f value = f value' → next value = next' value') :
    lift result >>= next = lift result' >>= next' := by
  rcases map_eq_map_cases same with ⟨failure, rfl, rfl⟩ | ⟨value, value', rfl, rfl, alike⟩
  · rfl
  · exact h value value' alike

/-- Properties that differ in parameter lists at most have the same fields. -/
theorem fieldsWith_of_cleared (h : typing.Overlooks) (owner : String) {flat flat' : Flattened}
    (alike : flat.cleared = flat'.cleared) :
    fieldsWith typing owner flat.requirement flat.properties =
      fieldsWith typing owner flat'.requirement flat'.properties := by
  have properties : clearedEntries flat.properties = clearedEntries flat'.properties :=
    congrArg Flattened.properties alike
  have requirement : flat.requirement = flat'.requirement :=
    (congrArg Flattened.requirement alike :)
  rw [← fieldsWith_cleared h, properties, requirement, fieldsWith_cleared h]

theorem declareWith_cleared (h : typing.Overlooks) (name : String) (schema : Mapping) :
    declareWith scope typing name (clearedEntries schema) =
      declareWith scope typing name schema := by
  unfold declareWith
  rw [text?_field_cleared schema _ (by decide)]
  refine bind_congr fun free => ?_
  split
  · refine lift_bind_of_map (flatten_cleared schema) fun flat flat' alike => ?_
    rw [fieldsWith_of_cleared h name alike]
  · rfl

theorem declareRecord_cleared (scope : Scope) (name : String) (schema : Mapping) :
    declareRecord scope name (clearedEntries schema) = declareRecord scope name schema := by
  funext session
  have enough := depthBound_cleared_le scope.table (.object schema)
  calc outcome (declareRecord scope name (clearedEntries schema)) session
      = outcome (declareWith scope (typeWithin scope (depthBound scope.table (.object schema)))
          name (clearedEntries schema)) session :=
        ((Request.declare name (clearedEntries schema)).performWithin_eq scope session enough).symm
    _ = outcome (declareRecord scope name schema) session := by
        rw [declareWith_cleared (typeWithin_overlooks scope _)]
        rfl

end ApiBinding.Synthesis
